import CellHints.Reference.Basic

/-!
# Reference trees

The shape of reference text, one type for each kind of phrase:

    tree    := '[' cast ']' | cast
    cast    := 'cast' '(' chain ',' type ')'
    type    := name ('.' name)* and up to two '*'
    chain   := term (('+' | '-') term)*
    term    := factor '*' factor | factor
    factor  := '[' deref ('+' | '-') literal ']' | '[' deref ']' | deref
             | '(' register ('+' | '-') literal ')' | register | literal
    deref   := '[' place ']'
    place   := register ('+' | '-') literal | register
    literal := number | '(' '-' number ')'

No phrase contains itself: a tree is as deep as this list and NOT deeper.
-/

namespace CellHints

namespace Tree

/-- The sign in front of a summand. -/
inductive Sign
  | plus
  | minus
deriving DecidableEq

/-- An integer literal: `n`, or `(-n)`. -/
inductive Literal
  | plain (n : Nat)
  | negated (n : Nat)
deriving DecidableEq

/-- The integer that a literal spells. -/
def Literal.value : Literal → Int
  | plain n => n
  | negated n => -n

/-- A register, alone or with a distance. -/
inductive Place
  | bare (r : Register)
  | shifted (r : Register) (sign : Sign) (n : Literal)
deriving DecidableEq

inductive Factor
  /-- The content of the cell that the pointer at a place leads to. -/
  | doubleDeref (p : Place)
  /-- The same with a distance from the pointer. -/
  | doubleDerefShifted (p : Place) (sign : Sign) (n : Literal)
  /-- The content of the cell at a place. -/
  | deref (p : Place)
  | place (p : Place)
  | integer (n : Literal)
deriving DecidableEq

inductive Term
  | product (lhs rhs : Factor)
  | factor (f : Factor)
deriving DecidableEq

/-- A sum: its first term, and the others with their signs. -/
structure Chain where
  first : Term
  others : List (Sign × Term)
deriving DecidableEq

/-- A dotted name with pointer marks. -/
structure TypeName where
  head : String
  tail : List String
  pointers : Nat
deriving DecidableEq

namespace TypeName

def path (t : TypeName) : List String := t.head :: t.tail

def isPointer (t : TypeName) : Bool := 0 < t.pointers

/-- A type in reference text. -/
def text (t : TypeName) : String :=
  ".".intercalate t.path ++ String.ofList (List.replicate t.pointers '*')

end TypeName

/-- A sum and the type it is read at. -/
structure Cast where
  value : Chain
  type : TypeName
deriving DecidableEq

end Tree

/-- The shape of a whole reference text. -/
inductive Tree
  /-- A cast in brackets: the cell that it points to. -/
  | bracketed (c : Tree.Cast)
  /-- A cast on its own. -/
  | plain (c : Tree.Cast)
deriving DecidableEq

/-- The cast of a tree, bracketed or not. -/
def Tree.cast : Tree → Tree.Cast
  | bracketed c => c
  | plain c => c

end CellHints
