import CellHints.Reference.Expectation
import CellHints.Reference.Tree

/-!
# The grammar of reference text

Which rows of tokens spell which trees, said without any order among the
alternatives and without reading from left to right.  Each token stands in the
role that its phrase gives it: the word `cast` is a keyword in one place and the
name of a type in another.  The relations speak about whole phrases and do NOT
say how a phrase is found.
-/

namespace CellHints

/-- A token in the role that it plays in a phrase. -/
structure Lexeme where
  role : Expectation
  token : Token
deriving DecidableEq

namespace Lexeme

def openBracket : Lexeme := ⟨.openBracket, .openBracket⟩

def closeBracket : Lexeme := ⟨.closeBracket, .closeBracket⟩

def openParen : Lexeme := ⟨.openParen, .openParen⟩

def closeParen : Lexeme := ⟨.closeParen, .closeParen⟩

def comma : Lexeme := ⟨.comma, .comma⟩

def dot : Lexeme := ⟨.dot, .dot⟩

def star : Lexeme := ⟨.star, .star⟩

/-- The mark `-` in front of a negative literal. -/
def minus : Lexeme := ⟨.minus, .minus⟩

def castWord : Lexeme := ⟨.castWord, .ident "cast"⟩

def typeName (s : String) : Lexeme := ⟨.typeName, .ident s⟩

def register (r : Register) : Lexeme := ⟨.register, .ident r.name⟩

def number (digits : String) : Lexeme := ⟨.number, .number digits⟩

/-- A sign in front of a summand or a distance. -/
def sign : Tree.Sign → Lexeme
  | .plus => ⟨.sign, .plus⟩
  | .minus => ⟨.sign, .minus⟩

end Lexeme

namespace Tree

/-- The phrases that spell a literal: any digits of its value. -/
inductive Literal.Spells : List Lexeme → Literal → Prop
  | plain (ds : String) : Spells [.number ds] (.plain (Decimal.value ds.toList))
  | negated (ds : String) :
      Spells [.openParen, .minus, .number ds, .closeParen] (.negated (Decimal.value ds.toList))

/-- The phrases that spell a place between brackets. -/
inductive Place.Spells : List Lexeme → Place → Prop
  | bare (r : Register) : Spells [.register r] (.bare r)
  | shifted (r : Register) (s : Sign) {w : List Lexeme} {n : Literal} (hn : Literal.Spells w n) :
      Spells (.register r :: .sign s :: w) (.shifted r s n)

inductive Factor.Spells : List Lexeme → Factor → Prop
  | doubleDeref {w : List Lexeme} {p : Place} (hp : Place.Spells w p) :
      Spells ([.openBracket, .openBracket] ++ w ++ [.closeBracket, .closeBracket]) (.doubleDeref p)
  | doubleDerefShifted {w u : List Lexeme} {p : Place} {n : Literal} (s : Sign)
      (hp : Place.Spells w p) (hn : Literal.Spells u n) :
      Spells ([.openBracket, .openBracket] ++ w ++ [.closeBracket, .sign s] ++ u ++ [.closeBracket])
        (.doubleDerefShifted p s n)
  | deref {w : List Lexeme} {p : Place} (hp : Place.Spells w p) :
      Spells (.openBracket :: w ++ [.closeBracket]) (.deref p)
  | register (r : Register) : Spells [.register r] (.place (.bare r))
  | shiftedRegister {w : List Lexeme} {r : Register} {s : Sign} {n : Literal}
      (hp : Place.Spells w (.shifted r s n)) :
      Spells (.openParen :: w ++ [.closeParen]) (.place (.shifted r s n))
  | integer {w : List Lexeme} {n : Literal} (hn : Literal.Spells w n) : Spells w (.integer n)

inductive Term.Spells : List Lexeme → Term → Prop
  | product {w u : List Lexeme} {lhs rhs : Factor} (hl : Factor.Spells w lhs)
      (hr : Factor.Spells u rhs) : Spells (w ++ .star :: u) (.product lhs rhs)
  | factor {w : List Lexeme} {f : Factor} (hf : Factor.Spells w f) : Spells w (.factor f)

/-- The phrases that spell summands, each behind its sign. -/
inductive SpellSummands : List Lexeme → List (Sign × Term) → Prop
  | nil : SpellSummands [] []
  | cons {w u : List Lexeme} {t : Term} {rest : List (Sign × Term)} (s : Sign)
      (ht : Term.Spells w t) (hrest : SpellSummands u rest) :
      SpellSummands (.sign s :: w ++ u) ((s, t) :: rest)

inductive Chain.Spells : List Lexeme → Chain → Prop
  | mk {w u : List Lexeme} {first : Term} {others : List (Sign × Term)}
      (hfirst : Term.Spells w first) (hothers : SpellSummands u others) :
      Spells (w ++ u) ⟨first, others⟩

/-- The phrases that spell a type: a dotted name and up to two stars. -/
inductive TypeName.Spells : List Lexeme → TypeName → Prop
  | mk (head : String) (tail : List String) (pointers : Nat) (hle : pointers ≤ 2) :
      Spells (.typeName head :: tail.flatMap (fun s => [.dot, .typeName s]) ++
        List.replicate pointers .star) ⟨head, tail, pointers⟩

inductive Cast.Spells : List Lexeme → Cast → Prop
  | mk {w u : List Lexeme} {value : Chain} {type : TypeName} (hvalue : Chain.Spells w value)
      (htype : TypeName.Spells u type) :
      Spells ([.castWord, .openParen] ++ w ++ .comma :: u ++ [.closeParen]) ⟨value, type⟩

inductive Spells : List Lexeme → Tree → Prop
  | bracketed {w : List Lexeme} {c : Cast} (hc : Cast.Spells w c) :
      Spells (.openBracket :: w ++ [.closeBracket]) (.bracketed c)
  | plain {w : List Lexeme} {c : Cast} (hc : Cast.Spells w c) : Spells w (.plain c)

/-- Whether a row of tokens spells a tree, each token in some role. -/
def Derives (ts : List Token) (t : Tree) : Prop :=
  ∃ w, Spells w t ∧ w.map (·.token) = ts

/-- Whether a row of tokens can be completed to one that spells a tree. -/
def Viable (ts : List Token) : Prop := ∃ more t, Derives (ts ++ more) t

/-- Whether a token in this role can come next behind a row of tokens. -/
def CanFollow (ts : List Token) (role : Expectation) : Prop :=
  ∃ w token rest t, Spells (w ++ ⟨role, token⟩ :: rest) t ∧ w.map (·.token) = ts

end Tree

end CellHints
