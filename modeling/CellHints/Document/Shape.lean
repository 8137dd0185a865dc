import CellHints.Document.Reader
import CellHints.Narrow

/-!
# Shapes of documents

How values of this library appear as documents.  A structure is an object with a
member for each field, or an array of the fields in order; members that it does
not know are passed over, and none may come twice.  A choice is an object with
one member, named for the alternative; an alternative without content is also
its bare name.  Readers are told how many more arrays and objects they may open.
-/

namespace CellHints.Document

/-- How many arrays and objects may be open at once. -/
def maxDepth : Nat := 127

/-- The value that a whole text stands for, by a reader of documents. -/
def readAs {α : Type} (reader : Nat → Document → Option α) (s : String) : Option α := do
  reader maxDepth (← read s)

def text? : Document → Option String
  | text body => spoken? body
  | _ => none

def integer? : Document → Option Int
  | integer z => some z
  | _ => none

/-- The signed 16-bit word that a document is. -/
def int16? (d : Document) : Option Int16 := do Narrow.toInt16? (← d.integer?)

def natural? (d : Document) : Option Nat := do
  let z ← d.integer?
  if 0 ≤ z then return z.toNat else none

/-- The unsigned 32-bit word that a document is. -/
def uint32? (d : Document) : Option UInt32 := do Narrow.toUInt32? (← d.natural?)

/-- The unsigned 64-bit word that a document is. -/
def uint64? (d : Document) : Option UInt64 := do Narrow.toUInt64? (← d.natural?)

/-- The items of an array, each by a reader. -/
def list? {α : Type} (reader : Nat → Document → Option α) : Nat → Document → Option (List α)
  | depth + 1, array items => items.mapM (reader depth)
  | _, _ => none

/-- The members of an object in order, by a reader of keys and one of values. -/
def members? {κ α : Type} (key : List Char → Option κ) (reader : Nat → Document → Option α) :
    Nat → Document → Option (List (κ × α))
  | depth + 1, object members => members.mapM fun m => do return (← key m.1, ← reader depth m.2)
  | _, _ => none

/-- The only value under a name, if there is one; a second one is refused. -/
def single? (name : String) (members : List (String × Document)) : Option (Option Document) :=
  match members.filter (·.1 = name) with
  | [] => some none
  | [(_, d)] => some (some d)
  | _ => none

/-- The fields of a structure in the order of their names; `none` stands for a missing one. -/
def fields? (names : List String) : Document → Option (List (Option Document))
  | object members => do
      let members ← members.mapM fun m => do return (← spoken? m.1, m.2)
      names.mapM fun name => single? name members
  | array items =>
      if items.length ≤ names.length then
        some (items.map some ++ List.replicate (names.length - items.length) none)
      else none
  | _ => none

/-- The alternative of a choice and its content, if it has one. -/
def choice? : Document → Option (String × Option Document)
  | text body => do return (← spoken? body, none)
  | object [(key, d)] => do return (← spoken? key, some d)
  | _ => none

/-- The alternative of a choice where none has content. -/
def bareChoice? (depth : Nat) (d : Document) : Option String :=
  match d.choice? with
  | some (name, none) => some name
  | some (name, some null) => if depth = 0 then none else some name
  | _ => none

def ofFields (fields : List (String × Document)) : Document :=
  .object (fields.map fun field => (spell field.1, field.2))

/-- An alternative with its content. -/
def ofChoice (name : String) (content : Document) : Document := ofFields [(name, content)]

def ofNat (n : Nat) : Document := .integer n

end CellHints.Document
