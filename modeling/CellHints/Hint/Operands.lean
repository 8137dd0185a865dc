import CellHints.Fault

/-!
# Named operands

The operands of a hint by name.  A hint asks for a short name and finds the
operand of exactly that name, or else the only one whose name ends in a dot and
the short name.  The order in which operands came in plays no part.

Operands come in one by one, each with its reference or with a text that is read
when its turn comes.  A request that is refused changes nothing, and does NOT
take up its name.
-/

namespace CellHints

open Std (ExtTreeMap)

/-- The operands of a hint by full name. -/
abbrev Operands := ExtTreeMap String Reference

namespace Operands

/-- The operands with one more, whose name must be new. -/
def add (t : Operands) (name : String) (r : Reference) : Except Fault Operands :=
  if name ∈ t then .error (.duplicateOperand name) else .ok (t.insert name r)

/-- The operands with the reference of a text, which is read before its name is looked at. -/
def addText (t : Operands) (name text : String) : Except Fault Operands := do
  t.add name (← (Reference.ofText text).mapError .reference)

/-- Operands from names and texts, each added to those in front of it. -/
def ofTexts (entries : List (String × String)) : Except Fault Operands :=
  entries.foldlM (fun t entry => t.addText entry.1 entry.2) ∅

/-- Whether `full` ends in a dot and `name`. -/
def isShortFor (name full : String) : Bool := ('.' :: name.toList).isSuffixOf full.toList

/-- The operands that a name is short for, in the order of their full names. -/
def candidates (t : Operands) (name : String) : List (String × Reference) :=
  t.toList.filter fun entry => isShortFor name entry.1

/-- The operand that a name means. -/
def find (t : Operands) (name : String) : Except Fault Reference :=
  match t[name]? with
  | some r => .ok r
  | none =>
      match t.candidates name with
      | [] => .error (.unknownOperand name)
      | [(_, r)] => .ok r
      | several => .error (.ambiguousOperand name (several.map (·.1)))

/-- The operand that a name means, if it is more than a bare cell. -/
def findValue (t : Operands) (name : String) : Except Fault Reference := do
  let r ← t.find name
  if r.cell?.isSome then throw (.operandIsCell name) else return r

/-- The bare cell that a name means. -/
def findCell (t : Operands) (name : String) : Except Fault Cell := do
  match (← t.find name).cell? with
  | some c => return c
  | none => throw (.operandIsNoCell name)

/-! ### Requests -/

/-- A request to add an operand. -/
inductive Request
  | ofReference (name : String) (r : Reference)
  | ofText (name text : String)
deriving DecidableEq

namespace Request

def name : Request → String
  | ofReference name _ => name
  | ofText name _ => name

/-- The reference that a request comes with. -/
def reference : Request → Except Fault Reference
  | ofReference _ r => .ok r
  | ofText _ text => (Reference.ofText text).mapError .reference

/-- The operands with the one that a request is for. -/
def addTo (t : Operands) : Request → Except Fault Operands
  | ofReference name r => t.add name r
  | ofText name text => t.addText name text

/-- Whether a request is granted, and the operands behind it. -/
def act (q : Request) (t : Operands) : Except Fault Unit × Operands :=
  match q.addTo t with
  | .ok t => (.ok (), t)
  | .error e => (.error e, t)

end Request

/-- The operands behind a row of requests. -/
def after (t : Operands) (requests : List Request) : Operands :=
  requests.foldl (fun t q => (q.act t).2) t

/-- The operands that a row of requests makes up. -/
def ofRequests (requests : List Request) : Operands := after ∅ requests

end Operands

end CellHints
