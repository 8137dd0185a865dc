import CellHints.Reference.Basic
import CellHints.Reference.Parser

/-!
# From trees to references

Literals are exact integers until they become a distance, and a distance must
fit 16 bits before its sign is applied and after.  A sum that starts at a cell
moves that cell along; any other sum is left as additions, where taking away is
adding the negative.  Brackets around a cast read the cell it points to.
-/

namespace CellHints

/-- Why a tree denotes no reference. -/
inductive EvaluationError
  | offsetOverflow
  | invalidArithmetic
  | invalidDerefBinaryOp
  | unexpectedDeref
deriving DecidableEq

def EvaluationError.message : EvaluationError → String
  | offsetOverflow => "offset does not fit in int16"
  | invalidArithmetic => "invalid arithmetic expression"
  | invalidDerefBinaryOp => "invalid binary operation inside a deref"
  | unexpectedDeref => "unexpected deref expression"

namespace Tree

/-- A distance of `z` cells, forward or back; both `z` and the distance must fit. -/
def Sign.distance (s : Sign) (z : Int) : Except EvaluationError Int16 :=
  match s, Narrow.toInt16? z with
  | _, none => .error .offsetOverflow
  | plus, some w => .ok w
  | minus, some w =>
      match Narrow.toInt16? (-w.toInt) with
      | some w => .ok w
      | none => .error .offsetOverflow

def Place.cell : Place → Except EvaluationError Cell
  | bare r => .ok ⟨r, 0⟩
  | shifted r s n => (s.distance n.value).map fun w => ⟨r, w⟩

def Factor.reference : Factor → Except EvaluationError Reference
  | doubleDeref p => p.cell.map fun c => .doubleDeref c 0
  | doubleDerefShifted p s n => do
      let c ← p.cell
      let w ← s.distance n.value
      return .doubleDeref c w
  | deref p => p.cell.map .deref
  | place p => p.cell.map .cell
  | integer n => .ok (.immediate (Felt.ofInt n.value))

/-- The reference that a term denotes; a product is left to be computed. -/
def Term.reference : Term → Except EvaluationError Reference
  | factor f => f.reference
  | product lhs rhs => do
      let a ← lhs.reference
      let b ← rhs.reference
      return .binary .mul a b

/-- The cell that `c` has moved to after the summands. -/
def Chain.moveCell (c : Cell) : List (Sign × Term) → Except EvaluationError Cell
  | [] => .ok c
  | (s, t) :: rest => do
      match ← t.reference with
      | .immediate x =>
          let w ← s.distance x.signed
          match c.shift? w with
          | some c => moveCell c rest
          | none => .error .offsetOverflow
      | _ => .error .invalidArithmetic

/-- The negative of a reference: a constant is negated, anything else multiplied by -1. -/
def negate : Reference → Reference
  | .immediate x => .immediate (-x)
  | r => .binary .mul r (.immediate (Felt.ofInt (-1)))

/-- A reference under the sign in front of it. -/
def Sign.apply : Sign → Reference → Reference
  | plus, r => r
  | minus, r => negate r

/-- The sum of `r` and the summands, added from the left. -/
def Chain.addTerms (r : Reference) : List (Sign × Term) → Except EvaluationError Reference
  | [] => .ok r
  | (s, t) :: rest => do
      let b ← t.reference
      addTerms (.binary .add r (s.apply b)) rest

def Chain.reference (c : Chain) : Except EvaluationError Reference := do
  let r ← c.first.reference
  match r.cell? with
  | some start => (moveCell start c.others).map .cell
  | none => addTerms r c.others

/-- The cell that `r` points to, read as a value. -/
def pointee : Reference → Except EvaluationError Reference
  | .cell c => .ok (.deref c)
  | .deref c => .ok (.doubleDeref c 0)
  | .binary .add (.deref c) (.immediate x) =>
      match x.toInt16? with
      | some w => .ok (.doubleDeref c w)
      | none => .error .invalidDerefBinaryOp
  | .binary _ _ _ => .error .invalidDerefBinaryOp
  | .doubleDeref _ _ | .immediate _ => .error .unexpectedDeref

/-- The reference that a tree denotes; the type of its cast plays no part. -/
def reference : Tree → Except EvaluationError Reference
  | plain c => c.value.reference
  | bracketed c => do pointee (← c.value.reference)

end Tree

/-- Why a text denotes no reference. -/
inductive ReferenceError
  | malformed (e : SyntaxError)
  | meaningless (e : EvaluationError)
deriving DecidableEq

/-- The wording of a text that denotes no reference. -/
def ReferenceError.message : ReferenceError → String
  | malformed e => e.message
  | meaningless e => "Evaluation error: " ++ e.message

namespace Reference

/-- The reference that a text denotes, and the type it is cast to. -/
def ofTypedText (s : String) : Except ReferenceError (Reference × Tree.TypeName) :=
  match Tree.ofText s with
  | .error e => .error (.malformed e)
  | .ok t =>
      match t.reference with
      | .error e => .error (.meaningless e)
      | .ok r => .ok (r, t.cast.type)

/-- The reference that a text denotes. -/
def ofText (s : String) : Except ReferenceError Reference := (ofTypedText s).map (·.1)

end Reference

end CellHints
