import CellHints.Address
import CellHints.Document.Shape
import CellHints.Felt.Text
import CellHints.Reference.Basic

/-!
# Values as documents

The documents of field elements, addresses, values, registers, cells and
references.  Reading a document that was written gives the value back, as long
as it does not nest too deeply.  One value can have other documents too: fields
in another order, or a field element with zeros behind its digits.
-/

namespace CellHints

namespace Felt

def toDocument (x : Felt) : Document := .array (x.digits.map fun d => .ofNat d.toNat)

def ofDocument? (depth : Nat) (d : Document) : Option Felt := do
  return ofDigits (← d.list? (fun _ => Document.uint32?) depth)

end Felt

namespace Address

def toDocument (a : Address) : Document :=
  .ofFields [("segment_index", .ofNat a.segment.toNat), ("offset", .ofNat a.offset.toNat)]

def ofDocument? : Nat → Document → Option Address
  | 0, _ => none
  | _ + 1, d => do
      match ← d.fields? ["segment_index", "offset"] with
      | [some segment, some offset] => return ⟨← segment.uint64?, ← offset.uint64?⟩
      | _ => none

end Address

namespace Value

def toDocument : Value → Document
  | felt x => .ofChoice "Felt" x.toDocument
  | address a => .ofChoice "Address" a.toDocument

def ofDocument? : Nat → Document → Option Value
  | 0, _ => none
  | depth + 1, d => do
      match ← d.choice? with
      | ("Felt", some content) => return felt (← Felt.ofDocument? depth content)
      | ("Address", some content) => return address (← Address.ofDocument? depth content)
      | _ => none

end Value

namespace Register

def toDocument : Register → Document
  | ap => .ofText "Ap"
  | fp => .ofText "Fp"

def ofDocument? (depth : Nat) (d : Document) : Option Register := do
  match ← d.bareChoice? depth with
  | "Ap" => return ap
  | "Fp" => return fp
  | _ => none

end Register

namespace Operator

def toDocument : Operator → Document
  | add => .ofText "Add"
  | mul => .ofText "Mul"

def ofDocument? (depth : Nat) (d : Document) : Option Operator := do
  match ← d.bareChoice? depth with
  | "Add" => return add
  | "Mul" => return mul
  | _ => none

end Operator

namespace Cell

def toDocument (c : Cell) : Document :=
  .ofFields [("register", c.register.toDocument), ("offset", .integer c.offset.toInt)]

def ofDocument? : Nat → Document → Option Cell
  | 0, _ => none
  | depth + 1, d => do
      match ← d.fields? ["register", "offset"] with
      | [some register, some offset] =>
          return ⟨← Register.ofDocument? depth register, ← offset.int16?⟩
      | _ => none

end Cell

namespace Reference

def derefDocument (c : Cell) : Document := .ofFields [("cell", c.toDocument)]

/-- The content of a cell that a pointer leads to as a structure. -/
def doubleDerefDocument (c : Cell) (offset : Int16) : Document :=
  .ofFields [("deref", derefDocument c), ("offset", .integer offset.toInt)]

/-- An operation and the documents of its two sides as a structure. -/
def sidesDocument (op : Operator) (lhs rhs : Document) : Document :=
  .ofFields [("operator", op.toDocument), ("lhs", lhs), ("rhs", rhs)]

def toDocument : Reference → Document
  | cell ⟨.ap, offset⟩ => .ofChoice "ApCellRef" (.integer offset.toInt)
  | cell ⟨.fp, offset⟩ => .ofChoice "FpCellRef" (.integer offset.toInt)
  | deref c => .ofChoice "Deref" (derefDocument c)
  | doubleDeref c offset => .ofChoice "DoubleDeref" (doubleDerefDocument c offset)
  | immediate x => .ofChoice "Immediate" x.toDocument
  | binary op lhs rhs => .ofChoice "BinaryOp" (sidesDocument op lhs.toDocument rhs.toDocument)

def binaryDocument (op : Operator) (lhs rhs : Reference) : Document :=
  sidesDocument op lhs.toDocument rhs.toDocument

/-- The cell whose content a structure stands for. -/
def derefOfDocument? : Nat → Document → Option Cell
  | 0, _ => none
  | depth + 1, d => do
      match ← d.fields? ["cell"] with
      | [some c] => Cell.ofDocument? depth c
      | _ => none

/-- The cell that holds the pointer, and the distance from it. -/
def doubleDerefOfDocument? : Nat → Document → Option (Cell × Int16)
  | 0, _ => none
  | depth + 1, d => do
      match ← d.fields? ["deref", "offset"] with
      | [some inner, some offset] => return (← derefOfDocument? depth inner, ← offset.int16?)
      | _ => none

mutual

def ofDocument? : Nat → Document → Option Reference
  | 0, _ => none
  | depth + 1, d => do
      match ← d.choice? with
      | ("ApCellRef", some content) => return cell ⟨.ap, ← content.int16?⟩
      | ("FpCellRef", some content) => return cell ⟨.fp, ← content.int16?⟩
      | ("Deref", some content) => return deref (← derefOfDocument? depth content)
      | ("DoubleDeref", some content) =>
          let (c, offset) ← doubleDerefOfDocument? depth content
          return doubleDeref c offset
      | ("Immediate", some content) => return immediate (← Felt.ofDocument? depth content)
      | ("BinaryOp", some content) =>
          let (op, lhs, rhs) ← binaryOfDocument? depth content
          return binary op lhs rhs
      | _ => none

/-- The operation and the two sides that a structure holds. -/
def binaryOfDocument? : Nat → Document → Option (Operator × Reference × Reference)
  | 0, _ => none
  | depth + 1, d => do
      match ← d.fields? ["operator", "lhs", "rhs"] with
      | [some op, some lhs, some rhs] =>
          return (← Operator.ofDocument? depth op, ← ofDocument? depth lhs, ← ofDocument? depth rhs)
      | _ => none

end

end Reference

end CellHints
