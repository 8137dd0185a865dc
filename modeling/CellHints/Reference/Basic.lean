import CellHints.Felt.Text

/-!
# Register cells and references

A cell is named by a register and a signed 16-bit distance from it.  Distances
add exactly or not at all.

The operand of a hint denotes a cell, the content of a cell, the content of the
cell that a pointer leads to, a constant, or a sum or product left to be computed
when the operand is used.
-/

namespace CellHints

/-- A register that a cell can be relative to. -/
inductive Register
  | ap
  | fp
deriving DecidableEq

/-- The name of a register in reference text. -/
def Register.name : Register → String
  | ap => "ap"
  | fp => "fp"

/-- The register of a name; names are case-sensitive. -/
def Register.ofName? (name : String) : Option Register :=
  if name = "ap" then some ap else if name = "fp" then some fp else none

theorem Register.ofName?_name (r : Register) : ofName? r.name = some r := by
  cases r <;> decide

theorem Register.eq_name_of_ofName? {s : String} {r : Register} (h : ofName? s = some r) :
    s = r.name := by
  unfold ofName? at h
  split at h
  · next hs => cases h; exact hs
  · split at h
    · next hs => cases h; exact hs
    · contradiction

/-- A signed distance behind what it is added to: nothing for zero, and a
negative one in parentheses. -/
def shiftText (offset : Int16) : String :=
  if offset.toInt = 0 then ""
  else if offset.toInt < 0 then " + (" ++ Decimal.ofInt offset.toInt ++ ")"
  else " + " ++ Decimal.ofInt offset.toInt

/-- A register and a distance from it. -/
structure Cell where
  register : Register
  offset : Int16
deriving DecidableEq

namespace Cell

/-- The cell further on by `delta`, if its distance still fits. -/
def shift? (c : Cell) (delta : Int16) : Option Cell :=
  (Narrow.toInt16? (c.offset.toInt + delta.toInt)).map fun offset => ⟨c.register, offset⟩

theorem shift?_eq_some_iff {c d : Cell} {delta : Int16} :
    c.shift? delta = some d ↔
      d.register = c.register ∧ d.offset.toInt = c.offset.toInt + delta.toInt := by
  unfold shift?
  rw [Option.map_eq_some_iff]
  constructor
  · rintro ⟨w, hw, rfl⟩
    exact ⟨rfl, Narrow.toInt16?_eq_some_iff.1 hw⟩
  · rintro ⟨hregister, hoffset⟩
    exact ⟨d.offset, Narrow.toInt16?_eq_some_iff.2 hoffset, by rw [← hregister]⟩

/-- A cell in reference text, such as `fp + (-3)`. -/
def text (c : Cell) : String := c.register.name ++ shiftText c.offset

end Cell

/-- An operation left to be computed. -/
inductive Operator
  | add
  | mul
deriving DecidableEq

/-- The sign of an operation in text. -/
def Operator.text : Operator → String
  | add => "+"
  | mul => "*"

/-- What the operand of a hint denotes. -/
inductive Reference
  /-- The address of the cell itself. -/
  | cell (c : Cell)
  /-- The content of the cell. -/
  | deref (c : Cell)
  /-- The content of the cell `offset` behind the address stored in `c`. -/
  | doubleDeref (c : Cell) (offset : Int16)
  /-- A constant. -/
  | immediate (x : Felt)
  /-- A sum or product. -/
  | binary (op : Operator) (lhs rhs : Reference)
deriving DecidableEq

namespace Reference

/-- The cell that a reference names, if it names one without reading memory. -/
def cell? : Reference → Option Cell
  | cell c => some c
  | _ => none

/-- A reference in text: constants by their signed reading, operations in parentheses. -/
def text : Reference → String
  | cell c => c.text
  | deref c => "[" ++ c.text ++ "]"
  | doubleDeref c offset => "[[" ++ c.text ++ "]" ++ shiftText offset ++ "]"
  | immediate x => x.signedText
  | binary op lhs rhs => "(" ++ lhs.text ++ " " ++ op.text ++ " " ++ rhs.text ++ ")"

end Reference

end CellHints
