import CellHints.Address
import Std.Data.ExtTreeMap

/-!
# Write-once memory

Memory is a row of segments that grow independently.  A cell is written at most
once; reading a cell that nobody wrote is an error.  A failing write or
allocation changes nothing.  A failing range write is NOT undone: the cells in
front of the failing one stay written.
-/

namespace CellHints

open Std (ExtTreeMap)

/-- The written cells of a segment by offset, and one past the last of them. -/
structure Segment where
  cells : ExtTreeMap UInt64 Value
  len : Nat
deriving DecidableEq

def Segment.empty : Segment := ⟨∅, 0⟩

/-- A segment with `v` at `offset`, whatever stood there. -/
def Segment.insert (s : Segment) (offset : UInt64) (v : Value) : Segment :=
  ⟨s.cells.insert offset v, max s.len (offset.toNat + 1)⟩

/-- Memory: its segments, and how many there may be. -/
structure Memory where
  segments : Array Segment
  limit : UInt64
deriving DecidableEq

/-- Why a memory operation is refused. -/
inductive MemoryError
  | unknownSegment (segment : UInt64)
  | unsetCell (a : Address)
  | outOfBounds (a : Address)
  | writeOnceViolation (a : Address) (existing attempted : Value)
  | segmentLimitExceeded (limit : UInt64)
  | value (e : ValueError)
deriving DecidableEq

/-- The wording of a refused memory operation. -/
def MemoryError.message : MemoryError → String
  | unknownSegment segment => "Unknown segment " ++ Decimal.ofNat segment.toNat
  | unsetCell a => "Memory cell " ++ a.text ++ " has not been written"
  | outOfBounds a => "Address " ++ a.text ++ " is out of bounds"
  | writeOnceViolation a existing attempted =>
      "Write-once violation at " ++ a.text ++ ": holds " ++ existing.text ++ ", attempted " ++
        attempted.text
  | segmentLimitExceeded limit => "Segment limit exceeded: " ++ Decimal.ofNat limit.toNat
  | value e => "Value error: " ++ e.message

namespace Memory

def empty (limit : UInt64) : Memory := ⟨#[], limit⟩

def segment? (m : Memory) (i : UInt64) : Option Segment := m.segments[i.toNat]?

/-- The content of a cell, if its segment exists and it was written. -/
def peek (m : Memory) (a : Address) : Option Value :=
  (m.segment? a.segment).bind fun s => s.cells[a.offset]?

/-- One past the last written offset of a segment. -/
def segmentLen (m : Memory) (i : UInt64) : Except MemoryError Nat :=
  match m.segment? i with
  | some s => .ok s.len
  | none => .error (.unknownSegment i)

def read (m : Memory) (a : Address) : Except MemoryError Value :=
  match m.segment? a.segment with
  | none => .error (.unknownSegment a.segment)
  | some s =>
      match s.cells[a.offset]? with
      | some v => .ok v
      | none => .error (.unsetCell a)

theorem read_eq_ok_iff {m : Memory} {a : Address} {v : Value} :
    m.read a = .ok v ↔ m.peek a = some v := by
  unfold read peek
  cases m.segment? a.segment with
  | none => simp
  | some s => cases hcell : s.cells[a.offset]? <;> simp [hcell]

/-- A segment that is not there comes before a cell that is not written. -/
theorem read_eq_error_iff {m : Memory} {a : Address} {e : MemoryError} : m.read a = .error e ↔
    (m.segments.size ≤ a.segment.toNat ∧ e = .unknownSegment a.segment) ∨
    (a.segment.toNat < m.segments.size ∧ m.peek a = none ∧ e = .unsetCell a) := by
  unfold read peek segment?
  by_cases hsegment : a.segment.toNat < m.segments.size
  · have hnot := Nat.not_le_of_lt hsegment
    cases hcell : (m.segments[a.segment.toNat]).cells[a.offset]? with
    | none => simp [hsegment, hnot, hcell, eq_comm]
    | some v => simp [hsegment, hnot, hcell]
  · simp [hsegment, Nat.le_of_not_lt hsegment, eq_comm]

def readFelt (m : Memory) (a : Address) : Except MemoryError Felt := do
  (← m.read a).asFelt.mapError .value

def readAddress (m : Memory) (a : Address) : Except MemoryError Address := do
  (← m.read a).asAddress.mapError .value

/-- A new segment without written cells, and its first address. -/
def allocate (m : Memory) : Except MemoryError (Address × Memory) :=
  if m.segments.size < m.limit.toNat then
    .ok (⟨UInt64.ofNat m.segments.size, 0⟩, { m with segments := m.segments.push .empty })
  else .error (.segmentLimitExceeded m.limit)

/-- What stands against writing `v` at `a`.  The last offset cannot be written in any segment. -/
def refusal? (m : Memory) (a : Address) (v : Value) : Option MemoryError :=
  if a.offset.toNat + 1 < UInt64.size then
    match m.segment? a.segment with
    | none => some (.unknownSegment a.segment)
    | some s => s.cells[a.offset]?.map fun existing => .writeOnceViolation a existing v
  else some (.outOfBounds a)

/-- Memory with `v` at `a`, whatever stood there. -/
def put (m : Memory) (a : Address) (v : Value) : Memory :=
  { m with segments := m.segments.modify a.segment.toNat (·.insert a.offset v) }

/-- Memory with `v` written at `a`. -/
def write (m : Memory) (a : Address) (v : Value) : Except MemoryError Memory :=
  match m.refusal? a v with
  | some e => .error e
  | none => .ok (m.put a v)

theorem refusal?_eq_none_iff {m : Memory} {a : Address} {v : Value} :
    m.refusal? a v = none ↔
      a.offset.toNat + 1 < UInt64.size ∧ (m.segment? a.segment).isSome ∧ m.peek a = none := by
  unfold refusal? peek
  split
  · next h =>
      cases m.segment? a.segment with
      | none => exact ⟨nofun, fun hfree => nomatch hfree.2.1⟩
      | some s =>
          constructor
          · intro hcell
            exact ⟨h, rfl, Option.map_eq_none_iff.1 hcell⟩
          · intro hfree
            exact Option.map_eq_none_iff.2 hfree.2.2
  · next h => exact ⟨nofun, fun hfree => absurd hfree.1 h⟩

theorem write_eq_ok_iff {m n : Memory} {a : Address} {v : Value} :
    m.write a v = .ok n ↔ m.refusal? a v = none ∧ n = m.put a v := by
  unfold write
  cases m.refusal? a v with
  | none => simp [eq_comm]
  | some e => simp

theorem segment?_put (m : Memory) (a : Address) (v : Value) (i : UInt64) :
    (m.put a v).segment? i =
      if i = a.segment then (m.segment? i).map (·.insert a.offset v) else m.segment? i := by
  unfold put segment?
  rw [Array.getElem?_modify]
  by_cases h : i = a.segment
  · simp [h]
  · rw [if_neg h, if_neg fun heq => h (UInt64.toNat_inj.1 heq.symm)]

theorem peek_put {m : Memory} {a : Address} {v : Value} (b : Address)
    (hsegment : (m.segment? a.segment).isSome) :
    (m.put a v).peek b = if b = a then some v else m.peek b := by
  obtain ⟨s, hs⟩ := Option.isSome_iff_exists.1 hsegment
  unfold peek
  rw [segment?_put]
  by_cases hi : b.segment = a.segment
  · rw [if_pos hi, hi, hs]
    by_cases ho : b.offset = a.offset
    · have hba : b = a := by cases a; cases b; simp_all
      simp [hba, Segment.insert]
    · have hba : b ≠ a := fun heq => ho (by rw [heq])
      have hne : a.offset ≠ b.offset := fun heq => ho heq.symm
      simp [hba, Segment.insert, Std.ExtTreeMap.getElem?_insert, hne]
  · have hba : b ≠ a := fun heq => hi (by rw [heq])
    rw [if_neg hi, if_neg hba]

/-- Memory with the values written one behind the other from `a` on, as far as
they can be, and the address past the last. -/
def writeRange (m : Memory) (a : Address) : List Value → Except MemoryError Address × Memory
  | [] => (.ok a, m)
  | v :: vs =>
      match m.write a v with
      | .error e => (.error e, m)
      | .ok m =>
          match a.advance 1 with
          | .error e => (.error (.value e), m)
          | .ok a => m.writeRange a vs

end Memory

end CellHints
