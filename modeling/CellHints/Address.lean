import CellHints.Felt.Text

/-!
# Addresses and values

An address is an offset inside a segment.  Shifts are exact: an offset that
would leave the range of 64 bits is refused and NEVER wraps, and no shift
changes the segment.  A memory cell holds a field element or an address.
-/

namespace CellHints

/-- The place of a memory cell.  Addresses are ordered by segment, then by offset. -/
structure Address where
  segment : UInt64
  offset : UInt64
deriving DecidableEq, Ord

/-- What a memory cell holds. -/
inductive Value
  | felt (x : Felt)
  | address (a : Address)
deriving DecidableEq

/-- Why a value or an address does not serve. -/
inductive ValueError
  | expectedFelt (found : Address)
  | expectedAddress (found : Felt)
  | addressOverflow (a : Address) (delta : Int)
  | invalidOffset (x : Felt)
deriving DecidableEq

namespace Address

/-- The first cell of segment 0. -/
def origin : Address := ⟨0, 0⟩

/-- An address in text, such as `2:17`. -/
def text (a : Address) : String :=
  Decimal.ofNat a.segment.toNat ++ ":" ++ Decimal.ofNat a.offset.toNat

/-- The address `delta` cells further on in the same segment. -/
def shift (a : Address) (delta : Int) : Except ValueError Address :=
  let offset := (a.offset.toNat : Int) + delta
  if 0 ≤ offset then
    match Narrow.toUInt64? offset.toNat with
    | some word => .ok ⟨a.segment, word⟩
    | none => .error (.addressOverflow a delta)
  else .error (.addressOverflow a delta)

theorem shift_eq_ok_iff {a b : Address} {delta : Int} :
    a.shift delta = .ok b ↔
      b.segment = a.segment ∧ (b.offset.toNat : Int) = a.offset.toNat + delta := by
  unfold shift
  constructor
  · intro h
    dsimp only at h
    split at h
    · next hle =>
        split at h
        · next word hword =>
            cases h
            have hnat := Narrow.toUInt64?_eq_some_iff.1 hword
            exact ⟨rfl, by rw [hnat]; omega⟩
        · contradiction
    · contradiction
  · rintro ⟨hsegment, hoffset⟩
    have hword : Narrow.toUInt64? ((a.offset.toNat : Int) + delta).toNat = some b.offset :=
      Narrow.toUInt64?_eq_some_iff.2 (by omega)
    dsimp only
    rw [if_pos (by omega), hword, ← hsegment]

/-- The largest distance of one forward step. -/
def maxStep : Nat := 0x7fffffffffffffff

/-- The address `n` cells further on; one step goes no further than `maxStep`. -/
def advance (a : Address) (n : UInt64) : Except ValueError Address :=
  if n.toNat ≤ maxStep then a.shift n.toNat else .error (.addressOverflow a maxStep)

/-- The address further on by the signed reading of `x`, which must fit 64 bits. -/
def addFelt (a : Address) (x : Felt) : Except ValueError Address :=
  match x.toInt64? with
  | some delta => a.shift delta.toInt
  | none => .error (.invalidOffset x)

end Address

/-- The wording of a value that does not serve. -/
def ValueError.message : ValueError → String
  | expectedFelt found => "Expected a field element, found address " ++ found.text
  | expectedAddress found => "Expected an address, found field element " ++ found.text
  | addressOverflow a delta =>
      "Address " ++ a.text ++ " shifted by " ++ Decimal.ofInt delta ++ " leaves its segment"
  | invalidOffset x => "Field element " ++ x.text ++ " is not a valid address offset"

namespace Value

def asFelt : Value → Except ValueError Felt
  | felt x => .ok x
  | address a => .error (.expectedFelt a)

def asAddress : Value → Except ValueError Address
  | address a => .ok a
  | felt x => .error (.expectedAddress x)

def isAddress : Value → Bool
  | address _ => true
  | felt _ => false

def text : Value → String
  | felt x => x.text
  | address a => a.text

end Value

end CellHints
