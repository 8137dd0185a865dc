/-!
# Checked narrowing to machine words

Unbounded integers become words of a fixed width only when they fit.  Narrowing
is exact: the word that comes back denotes the integer that went in.  It does
NOT wrap and does NOT clamp.
-/

namespace CellHints.Narrow

/-- The signed 16-bit word that denotes `z`. -/
def toInt16? (z : Int) : Option Int16 :=
  if -0x8000 ≤ z ∧ z < 0x8000 then some (Int16.ofInt z) else none

/-- The signed 64-bit word that denotes `z`. -/
def toInt64? (z : Int) : Option Int64 :=
  if -0x8000000000000000 ≤ z ∧ z < 0x8000000000000000 then some (Int64.ofInt z) else none

/-- The unsigned 32-bit word that denotes `n`. -/
def toUInt32? (n : Nat) : Option UInt32 :=
  if n < UInt32.size then some (UInt32.ofNat n) else none

/-- The unsigned 64-bit word that denotes `n`. -/
def toUInt64? (n : Nat) : Option UInt64 :=
  if n < UInt64.size then some (UInt64.ofNat n) else none

/-- The unsigned word as wide as an address of the platform that denotes `n`. -/
def toUSize? (n : Nat) : Option USize :=
  if n < USize.size then some (USize.ofNat n) else none

theorem toInt16?_eq_some_iff {z : Int} {w : Int16} :
    toInt16? z = some w ↔ w.toInt = z := by
  unfold toInt16?
  constructor
  · intro h
    split at h
    · next hz =>
        cases h
        exact Int16.toInt_ofInt_of_le hz.1 hz.2
    · contradiction
  · rintro rfl
    have hlo := w.le_toInt
    have hhi := w.toInt_lt
    rw [if_pos ⟨hlo, hhi⟩, Int16.ofInt_toInt]

theorem toInt64?_eq_some_iff {z : Int} {w : Int64} :
    toInt64? z = some w ↔ w.toInt = z := by
  unfold toInt64?
  constructor
  · intro h
    split at h
    · next hz =>
        cases h
        exact Int64.toInt_ofInt_of_le hz.1 hz.2
    · contradiction
  · rintro rfl
    have hlo := w.le_toInt
    have hhi := w.toInt_lt
    rw [if_pos ⟨hlo, hhi⟩, Int64.ofInt_toInt]

theorem toUInt32?_eq_some_iff {n : Nat} {w : UInt32} :
    toUInt32? n = some w ↔ w.toNat = n := by
  unfold toUInt32?
  constructor
  · intro h
    split at h
    · next hn =>
        cases h
        exact UInt32.toNat_ofNat_of_lt' hn
    · contradiction
  · rintro rfl
    rw [if_pos w.toNat_lt, UInt32.ofNat_toNat]

theorem toUInt64?_eq_some_iff {n : Nat} {w : UInt64} :
    toUInt64? n = some w ↔ w.toNat = n := by
  unfold toUInt64?
  constructor
  · intro h
    split at h
    · next hn =>
        cases h
        exact UInt64.toNat_ofNat_of_lt' hn
    · contradiction
  · rintro rfl
    rw [if_pos w.toNat_lt, UInt64.ofNat_toNat]

theorem toUSize?_eq_some_iff {n : Nat} {w : USize} :
    toUSize? n = some w ↔ w.toNat = n := by
  unfold toUSize?
  constructor
  · intro h
    split at h
    · next hn =>
        cases h
        exact USize.toNat_ofNat_of_lt' hn
    · contradiction
  · rintro rfl
    rw [if_pos w.toNat_lt_size, USize.ofNat_toNat]

end CellHints.Narrow
