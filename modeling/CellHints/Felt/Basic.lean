import CellHints.Narrow

/-!
# Field elements

Integers modulo the prime `2 ^ 251 + 17 * 2 ^ 192 + 1`, kept as their least
non-negative residue.  The upper half of the field has a second, negative
reading.  Order is the order of the residues, NOT of the signed readings.
-/

namespace CellHints

/-- The modulus of the field. -/
def prime : Nat := 0x800000000000011000000000000000000000000000000000000000000000001

theorem prime_eq : prime = Nat.pow 2 251 + 17 * Nat.pow 2 192 + 1 := by decide

/-- The largest residue whose signed reading is not negative. -/
def halfPrime : Nat := (prime - 1) / 2

/-- A residue modulo `prime`. -/
structure Felt where
  val : Nat
  isLt : val < prime
deriving DecidableEq

namespace Felt

theorem prime_pos : 0 < prime := by decide

/-- The residue of a natural number. -/
def ofNat (n : Nat) : Felt := ⟨n % prime, Nat.mod_lt n prime_pos⟩

/-- The residue of an integer; a negative one counts back from `prime`. -/
def ofInt (z : Int) : Felt :=
  ⟨(z % (prime : Int)).toNat, by
    have hpos : (0 : Int) < (prime : Int) := by exact_mod_cast prime_pos
    have hlt := Int.emod_lt_of_pos z hpos
    have hge := Int.emod_nonneg z (Int.ne_of_gt hpos)
    omega⟩

def zero : Felt := ⟨0, prime_pos⟩

def one : Felt := ⟨1, by decide⟩

instance : Inhabited Felt := ⟨zero⟩

/-- Sum: the modulus is taken off once when the plain sum reaches it. -/
def add (x y : Felt) : Felt :=
  if h : x.val + y.val < prime then ⟨x.val + y.val, h⟩
  else ⟨x.val + y.val - prime, by have hx := x.isLt; have hy := y.isLt; omega⟩

/-- Difference: the modulus is lent once when the subtrahend is larger. -/
def sub (x y : Felt) : Felt :=
  if h : y.val ≤ x.val then ⟨x.val - y.val, by have hx := x.isLt; omega⟩
  else ⟨x.val + prime - y.val, by have hx := x.isLt; have hy := y.isLt; omega⟩

def mul (x y : Felt) : Felt := ⟨x.val * y.val % prime, Nat.mod_lt _ prime_pos⟩

/-- Negation: zero is its own negative. -/
def neg (x : Felt) : Felt :=
  if h : x.val = 0 then zero
  else ⟨prime - x.val, by have hx := x.isLt; omega⟩

instance : Add Felt := ⟨add⟩
instance : Sub Felt := ⟨sub⟩
instance : Mul Felt := ⟨mul⟩
instance : Neg Felt := ⟨neg⟩

instance : Ord Felt := ⟨fun x y => compare x.val y.val⟩

/-- Whether the residue lies in the positive half of the field. -/
def isPositive (x : Felt) : Bool := x.val ≠ 0 ∧ x.val ≤ halfPrime

/-- The signed reading: residues past the half read as themselves less the modulus. -/
def signed (x : Felt) : Int :=
  if x.val ≤ halfPrime then (x.val : Int) else (x.val : Int) - (prime : Int)

def toInt16? (x : Felt) : Option Int16 := Narrow.toInt16? x.signed

def toInt64? (x : Felt) : Option Int64 := Narrow.toInt64? x.signed

def toUInt32? (x : Felt) : Option UInt32 := Narrow.toUInt32? x.val

def toUInt64? (x : Felt) : Option UInt64 := Narrow.toUInt64? x.val

def toUSize? (x : Felt) : Option USize := Narrow.toUSize? x.val

@[ext] theorem ext {x y : Felt} (h : x.val = y.val) : x = y := by
  cases x; cases y; cases h; rfl

theorem ofNat_val (x : Felt) : ofNat x.val = x := ext (Nat.mod_eq_of_lt x.isLt)

theorem val_ofInt (z : Int) : ((ofInt z).val : Int) = z % (prime : Int) :=
  Int.toNat_of_nonneg (Int.emod_nonneg z (by decide))

theorem val_add (x y : Felt) : (x + y).val = (x.val + y.val) % prime := by
  have hx := x.isLt
  have hy := y.isLt
  change (add x y).val = _
  unfold add
  split
  · next h => exact (Nat.mod_eq_of_lt h).symm
  · next h =>
      rw [Nat.mod_eq_sub_mod (Nat.le_of_not_lt h), Nat.mod_eq_of_lt (by omega)]

theorem val_sub (x y : Felt) : (x - y).val = (x.val + (prime - y.val)) % prime := by
  have hx := x.isLt
  have hy := y.isLt
  change (sub x y).val = _
  unfold sub
  split
  · next h =>
      rw [Nat.mod_eq_sub_mod (by omega), Nat.mod_eq_of_lt (by omega)]
      change x.val - y.val = _
      omega
  · next h =>
      rw [Nat.mod_eq_of_lt (by omega)]
      change x.val + prime - y.val = _
      omega

theorem val_mul (x y : Felt) : (x * y).val = x.val * y.val % prime := rfl

theorem val_neg (x : Felt) : (-x).val = (prime - x.val) % prime := by
  have hx := x.isLt
  change (neg x).val = _
  unfold neg
  split
  · next h => rw [h, Nat.sub_zero, Nat.mod_self]; rfl
  · next h =>
      have hlt : prime - x.val < prime := by omega
      exact (Nat.mod_eq_of_lt hlt).symm

end Felt

end CellHints
