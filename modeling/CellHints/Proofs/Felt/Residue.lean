import CellHints.Felt.Basic
import Mathlib.Data.Int.ModEq

/-!
# Residues and signed readings

`Felt.ofInt` carries the integers onto the field and respects its operations, so
equations between field elements are read off equations between integers.  The
signed reading is the residue nearest to zero: it is odd, but it is NOT additive.
-/

namespace CellHints.Felt

theorem prime_eq_two_mul_halfPrime : prime = 2 * halfPrime + 1 := by decide

@[simp] theorem ofInt_val (x : Felt) : ofInt (x.val : Int) = x := by
  apply ext
  have hval : ((ofInt (x.val : Int)).val : Int) = (x.val : Int) := by
    rw [val_ofInt]
    exact Int.emod_eq_of_lt (Int.natCast_nonneg _) (by exact_mod_cast x.isLt)
  exact_mod_cast hval

/-- Two integers have the same residue exactly if they differ by a multiple of the modulus. -/
theorem ofInt_eq_ofInt_iff {y z : Int} : ofInt y = ofInt z ↔ (prime : Int) ∣ y - z := by
  rw [Int.dvd_iff_emod_eq_zero, ← Int.emod_eq_emod_iff_emod_sub_eq_zero, ← val_ofInt, ← val_ofInt]
  constructor
  · intro h
    rw [h]
  · intro h
    exact ext (by exact_mod_cast h)

theorem ofInt_add (y z : Int) : ofInt (y + z) = ofInt y + ofInt z := by
  apply ext
  have hval : ((ofInt (y + z)).val : Int) = ((ofInt y + ofInt z).val : Int) := by
    rw [val_ofInt, val_add, Int.natCast_mod, Int.natCast_add, val_ofInt, val_ofInt]
    exact Int.add_emod y z prime
  exact_mod_cast hval

theorem ofInt_mul (y z : Int) : ofInt (y * z) = ofInt y * ofInt z := by
  apply ext
  have hval : ((ofInt (y * z)).val : Int) = ((ofInt y * ofInt z).val : Int) := by
    rw [val_ofInt, val_mul, Int.natCast_mod, Int.natCast_mul, val_ofInt, val_ofInt]
    exact Int.mul_emod y z prime
  exact_mod_cast hval

theorem ofInt_sub (y z : Int) : ofInt (y - z) = ofInt y - ofInt z := by
  apply ext
  have hle := Nat.le_of_lt (ofInt z).isLt
  -- The modulus that the subtrahend is taken from vanishes again.
  have hmod : y - z ≡ y % prime + (prime - z % prime) [ZMOD prime] := by
    have hy := (Int.mod_modEq y prime).symm
    have hz := (Int.mod_modEq z prime).symm
    have hp : (0 : Int) ≡ prime [ZMOD prime] := (Int.modEq_zero_iff_dvd.2 dvd_rfl).symm
    simpa [sub_eq_add_neg] using hy.add (hp.sub hz)
  have hval : ((ofInt (y - z)).val : Int) = ((ofInt y - ofInt z).val : Int) := by
    rw [val_ofInt, val_sub, Int.natCast_mod, Int.natCast_add, Int.natCast_sub hle, val_ofInt,
      val_ofInt]
    exact hmod
  exact_mod_cast hval

theorem zero_sub_eq_neg (x : Felt) : zero - x = -x := by
  apply ext
  rw [val_sub, val_neg]
  change (0 + (prime - x.val)) % prime = _
  rw [Nat.zero_add]

theorem ofInt_neg (z : Int) : ofInt (-z) = -ofInt z := by
  rw [← Int.zero_sub, ofInt_sub, ← zero_sub_eq_neg]
  rfl

theorem sub_eq_add_neg (x y : Felt) : x - y = x + -y := by
  rw [← ofInt_val x, ← ofInt_val y, ← ofInt_sub, ← ofInt_neg, ← ofInt_add, Int.sub_eq_add_neg]

theorem mul_ofInt_neg_one (x : Felt) : x * ofInt (-1) = -x := by
  rw [← ofInt_val x, ← ofInt_mul, ← ofInt_neg, Int.mul_neg, Int.mul_one]

/-- The signed reading is the balanced residue. -/
theorem signed_eq_bmod (x : Felt) : x.signed = Int.bmod x.val prime := by
  have hx := x.isLt
  have hp := prime_eq_two_mul_halfPrime
  have hmod : (x.val : Int) % (prime : Int) = x.val :=
    Int.emod_eq_of_lt (Int.natCast_nonneg _) (by exact_mod_cast hx)
  unfold signed
  rw [Int.bmod_def, hmod]
  -- Both readings turn negative in the middle of the field, which is odd.
  split <;> split <;> omega

theorem signed_ofInt (z : Int) : (ofInt z).signed = z.bmod prime := by
  rw [signed_eq_bmod, val_ofInt, Int.emod_bmod]

theorem neg_halfPrime_le_signed (x : Felt) : -(halfPrime : Int) ≤ x.signed := by
  have hx := x.isLt
  have hp := prime_eq_two_mul_halfPrime
  unfold signed
  split <;> omega

theorem signed_le_halfPrime (x : Felt) : x.signed ≤ halfPrime := by
  have hx := x.isLt
  have hp := prime_eq_two_mul_halfPrime
  unfold signed
  split <;> omega

/-- The signed reading of the residue of `z` is `z` less a multiple of the modulus. -/
theorem dvd_sub_signed_ofInt (z : Int) : (prime : Int) ∣ z - (ofInt z).signed := by
  rw [signed_ofInt]
  exact Int.dvd_self_sub_bmod

/-- An integer that lies in the signed range is the signed reading of its residue. -/
theorem signed_ofInt_of_le {z : Int} (hlo : -(halfPrime : Int) ≤ z) (hhi : z ≤ halfPrime) :
    (ofInt z).signed = z := by
  have hp := prime_eq_two_mul_halfPrime
  rw [signed_ofInt]
  exact Int.bmod_eq_of_le (by omega) (by omega)

@[simp] theorem ofInt_signed (x : Felt) : ofInt x.signed = x := by
  conv_rhs => rw [← ofInt_val x]
  rw [ofInt_eq_ofInt_iff, signed_eq_bmod]
  exact Int.dvd_bmod_sub_self

theorem signed_neg (x : Felt) : (-x).signed = -x.signed := by
  have hlo := neg_halfPrime_le_signed x
  have hhi := signed_le_halfPrime x
  conv_lhs => rw [← ofInt_signed x]
  rw [← ofInt_neg]
  exact signed_ofInt_of_le (by omega) (by omega)

/-- The positive half of the field is what reads as a positive integer. -/
theorem isPositive_iff (x : Felt) : x.isPositive = true ↔ 0 < x.signed := by
  have hx := x.isLt
  unfold isPositive signed
  rw [decide_eq_true_iff]
  split
  · next hle =>
      constructor
      · intro h
        omega
      · intro h
        exact ⟨by omega, hle⟩
  · next hgt =>
      constructor
      · intro h
        exact absurd h.2 hgt
      · intro h
        omega

theorem ofNat_eq_ofInt (n : Nat) : ofNat n = ofInt n := by
  apply ext
  have hval : ((ofNat n).val : Int) = ((ofInt n).val : Int) := by
    rw [val_ofInt]
    exact Int.natCast_mod n prime
  exact_mod_cast hval

theorem sub_ofNat_zero (x : Felt) : x - ofNat 0 = x := by
  rw [ofNat_eq_ofInt, ← ofInt_val x, ← ofInt_sub, Int.natCast_zero, Int.sub_zero]

/-- Taking away one more is taking away one. -/
theorem sub_ofNat_succ (x : Felt) (n : Nat) : x - ofNat (n + 1) = x - ofNat n - one := by
  have hone : one = ofInt 1 := rfl
  rw [ofNat_eq_ofInt, ofNat_eq_ofInt, hone, ← ofInt_val x, ← ofInt_sub, ← ofInt_sub, ← ofInt_sub]
  congr 1
  omega

theorem val_ofNat_of_lt {n : Nat} (h : n < prime) : (ofNat n).val = n := Nat.mod_eq_of_lt h

/-- What is not larger is taken away without the modulus being lent. -/
theorem val_sub_ofNat {x : Felt} {n : Nat} (h : n ≤ x.val) : (x - ofNat n).val = x.val - n := by
  have hx := x.isLt
  have hn := val_ofNat_of_lt (Nat.lt_of_le_of_lt h hx)
  rw [val_sub, hn, Nat.mod_eq_sub_mod (by omega), Nat.mod_eq_of_lt (by omega)]
  omega

end CellHints.Felt
