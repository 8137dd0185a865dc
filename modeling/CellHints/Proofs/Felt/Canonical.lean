import CellHints.Felt.Recipe
import CellHints.Proofs.Felt.Residue

/-!
# Field elements are stored as least residues

Whatever a field element is made from, and however it is calculated, the number that is
stored for it is the residue of the integer that it stands for.  The operations correct
by one modulus at most, which is enough for least residues: nothing is taken away from
what is smaller, and no remainder comes out negative.  For larger numbers neither holds.
-/

namespace CellHints

namespace Stored

variable {m n : Nat}

theorem takeAway_of_le (h : n ≤ m) : takeAway m n = .ok (m - n) := if_pos h

/-! ### Numbers and integers -/

theorem ofNat_eq_val (n : Nat) : ofNat n = (Felt.ofNat n).val := by
  unfold ofNat
  split
  · next hlt => exact (Felt.val_ofNat_of_lt hlt).symm
  · rfl

/-- A remainder that is put right by the modulus is not negative. -/
theorem remainder_eq_emod (z : Int) : (z.tmod prime + prime).tmod prime = z % prime := by
  have hpos : (0 : Int) < prime := by decide
  have hlo := Int.lt_tmod_of_pos z hpos
  have hnonneg : 0 ≤ z.tmod prime + prime := by omega
  have hmod : z.tmod prime ≡ z [ZMOD prime] := by
    rw [Int.modEq_iff_dvd]
    exact ⟨z.tdiv prime, by have hsplit := Int.mul_tdiv_add_tmod z prime; omega⟩
  rw [Int.tmod_eq_emod_of_nonneg hnonneg, Int.add_emod_right]
  exact hmod

theorem ofInt_eq_val (z : Int) : ofInt z = .ok (Felt.ofInt z).val := by
  have hnonneg : 0 ≤ z % (prime : Int) := Int.emod_nonneg z (by decide)
  unfold ofInt
  rw [remainder_eq_emod]
  exact if_pos hnonneg

/-! ### Operations on least residues -/

variable (x y : Felt)

theorem add_val : add x.val y.val = .ok (x + y).val := by
  have hx := x.isLt
  have hy := y.isLt
  unfold add
  rw [Felt.val_add]
  split
  · next hle =>
      rw [takeAway_of_le hle, Nat.mod_eq_sub_mod hle, Nat.mod_eq_of_lt (by omega)]
  · next hlt => rw [Nat.mod_eq_of_lt (by omega)]

theorem sub_val : sub x.val y.val = .ok (x - y).val := by
  have hx := x.isLt
  have hy := y.isLt
  unfold sub
  rw [Felt.val_sub]
  split
  · next hle =>
      have hsum : x.val + (prime - y.val) = x.val - y.val + prime := by omega
      rw [takeAway_of_le hle, hsum, Nat.add_mod_right, Nat.mod_eq_of_lt (by omega)]
  · next hlt =>
      -- What is lent is larger than any least residue.
      have hle : y.val ≤ x.val + prime := by omega
      rw [takeAway_of_le hle, Nat.mod_eq_of_lt (by omega)]
      congr 1
      omega

theorem mul_val : mul x.val y.val = (x * y).val := rfl

theorem neg_val : neg x.val = .ok (-x).val := by
  have hx := x.isLt
  unfold neg
  rw [Felt.val_neg]
  split
  · next hzero => rw [hzero, Nat.sub_zero, Nat.mod_self]
  · next hne => rw [takeAway_of_le (Nat.le_of_lt hx), Nat.mod_eq_of_lt (by omega)]

/-- One modulus more, and there is nothing to take the number away from. -/
example : neg (prime + 1) = .error .underflow := by decide

end Stored

namespace Felt

/-- Whether a number is the least residue of an integer. -/
def IsResidue (n : Nat) (z : Int) : Prop := n < prime ∧ (n : Int) = z % prime

theorem isResidue_ofInt (z : Int) : IsResidue (ofInt z).val z := ⟨(ofInt z).isLt, val_ofInt z⟩

section Operations

variable (x y : Felt)

theorem isResidue_add : IsResidue (x + y).val (x.val + y.val) := by
  have hsum := isResidue_ofInt (x.val + y.val)
  rwa [ofInt_add, ofInt_val, ofInt_val] at hsum

theorem isResidue_sub : IsResidue (x - y).val (x.val - y.val) := by
  have hdifference := isResidue_ofInt (x.val - y.val)
  rwa [ofInt_sub, ofInt_val, ofInt_val] at hdifference

theorem isResidue_mul : IsResidue (x * y).val (x.val * y.val) := by
  have hproduct := isResidue_ofInt (x.val * y.val)
  rwa [ofInt_mul, ofInt_val, ofInt_val] at hproduct

theorem isResidue_neg : IsResidue (-x).val (-x.val) := by
  have hnegative := isResidue_ofInt (-x.val)
  rwa [ofInt_neg, ofInt_val] at hnegative

end Operations

/-! ### Recipes -/

/-- A recipe that is carried out on integers, field elements and stored numbers: it fails
everywhere for the same reason, or the field element and the stored number are the residue
of the integer. -/
inductive Agree : Except Unread Int → Except Unread Felt → Except Stored.Fault Nat → Prop
  | ok (z : Int) : Agree (.ok z) (.ok (ofInt z)) (.ok (ofInt z).val)
  | error (e : Unread) : Agree (.error e) (.error e) (.error (.unread e))

namespace Agree

variable {exact : Except Unread Int} {felt : Except Unread Felt} {stored : Except Stored.Fault Nat}

theorem bind (h : Agree exact felt stored) {f : Int → Except Unread Int}
    {g : Felt → Except Unread Felt} {k : Nat → Except Stored.Fault Nat}
    (hnext : ∀ z, Agree (f z) (g (ofInt z)) (k (ofInt z).val)) :
    Agree (exact >>= f) (felt >>= g) (stored >>= k) := by
  cases h with
  | ok z => exact hnext z
  | error e => exact .error e

/-- What stands for a number below the modulus is stored as it is. -/
theorem ofNat_of_lt {n : Nat} (h : n < prime) : Agree (.ok n) (.ok (Felt.ofNat n)) (.ok n) := by
  have hagree := Agree.ok n
  rwa [← ofNat_eq_ofInt, val_ofNat_of_lt h] at hagree

theorem ofNat (n : Nat) : Agree (.ok n) (.ok (Felt.ofNat n)) (.ok (Stored.ofNat n)) := by
  rw [Stored.ofNat_eq_val, ofNat_eq_ofInt]
  exact .ok n

theorem ofInt (z : Int) : Agree (.ok z) (.ok (Felt.ofInt z)) (Stored.ofInt z) := by
  rw [Stored.ofInt_eq_val]
  exact .ok z

end Agree

theorem Source.agree (s : Source) : Agree s.exact s.felt s.stored := by
  cases s with
  | zero => exact .ok 0
  | one => exact .ok 1
  | natural n => exact .ofNat n
  | integer z => exact .ofInt z
  | uint32 w => exact .ofNat_of_lt (w.toNat_lt.trans (by decide))
  | uint64 w => exact .ofNat_of_lt (w.toNat_lt.trans (by decide))
  | size w => exact .ofNat_of_lt (w.toNat_lt.trans (by decide))
  | int16 w => exact .ofInt w.toInt
  | int64 w => exact .ofInt w.toInt
  | text s =>
      simp only [exact, felt, stored, readText, ofText]
      cases readInteger (Blank.trim s.toList) with
      | ok z => exact .ofInt z
      | error e => exact .error (.numeral e)
  | document depth d =>
      simp only [exact, felt, stored, readDocument, ofDocument?]
      cases d.list? (fun _ => Document.uint32?) depth with
      | some ds => exact .ofNat (ofDigitsNat ds)
      | none => exact .error .shape

theorem Recipe.agree (r : Recipe) : Agree r.exact r.felt r.stored := by
  induction r with
  | source s => exact s.agree
  | add a b iha ihb =>
      refine iha.bind fun y => ihb.bind fun z => ?_
      rw [Stored.add_val, ← ofInt_add]
      exact .ok (y + z)
  | sub a b iha ihb =>
      refine iha.bind fun y => ihb.bind fun z => ?_
      rw [Stored.sub_val, ← ofInt_sub]
      exact .ok (y - z)
  | mul a b iha ihb =>
      refine iha.bind fun y => ihb.bind fun z => ?_
      rw [Stored.mul_val, ← ofInt_mul]
      exact .ok (y * z)
  | neg a ih =>
      refine ih.bind fun z => ?_
      rw [Stored.neg_val, ← ofInt_neg]
      exact .ok (-z)

/-- Every recipe whose ingredients can be read stores the least residue of the integer that
it stands for, without a fault.  One that fails does so because of what it reads.  The
operations on stored residues are those of the integers, brought under the modulus. -/
theorem stores_residue :
    (∀ r : Recipe, match r.exact with
      | .ok z => ∃ x, r.felt = .ok x ∧ r.stored = .ok x.val ∧ IsResidue x.val z
      | .error e => r.felt = .error e ∧ r.stored = .error (.unread e)) ∧
    ∀ x y : Felt,
      (Stored.add x.val y.val = .ok (x + y).val ∧ IsResidue (x + y).val (x.val + y.val)) ∧
      (Stored.sub x.val y.val = .ok (x - y).val ∧ IsResidue (x - y).val (x.val - y.val)) ∧
      (Stored.mul x.val y.val = (x * y).val ∧ IsResidue (x * y).val (x.val * y.val)) ∧
      (Stored.neg x.val = .ok (-x).val ∧ IsResidue (-x).val (-x.val)) := by
  constructor
  · intro r
    have hagree := r.agree
    generalize r.exact = exact, r.felt = felt, r.stored = stored at hagree
    cases hagree with
    | ok z => exact ⟨ofInt z, rfl, rfl, isResidue_ofInt z⟩
    | error e => exact ⟨rfl, rfl⟩
  · intro x y
    exact ⟨⟨Stored.add_val x y, isResidue_add x y⟩, ⟨Stored.sub_val x y, isResidue_sub x y⟩,
      ⟨Stored.mul_val x y, isResidue_mul x y⟩, ⟨Stored.neg_val x, isResidue_neg x⟩⟩

end Felt

end CellHints
