import CellHints.Proofs.Felt.SignedReading

/-!
# Shifts by field elements

An address moves by the signed reading of a field element, which must be a 64-bit distance
of its own, wherever it leads.  So a shift can be taken back unless its distance is the one
that has no negative, and two shifts are one as long as their distances add up to a
distance.  Signed readings do NOT add up in general: here they are too small to reach the
cut in the middle of the field.
-/

namespace CellHints

namespace Felt

/-- Whether an integer is a 64-bit distance. -/
def IsDistance (v : Int) : Prop := -0x8000000000000000 ≤ v ∧ v < 0x8000000000000000

variable {x y : Felt}

theorem le_halfPrime_of_isDistance {v : Int} (h : IsDistance v) :
    -(halfPrime : Int) ≤ v ∧ v ≤ halfPrime := by
  have hhalf : (0x8000000000000000 : Int) ≤ halfPrime := by decide
  unfold IsDistance at h
  omega

/-- Signed readings add up as long as their sum is a distance. -/
theorem signed_add (h : IsDistance (x.signed + y.signed)) :
    (x + y).signed = x.signed + y.signed := by
  obtain ⟨hlo, hhi⟩ := le_halfPrime_of_isDistance h
  conv_lhs => rw [← ofInt_signed x, ← ofInt_signed y, ← ofInt_add]
  exact signed_ofInt_of_le hlo hhi

/-- A number of cells reads as itself. -/
theorem signed_ofNat_toNat (n : UInt64) : (ofNat n.toNat).signed = n.toNat := by
  have hn := n.toNat_lt
  have hhalf : (0x10000000000000000 : Int) ≤ halfPrime := by decide
  rw [ofNat_eq_ofInt]
  exact signed_ofInt_of_le (by omega) (by omega)

end Felt

namespace Address

variable {a b c : Address} {x y : Felt}

theorem exists_shift_eq_ok_iff {delta : Int} : (∃ b, a.shift delta = .ok b) ↔
    0 ≤ a.offset.toNat + delta ∧ a.offset.toNat + delta < UInt64.size := by
  constructor
  · rintro ⟨b, hb⟩
    have hoffset := (shift_eq_ok_iff.1 hb).2
    have hlt := b.offset.toNat_lt_size
    omega
  · rintro ⟨hlo, hhi⟩
    refine ⟨⟨a.segment, UInt64.ofNat (a.offset.toNat + delta).toNat⟩, ?_⟩
    refine shift_eq_ok_iff.2 ⟨rfl, ?_⟩
    rw [UInt64.toNat_ofNat_of_lt' (by omega)]
    omega

theorem shift_neg {delta : Int} (h : a.shift delta = .ok b) : b.shift (-delta) = .ok a := by
  obtain ⟨hsegment, hoffset⟩ := shift_eq_ok_iff.1 h
  exact shift_eq_ok_iff.2 ⟨hsegment.symm, by omega⟩

theorem shift_add {delta more : Int} (h : a.shift delta = .ok b) (h' : b.shift more = .ok c) :
    a.shift (delta + more) = .ok c := by
  obtain ⟨hsegment, hoffset⟩ := shift_eq_ok_iff.1 h
  obtain ⟨hsegment', hoffset'⟩ := shift_eq_ok_iff.1 h'
  exact shift_eq_ok_iff.2 ⟨hsegment'.trans hsegment, by omega⟩

theorem addFelt_of_isDistance (h : Felt.IsDistance x.signed) (a : Address) :
    a.addFelt x = a.shift x.signed := by
  have hword : (Int64.ofInt x.signed).toInt = x.signed := Int64.toInt_ofInt_of_le h.1 h.2
  unfold addFelt
  rw [((Felt.narrows_toInt64? x).eq_some_iff _).2 hword]
  exact congrArg a.shift hword

theorem addFelt_of_not_isDistance (h : ¬Felt.IsDistance x.signed) (a : Address) :
    a.addFelt x = .error (.invalidOffset x) := by
  have hnone : x.toInt64? = none := by
    rw [(Felt.narrows_toInt64? x).eq_none_iff]
    unfold Felt.IsDistance at h
    omega
  unfold addFelt
  rw [hnone]

theorem addFelt_eq_ok_iff :
    a.addFelt x = .ok b ↔ Felt.IsDistance x.signed ∧ a.shift x.signed = .ok b := by
  by_cases h : Felt.IsDistance x.signed
  · rw [addFelt_of_isDistance h]
    exact (and_iff_right h).symm
  · rw [addFelt_of_not_isDistance h]
    exact ⟨nofun, fun hdistance => absurd hdistance.1 h⟩

/-- The way back, which only the distance without a negative does not have. -/
theorem addFelt_neg (h : a.addFelt x = .ok b) :
    b.addFelt (-x) = if x.signed = -0x8000000000000000 then .error (.invalidOffset (-x))
      else .ok a := by
  obtain ⟨hdistance, hshift⟩ := addFelt_eq_ok_iff.1 h
  have hneg := Felt.signed_neg x
  unfold Felt.IsDistance at hdistance
  split
  · refine addFelt_of_not_isDistance ?_ b
    unfold Felt.IsDistance
    omega
  · refine addFelt_eq_ok_iff.2 ⟨?_, ?_⟩
    · unfold Felt.IsDistance
      omega
    · rw [hneg]
      exact shift_neg hshift

theorem addFelt_add (h : a.addFelt x = .ok b) (h' : b.addFelt y = .ok c)
    (hsum : Felt.IsDistance (x.signed + y.signed)) : a.addFelt (x + y) = .ok c := by
  have hsigned := Felt.signed_add hsum
  rw [addFelt_eq_ok_iff, hsigned]
  exact ⟨hsum, shift_add (addFelt_eq_ok_iff.1 h).2 (addFelt_eq_ok_iff.1 h').2⟩

/-- A number of cells that is not too large for one step is a distance. -/
theorem advance_eq_ok_iff {n : UInt64} :
    a.advance n = .ok b ↔ a.addFelt (Felt.ofNat n.toNat) = .ok b := by
  rw [addFelt_eq_ok_iff, Felt.signed_ofNat_toNat]
  unfold advance maxStep Felt.IsDistance
  split
  · next hle => exact (and_iff_right ⟨by omega, by omega⟩).symm
  · next hgt => exact ⟨nofun, fun h => by omega⟩

/-- An address moves by a field element exactly if the signed reading is a distance and does
not lead out of the range of offsets, and then by just that distance.  The move is taken
back by the negative, and two moves are one by the sum, with the exceptions that distances
make.  A step over a number of cells is the move by that number. -/
theorem addFelt_moves_exactly (a : Address) :
    (∀ x : Felt, (∃ b, a.addFelt x = .ok b) ↔
      (-0x8000000000000000 ≤ x.signed ∧ x.signed < 0x8000000000000000) ∧
      0 ≤ a.offset.toNat + x.signed ∧ a.offset.toNat + x.signed ≤ 0xffffffffffffffff) ∧
    (∀ x b, a.addFelt x = .ok b →
      b.segment = a.segment ∧ (b.offset.toNat : Int) = a.offset.toNat + x.signed) ∧
    (∀ x b, a.addFelt x = .ok b →
      b.addFelt (-x) = if x.signed = -0x8000000000000000 then .error (.invalidOffset (-x))
        else .ok a) ∧
    (∀ x y b c, a.addFelt x = .ok b → b.addFelt y = .ok c →
      -0x8000000000000000 ≤ x.signed + y.signed → x.signed + y.signed < 0x8000000000000000 →
      a.addFelt (x + y) = .ok c) ∧
    ∀ n b, a.advance n = .ok b ↔ a.addFelt (Felt.ofNat n.toNat) = .ok b := by
  refine ⟨?_, ?_, fun x b h => addFelt_neg h, ?_, fun n b => advance_eq_ok_iff⟩
  · intro x
    simp only [addFelt_eq_ok_iff, exists_and_left, exists_shift_eq_ok_iff, UInt64.size]
    unfold Felt.IsDistance
    omega
  · intro x b h
    exact shift_eq_ok_iff.1 (addFelt_eq_ok_iff.1 h).2
  · intro x y b c h h' hlo hhi
    exact addFelt_add h h' ⟨hlo, hhi⟩

/-- The longest way down, which cannot be taken back, and one cell up again. -/
theorem addFelt_moves_exactly_longest_way_down :
    let a : Address := ⟨1, 0x8000000000000000⟩
    let x := Felt.ofInt (-0x8000000000000000)
    a.addFelt x = .ok ⟨1, 0⟩ ∧
      (⟨1, 0⟩ : Address).addFelt (-x) = .error (.invalidOffset (-x)) ∧
      (⟨1, 0⟩ : Address).addFelt Felt.one = .ok ⟨1, 1⟩ ∧
      a.addFelt (x + Felt.one) = .ok ⟨1, 1⟩ := by
  intro a x
  have hdown : a.addFelt x = .ok ⟨1, 0⟩ := by decide +kernel
  have hup : (⟨1, 0⟩ : Address).addFelt Felt.one = .ok ⟨1, 1⟩ := by decide +kernel
  obtain ⟨-, -, hback, hsum, -⟩ := addFelt_moves_exactly a
  have hsigned : x.signed = -0x8000000000000000 := by decide +kernel
  refine ⟨hdown, ?_, hup, ?_⟩
  · rw [hback x _ hdown, if_pos hsigned]
  · exact hsum x Felt.one _ _ hdown hup (by decide +kernel) (by decide +kernel)

end Address

end CellHints
