import CellHints.Proofs.Felt.Canonical

/-!
# The signed view of the field

Every integer has one representative between `-halfPrime` and `halfPrime`, and that is the
signed reading of its residue.  Signed words are what the signed reading is narrowed to,
unsigned words what the residue is narrowed to: the residue of -1 has a signed word and NO
unsigned one.
-/

namespace CellHints.Felt

/-- The only representative of an integer between the halves of the modulus. -/
theorem eq_signed_ofInt_iff {v z : Int} :
    v = (ofInt z).signed ↔ -(halfPrime : Int) ≤ v ∧ v ≤ halfPrime ∧ v ≡ z [ZMOD prime] := by
  constructor
  · rintro rfl
    exact ⟨neg_halfPrime_le_signed _, signed_le_halfPrime _,
      Int.modEq_iff_dvd.2 (dvd_sub_signed_ofInt z)⟩
  · rintro ⟨hlo, hhi, hmod⟩
    have heq : ofInt z = ofInt v := ofInt_eq_ofInt_iff.2 (Int.modEq_iff_dvd.1 hmod)
    rw [heq, signed_ofInt_of_le hlo hhi]

/-! ### Narrowing -/

/-- Whether `result` is what `z` is narrowed to, where the words denote the integers from
`lo` to below `hi`: the word that denotes `z`, and none exactly if `z` lies outside. -/
structure Narrows {W : Type} (denotes : W → Int) (lo hi z : Int) (result : Option W) : Prop where
  eq_some_iff : ∀ w, result = some w ↔ denotes w = z
  eq_none_iff : result = none ↔ z < lo ∨ hi ≤ z

/-- Where the words denote nothing but the integers of a range, and each of them, it is
enough to know when a word is found. -/
theorem Narrows.of_eq_some_iff {W : Type} {denotes : W → Int} {lo hi z : Int} {result : Option W}
    (hrange : ∀ w, lo ≤ denotes w ∧ denotes w < hi) (hall : lo ≤ z → z < hi → ∃ w, denotes w = z)
    (hsome : ∀ w, result = some w ↔ denotes w = z) : Narrows denotes lo hi z result where
  eq_some_iff := hsome
  eq_none_iff := by
    rw [Option.eq_none_iff_forall_ne_some]
    constructor
    · intro hnone
      by_contra hinside
      obtain ⟨w, hw⟩ := hall (by omega) (by omega)
      exact hnone w ((hsome w).2 hw)
    · intro houtside w hw
      have hbounds := hrange w
      rw [(hsome w).1 hw] at hbounds
      omega

/-- Unsigned words, each given by a natural number below `size`. -/
theorem Narrows.of_unsigned {W : Type} {toNat : W → Nat} {ofNat : Nat → W} {size n : Nat}
    {result : Option W} (hlt : ∀ w, toNat w < size) (hof : n < size → toNat (ofNat n) = n)
    (hsome : ∀ w, result = some w ↔ toNat w = n) :
    Narrows (fun w => (toNat w : Int)) 0 size n result := by
  refine .of_eq_some_iff ?_ ?_ ?_
  · intro w
    have hw := hlt w
    omega
  · intro _ hn
    exact ⟨ofNat n, by exact_mod_cast hof (by exact_mod_cast hn)⟩
  · intro w
    exact (hsome w).trans Int.natCast_inj.symm

section Words

variable (x : Felt)

theorem narrows_toInt16? : Narrows Int16.toInt (-0x8000) 0x8000 x.signed x.toInt16? := by
  refine .of_eq_some_iff (fun w => ⟨w.le_toInt, w.toInt_lt⟩) ?_ fun w => ?_
  · intro hlo hhi
    exact ⟨Int16.ofInt x.signed, Int16.toInt_ofInt_of_le hlo hhi⟩
  · exact Narrow.toInt16?_eq_some_iff

theorem narrows_toInt64? :
    Narrows Int64.toInt (-0x8000000000000000) 0x8000000000000000 x.signed x.toInt64? := by
  refine .of_eq_some_iff (fun w => ⟨w.le_toInt, w.toInt_lt⟩) ?_ fun w => ?_
  · intro hlo hhi
    exact ⟨Int64.ofInt x.signed, Int64.toInt_ofInt_of_le hlo hhi⟩
  · exact Narrow.toInt64?_eq_some_iff

theorem narrows_toUInt32? :
    Narrows (fun w : UInt32 => (w.toNat : Int)) 0 UInt32.size x.val x.toUInt32? :=
  .of_unsigned UInt32.toNat_lt_size UInt32.toNat_ofNat_of_lt' fun _ =>
    Narrow.toUInt32?_eq_some_iff

theorem narrows_toUInt64? :
    Narrows (fun w : UInt64 => (w.toNat : Int)) 0 UInt64.size x.val x.toUInt64? :=
  .of_unsigned UInt64.toNat_lt_size UInt64.toNat_ofNat_of_lt' fun _ =>
    Narrow.toUInt64?_eq_some_iff

theorem narrows_toUSize? :
    Narrows (fun w : USize => (w.toNat : Int)) 0 USize.size x.val x.toUSize? :=
  .of_unsigned USize.toNat_lt_size USize.toNat_ofNat_of_lt' fun _ =>
    Narrow.toUSize?_eq_some_iff

end Words

/-- The signed reading of an integer's residue, which is the number that remainders of
either sign come to, is the representative of that integer between the halves of the
modulus, and nothing is lost by it.  It is odd, positive where the field element counts as
positive, and what signed words are made of; unsigned words are made of the residue. -/
theorem signed_represents :
    (∀ z : Int,
      Stored.ofInt z = .ok (ofInt z).val ∧
      (∀ v : Int, v = (ofInt z).signed ↔
        -(halfPrime : Int) ≤ v ∧ v ≤ halfPrime ∧ v ≡ z [ZMOD prime]) ∧
      ofInt (ofInt z).signed = ofInt z) ∧
    ∀ x : Felt,
      (-x).signed = -x.signed ∧ (x.isPositive = true ↔ 0 < x.signed) ∧
      Narrows Int16.toInt (-0x8000) 0x8000 x.signed x.toInt16? ∧
      Narrows Int64.toInt (-0x8000000000000000) 0x8000000000000000 x.signed x.toInt64? ∧
      Narrows (fun w : UInt32 => (w.toNat : Int)) 0 UInt32.size x.val x.toUInt32? ∧
      Narrows (fun w : UInt64 => (w.toNat : Int)) 0 UInt64.size x.val x.toUInt64? ∧
      Narrows (fun w : USize => (w.toNat : Int)) 0 USize.size x.val x.toUSize? := by
  constructor
  · intro z
    exact ⟨Stored.ofInt_eq_val z, fun v => eq_signed_ofInt_iff, ofInt_signed (ofInt z)⟩
  · intro x
    exact ⟨signed_neg x, isPositive_iff x, narrows_toInt16? x, narrows_toInt64? x,
      narrows_toUInt32? x, narrows_toUInt64? x, narrows_toUSize? x⟩

/-- The two sides of the cut in the middle of the field. -/
example : (ofInt halfPrime).signed = halfPrime ∧ (ofInt (halfPrime + 1)).signed = -halfPrime := by
  decide +kernel

end CellHints.Felt
