import CellHints.Proofs.Felt.Canonical
import CellHints.Text.Decimal
import Mathlib.Data.List.Induction
import Mathlib.Tactic.Ring

/-!
# Reading numerals

A numeral is read as the integer that its digits and its sign make up, whatever zeros and
blanks it has, and the field element is the residue of that integer.  Both texts of a field
element are numerals, of its residue and of its signed reading, so they are read back.
-/

namespace CellHints

namespace Numeral

/-! ### Digits -/

/-- A digit behind the others moves them one place up. -/
theorem placeValue_concat (ds : List (Fin 10)) (d : Fin 10) :
    placeValue (ds ++ [d]) = 10 * placeValue ds + d.val := by
  induction ds with
  | nil => simp [placeValue]
  | cons e ds ih =>
      have hplace : Nat.pow 10 (ds.length + 1) = 10 * Nat.pow 10 ds.length := pow_succ' 10 _
      simp only [List.cons_append, placeValue, List.length_append, List.length_singleton, ih,
        hplace]
      ring

/-- Zeros in front of other digits amount to nothing. -/
theorem placeValue_zeros_append (zeros : Nat) (ds : List (Fin 10)) :
    placeValue (List.replicate zeros 0 ++ ds) = placeValue ds := by
  induction zeros with
  | zero => rfl
  | succ zeros ih => simp [List.replicate_succ, placeValue, ih]

section Digit

variable (d : Fin 10)

theorem isDigit_digitChar : d.val.digitChar.isDigit = true := by
  rw [Nat.isDigit_digitChar]
  exact decide_eq_true d.isLt

theorem toNat_digitChar : d.val.digitChar.toNat - '0'.toNat = d.val := by
  simp [Nat.toNat_digitChar_of_lt_ten d.isLt]

theorem isBlank_digitChar : Blank.isBlank d.val.digitChar = false := by
  revert d
  decide

theorem digitChar_ne {c : Char} (hc : c.isDigit = false) : d.val.digitChar ≠ c := by
  rintro rfl
  rw [isDigit_digitChar] at hc
  contradiction

theorem exists_digitChar_eq {c : Char} (h : c.isDigit = true) :
    ∃ d : Fin 10, d.val.digitChar = c := by
  have hrange : 48 ≤ c.toNat ∧ c.toNat ≤ 57 := Char.isDigit_iff_toNat.1 h
  refine ⟨⟨c.toNat - 48, by omega⟩, Char.toNat_inj.1 ?_⟩
  show (c.toNat - 48).digitChar.toNat = c.toNat
  rw [Nat.toNat_digitChar_of_lt_ten (by omega)]
  omega

end Digit

theorem exists_of_mem_digitChars {c : Char} {ds : List (Fin 10)} (h : c ∈ digitChars ds) :
    ∃ d : Fin 10, d.val.digitChar = c := by
  obtain ⟨d, -, hd⟩ := List.mem_map.1 h
  exact ⟨d, hd⟩

/-- Digits are read as what they amount to. -/
theorem value_digitChars (ds : List (Fin 10)) : Decimal.value (digitChars ds) = placeValue ds := by
  -- What is read so far grows with each digit behind it, so the last one is split off.
  induction ds using List.reverseRecOn with
  | nil => rfl
  | append_singleton ds d ih =>
      rw [placeValue_concat, ← ih, ← toNat_digitChar d]
      simp [Decimal.value, digitChars, Nat.ofDigitChars_append, Nat.ofDigitChars_cons]

theorem exists_digitChars_eq {cs : List Char} (h : ∀ c ∈ cs, c.isDigit = true) :
    ∃ ds, digitChars ds = cs := by
  induction cs with
  | nil => exact ⟨[], rfl⟩
  | cons c cs ih =>
      obtain ⟨hc, hcs⟩ := List.forall_mem_cons.1 h
      obtain ⟨d, rfl⟩ := exists_digitChar_eq hc
      obtain ⟨ds, rfl⟩ := ih hcs
      exact ⟨d :: ds, rfl⟩

/-- The digits that a number is written with amount to it. -/
theorem exists_digits (n : Nat) :
    ∃ ds, ds ≠ [] ∧ digitChars ds = (Decimal.ofNat n).toList ∧ placeValue ds = n := by
  obtain ⟨ds, hds⟩ := exists_digitChars_eq fun c => Decimal.isDigit_of_mem_ofNat (n := n)
  refine ⟨ds, ?_, hds, ?_⟩
  · rintro rfl
    exact Decimal.toList_ofNat_ne_nil n hds.symm
  · rw [← value_digitChars, hds, Decimal.value_ofNat]

/-! ### Numerals -/

theorem readDigits_digitChars {ds : List (Fin 10)} (hne : ds ≠ []) :
    Felt.readDigits (digitChars ds) = .ok (placeValue ds) := by
  obtain ⟨d, ds, rfl⟩ := List.exists_cons_of_ne_nil hne
  have hall : ∀ c ∈ digitChars (d :: ds), c.isDigit = true ∧ c ≠ '_' := by
    intro c hc
    obtain ⟨e, rfl⟩ := exists_of_mem_digitChars hc
    exact ⟨isDigit_digitChar e, digitChar_ne e rfl⟩
  have hfilter : (digitChars (d :: ds)).filter (· ≠ '_') = digitChars (d :: ds) :=
    List.filter_eq_self.2 fun c hc => decide_eq_true (hall c hc).2
  have hmarks : (digitChars (d :: ds)).all fun c => c.isDigit || c = '_' :=
    List.all_eq_true.2 fun c hc => by simp [(hall c hc).1]
  have hread : Felt.readDigits (digitChars (d :: ds)) =
      .ok (Decimal.value ((digitChars (d :: ds)).filter (· ≠ '_'))) :=
    if_pos ⟨digitChar_ne d rfl, hmarks⟩
  rw [hread, hfilter, value_digitChars]

theorem readInteger_spelling (n : Numeral) : Felt.readInteger n.spelling = .ok n.value := by
  have hdigits := readDigits_digitChars n.digits_ne_nil
  unfold spelling value
  split
  · simp [Felt.readInteger, hdigits, Except.map]
  · -- The first digit is no sign.
    obtain ⟨d, ds, hds⟩ := List.exists_cons_of_ne_nil n.digits_ne_nil
    have hsign : Felt.readInteger (digitChars n.digits) =
        (Felt.readDigits (digitChars n.digits)).map fun k => (k : Int) := by
      rw [hds]
      unfold Felt.readInteger
      split
      · next heq => exact absurd (List.cons.inj heq).1 (digitChar_ne d rfl)
      · next heq => exact absurd (List.cons.inj heq).1 (digitChar_ne d rfl)
      · rfl
    rw [hsign, hdigits]
    rfl

theorem isBlank_of_mem_spelling (n : Numeral) : ∀ c ∈ n.spelling, Blank.isBlank c = false := by
  have hdigits : ∀ c ∈ digitChars n.digits, Blank.isBlank c = false := by
    intro c hc
    obtain ⟨d, rfl⟩ := exists_of_mem_digitChars hc
    exact isBlank_digitChar d
  unfold spelling
  split
  · exact List.forall_mem_cons.2 ⟨by decide, hdigits⟩
  · exact hdigits

theorem spelling_ne_nil (n : Numeral) : n.spelling ≠ [] := by
  have hne := n.digits_ne_nil
  unfold spelling digitChars
  split <;> simp [hne]

/-- A numeral is read as the integer that it writes. -/
theorem readInteger_text (n : Numeral) :
    Felt.readInteger (Blank.trim n.text.toList) = .ok n.value := by
  rw [text, String.toList_ofList,
    Blank.trim_between n.before n.after n.spelling_ne_nil n.isBlank_of_mem_spelling]
  exact n.readInteger_spelling

theorem ofText_text (n : Numeral) : Felt.ofText n.text = .ok (Felt.ofInt n.value) := by
  rw [Felt.ofText, n.readInteger_text]
  rfl

theorem value_pad (n : Numeral) (before after : Blank.Run) (zeros : Nat) :
    (n.pad before after zeros).value = n.value := by
  simp only [value, pad, placeValue_zeros_append]

/-- The text of an integer is a numeral. -/
theorem exists_text_eq (z : Int) : ∃ n : Numeral, n.text = Decimal.ofInt z ∧ n.value = z := by
  cases z with
  | ofNat k =>
      obtain ⟨ds, hne, hds, hvalue⟩ := exists_digits k
      refine ⟨⟨.nil, false, ds, .nil, hne⟩, ?_, ?_⟩
      · simp [text, spelling, Blank.Run.nil, hds, Decimal.ofInt]
      · simp [value, hvalue]
  | negSucc k =>
      obtain ⟨ds, hne, hds, hvalue⟩ := exists_digits (k + 1)
      refine ⟨⟨.nil, true, ds, .nil, hne⟩, ?_, ?_⟩
      · apply String.toList_injective
        simp [text, spelling, Blank.Run.nil, hds, Decimal.ofInt]
      · simp only [value, hvalue, if_true]
        omega

end Numeral

namespace Felt

theorem ofText_ofInt (z : Int) : ofText (Decimal.ofInt z) = .ok (ofInt z) := by
  obtain ⟨n, htext, rfl⟩ := Numeral.exists_text_eq z
  rw [← htext, n.ofText_text]

/-- Both texts of a field element are read back, and every numeral as the residue of the
integer that it writes, which is what is stored.  So numerals are read alike exactly if their
integers are congruent.  The text of an integer is a numeral of it, and so is that text with
any blanks around it and any number of zeros in front of its digits. -/
theorem ofText_reads_numerals :
    (∀ x : Felt, ofText x.text = .ok x ∧ ofText x.signedText = .ok x) ∧
    (∀ n : Numeral, ∃ x, ofText n.text = .ok x ∧ (Source.text n.text).stored = .ok x.val ∧
      IsResidue x.val n.value) ∧
    (∀ m n : Numeral, ofText m.text = ofText n.text ↔ m.value ≡ n.value [ZMOD prime]) ∧
    ∀ z : Int, ∃ n : Numeral, n.text = Decimal.ofInt z ∧
      ∀ before after zeros, (n.pad before after zeros).value = z := by
  refine ⟨fun x => ⟨?_, ?_⟩, fun n => ?_, fun m n => ?_, fun z => ?_⟩
  · have hread := ofText_ofInt x.val
    rwa [ofInt_val] at hread
  · have hread := ofText_ofInt x.signed
    rwa [ofInt_signed] at hread
  · have hstored : (Source.text n.text).stored = .ok (ofInt n.value).val := by
      simp only [Source.stored, Source.readText, n.readInteger_text]
      exact Stored.ofInt_eq_val n.value
    exact ⟨ofInt n.value, n.ofText_text, hstored, isResidue_ofInt n.value⟩
  · rw [m.ofText_text, n.ofText_text, Except.ok.injEq, ofInt_eq_ofInt_iff, Int.modEq_comm,
      Int.modEq_iff_dvd]
  · obtain ⟨n, htext, hvalue⟩ := Numeral.exists_text_eq z
    exact ⟨n, htext, fun before after zeros => (n.value_pad before after zeros).trans hvalue⟩

/-- An ideographic space, a sign, zeros and a line break. -/
example : ofText "\u3000-0003\n" = .ok (ofInt (-3)) := by decide +kernel

end Felt

end CellHints
