import CellHints.Document.Reader

/-!
# Strings and numbers read back

What a string or an integer is written as is read in full, and what follows is
left.  A quote, a backslash and the controls are never written as themselves, so
the body of a string holds no quote that could end it early.  A number ends where
nothing that could belong to it follows.
-/

namespace CellHints.Document

/-- Both digits of a control character in hexadecimal, read back. -/
theorem hexValue?_digitChar {d : Nat} (h : d < 16) : hexValue? (Nat.digitChar d) = some d := by
  have hall : ∀ d < 16, hexValue? (Nat.digitChar d) = some d := by decide
  exact hall d h

theorem hexValue4?_control {n : Nat} (h : n < 0x20) :
    hexValue4? '0' '0' (Nat.digitChar (n / 16)) (Nat.digitChar (n % 16)) = some n := by
  have hzero : hexValue? '0' = some 0 := by decide
  unfold hexValue4?
  rw [hzero, hexValue?_digitChar (by omega), hexValue?_digitChar (by omega)]
  simp only [Option.bind_eq_bind, Option.bind_some, Option.pure_def]
  exact congrArg some (by omega)

/-- The ways in which a character is spelled. -/
inductive Spelled (c : Char) : List Char → Prop
  | plain (quote : c ≠ '"') (backslash : c ≠ '\\') (control : ¬c.toNat < 0x20) : Spelled c [c]
  | short {e : Char} (other : e ≠ 'u') (found : escapes.lookup e = some c) : Spelled c ['\\', e]
  | control (h : c.toNat < 0x20) :
      Spelled c ['\\', 'u', '0', '0', Nat.digitChar (c.toNat / 16), Nat.digitChar (c.toNat % 16)]

theorem spelled_escape (c : Char) : Spelled c (escape c) := by
  unfold escape
  split
  · next h => subst h; exact .short (by decide) (by decide)
  split
  · next h => subst h; exact .short (by decide) (by decide)
  split
  · next h => subst h; exact .short (by decide) (by decide)
  split
  · next h => subst h; exact .short (by decide) (by decide)
  split
  · next h => subst h; exact .short (by decide) (by decide)
  split
  · next h => subst h; exact .short (by decide) (by decide)
  split
  · next h => subst h; exact .short (by decide) (by decide)
  split
  · next h => exact .control h
  · next hquote hbackslash _ _ _ _ _ hcontrol => exact .plain hquote hbackslash hcontrol

namespace Spelled

variable {c : Char} {w : List Char}

theorem takeBody_append (h : Spelled c w) (s : List Char) :
    takeBody (w ++ s) = (takeBody s).map fun p => (w ++ p.1, p.2) := by
  cases h with
  | plain quote backslash control =>
      rw [List.singleton_append, takeBody]
      · rw [if_neg control]
        cases takeBody s <;> rfl
      · exact quote
      · rintro _ _ _ _ _ rfl
        contradiction
      · rintro _ _ rfl
        contradiction
  | short other found =>
      simp only [List.cons_append, List.nil_append]
      rw [takeBody]
      · rw [found]
        cases takeBody s <;> rfl
      · rintro _ _ _ _ _ rfl
        contradiction
  | control h =>
      simp only [List.cons_append, List.nil_append]
      rw [takeBody, hexValue4?_control h]
      cases takeBody s <;> rfl

theorem unescape_append (h : Spelled c w) (s : List Char) :
    unescape (w ++ s) = (unescape s).map (c :: ·) := by
  cases h with
  | plain quote backslash control =>
      rw [List.singleton_append, unescape]
      · cases unescape s <;> rfl
      · rintro _ _ _ _ _ rfl
        contradiction
      · rintro _ _ rfl
        contradiction
  | short other found =>
      simp only [List.cons_append, List.nil_append]
      rw [unescape]
      · rw [found]
        cases unescape s <;> rfl
      · rintro _ _ _ _ _ rfl
        contradiction
  | control h =>
      -- A control character is no surrogate.
      have hhigh : ¬(0xd800 ≤ c.toNat ∧ c.toNat < 0xdc00) := by omega
      have hlow : ¬(0xdc00 ≤ c.toNat ∧ c.toNat < 0xe000) := by omega
      simp only [List.cons_append, List.nil_append]
      rw [unescape, hexValue4?_control h]
      simp only [Option.bind_eq_bind, Option.bind_some, if_neg hhigh, if_neg hlow, Char.ofNat_toNat]
      cases unescape s <;> rfl

end Spelled

/-- The body of a string is read up to its closing quote. -/
theorem takeBody_spell (s : String) (rest : List Char) :
    takeBody (spell s ++ '"' :: rest) = some (spell s, rest) := by
  unfold spell
  induction s.toList with
  | nil => rw [List.flatMap_nil, List.nil_append, takeBody]
  | cons c cs ih =>
      rw [List.flatMap_cons, List.append_assoc, (spelled_escape c).takeBody_append, ih]
      rfl

/-- A text that was spelled is what its spelling stands for. -/
@[simp] theorem spoken?_spell (s : String) : spoken? (spell s) = some s := by
  have hcs : ∀ cs : List Char, unescape (cs.flatMap escape) = some cs := by
    intro cs
    induction cs with
    | nil => rfl
    | cons c cs ih =>
        rw [List.flatMap_cons, (spelled_escape c).unescape_append, ih]
        rfl
  unfold spoken? spell
  rw [hcs, Option.map_some, String.ofList_toList]

/-! ### Digits -/

theorem ne_of_isDigit {c x : Char} (h : c.isDigit = true) (hx : x.isDigit = false) : c ≠ x := by
  rintro rfl
  rw [h] at hx
  contradiction

theorem escape_of_isDigit {c : Char} (h : c.isDigit = true) : escape c = [c] := by
  have hcontrol : ¬c.toNat < 0x20 := by
    have hlow : 48 ≤ c.toNat := by
      simp only [Char.isDigit, Bool.and_eq_true, decide_eq_true_eq] at h
      exact UInt32.le_iff_toNat_le.1 h.1
    omega
  unfold escape
  simp only [ne_of_isDigit h (x := '"') (by decide), ne_of_isDigit h (x := '\\') (by decide),
    ne_of_isDigit h (x := '\x08') (by decide), ne_of_isDigit h (x := '\x0c') (by decide),
    ne_of_isDigit h (x := '\n') (by decide), ne_of_isDigit h (x := '\r') (by decide),
    ne_of_isDigit h (x := '\t') (by decide), hcontrol, if_false]

/-- A text of digits is spelled as it is. -/
theorem spell_ofNat (n : Nat) : spell (Decimal.ofNat n) = (Decimal.ofNat n).toList := by
  have hcs : ∀ cs : List Char, (∀ c ∈ cs, c.isDigit = true) → cs.flatMap escape = cs := by
    intro cs hdigits
    induction cs with
    | nil => rfl
    | cons c cs ih =>
        obtain ⟨hc, hcs⟩ := List.forall_mem_cons.1 hdigits
        rw [List.flatMap_cons, escape_of_isDigit hc, ih hcs]
        rfl
  exact hcs _ fun c hc => Decimal.isDigit_of_mem_ofNat hc

/-- Whether a character is no part of a number, the signs in it apart. -/
def BreaksNumber (c : Char) : Prop := c.isDigit = false ∧ c ≠ '.' ∧ c ≠ 'e' ∧ c ≠ 'E'

instance : DecidablePred BreaksNumber := fun _ => inferInstanceAs (Decidable (_ ∧ _))

/-- Whether a number that was read ends where the rest begins. -/
def EndsNumber (rest : List Char) : Prop := ∀ c ∈ rest.head?, BreaksNumber c

namespace EndsNumber

variable {rest : List Char}

theorem nil : EndsNumber [] := nofun

theorem cons {c : Char} (h : BreaksNumber c) (rest : List Char) : EndsNumber (c :: rest) := by
  rintro _ ⟨⟩
  exact h

theorem takeDigits_append (h : EndsNumber rest) {ds : List Char} (hne : ds ≠ [])
    (hds : ∀ c ∈ ds, c.isDigit = true) : takeDigits (ds ++ rest) = some (ds, rest) := by
  have hrest : rest.takeWhile Char.isDigit = [] ∧ rest.dropWhile Char.isDigit = rest := by
    cases rest with
    | nil => exact ⟨rfl, rfl⟩
    | cons c cs =>
        have hc : ¬c.isDigit = true := by
          rw [(h c rfl).1]
          decide
        exact ⟨List.takeWhile_cons_of_neg hc, List.dropWhile_cons_of_neg hc⟩
  unfold takeDigits
  rw [List.takeWhile_append_of_pos hds, List.dropWhile_append_of_pos hds, hrest.1, hrest.2,
    List.append_nil]
  simp only [List.isEmpty_iff, if_neg hne]

theorem takeFraction_eq (h : EndsNumber rest) : takeFraction rest = some ([], rest) := by
  rw [takeFraction]
  rintro behind rfl
  exact (h '.' rfl).2.1 rfl

theorem takeExponent_eq (h : EndsNumber rest) : takeExponent rest = some ([], rest) := by
  cases rest with
  | nil => rfl
  | cons c cs =>
      obtain ⟨-, -, hsmall, hcapital⟩ := h c rfl
      exact if_neg (not_or.2 ⟨hsmall, hcapital⟩)

theorem takeUnsigned_append (h : EndsNumber rest) (negative : Bool) {n : Nat}
    (hzero : ¬(negative = true ∧ n = 0)) :
    takeUnsigned negative ((Decimal.ofNat n).toList ++ rest) =
      some (.integer (if negative then -(n : Int) else n), rest) := by
  have hdigits := h.takeDigits_append (Decimal.toList_ofNat_ne_nil n)
    fun c hc => Decimal.isDigit_of_mem_ofNat hc
  have hfront : ¬((Decimal.ofNat n).toList.head? = some '0' ∧
      (Decimal.ofNat n).toList.length ≠ 1) := fun h => h.2 (Decimal.length_ofNat_of_head? h.1)
  unfold takeUnsigned
  simp only [hdigits, h.takeFraction_eq, h.takeExponent_eq, Option.bind_eq_bind, Option.bind_some,
    if_neg hfront, List.append_nil, ofNumber, Decimal.value_ofNat, true_and, hzero, not_false_iff,
    if_true]
  rfl

/-- An integer is read in full. -/
theorem takeNumber_append (h : EndsNumber rest) (z : Int) :
    takeNumber ((Decimal.ofInt z).toList ++ rest) = some (.integer z, rest) := by
  cases z with
  | ofNat n =>
      unfold Decimal.ofInt
      rw [takeNumber, h.takeUnsigned_append false (by simp)]
      · rfl
      · intro behind hminus
        obtain ⟨c, cs, hds, hc⟩ := Decimal.exists_cons_ofNat n
        rw [hds, List.cons_append] at hminus
        exact ne_of_isDigit hc (by decide) (List.cons.inj hminus).1
  | negSucc n =>
      unfold Decimal.ofInt
      rw [String.toList_append, List.append_assoc]
      exact h.takeUnsigned_append true (by simp)

end EndsNumber

end CellHints.Document
