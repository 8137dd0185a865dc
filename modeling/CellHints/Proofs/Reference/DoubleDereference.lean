import CellHints.Proofs.Reference.Accumulation
import CellHints.Proofs.Reference.Pointee
import CellHints.Proofs.Reference.Printing

/-!
# Two notations for the cell behind a pointer

`cast([[p] s n], T)` shifts the pointer stored at `p` inside the cast, and
`[cast([p] s n, T)]` reads what the shifted pointer of the cast leads to.  The first
takes the literal as it stands; the second reads the residue of the literal under its
sign.  So what the first accepts means the same in the second, but NOT the other way
round: the second also goes 32768 cells back, and takes a literal for a distance that
it differs from by a multiple of the modulus.
-/

namespace CellHints.Tree

open Token (Cuts)

variable {p : Place} {s : Sign} {n : Literal} {T : TypeName} {c : Cell}

/-- A sign in text. -/
def Sign.text : Sign → String
  | plus => "+"
  | minus => "-"

/-- The text `cast([[p] s n], T)`. -/
def innerShiftText (p : String) (s : Sign) (n T : String) : String :=
  "cast(" ++ ("[[" ++ p ++ "] " ++ s.text ++ " " ++ n ++ "]") ++ ", " ++ T ++ ")"

/-- The text `[cast([p] s n, T)]`. -/
def outerShiftText (p : String) (s : Sign) (n T : String) : String :=
  "[" ++ ("cast(" ++ ("[" ++ p ++ "] " ++ s.text ++ " " ++ n) ++ ", " ++ T ++ ")") ++ "]"

/-- The tree of `cast([[p] s n], T)`. -/
def innerShift (p : Place) (s : Sign) (n : Literal) (T : TypeName) : Tree :=
  .plain ⟨⟨.factor (.doubleDerefShifted p s n), []⟩, T⟩

/-- The tree of `[cast([p] s n, T)]`. -/
def outerShift (p : Place) (s : Sign) (n : Literal) (T : TypeName) : Tree :=
  .bracketed ⟨⟨.factor (.deref p), [(s, .factor (.integer n))]⟩, T⟩

/-! ### The two texts -/

/-- A sign between blanks ends the token in front of it. -/
theorem cuts_sign {cs rest : List Char} {ts us : List Token} (h : Cuts cs ts) (s : Sign)
    (hrest : Cuts rest us) :
    Cuts (cs ++ ' ' :: s.text.toList ++ ' ' :: rest) (ts ++ (Lexeme.sign s).token :: us) := by
  have hbehind : Cuts (' ' :: rest) us := .separator (by decide) hrest
  rw [List.append_assoc]
  cases s with
  | plus =>
      exact h.append_cons (by decide) (.separator (by decide) (Token.isMark_plus.cuts hbehind))
  | minus =>
      exact h.append_cons (by decide) (.separator (by decide) (Token.isMark_minus.cuts hbehind))

section Texts

variable {pText nText TText : String}

theorem ofText_innerShiftText (hp : Writes Place.Spells pText.toList p)
    (hn : Writes Literal.Spells nText.toList n) (hT : Writes TypeName.Spells TText.toList T)
    (s : Sign) : ofText (innerShiftText pText s nText TText) = .ok (innerShift p s n T) := by
  obtain ⟨w, hw, hcuts⟩ := hp
  obtain ⟨u, hu, hcuts'⟩ := hn
  refine ofText_cast ⟨_, .mk (.factor (.doubleDerefShifted s hw hu)) .nil, ?_⟩ hT
  have hshifted := cuts_brackets (cuts_sign (cuts_brackets hcuts) s hcuts')
  simpa [Lexeme.openBracket, Lexeme.closeBracket] using hshifted

theorem ofText_outerShiftText (hp : Writes Place.Spells pText.toList p)
    (hn : Writes Literal.Spells nText.toList n) (hT : Writes TypeName.Spells TText.toList T)
    (s : Sign) : ofText (outerShiftText pText s nText TText) = .ok (outerShift p s n T) := by
  obtain ⟨w, hw, hcuts⟩ := hp
  obtain ⟨u, hu, hcuts'⟩ := hn
  refine ofText_bracketed_iff.2 ⟨_, rfl, ofText_cast ⟨_, .mk (.factor (.deref hw))
    (.cons s (.factor (.integer hu)) .nil), ?_⟩ hT⟩
  have hshifted := cuts_sign (cuts_brackets hcuts) s hcuts'
  simpa [Lexeme.openBracket, Lexeme.closeBracket] using hshifted

end Texts

/-! ### The two references -/

/-- Inside the cast the literal is a distance as it stands. -/
theorem reference_innerShift (hc : p.cell = .ok c) :
    (innerShift p s n T).reference = (s.distance n.value).map (.doubleDeref c) := by
  have hfactor : (Factor.doubleDerefShifted p s n).reference =
      (s.distance n.value).map (.doubleDeref c) := by
    simp only [Factor.reference, hc]
    cases s.distance n.value <;> rfl
  change Chain.reference ⟨.factor (.doubleDerefShifted p s n), []⟩ = _
  cases hd : s.distance n.value with
  | error e =>
      rw [hd] at hfactor
      simp only [Chain.reference, Term.reference, hfactor]
      rfl
  | ok w =>
      rw [hd] at hfactor
      exact Chain.reference_of_no_cell hfactor rfl

/-- A constant under a sign is the residue of the integer under that sign. -/
theorem Sign.apply_immediate (s : Sign) (z : Int) :
    s.apply (.immediate (Felt.ofInt z)) = .immediate (Felt.ofInt (s.times z)) := by
  cases s with
  | plus => rfl
  | minus =>
      simp only [apply, negate, times]
      rw [Felt.ofInt_neg]

/-- Outside the cast the literal under its sign is read from its residue. -/
theorem reference_outerShift (hc : p.cell = .ok c) :
    (outerShift p s n T).reference =
      match (Felt.ofInt (s.times n.value)).toInt16? with
      | some w => .ok (.doubleDeref c w)
      | none => .error .invalidDerefBinaryOp := by
  have hfirst : (Term.factor (.deref p)).reference = .ok (.deref c) := by
    simp only [Term.reference, Factor.reference, hc]
    rfl
  have hchain : Chain.reference ⟨.factor (.deref p), [(s, .factor (.integer n))]⟩ =
      .ok (.binary .add (.deref c) (.immediate (Felt.ofInt (s.times n.value)))) := by
    rw [Chain.reference_of_no_cell hfirst rfl, ← Sign.apply_immediate]
    rfl
  simp only [outerShift, reference, hchain]
  rfl

/-- A place is only refused for a distance that does not fit. -/
theorem Place.cell_eq_error {e : EvaluationError} (h : p.cell = .error e) :
    e = .offsetOverflow := by
  cases p with
  | bare r => contradiction
  | shifted r s n =>
      simp only [cell] at h
      cases hd : s.distance n.value with
      | ok w =>
          rw [hd] at h
          contradiction
      | error e' =>
          rw [hd] at h
          cases h
          exact Sign.distance_eq_error hd

/-- Without a cell to read neither notation means anything. -/
theorem reference_shift_eq_error {e : EvaluationError} (h : p.cell = .error e) :
    (innerShift p s n T).reference = .error e ∧ (outerShift p s n T).reference = .error e := by
  constructor
  · simp only [innerShift, reference, Chain.reference, Term.reference, Factor.reference, h]
    rfl
  · simp only [outerShift, reference, Chain.reference, Term.reference, Factor.reference, h]
    rfl

/-! ### The literals that tell them apart -/

/-- Whether a literal is a distance outside the cast and none inside: it is 32768 under a
minus sign, or it is larger and its residue under the sign reads as a distance. -/
def Literal.OnlyOutside (s : Sign) (n : Literal) : Prop :=
  s = .minus ∧ n.value = 0x8000 ∨
    0x8000 < n.value.natAbs ∧ FitsInt16 (Felt.ofInt (s.times n.value)).signed

theorem Sign.natAbs_times (s : Sign) (z : Int) : (s.times z).natAbs = z.natAbs := by
  cases s with
  | plus => rfl
  | minus => exact Int.natAbs_neg z

/-- Up to 32768 an integer under a sign is the reading of its own residue. -/
theorem Sign.signed_ofInt_times {z : Int} (h : z.natAbs ≤ 0x8000) :
    (Felt.ofInt (s.times z)).signed = s.times z := by
  have hhalf : (0x8000 : Int) ≤ (halfPrime : Int) := by decide
  have habs := s.natAbs_times z
  exact Felt.signed_ofInt_of_le (by omega) (by omega)

theorem Sign.fits_iff_fitsInt16 {z : Int} : s.Fits z ↔ FitsInt16 z ∧ FitsInt16 (s.times z) :=
  Iff.rfl

/-- What fits inside the cast is its own reading outside. -/
theorem Sign.Fits.fitsInt16_signed {z : Int} (h : s.Fits z) :
    (Felt.ofInt (s.times z)).signed = s.times z ∧ FitsInt16 (Felt.ofInt (s.times z)).signed := by
  have hread : (Felt.ofInt (s.times z)).signed = s.times z := by
    apply Sign.signed_ofInt_times
    have hlo := h.1.1
    have hhi := h.1.2
    omega
  refine ⟨hread, ?_⟩
  rw [hread]
  exact h.2

/-- A literal that does not fit inside the cast is a distance outside exactly if it is one of
those that tell the notations apart. -/
theorem Literal.onlyOutside_iff (hout : ¬s.Fits n.value) :
    n.OnlyOutside s ↔ FitsInt16 (Felt.ofInt (s.times n.value)).signed := by
  constructor
  · rintro (⟨rfl, hn⟩ | ⟨-, hread⟩)
    · rw [hn]
      decide +kernel
    · exact hread
  · intro hread
    by_cases hlarge : 0x8000 < n.value.natAbs
    · exact Or.inr ⟨hlarge, hread⟩
    · rw [Sign.signed_ofInt_times (Nat.le_of_not_lt hlarge)] at hread
      rw [Sign.fits_iff_fitsInt16] at hout
      unfold FitsInt16 at hout hread
      refine Or.inl ?_
      cases s with
      | plus =>
          simp only [Sign.times] at hout hread
          omega
      | minus =>
          simp only [Sign.times] at hout hread
          exact ⟨rfl, by omega⟩

theorem reference_outerShift_of_fits (hc : p.cell = .ok c)
    (hread : FitsInt16 (Felt.ofInt (s.times n.value)).signed) :
    ∃ w : Int16, w.toInt = (Felt.ofInt (s.times n.value)).signed ∧
      (outerShift p s n T).reference = .ok (.doubleDeref c w) := by
  have hword := Int16.toInt_ofInt_of_le hread.1 hread.2
  have hnarrow : (Felt.ofInt (s.times n.value)).toInt16? =
      some (Int16.ofInt (Felt.ofInt (s.times n.value)).signed) :=
    Narrow.toInt16?_eq_some_iff.2 hword
  refine ⟨_, hword, ?_⟩
  rw [reference_outerShift hc, hnarrow]

theorem reference_outerShift_of_not_fits (hc : p.cell = .ok c)
    (hread : ¬FitsInt16 (Felt.ofInt (s.times n.value)).signed) :
    (outerShift p s n T).reference = .error .invalidDerefBinaryOp := by
  have hnarrow : (Felt.ofInt (s.times n.value)).toInt16? = none :=
    Narrow.toInt16?_eq_none_iff.2 hread
  rw [reference_outerShift hc, hnarrow]

end CellHints.Tree

namespace CellHints.Reference

open CellHints.Tree

/-- The answer to a text is that to its tree. -/
theorem ofText_of_tree {u : String} {t : Tree} (h : Tree.ofText u = .ok t) :
    ofText u = t.reference.mapError .meaningless := by
  unfold ofText ofTypedText
  rw [h]
  dsimp only
  cases t.reference <;> rfl

/-- What a shift inside the cast denotes, the shift outside denotes too: the content of the cell
that lies exactly that far behind the pointer.  Of the other literals, the outer notation takes
32768 under a minus sign and the larger ones whose residue reads as a distance, and no more;
with a place that is no cell both notations fail. -/
theorem doubleDeref_notations {pText nText TText : String} {p : Place} {n : Literal}
    {T : TypeName} (hp : Writes Place.Spells pText.toList p)
    (hn : Writes Literal.Spells nText.toList n) (hT : Writes TypeName.Spells TText.toList T)
    (s : Sign) :
    let inner := ofText (innerShiftText pText s nText TText)
    let outer := ofText (outerShiftText pText s nText TText)
    (∀ r, inner = .ok r → outer = .ok r ∧
      ∃ c w, p.cell = .ok c ∧ r = .doubleDeref c w ∧ w.toInt = s.times n.value) ∧
    (∀ c e, p.cell = .ok c → inner = .error e → e = .meaningless .offsetOverflow ∧
      (n.OnlyOutside s → ∃ w : Int16, w.toInt = (Felt.ofInt (s.times n.value)).signed ∧
        outer = .ok (.doubleDeref c w)) ∧
      (¬n.OnlyOutside s → outer = .error (.meaningless .invalidDerefBinaryOp))) ∧
    (∀ e, p.cell = .error e → inner = .error (.meaningless .offsetOverflow) ∧
      outer = .error (.meaningless .offsetOverflow)) := by
  intro inner outer
  have hinner : inner = _ := ofText_of_tree (ofText_innerShiftText hp hn hT s)
  have houter : outer = _ := ofText_of_tree (ofText_outerShiftText hp hn hT s)
  rw [hinner, houter]
  cases hcell : p.cell with
  | error e =>
      obtain rfl := Place.cell_eq_error hcell
      obtain ⟨hin, hout⟩ := reference_shift_eq_error (n := n) (s := s) (T := T) hcell
      rw [hin, hout]
      exact ⟨nofun, nofun, fun _ _ => ⟨rfl, rfl⟩⟩
  | ok c =>
      rw [reference_innerShift hcell]
      refine ⟨?_, ?_, nofun⟩
      · intro r hr
        obtain ⟨w, hw, rfl⟩ := Except.map_eq_ok_iff.1 (Except.mapError_eq_ok_iff.1 hr)
        obtain ⟨hfits, htimes⟩ := Sign.distance_eq_ok_iff.1 hw
        obtain ⟨hsame, hread⟩ := hfits.fitsInt16_signed
        obtain ⟨w', hw', hout⟩ := reference_outerShift_of_fits (T := T) hcell hread
        obtain rfl : w' = w := Int16.toInt_inj.1 (by rw [hw', hsame, htimes])
        rw [hout]
        exact ⟨rfl, c, w', rfl, rfl, htimes⟩
      · intro c' e hc' he
        obtain rfl : c = c' := Except.ok.inj hc'
        -- The place is a cell, so it is the literal that does not fit.
        have hnot : ¬s.Fits n.value := by
          rw [← Sign.exists_distance_iff]
          rintro ⟨w, hw⟩
          rw [hw] at he
          contradiction
        rw [Sign.distance_eq_error_iff.2 hnot] at he
        cases he
        rw [Literal.onlyOutside_iff hnot]
        refine ⟨rfl, ?_, ?_⟩
        · intro hread
          obtain ⟨w, hw, hout⟩ := reference_outerShift_of_fits (T := T) hcell hread
          rw [hout]
          exact ⟨w, hw, rfl⟩
        · intro hread
          rw [reference_outerShift_of_not_fits hcell hread]
          rfl

/-- The least distance can be written outside the cast and not inside. -/
theorem doubleDeref_notations_least_distance :
    let p : Place := .shifted .fp .minus (.plain 2)
    Writes Place.Spells "fp - 2".toList p ∧
      Writes Literal.Spells "32768".toList (.plain 0x8000) ∧
      Writes TypeName.Spells "felt*".toList ⟨"felt", [], 1⟩ ∧
      ofText "cast([[fp - 2] - 32768], felt*)" = .error (.meaningless .offsetOverflow) ∧
      ofText "[cast([fp - 2] - 32768, felt*)]" = .ok (.doubleDeref ⟨.fp, -2⟩ (-32768)) := by
  intro p
  have hp : Writes Place.Spells "fp - 2".toList p :=
    ⟨_, .shifted .fp .minus (.plain "2"),
      Token.tokenize_eq_ok_iff_cuts.1 ⟨[⟨.ident "fp", 0, 2⟩, ⟨.minus, 3, 4⟩, ⟨.number "2", 5, 6⟩],
        by decide +kernel, rfl⟩⟩
  have hn : Writes Literal.Spells "32768".toList (.plain 0x8000) :=
    ⟨_, .plain "32768",
      Token.tokenize_eq_ok_iff_cuts.1 ⟨[⟨.number "32768", 0, 5⟩], by decide +kernel, rfl⟩⟩
  have hT : Writes TypeName.Spells "felt*".toList ⟨"felt", [], 1⟩ :=
    ⟨_, .mk "felt" [] 1 (by decide),
      Token.tokenize_eq_ok_iff_cuts.1 ⟨[⟨.ident "felt", 0, 4⟩, ⟨.star, 4, 5⟩],
        by decide +kernel, rfl⟩⟩
  have hcell : p.cell = .ok ⟨.fp, -2⟩ := by decide
  have hinner : ofText "cast([[fp - 2] - 32768], felt*)" =
      .error (.meaningless .offsetOverflow) := by
    decide +kernel
  obtain ⟨-, houter, -⟩ := (doubleDeref_notations hp hn hT .minus).2.1 _ _ hcell hinner
  obtain ⟨w, hw, hread⟩ := houter (Or.inl ⟨rfl, rfl⟩)
  have hleast : (Felt.ofInt (Sign.minus.times 0x8000)).signed = (-32768 : Int16).toInt := by
    decide +kernel
  obtain rfl : w = -32768 := Int16.toInt_inj.1 (hw.trans hleast)
  exact ⟨hp, hn, hT, hinner, hread⟩

end CellHints.Reference
