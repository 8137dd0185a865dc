import CellHints.Proofs.Reference.Distance
import CellHints.Proofs.Success
import Mathlib.Algebra.BigOperators.Group.List.Basic
import Mathlib.Data.List.Forall2

/-!
# Sums along a register

A sum that starts at a register cell moves the cell along, one summand after the
other.  Each summand is checked where it stands: it must be a constant, its
signed reading must be a distance, and the cell that it leads to must still have
a distance of 16 bits.  So a sum can fail although its total fits, and the order
of the summands decides whether it does, but NOT which cell it leads to.
-/

namespace CellHints

/-- Whether an integer is a signed 16-bit word. -/
def FitsInt16 (z : Int) : Prop := -0x8000 ≤ z ∧ z < 0x8000

instance : DecidablePred FitsInt16 := fun _ => inferInstanceAs (Decidable (_ ∧ _))

/-- A cell that is `z` cells further on than `c`, from the same register. -/
structure Cell.MovesTo (c : Cell) (z : Int) (d : Cell) : Prop where
  register_eq : d.register = c.register
  offset_eq : d.offset.toInt = c.offset.toInt + z

namespace Cell

variable {c d e : Cell} {z : Int}

theorem fitsInt16_offset (c : Cell) : FitsInt16 c.offset.toInt :=
  ⟨c.offset.le_toInt, c.offset.toInt_lt⟩

theorem MovesTo.refl (c : Cell) : c.MovesTo 0 c := ⟨rfl, (Int.add_zero _).symm⟩

/-- No two cells are equally far on. -/
theorem MovesTo.unique (h : c.MovesTo z d) (h' : c.MovesTo z e) : d = e := by
  have hregister : d.register = e.register := h.register_eq.trans h'.register_eq.symm
  have hoffset : d.offset = e.offset := by
    rw [← Int16.toInt_inj, h.offset_eq, h'.offset_eq]
  cases d
  cases e
  cases hregister
  cases hoffset
  rfl

/-- A cell can be moved as far as its distance fits. -/
theorem exists_movesTo_iff : (∃ d, c.MovesTo z d) ↔ FitsInt16 (c.offset.toInt + z) := by
  constructor
  · rintro ⟨d, hd⟩
    rw [← hd.offset_eq]
    exact d.fitsInt16_offset
  · intro h
    exact ⟨⟨c.register, Int16.ofInt (c.offset.toInt + z)⟩, rfl,
      Int16.toInt_ofInt_of_le h.1 h.2⟩

theorem shift?_eq_some_iff_movesTo {w : Int16} : c.shift? w = some d ↔ c.MovesTo w.toInt d := by
  rw [shift?_eq_some_iff]
  exact ⟨fun h => ⟨h.1, h.2⟩, fun h => ⟨h.1, h.2⟩⟩

end Cell

namespace Tree

/-- Whether a summand says the distance `z`: it is a constant, its signed reading
fits and is not the least word under a minus sign, and `z` is the reading under the sign. -/
def SaysDistance (summand : Sign × Term) (z : Int) : Prop :=
  ∃ x, summand.2.reference = .ok (.immediate x) ∧ FitsInt16 x.signed ∧
    (summand.1 = .minus → x.signed ≠ -0x8000) ∧ z = summand.1.times x.signed

/-- Whether the cells at distance `start` and behind each beginning of `zs` exist. -/
def StaysWithin (start : Int) (zs : List Int) : Prop :=
  ∀ k ≤ zs.length, FitsInt16 (start + (zs.take k).sum)

/-- Why a summand stops a sum that has come as far as `sum`. -/
inductive Stops (sum : Int) : Sign × Term → EvaluationError → Prop
  | meaningless {s : Sign} {t : Term} {e : EvaluationError} (h : t.reference = .error e) :
      Stops sum (s, t) e
  | notConstant {s : Sign} {t : Term} {r : Reference} (h : t.reference = .ok r)
      (hr : ∀ x, r ≠ .immediate x) : Stops sum (s, t) .invalidArithmetic
  | noDistance {s : Sign} {t : Term} {x : Felt} (h : t.reference = .ok (.immediate x))
      (hout : ¬(FitsInt16 x.signed ∧ (s = .minus → x.signed ≠ -0x8000))) :
      Stops sum (s, t) .offsetOverflow
  | leaves {s : Sign} {t : Term} {z : Int} (h : SaysDistance (s, t) z)
      (hout : ¬FitsInt16 (sum + z)) : Stops sum (s, t) .offsetOverflow

/-- Only the least word fits without its negative. -/
theorem Sign.fits_iff {s : Sign} {z : Int} :
    s.Fits z ↔ FitsInt16 z ∧ (s = .minus → z ≠ -0x8000) := by
  unfold Fits FitsInt16
  cases s with
  | plus => simp [times]
  | minus =>
      simp only [times, forall_const]
      omega

theorem saysDistance_iff {s : Sign} {t : Term} {z : Int} :
    SaysDistance (s, t) z ↔
      ∃ x w, t.reference = .ok (.immediate x) ∧ s.distance x.signed = .ok w ∧ w.toInt = z := by
  constructor
  · rintro ⟨x, hx, hfits, hminus, rfl⟩
    obtain ⟨w, hw⟩ := Sign.exists_distance_iff.2 (Sign.fits_iff.2 ⟨hfits, hminus⟩)
    exact ⟨x, w, hx, hw, (Sign.distance_eq_ok_iff.1 hw).2⟩
  · rintro ⟨x, w, hx, hw, rfl⟩
    obtain ⟨hfits, hw⟩ := Sign.distance_eq_ok_iff.1 hw
    obtain ⟨hfits, hminus⟩ := Sign.fits_iff.1 hfits
    exact ⟨x, hx, hfits, hminus, hw⟩

/-- A summand says one distance at most. -/
theorem SaysDistance.unique {summand : Sign × Term} {y z : Int} (hy : SaysDistance summand y)
    (hz : SaysDistance summand z) : y = z := by
  obtain ⟨x, hx, -, -, rfl⟩ := hy
  obtain ⟨x', hx', -, -, rfl⟩ := hz
  rw [hx] at hx'
  cases hx'
  rfl

namespace StaysWithin

variable {start z : Int} {zs : List Int}

theorem nil_iff : StaysWithin start [] ↔ FitsInt16 start := by
  simp [StaysWithin]

theorem cons_iff : StaysWithin start (z :: zs) ↔ FitsInt16 start ∧ StaysWithin (start + z) zs := by
  constructor
  · intro h
    refine ⟨by simpa using h 0 (Nat.zero_le _), fun k hk => ?_⟩
    simpa [Int.add_assoc] using h (k + 1) (Nat.succ_le_succ hk)
  · rintro ⟨hstart, h⟩ k hk
    cases k with
    | zero => simpa using hstart
    | succ k => simpa [Int.add_assoc] using h k (Nat.le_of_succ_le_succ hk)

theorem fitsInt16_start (h : StaysWithin start zs) : FitsInt16 start := by
  simpa using h 0 (Nat.zero_le _)

/-- The whole row is one of its beginnings. -/
theorem fitsInt16_sum (h : StaysWithin start zs) : FitsInt16 (start + zs.sum) := by
  simpa using h zs.length le_rfl

end StaysWithin

namespace Chain

variable {c d : Cell} {x : Sign × Term} {front rest : List (Sign × Term)} {z : Int} {zs : List Int}
  {e : EvaluationError}

/-! ### One summand -/

theorem moveCell_cons_of_says (hx : SaysDistance x z) (hd : c.MovesTo z d) :
    moveCell c (x :: rest) = moveCell d rest := by
  obtain ⟨s, t⟩ := x
  obtain ⟨v, w, ht, hw, rfl⟩ := saysDistance_iff.1 hx
  rw [moveCell_cons_of_immediate ht, hw]
  simp only [Except.bind, Cell.shift?_eq_some_iff_movesTo.2 hd]

theorem moveCell_cons_of_stops (h : Stops c.offset.toInt x e) :
    moveCell c (x :: rest) = .error e := by
  cases h with
  | meaningless ht =>
      rw [moveCell, ht]
      rfl
  | @notConstant s t r ht hr =>
      rw [moveCell, ht]
      cases r with
      | immediate v => exact absurd rfl (hr v)
      | _ => rfl
  | @noDistance s t v ht hout =>
      have hdistance : s.distance v.signed = .error .offsetOverflow := by
        rw [Sign.distance_eq_error_iff, Sign.fits_iff]
        exact hout
      rw [moveCell_cons_of_immediate ht, hdistance]
      rfl
  | @leaves s t z hz hout =>
      obtain ⟨v, w, ht, hw, rfl⟩ := saysDistance_iff.1 hz
      have hshift : c.shift? w = none := by
        rw [Option.eq_none_iff_forall_ne_some]
        intro d hd
        exact hout (Cell.exists_movesTo_iff.1 ⟨d, Cell.shift?_eq_some_iff_movesTo.1 hd⟩)
      rw [moveCell_cons_of_immediate ht, hw]
      simp only [Except.bind, hshift]

/-- A summand moves the cell or stops the sum. -/
theorem movesTo_or_stops (c : Cell) (x : Sign × Term) :
    (∃ z d, SaysDistance x z ∧ c.MovesTo z d) ∨ ∃ e, Stops c.offset.toInt x e := by
  obtain ⟨s, t⟩ := x
  cases ht : t.reference with
  | error e => exact Or.inr ⟨e, .meaningless ht⟩
  | ok r =>
      by_cases hr : ∃ v, r = .immediate v
      · obtain ⟨v, rfl⟩ := hr
        by_cases hfits : FitsInt16 v.signed ∧ (s = .minus → v.signed ≠ -0x8000)
        · have hz : SaysDistance (s, t) (s.times v.signed) := ⟨v, ht, hfits.1, hfits.2, rfl⟩
          by_cases hd : FitsInt16 (c.offset.toInt + s.times v.signed)
          · obtain ⟨d, hd⟩ := Cell.exists_movesTo_iff.2 hd
            exact Or.inl ⟨_, d, hz, hd⟩
          · exact Or.inr ⟨_, .leaves hz hd⟩
        · exact Or.inr ⟨_, .noDistance ht hfits⟩
      · exact Or.inr ⟨_, .notConstant ht (not_exists.1 hr)⟩

/-! ### The whole row -/

/-- Summands that can be walked one by one lead to the cell at their total. -/
theorem moveCell_append (hfront : List.Forall₂ SaysDistance front zs)
    (hwithin : StaysWithin c.offset.toInt zs) (hd : c.MovesTo zs.sum d) :
    moveCell c (front ++ rest) = moveCell d rest := by
  induction hfront generalizing c with
  | nil => rw [List.nil_append, (Cell.MovesTo.refl c).unique hd]
  | @cons x z front zs hx _ ih =>
      obtain ⟨-, hwithin⟩ := StaysWithin.cons_iff.1 hwithin
      obtain ⟨m, hm⟩ := Cell.exists_movesTo_iff.2 hwithin.fitsInt16_start
      have hrest : m.MovesTo zs.sum d := by
        refine ⟨hd.register_eq.trans hm.register_eq.symm, ?_⟩
        rw [hd.offset_eq, hm.offset_eq, List.sum_cons, Int.add_assoc]
      rw [List.cons_append, moveCell_cons_of_says hx hm]
      exact ih (hm.offset_eq ▸ hwithin) hrest

/-- A row of summands can be walked to its end, or up to one that stops it. -/
theorem walks_or_stops (c : Cell) (others : List (Sign × Term)) :
    (∃ zs, List.Forall₂ SaysDistance others zs ∧ StaysWithin c.offset.toInt zs) ∨
    ∃ front x behind zs e, others = front ++ x :: behind ∧
      List.Forall₂ SaysDistance front zs ∧ StaysWithin c.offset.toInt zs ∧
      Stops (c.offset.toInt + zs.sum) x e := by
  induction others generalizing c with
  | nil => exact Or.inl ⟨[], .nil, StaysWithin.nil_iff.2 c.fitsInt16_offset⟩
  | cons x others ih =>
      rcases movesTo_or_stops c x with ⟨z, d, hx, hd⟩ | ⟨e, he⟩
      · have hwithin : ∀ {zs}, StaysWithin d.offset.toInt zs →
            StaysWithin c.offset.toInt (z :: zs) := fun h =>
          StaysWithin.cons_iff.2 ⟨c.fitsInt16_offset, hd.offset_eq ▸ h⟩
        rcases ih d with ⟨zs, hzs, hd'⟩ | ⟨front, y, behind, zs, e, rfl, hzs, hd', he⟩
        · exact Or.inl ⟨z :: zs, .cons hx hzs, hwithin hd'⟩
        · refine Or.inr ⟨x :: front, y, behind, z :: zs, e, rfl, .cons hx hzs, hwithin hd', ?_⟩
          rwa [List.sum_cons, ← Int.add_assoc, ← hd.offset_eq]
      · refine Or.inr ⟨[], x, others, [], e, rfl, .nil,
          StaysWithin.nil_iff.2 c.fitsInt16_offset, ?_⟩
        rwa [List.sum_nil, Int.add_zero]

theorem moveCell_of_walks {others : List (Sign × Term)} (hzs : List.Forall₂ SaysDistance others zs)
    (hwithin : StaysWithin c.offset.toInt zs) :
    ∃ d, moveCell c others = .ok d ∧ c.MovesTo zs.sum d := by
  obtain ⟨d, hd⟩ := Cell.exists_movesTo_iff.2 hwithin.fitsInt16_sum
  have hmove : moveCell c (others ++ []) = moveCell d [] := moveCell_append hzs hwithin hd
  rw [List.append_nil, moveCell] at hmove
  exact ⟨d, hmove, hd⟩

theorem moveCell_of_stops {behind : List (Sign × Term)}
    (hzs : List.Forall₂ SaysDistance front zs) (hwithin : StaysWithin c.offset.toInt zs)
    (he : Stops (c.offset.toInt + zs.sum) x e) : moveCell c (front ++ x :: behind) = .error e := by
  obtain ⟨d, hd⟩ := Cell.exists_movesTo_iff.2 hwithin.fitsInt16_sum
  rw [moveCell_append hzs hwithin hd]
  rw [← hd.offset_eq] at he
  exact moveCell_cons_of_stops he

/-- A sum leads to a cell exactly if it can be walked to its end. -/
theorem moveCell_eq_ok_iff {others : List (Sign × Term)} :
    moveCell c others = .ok d ↔ ∃ zs, List.Forall₂ SaysDistance others zs ∧
      StaysWithin c.offset.toInt zs ∧ c.MovesTo zs.sum d := by
  constructor
  · intro h
    rcases walks_or_stops c others with ⟨zs, hzs, hwithin⟩ | ⟨_, _, _, _, _, rfl, hzs, hwithin, he⟩
    · obtain ⟨m, hmove, hm⟩ := moveCell_of_walks hzs hwithin
      rw [h] at hmove
      cases hmove
      exact ⟨zs, hzs, hwithin, hm⟩
    · rw [moveCell_of_stops hzs hwithin he] at h
      contradiction
  · rintro ⟨zs, hzs, hwithin, hd⟩
    obtain ⟨m, hmove, hm⟩ := moveCell_of_walks hzs hwithin
    rw [hmove, hm.unique hd]

/-- A sum fails exactly if one of its summands stops it behind others that can be walked. -/
theorem moveCell_eq_error_iff {others : List (Sign × Term)} :
    moveCell c others = .error e ↔ ∃ front x behind zs, others = front ++ x :: behind ∧
      List.Forall₂ SaysDistance front zs ∧ StaysWithin c.offset.toInt zs ∧
      Stops (c.offset.toInt + zs.sum) x e := by
  constructor
  · intro h
    rcases walks_or_stops c others with ⟨zs, hzs, hwithin⟩ |
      ⟨front, x, behind, zs, e', rfl, hzs, hwithin, he⟩
    · obtain ⟨m, hmove, -⟩ := moveCell_of_walks hzs hwithin
      rw [h] at hmove
      contradiction
    · rw [moveCell_of_stops hzs hwithin he] at h
      cases h
      exact ⟨front, x, behind, zs, rfl, hzs, hwithin, he⟩
  · rintro ⟨front, x, behind, zs, rfl, hzs, hwithin, he⟩
    exact moveCell_of_stops hzs hwithin he

/-- Summands in another order have the same total. -/
theorem sum_eq_of_perm {others others' : List (Sign × Term)} {zs zs' : List Int}
    (hperm : others.Perm others') (hzs : List.Forall₂ SaysDistance others zs)
    (hzs' : List.Forall₂ SaysDistance others' zs') : zs.sum = zs'.sum := by
  obtain ⟨ws, hws, hsame⟩ := List.perm_comp_forall₂ hperm.symm hzs
  have hunique : Relator.RightUnique SaysDistance := fun _ _ _ => SaysDistance.unique
  rw [List.right_unique_forall₂' hunique hws hzs'] at hsame
  exact hsame.sum_eq.symm

theorem reference_eq_ok_iff_of_cell {c : Chain} {start : Cell} {r : Reference}
    (h : c.first.reference = .ok (.cell start)) :
    c.reference = .ok r ↔ ∃ zs d, List.Forall₂ SaysDistance c.others zs ∧
      StaysWithin start.offset.toInt zs ∧ start.MovesTo zs.sum d ∧ r = .cell d := by
  rw [reference_of_cell h, Except.map_eq_ok_iff]
  constructor
  · rintro ⟨d, hd, rfl⟩
    obtain ⟨zs, hzs, hwithin, hd⟩ := moveCell_eq_ok_iff.1 hd
    exact ⟨zs, d, hzs, hwithin, hd, rfl⟩
  · rintro ⟨zs, d, hzs, hwithin, hd, rfl⟩
    exact ⟨d, moveCell_eq_ok_iff.2 ⟨zs, hzs, hwithin, hd⟩, rfl⟩

/-- A sum that starts at a cell leads to a cell exactly if each of its summands says a
distance and the sums of its beginnings stay within 16 bits.  The cell lies at the total,
so no order of the summands leads to another one.  If the sum leads nowhere, then the
first summand that cannot be walked says why. -/
theorem reference_accumulates {c : Chain} {start : Cell}
    (h : c.first.reference = .ok (.cell start)) :
    ((∃ r, c.reference = .ok r) ↔
      ∃ zs, List.Forall₂ SaysDistance c.others zs ∧ StaysWithin start.offset.toInt zs) ∧
    (∀ r, c.reference = .ok r → ∃ zs d, List.Forall₂ SaysDistance c.others zs ∧
      r = .cell d ∧ d.register = start.register ∧
      d.offset.toInt = start.offset.toInt + zs.sum) ∧
    (∀ others r r', c.others.Perm others → c.reference = .ok r →
      Chain.reference ⟨c.first, others⟩ = .ok r' → r' = r) ∧
    ∀ e, c.reference = .error e ↔ ∃ front x behind zs, c.others = front ++ x :: behind ∧
      List.Forall₂ SaysDistance front zs ∧ StaysWithin start.offset.toInt zs ∧
      Stops (start.offset.toInt + zs.sum) x e := by
  refine ⟨⟨?_, ?_⟩, ?_, ?_, ?_⟩
  · rintro ⟨r, hr⟩
    obtain ⟨zs, d, hzs, hwithin, -, -⟩ := (reference_eq_ok_iff_of_cell h).1 hr
    exact ⟨zs, hzs, hwithin⟩
  · rintro ⟨zs, hzs, hwithin⟩
    obtain ⟨d, hd⟩ := Cell.exists_movesTo_iff.2 hwithin.fitsInt16_sum
    exact ⟨.cell d, (reference_eq_ok_iff_of_cell h).2 ⟨zs, d, hzs, hwithin, hd, rfl⟩⟩
  · intro r hr
    obtain ⟨zs, d, hzs, -, hd, rfl⟩ := (reference_eq_ok_iff_of_cell h).1 hr
    exact ⟨zs, d, hzs, rfl, hd.register_eq, hd.offset_eq⟩
  · intro others r r' hperm hr hr'
    obtain ⟨zs, d, hzs, -, hd, rfl⟩ := (reference_eq_ok_iff_of_cell h).1 hr
    obtain ⟨zs', d', hzs', -, hd', rfl⟩ :=
      (reference_eq_ok_iff_of_cell (c := ⟨c.first, others⟩) h).1 hr'
    rw [← sum_eq_of_perm hperm hzs hzs'] at hd'
    rw [hd.unique hd']
  · intro e
    rw [reference_of_cell h, ← moveCell_eq_error_iff]
    cases moveCell start c.others <;> simp [Except.map]

/-- The sum `(fp + 32767) - 1 + 1` leads back to its start; `(fp + 32767) + 1 - 1` has the
same total and overflows at its first summand. -/
theorem reference_accumulates_at_limit :
    let first : Term := .factor (.place (.shifted .fp .plus (.plain 32767)))
    let up : Sign × Term := (.plus, .factor (.integer (.plain 1)))
    let down : Sign × Term := (.minus, .factor (.integer (.plain 1)))
    first.reference = .ok (.cell ⟨.fp, 32767⟩) ∧
      (∃ r, Chain.reference ⟨first, [down, up]⟩ = .ok r) ∧
      Chain.reference ⟨first, [up, down]⟩ = .error .offsetOverflow := by
  intro first up down
  have hfirst : first.reference = .ok (.cell ⟨.fp, 32767⟩) := by decide
  have hup : SaysDistance up 1 := ⟨Felt.ofInt 1, rfl, by decide, by decide, by decide⟩
  have hdown : SaysDistance down (-1) := ⟨Felt.ofInt 1, rfl, by decide, by decide, by decide⟩
  have hwithin : StaysWithin (32767 : Int16).toInt [-1, 1] := by
    simp only [StaysWithin.cons_iff, StaysWithin.nil_iff]
    decide
  obtain ⟨hsucceeds, -⟩ := reference_accumulates (c := ⟨first, [down, up]⟩) hfirst
  obtain ⟨-, -, -, hfails⟩ := reference_accumulates (c := ⟨first, [up, down]⟩) hfirst
  refine ⟨hfirst, hsucceeds.2 ⟨[-1, 1], .cons hdown (.cons hup .nil), hwithin⟩, ?_⟩
  exact (hfails _).2 ⟨[], up, [down], [], rfl, .nil,
    StaysWithin.nil_iff.2 (by decide), .leaves hup (by decide)⟩

end Chain

end Tree

end CellHints
