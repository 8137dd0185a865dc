import CellHints.Proofs.Felt.Residue
import CellHints.Reference.Interpretation

/-!
# Distances between cells

A distance is read exactly or refused: the word that comes back denotes the
signed integer, and the only ground for a refusal is that the integer, or its
negative under a minus sign, leaves 16 bits.  A literal in a sum is NOT read as
it stands: it becomes a field element first, and its signed reading is what has
to fit.
-/

namespace CellHints

namespace Narrow

theorem toInt16?_eq_none_iff {z : Int} : toInt16? z = none ↔ ¬(-0x8000 ≤ z ∧ z < 0x8000) := by
  unfold toInt16?
  split <;> simp_all

end Narrow

namespace Tree

/-- Whether `z` can be a distance under a sign: it fits 16 bits before the sign
is applied and after. -/
def Sign.Fits (s : Sign) (z : Int) : Prop :=
  (-0x8000 ≤ z ∧ z < 0x8000) ∧ -0x8000 ≤ s.times z ∧ s.times z < 0x8000

instance (s : Sign) (z : Int) : Decidable (s.Fits z) := by
  unfold Sign.Fits
  infer_instance

/-- A refusal always gives the same reason. -/
theorem Sign.distance_eq_error {s : Sign} {z : Int} {e : EvaluationError}
    (h : s.distance z = .error e) : e = .offsetOverflow := by
  unfold distance at h
  split at h
  · cases h
    rfl
  · contradiction
  · split at h
    · contradiction
    · cases h
      rfl

theorem Sign.distance_eq_ok_iff {s : Sign} {z : Int} {w : Int16} :
    s.distance z = .ok w ↔ s.Fits z ∧ w.toInt = s.times z := by
  have hlo := w.le_toInt
  have hhi := w.toInt_lt
  unfold distance
  cases hz : Narrow.toInt16? z with
  | none =>
      have hout := Narrow.toInt16?_eq_none_iff.1 hz
      exact ⟨nofun, fun h => absurd h.1.1 hout⟩
  | some v =>
      have hv := Narrow.toInt16?_eq_some_iff.1 hz
      have hvlo := v.le_toInt
      have hvhi := v.toInt_lt
      cases s with
      | plus =>
          simp only [Except.ok.injEq, Fits, times, ← Int16.toInt_inj, hv]
          omega
      | minus =>
          -- The negative is narrowed once more; only the least word has none.
          simp only [Fits, times]
          split
          · next u hu =>
              have hneg := Narrow.toInt16?_eq_some_iff.1 hu
              have hulo := u.le_toInt
              have huhi := u.toInt_lt
              rw [Except.ok.injEq, ← Int16.toInt_inj]
              omega
          · next hnone =>
              have hout := Narrow.toInt16?_eq_none_iff.1 hnone
              simp only [reduceCtorEq, false_iff]
              omega

theorem Sign.exists_distance_iff {s : Sign} {z : Int} :
    (∃ w, s.distance z = .ok w) ↔ s.Fits z := by
  constructor
  · intro h
    obtain ⟨w, hw⟩ := h
    exact (distance_eq_ok_iff.1 hw).1
  · intro hfits
    have hword : (Int16.ofInt (s.times z)).toInt = s.times z :=
      Int16.toInt_ofInt_of_le hfits.2.1 hfits.2.2
    exact ⟨Int16.ofInt (s.times z), distance_eq_ok_iff.2 ⟨hfits, hword⟩⟩

theorem Sign.distance_eq_error_iff {s : Sign} {z : Int} :
    s.distance z = .error .offsetOverflow ↔ ¬s.Fits z := by
  rw [← exists_distance_iff]
  cases hd : s.distance z with
  | ok w => simp
  | error e => simp [distance_eq_error hd]

/-- A distance is small beside the modulus, so it is the signed reading of its own residue. -/
theorem Sign.Fits.signed_ofInt {s : Sign} {z : Int} (h : s.Fits z) :
    (Felt.ofInt z).signed = z := by
  have hhalf : (0x8000 : Int) ≤ (halfPrime : Int) := by decide
  have hlo := h.1.1
  have hhi := h.1.2
  exact Felt.signed_ofInt_of_le (by omega) (by omega)

/-- An integer that differs from a distance by a multiple of the modulus is read as that distance. -/
theorem Sign.Fits.signed_ofInt_of_dvd {s : Sign} {y z : Int} (h : s.Fits z)
    (hdvd : (prime : Int) ∣ y - z) : (Felt.ofInt y).signed = z := by
  rw [Felt.ofInt_eq_ofInt_iff.2 hdvd]
  exact h.signed_ofInt

namespace Chain

theorem reference_of_cell {c : Chain} {start : Cell}
    (h : c.first.reference = .ok (.cell start)) :
    c.reference = (moveCell start c.others).map .cell := by
  unfold reference
  rw [h]
  rfl

theorem reference_of_no_cell {c : Chain} {r : Reference} (h : c.first.reference = .ok r)
    (hr : r.cell? = none) : c.reference = addTerms r c.others := by
  simp only [reference, h, bind, Except.bind, hr]

theorem moveCell_cons_of_immediate {c : Cell} {s : Sign} {t : Term} {x : Felt}
    {rest : List (Sign × Term)} (ht : t.reference = .ok (.immediate x)) :
    moveCell c ((s, t) :: rest) = (s.distance x.signed).bind fun w =>
      match c.shift? w with
      | some c => moveCell c rest
      | none => .error .offsetOverflow := by
  rw [moveCell, ht]
  rfl

/-- A cell moves along a sum whose terms are constants that can be its distances. -/
theorem moveCell_cons_eq_ok_iff {c d : Cell} {s : Sign} {t : Term} {rest : List (Sign × Term)} :
    moveCell c ((s, t) :: rest) = .ok d ↔
      ∃ x w e, t.reference = .ok (.immediate x) ∧ s.distance x.signed = .ok w ∧
        c.shift? w = some e ∧ moveCell e rest = .ok d := by
  constructor
  · intro h
    -- Any term but a constant is refused, and so is a step that leaves 16 bits.
    cases ht : t.reference with
    | error e =>
        rw [moveCell, ht] at h
        contradiction
    | ok r =>
        cases r with
        | immediate x =>
            rw [moveCell_cons_of_immediate ht] at h
            cases hw : s.distance x.signed with
            | error e =>
                rw [hw] at h
                contradiction
            | ok w =>
                simp only [hw, Except.bind] at h
                cases he : c.shift? w with
                | none =>
                    rw [he] at h
                    contradiction
                | some e =>
                    rw [he] at h
                    exact ⟨x, w, e, rfl, hw, he, h⟩
        | _ =>
            rw [moveCell, ht] at h
            contradiction
  · intro h
    obtain ⟨x, w, e, ht, hw, he, h⟩ := h
    rw [moveCell_cons_of_immediate ht, hw]
    simp only [Except.bind, he, h]

end Chain

end Tree

/-- From the register itself every distance can be reached. -/
theorem Cell.shift?_zero (r : Register) (w : Int16) :
    (⟨r, 0⟩ : Cell).shift? w = some ⟨r, w⟩ :=
  Cell.shift?_eq_some_iff.2 ⟨rfl, by simp⟩

end CellHints
