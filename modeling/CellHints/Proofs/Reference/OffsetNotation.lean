import CellHints.Proofs.Reference.Distance
import CellHints.Reference.Grammar

/-!
# Two notations for a cell behind a register

`cast(r s n, T)` adds a literal to a register in a sum, and `cast((r s n), T)`
names the shifted register as one place.  Both name the cell at the exact
distance `s n`, or both overflow, unless the literal differs from some other
distance by a multiple of the modulus.  Then the two do NOT agree: the sum takes
the literal for that distance, and the place overflows.
-/

namespace CellHints.Tree

/-- The tree of `cast(r s n, T)`. -/
def summed (r : Register) (s : Sign) (n : Literal) (T : TypeName) : Tree :=
  .plain ⟨⟨.factor (.place (.bare r)), [(s, .factor (.integer n))]⟩, T⟩

/-- The tree of `cast((r s n), T)`. -/
def parenthesised (r : Register) (s : Sign) (n : Literal) (T : TypeName) : Tree :=
  .plain ⟨⟨.factor (.place (.shifted r s n)), []⟩, T⟩

/-- The phrase `cast(r s n, T)` with phrases for the literal and for the type. -/
def summedPhrase (r : Register) (s : Sign) (w u : List Lexeme) : List Lexeme :=
  [.castWord, .openParen, .register r, .sign s] ++ w ++ .comma :: u ++ [.closeParen]

/-- The phrase `cast((r s n), T)` with phrases for the literal and for the type. -/
def parenthesisedPhrase (r : Register) (s : Sign) (w u : List Lexeme) : List Lexeme :=
  [.castWord, .openParen, .openParen, .register r, .sign s] ++ w ++ [.closeParen, .comma] ++ u ++
    [.closeParen]

theorem spells_summed {w u : List Lexeme} {n : Literal} {T : TypeName} (r : Register) (s : Sign)
    (hn : Literal.Spells w n) (hT : TypeName.Spells u T) :
    Spells (summedPhrase r s w u) (summed r s n T) := by
  have hsummands := SpellSummands.cons s (.factor (.integer hn)) .nil
  have hchain := Chain.Spells.mk (.factor (.register r)) hsummands
  simpa [summedPhrase, summed] using Spells.plain (Cast.Spells.mk hchain hT)

theorem spells_parenthesised {w u : List Lexeme} {n : Literal} {T : TypeName} (r : Register)
    (s : Sign) (hn : Literal.Spells w n) (hT : TypeName.Spells u T) :
    Spells (parenthesisedPhrase r s w u) (parenthesised r s n T) := by
  have hplace := Factor.Spells.shiftedRegister (Place.Spells.shifted r s hn)
  have hchain := Chain.Spells.mk (.factor hplace) .nil
  simpa [parenthesisedPhrase, parenthesised] using Spells.plain (Cast.Spells.mk hchain hT)

/-- In a sum the distance is the signed reading of the literal's residue. -/
theorem reference_summed (r : Register) (s : Sign) (n : Literal) (T : TypeName) :
    (summed r s n T).reference =
      (s.distance (Felt.ofInt n.value).signed).map fun w => .cell ⟨r, w⟩ := by
  change Chain.reference ⟨.factor (.place (.bare r)), [(s, .factor (.integer n))]⟩ = _
  rw [Chain.reference_of_cell rfl, Chain.moveCell_cons_of_immediate rfl]
  cases s.distance (Felt.ofInt n.value).signed with
  | error e => rfl
  | ok w =>
      simp only [Except.bind, Cell.shift?_zero]
      rfl

/-- In a place the distance is the literal as it stands. -/
theorem reference_parenthesised (r : Register) (s : Sign) (n : Literal) (T : TypeName) :
    (parenthesised r s n T).reference = (s.distance n.value).map fun w => .cell ⟨r, w⟩ := by
  change Chain.reference ⟨.factor (.place (.shifted r s n)), []⟩ = _
  unfold Chain.reference
  change (((s.distance n.value).map fun w => (⟨r, w⟩ : Cell)).map Reference.cell).bind _ = _
  cases s.distance n.value <;> rfl

/-- Both notations name the cell of `r` at the exact distance, or both overflow. -/
def NotationsAgree (r : Register) (s : Sign) (n : Literal) (T : TypeName) : Prop :=
  (∃ w : Int16, w.toInt = s.times n.value ∧
    (summed r s n T).reference = .ok (.cell ⟨r, w⟩) ∧
    (parenthesised r s n T).reference = .ok (.cell ⟨r, w⟩)) ∨
  ((summed r s n T).reference = .error .offsetOverflow ∧
    (parenthesised r s n T).reference = .error .offsetOverflow)

/-- Whether `n` is taken for the distance `z` in a sum, though it is another integer. -/
def Literal.StraysTo (s : Sign) (n : Literal) (z : Int) : Prop :=
  s.Fits z ∧ z ≠ n.value ∧ (prime : Int) ∣ n.value - z

theorem Literal.StraysTo.not_fits {s : Sign} {n : Literal} {z : Int} (h : n.StraysTo s z) :
    ¬s.Fits n.value := by
  intro hfits
  apply h.2.1
  rw [← h.1.signed_ofInt_of_dvd h.2.2]
  exact hfits.signed_ofInt

theorem Literal.StraysTo.reference_summed {s : Sign} {n : Literal} {z : Int} {w : Int16}
    (h : n.StraysTo s z) (hw : w.toInt = s.times z) (r : Register) (T : TypeName) :
    (summed r s n T).reference = .ok (.cell ⟨r, w⟩) := by
  rw [Tree.reference_summed, h.1.signed_ofInt_of_dvd h.2.2, Sign.distance_eq_ok_iff.2 ⟨h.1, hw⟩]
  rfl

theorem Literal.StraysTo.reference_parenthesised {s : Sign} {n : Literal} {z : Int}
    (h : n.StraysTo s z) (r : Register) (T : TypeName) :
    (parenthesised r s n T).reference = .error .offsetOverflow := by
  rw [Tree.reference_parenthesised, Sign.distance_eq_error_iff.2 h.not_fits]
  rfl

/-- A literal that fits is read alike in both notations. -/
theorem notationsAgree_of_fits {s : Sign} {n : Literal} (hfits : s.Fits n.value) (r : Register)
    (T : TypeName) : NotationsAgree r s n T := by
  obtain ⟨w, hw⟩ := Sign.exists_distance_iff.2 hfits
  refine Or.inl ⟨w, (Sign.distance_eq_ok_iff.1 hw).2, ?_, ?_⟩
  · rw [reference_summed, hfits.signed_ofInt, hw]
    rfl
  · rw [reference_parenthesised, hw]
    rfl

/-- A literal that fits neither as it stands nor by its signed reading overflows in both. -/
theorem notationsAgree_of_not_fits {s : Sign} {n : Literal} (hout : ¬s.Fits n.value)
    (hread : ¬s.Fits (Felt.ofInt n.value).signed) (r : Register) (T : TypeName) :
    NotationsAgree r s n T := by
  refine Or.inr ⟨?_, ?_⟩
  · rw [reference_summed, Sign.distance_eq_error_iff.2 hread]
    rfl
  · rw [reference_parenthesised, Sign.distance_eq_error_iff.2 hout]
    rfl

/-- The notations agree on exactly the literals that stray to no other distance.
One that strays is that distance in the sum and an overflow in the place; and no
literal outside 16 bits is ever the distance of a place.  That holds in whatever
digits the literal is written. -/
theorem notationsAgree_iff_not_strays (r : Register) (s : Sign) (n : Literal) (T : TypeName) :
    (∀ w u, Literal.Spells w n → TypeName.Spells u T →
      Spells (summedPhrase r s w u) (summed r s n T) ∧
      Spells (parenthesisedPhrase r s w u) (parenthesised r s n T)) ∧
    (NotationsAgree r s n T ↔ ¬∃ z, n.StraysTo s z) ∧
    (∀ z, n.StraysTo s z → ∃ w : Int16, w.toInt = s.times z ∧
      (summed r s n T).reference = .ok (.cell ⟨r, w⟩) ∧
      (parenthesised r s n T).reference = .error .offsetOverflow) ∧
    (¬(-0x8000 ≤ n.value ∧ n.value < 0x8000) →
      (parenthesised r s n T).reference = .error .offsetOverflow) := by
  have hstrays : ∀ z, n.StraysTo s z → ∃ w : Int16, w.toInt = s.times z ∧
      (summed r s n T).reference = .ok (.cell ⟨r, w⟩) ∧
      (parenthesised r s n T).reference = .error .offsetOverflow := by
    intro z hz
    obtain ⟨w, hw⟩ := Sign.exists_distance_iff.2 hz.1
    have htimes := (Sign.distance_eq_ok_iff.1 hw).2
    exact ⟨w, htimes, hz.reference_summed htimes r T, hz.reference_parenthesised r T⟩
  refine ⟨?_, ⟨?_, ?_⟩, hstrays, ?_⟩
  · intro w u hn hT
    exact ⟨spells_summed r s hn hT, spells_parenthesised r s hn hT⟩
  · rintro hagree ⟨z, hz⟩
    obtain ⟨w, -, hsum, hplace⟩ := hstrays z hz
    rcases hagree with ⟨v, -, -, hv⟩ | ⟨hoverflow, -⟩
    · rw [hv] at hplace
      contradiction
    · rw [hoverflow] at hsum
      contradiction
  · intro hnone
    by_cases hfits : s.Fits n.value
    · exact notationsAgree_of_fits hfits r T
    · by_cases hread : s.Fits (Felt.ofInt n.value).signed
      · -- The reading fits and the literal does not, so they are different integers.
        refine absurd ⟨_, hread, ?_, Felt.dvd_sub_signed_ofInt n.value⟩ hnone
        intro heq
        rw [heq] at hread
        exact hfits hread
      · exact notationsAgree_of_not_fits hfits hread r T
  · intro hout
    rw [reference_parenthesised, Sign.distance_eq_error_iff.2 fun hfits => hout hfits.1]
    rfl

/-- Three more than the modulus strays to 3: the sum names `ap + 3`. -/
theorem not_notationsAgree_prime_add_three :
    ¬NotationsAgree .ap .plus (.plain (prime + 3)) ⟨"felt", [], 0⟩ := by
  have hstrays : (Literal.plain (prime + 3)).StraysTo .plus 3 := by
    refine ⟨by decide, by decide, ?_⟩
    exact ⟨1, by decide⟩
  intro hagree
  rcases hagree with ⟨w, -, -, hplace⟩ | ⟨hsum, -⟩
  · rw [hstrays.reference_parenthesised] at hplace
    contradiction
  · have hw : (3 : Int16).toInt = Sign.plus.times 3 := by decide
    rw [hstrays.reference_summed hw] at hsum
    contradiction

end CellHints.Tree
