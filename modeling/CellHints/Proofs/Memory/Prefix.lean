import CellHints.Proofs.Memory.Access
import Mathlib.Order.Bounds.Basic

/-!
# What a range write leaves

A range write comes as far as the first cell that cannot be written, and that cell
is settled before anything is written: the values in front of it go to other cells.
So its outcome is read off the memory that it starts from, the length of the segment
included.  The end of a segment's addresses is a cell that cannot be written, and
NOT an address that cannot be computed.
-/

namespace CellHints.Memory

variable {m n k : Memory} {a b : Address} {v : Value} {vs us : List Value}

/-- The indices below `count` of the cells from `a` on that cannot be written. -/
def blocked (m : Memory) (a : Address) (count : Nat) : Set Nat :=
  {i | i < count ∧ ¬∃ b, a.shift i = .ok b ∧ m.Vacant b}

/-- What `count` values from `a` on make of the length of their segment: it reaches behind
the last of them, and no value leaves it as it was. -/
def Lengthens (m : Memory) (a : Address) (count : Nat) (n : Memory) : Prop :=
  n.segmentLen a.segment = (m.segmentLen a.segment).map fun len =>
    if count = 0 then len else max len (a.offset.toNat + count)

theorem blocked_eq_empty_iff {count : Nat} : m.blocked a count = ∅ ↔ m.VacantRow a count := by
  simp [blocked, VacantRow, Set.eq_empty_iff_forall_notMem]

/-- In front of the first blocked cell all cells are vacant. -/
theorem vacantRow_of_isLeast {count i : Nat} (h : IsLeast (m.blocked a count) i) :
    m.VacantRow a i := by
  intro j hj
  by_contra hnone
  have hle := h.2 ⟨Nat.lt_trans hj h.1.1, hnone⟩
  omega

/-- What stands against a write depends on the segments that are there and on the cell alone. -/
theorem refusal?_congr (hsize : n.segments.size = m.segments.size) (hpeek : n.peek b = m.peek b)
    (v : Value) : n.refusal? b v = m.refusal? b v := by
  have hsome : (n.segment? b.segment).isSome = (m.segment? b.segment).isSome := by
    rw [Bool.eq_iff_iff, segment?_isSome_iff, segment?_isSome_iff, hsize]
  unfold peek at hpeek
  unfold refusal?
  cases hm : m.segment? b.segment with
  | none =>
      cases hn : n.segment? b.segment with
      | none => rfl
      | some t => simp [hm, hn] at hsome
  | some s =>
      cases hn : n.segment? b.segment with
      | none => simp [hm, hn] at hsome
      | some t =>
          simp only [hm, hn, Option.bind_some] at hpeek
          simp only [hpeek]

/-- A write is never refused for an address that cannot be computed. -/
theorem refusal?_ne_value (e : ValueError) : m.refusal? a v ≠ some (.value e) := by
  unfold refusal?
  split
  · cases m.segment? a.segment <;> simp
  · simp

/-! ### Ranges one behind the other -/

/-- Two ranges that follow each other are written in turn, the second from where the first ends. -/
theorem writeRange_append (h : m.writeRange a vs = (.ok b, k)) :
    m.writeRange a (vs ++ us) = k.writeRange b us := by
  induction vs generalizing m a with
  | nil =>
      cases h
      rfl
  | cons v vs ih =>
      cases hwrite : m.write a v with
      | error e => simp [writeRange, hwrite] at h
      | ok l =>
          simp only [writeRange, hwrite, advance_of_write hwrite, List.cons_append] at h ⊢
          exact ih h

/-- A range that is written ends as many cells on as it has values. -/
theorem shift_of_writeRange (h : m.writeRange a vs = (.ok b, n)) :
    a.shift vs.length = .ok b := by
  induction vs generalizing m a with
  | nil =>
      cases h
      exact Address.shift_eq_ok_iff.2 ⟨rfl, by simp⟩
  | cons v vs ih =>
      cases hwrite : m.write a v with
      | error e => simp [writeRange, hwrite] at h
      | ok l =>
          have hnext := advance_of_write hwrite
          simp only [writeRange, hwrite, hnext] at h
          rw [Address.advance_one] at hnext
          exact (Address.shift_next_eq_ok_iff hnext).1 (ih h)

theorem lengthens_write (h : m.write a v = .ok n) : m.Lengthens a 1 n := by
  obtain ⟨-, rfl⟩ := write_eq_ok_iff.1 h
  unfold Lengthens segmentLen
  rw [segment?_put, if_pos rfl]
  cases m.segment? a.segment <;> rfl

theorem lengthens_writeRange (h : m.writeRange a vs = (.ok b, n)) :
    m.Lengthens a vs.length n := by
  induction vs generalizing m a with
  | nil =>
      obtain ⟨-, rfl⟩ := Prod.mk.inj h
      unfold Lengthens
      cases m.segmentLen a.segment <;> rfl
  | cons v vs ih =>
      cases hwrite : m.write a v with
      | error e => simp [writeRange, hwrite] at h
      | ok l =>
          have hnext := advance_of_write hwrite
          simp only [writeRange, hwrite, hnext] at h
          rw [Address.advance_one] at hnext
          have hoffset : (a.offset + 1).toNat = a.offset.toNat + 1 := by
            exact_mod_cast (Address.shift_eq_ok_iff.1 hnext).2
          have hfirst := lengthens_write hwrite
          have hrest := ih h
          unfold Lengthens at hfirst hrest ⊢
          rw [hrest, hfirst, hoffset]
          cases m.segmentLen a.segment with
          | error e => rfl
          | ok len =>
              -- A row that ends with the first value reaches as far as that one does.
              simp only [Except.map, List.length_cons, Except.ok.injEq, Nat.add_eq_zero_iff,
                Nat.one_ne_zero, and_false, if_false]
              split <;> omega

/-- A range write behind vacant cells stops at a cell that refuses its value. -/
theorem writeRange_stops {i : Nat} {e : MemoryError} (hi : vs[i]? = some v)
    (hb : a.shift i = .ok b) (hrow : m.VacantRow a i) (he : m.write b v = .error e) :
    ∃ n, m.writeRange a vs = (.error e, n) ∧ m.Writes a (vs.take i) n ∧ m.Lengthens a i n := by
  obtain ⟨hlt, hv⟩ := List.getElem?_eq_some_iff.1 hi
  have hlen : (vs.take i).length = i := List.length_take_of_le (Nat.le_of_lt hlt)
  have hvacant : m.VacantRow a (vs.take i).length := by rwa [hlen]
  obtain ⟨c, n, hfront, hwrites⟩ := hvacant.writeRange
  have hc := shift_of_writeRange hfront
  have hlengthens := lengthens_writeRange hfront
  rw [hlen] at hc hlengthens
  obtain rfl : c = b := Except.ok.inj (hc.symm.trans hb)
  -- The cell is none of those in front of it, so it refuses the value as it did before.
  have hkept : n.peek c = m.peek c := by
    apply hwrites.kept
    intro j hj hshift
    have heq := Address.shift_injective hshift hc
    rw [hlen] at hj
    omega
  have hrefused : n.write c v = .error e := by
    rw [write_eq_error_iff] at he ⊢
    rw [refusal?_congr hwrites.size_eq hkept, he]
  refine ⟨n, ?_, hwrites, hlengthens⟩
  rw [← List.take_append_drop i vs, writeRange_append hfront, List.drop_eq_getElem_cons hlt, hv]
  simp only [writeRange, hrefused]

/-- The first blocked cell is a cell, and it refuses every value. -/
theorem exists_refusal_of_isLeast {count i : Nat} (h : IsLeast (m.blocked a count) i) (v : Value) :
    ∃ b e, a.shift i = .ok b ∧ m.write b v = .error e := by
  obtain ⟨b, hb⟩ : ∃ b, a.shift i = .ok b := by
    cases i with
    | zero => exact ⟨a, Address.shift_eq_ok_iff.2 ⟨rfl, by simp⟩⟩
    | succ i =>
        -- The cell in front can be written, so it is not the last one of its segment.
        obtain ⟨c, hc, hvacant⟩ := vacantRow_of_isLeast h i (Nat.lt_succ_self i)
        have hnext := advance_of_write (hvacant.write v)
        rw [Address.advance_one] at hnext
        obtain ⟨hsegment, hoffset⟩ := Address.shift_eq_ok_iff.1 hnext
        obtain ⟨hcs, hco⟩ := Address.shift_eq_ok_iff.1 hc
        exact ⟨_, Address.shift_eq_ok_iff.2 ⟨hsegment.trans hcs, by omega⟩⟩
  have hblocked : ¬m.Vacant b := fun hvacant => h.1.2 ⟨b, hb, hvacant⟩
  cases he : m.write b v with
  | error e => exact ⟨b, e, hb, he⟩
  | ok n => exact absurd (refusal?_eq_none_iff_vacant.1 (write_eq_ok_iff.1 he).1) hblocked

/-- A range write writes exactly the values in front of the first cell that cannot be written, and
fails with what that cell answers; without such a cell it writes them all. -/
theorem writeRange_fills_front (m : Memory) (a : Address) (vs : List Value) :
    (m.blocked a vs.length = ∅ → ∃ b n, a.shift vs.length = .ok b ∧
      m.writeRange a vs = (.ok b, n) ∧ m.Writes a vs n ∧ m.Lengthens a vs.length n) ∧
    (∀ i, IsLeast (m.blocked a vs.length) i → ∃ b v e n, a.shift i = .ok b ∧ vs[i]? = some v ∧
      m.write b v = .error e ∧ m.writeRange a vs = (.error e, n) ∧
      m.Writes a (vs.take i) n ∧ m.Lengthens a i n) ∧
    (∀ e, (m.writeRange a vs).1 ≠ .error (.value e)) ∧
    m.writeRange a [] = (.ok a, m) := by
  refine ⟨?_, ?_, ?_, rfl⟩
  · intro hnone
    obtain ⟨b, n, hrange, hwrites⟩ := (blocked_eq_empty_iff.1 hnone).writeRange
    exact ⟨b, n, shift_of_writeRange hrange, hrange, hwrites, lengthens_writeRange hrange⟩
  · intro i hi
    obtain ⟨v, hv⟩ : ∃ v, vs[i]? = some v := ⟨_, List.getElem?_eq_getElem hi.1.1⟩
    obtain ⟨b, e, hb, he⟩ := exists_refusal_of_isLeast hi v
    obtain ⟨n, hn⟩ := writeRange_stops hv hb (vacantRow_of_isLeast hi) he
    exact ⟨b, v, e, n, hb, hv, he, hn⟩
  · intro e he
    rcases m.writeRange_writes_or_stops a vs with ⟨b, hb, -⟩ | ⟨e', he', i, v, b, -, -, -, hrefused⟩
    · rw [hb] at he
      contradiction
    · rw [he'] at he
      cases he
      exact refusal?_ne_value e hrefused

/-- A range of four values stops at its third cell, which is set. -/
theorem writeRange_fills_front_before_set_cell :
    let m := (⟨#[.empty], 1⟩ : Memory).put ⟨0, 2⟩ (.felt Felt.zero)
    let vs : List Value := List.replicate 4 (.felt Felt.one)
    IsLeast (m.blocked .origin vs.length) 2 ∧ ∃ b v e n, Address.origin.shift 2 = .ok b ∧
      vs[2]? = some v ∧ m.write b v = .error e ∧ m.writeRange .origin vs = (.error e, n) ∧
      m.Writes .origin (vs.take 2) n ∧ m.Lengthens .origin 2 n := by
  intro m vs
  have hrow : m.VacantRow .origin 2 := by decide +kernel
  have hset : ¬∃ b, Address.origin.shift 2 = .ok b ∧ m.Vacant b := by
    rintro ⟨b, hb, hvacant⟩
    obtain rfl : (⟨0, 2⟩ : Address) = b := Except.ok.inj hb
    exact absurd hvacant (by decide +kernel)
  have hleast : IsLeast (m.blocked .origin vs.length) 2 := by
    refine ⟨⟨by decide, hset⟩, ?_⟩
    intro i hi
    by_contra hlt
    exact hi.2 (hrow i (by omega))
  exact ⟨hleast, (writeRange_fills_front m .origin vs).2.1 2 hleast⟩

end CellHints.Memory
