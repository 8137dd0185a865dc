import CellHints.Proofs.Memory.Access
import Mathlib.Order.Nat

/-!
# Reading a window of words

A window is read cell by cell, and the address goes on behind each cell, the last one
included.  That it can go on is NOT seen from the window: in the memory of a program nothing
is at the last offset, so behind a cell that was read there is always another one.  Reading
stops at the first cell without a word, and that is a cell even where the window reaches past
the last offset.
-/

namespace CellHints

/-- Whether `b` is the cell `i` cells on from `a`, counted exactly and in the same segment. -/
structure Address.LiesBehind (b a : Address) (i : Nat) : Prop where
  segment_eq : b.segment = a.segment
  offset_eq : b.offset.toNat = a.offset.toNat + i

theorem Address.liesBehind_iff {a b : Address} {i : Nat} :
    b.LiesBehind a i ↔ a.shift i = .ok b := by
  rw [shift_eq_ok_iff]
  constructor
  · intro h
    exact ⟨h.segment_eq, by exact_mod_cast h.offset_eq⟩
  · rintro ⟨hsegment, hoffset⟩
    exact ⟨hsegment, by exact_mod_cast hoffset⟩

namespace Memory

variable {m : Memory} {a b : Address} {w : UInt32} {e : Fault} {i count : Nat}

/-- Whether the cell `i` cells on from `a` holds the word `w`. -/
def WordAt (m : Memory) (a : Address) (i : Nat) (w : UInt32) : Prop :=
  ∃ b x, b.LiesBehind a i ∧ m.peek b = some (.felt x) ∧ x.val = w.toNat

/-- Why a cell holds no word. -/
inductive NoWord (m : Memory) (a : Address) : Fault → Prop
  | unknownSegment (h : m.segments.size ≤ a.segment.toNat) :
      NoWord m a (.memory (.unknownSegment a.segment))
  | unsetCell (hsegment : a.segment.toNat < m.segments.size) (h : m.peek a = none) :
      NoWord m a (.memory (.unsetCell a))
  | address {b : Address} (h : m.peek a = some (.address b)) :
      NoWord m a (.memory (.value (.expectedFelt b)))
  | large {x : Felt} (h : m.peek a = some (.felt x)) (hlarge : UInt32.size ≤ x.val) :
      NoWord m a (.wordOutOfRange a x)

/-- The indices below `count` of the cells from `a` on that hold no word. -/
def wordless (m : Memory) (a : Address) (count : Nat) : Set Nat :=
  {i | i < count ∧ ¬∃ w, m.WordAt a i w}

/-! ### One cell -/

theorem readWord_eq_ok_iff :
    m.readWord a = .ok w ↔ ∃ x, m.peek a = some (.felt x) ∧ x.val = w.toNat := by
  constructor
  · intro h
    exact ⟨_, peek_of_readWord h, Value.felt_eq_ofWord_iff.1 rfl⟩
  · rintro ⟨x, hx, hval⟩
    exact readWord_of_peek (hx.trans (congrArg some (Value.felt_eq_ofWord_iff.2 hval)))

theorem wordAt_iff : m.WordAt a i w ↔ ∃ b, a.shift i = .ok b ∧ m.readWord b = .ok w := by
  simp only [WordAt, readWord_eq_ok_iff, Address.liesBehind_iff, exists_and_left]

theorem readWord_of_error {e : MemoryError} (h : m.read a = .error e) :
    m.readWord a = .error (.memory e) := by
  rw [readWord, readFelt, h]
  rfl

theorem readWord_of_address (h : m.read a = .ok (.address b)) :
    m.readWord a = .error (.memory (.value (.expectedFelt b))) := by
  rw [readWord, readFelt, h]
  rfl

theorem readWord_of_large {x : Felt} (h : m.read a = .ok (.felt x))
    (hlarge : UInt32.size ≤ x.val) : m.readWord a = .error (.wordOutOfRange a x) := by
  have hfelt : m.readFelt a = .ok x := by
    rw [readFelt, h]
    rfl
  have hnone : x.toUInt32? = none := if_neg (Nat.not_lt_of_le hlarge)
  refine Except.bind_eq_error_iff.2 (Or.inr ⟨x, Except.mapError_eq_ok_iff.2 hfelt, ?_⟩)
  rw [hnone]
  rfl

theorem readWord_eq_error_iff : m.readWord a = .error e ↔ m.NoWord a e := by
  constructor
  · intro h
    cases hread : m.read a with
    | error e' =>
        cases (readWord_of_error hread).symm.trans h
        rcases read_eq_error_iff.1 hread with ⟨hsegment, rfl⟩ | ⟨hsegment, hunset, rfl⟩
        · exact .unknownSegment hsegment
        · exact .unsetCell hsegment hunset
    | ok v =>
        have hset := read_eq_ok_iff.1 hread
        cases v with
        | address b =>
            cases (readWord_of_address hread).symm.trans h
            exact .address hset
        | felt x =>
            by_cases hlt : x.val < UInt32.size
            · -- A small field element would have been read.
              have hword := readWord_eq_ok_iff.2 ⟨x, hset, (UInt32.toNat_ofNat_of_lt' hlt).symm⟩
              rw [hword] at h
              contradiction
            · have hlarge := Nat.le_of_not_lt hlt
              cases (readWord_of_large hread hlarge).symm.trans h
              exact .large hset hlarge
  · intro h
    cases h with
    | unknownSegment hsegment =>
        exact readWord_of_error (read_eq_error_iff.2 (.inl ⟨hsegment, rfl⟩))
    | unsetCell hsegment hunset =>
        exact readWord_of_error (read_eq_error_iff.2 (.inr ⟨hsegment, hunset, rfl⟩))
    | address hset => exact readWord_of_address (read_eq_ok_iff.2 hset)
    | large hset hlarge => exact readWord_of_large (read_eq_ok_iff.2 hset) hlarge

/-! ### A window -/

theorem holds_iff_wordAt {ws : Vector UInt32 count} :
    m.Holds a (ws.toList.map Value.ofWord) ↔ ∀ i : Fin count, m.WordAt a i ws[i] := by
  constructor
  · intro h i
    obtain ⟨b, hb, hset⟩ := h i (Value.ofWord ws[i]) (by simp)
    exact wordAt_iff.2 ⟨b, hb, readWord_of_peek hset⟩
  · intro h i v hv
    obtain ⟨w, hw, rfl⟩ : ∃ w, ws.toList[i]? = some w ∧ Value.ofWord w = v := by
      simpa using hv
    obtain ⟨hi, rfl⟩ := List.getElem?_eq_some_iff.1 hw
    obtain ⟨b, hb, hread⟩ := wordAt_iff.1 (h ⟨i, by simpa using hi⟩)
    exact ⟨b, hb, peek_of_readWord hread⟩

theorem Coherent.readWords_eq_ok_iff (hm : m.Coherent) {ws : Vector UInt32 count} :
    (∃ b, m.readWords a count = .ok (ws, b)) ↔ ∀ i : Fin count, m.WordAt a i ws[i] := by
  rw [← holds_iff_wordAt]
  constructor
  · rintro ⟨b, hread⟩
    exact (holds_of_readWords hread).1
  · exact hm.readWords_of_holds

/-- A fault that is met on the way is the fault of the whole window. -/
theorem readWords_eq_error_of_le {k : Nat} (h : m.readWords a k = .error e) (hk : k ≤ count) :
    m.readWords a count = .error e := by
  induction hk with
  | refl => exact h
  | step _ ih => exact Except.bind_eq_error_iff.2 (Or.inl ih)

/-- A window in which every cell holds a word is read to its end. -/
theorem Coherent.readWords_of_wordAt (hm : m.Coherent)
    (h : ∀ i < count, ∃ w, m.WordAt a i w) :
    ∃ ws b, m.readWords a count = .ok (ws, b) ∧ a.shift count = .ok b := by
  have hrow : m.WordRow a count := by
    intro i hi
    obtain ⟨w, b, x, hb, hset, hval⟩ := h i hi
    exact ⟨b, x, Address.liesBehind_iff.1 hb, hset, hval ▸ w.toNat_lt_size⟩
  obtain ⟨ws, hws⟩ := wordRow_iff.1 hrow
  obtain ⟨b, hb⟩ := hm.readWords_of_holds hws
  exact ⟨ws, b, hb, (holds_of_readWords hb).2⟩

/-- Reading stops at the first cell without a word. -/
theorem Coherent.readWords_stops (hm : m.Coherent) (h : IsLeast (m.wordless a count) i) :
    ∃ b e, a.shift i = .ok b ∧ m.readWord b = .error e ∧ m.readWords a count = .error e := by
  have hfront : ∀ j < i, ∃ w, m.WordAt a j w := by
    intro j hj
    by_contra hnone
    have hle := h.2 ⟨Nat.lt_trans hj h.1.1, hnone⟩
    omega
  obtain ⟨ws, b, hread, hb⟩ := hm.readWords_of_wordAt hfront
  cases hword : m.readWord b with
  | ok w => exact absurd ⟨w, wordAt_iff.2 ⟨b, hb, hword⟩⟩ h.1.2
  | error e =>
      refine ⟨b, e, hb, hword, ?_⟩
      -- The window that ends with this cell is read up to it.
      have hstop : m.readWords a (i + 1) = .error e := by
        refine Except.bind_eq_error_iff.2 (Or.inr ⟨(ws, b), hread, ?_⟩)
        exact Except.bind_eq_error_iff.2 (Or.inl hword)
      exact readWords_eq_error_of_le hstop h.1.1

theorem Coherent.readWords_eq_error_iff (hm : m.Coherent) :
    m.readWords a count = .error e ↔
      ∃ i b, IsLeast (m.wordless a count) i ∧ b.LiesBehind a i ∧ m.NoWord b e := by
  constructor
  · intro h
    -- Without a cell that stops it, reading would come to its end.
    have hsome : (m.wordless a count).Nonempty := by
      by_contra hempty
      have hwords : ∀ i < count, ∃ w, m.WordAt a i w := by
        intro i hi
        by_contra hnone
        exact hempty ⟨i, hi, hnone⟩
      obtain ⟨ws, b, hread, -⟩ := hm.readWords_of_wordAt hwords
      rw [hread] at h
      contradiction
    classical
    have hleast := hsome.isLeast_natFind
    obtain ⟨b, e', hb, hword, hread⟩ := hm.readWords_stops hleast
    obtain rfl : e = e' := Except.error.inj (h.symm.trans hread)
    exact ⟨_, b, hleast, Address.liesBehind_iff.2 hb, readWord_eq_error_iff.1 hword⟩
  · rintro ⟨i, b, hleast, hb, hno⟩
    obtain ⟨c, e', hc, hword, hread⟩ := hm.readWords_stops hleast
    obtain rfl : b = c := Except.ok.inj ((Address.liesBehind_iff.1 hb).symm.trans hc)
    obtain rfl : e = e' :=
      Except.error.inj ((readWord_eq_error_iff.2 hno).symm.trans hword)
    exact hread

/-- In every memory of a program that starts without segments, a window is read as words
exactly if each of its cells, by exact offset, holds the word in its place.  Otherwise reading
fails at the first cell that holds no word, for the reason that this cell gives, and an address
is never the reason, wherever the window starts. -/
theorem readWords_finds_window (limit : UInt64) (registers : Registers) (config : Config)
    (scopes : Scopes) (lead : List Turn) (a : Address) (count : Nat) :
    let start : HintState := ⟨⟨.empty limit, registers, config⟩, scopes⟩
    let m := (start.afterTurns lead).machine.memory
    (∀ ws : Vector UInt32 count, (∃ b, m.readWords a count = .ok (ws, b)) ↔
      ∀ i : Fin count, m.WordAt a i ws[i]) ∧
    (∀ e, m.readWords a count = .error e ↔
      ∃ i b, IsLeast (m.wordless a count) i ∧ b.LiesBehind a i ∧ m.NoWord b e) ∧
    ∀ b delta, m.readWords a count ≠ .error (.value (.addressOverflow b delta)) ∧
      m.readWords a count ≠ .error (.memory (.value (.addressOverflow b delta))) := by
  intro start m
  have hm : m.Coherent := (start.leads_afterTurns lead).coherent (coherent_empty limit)
  refine ⟨fun ws => hm.readWords_eq_ok_iff, fun e => hm.readWords_eq_error_iff, ?_⟩
  intro b delta
  constructor
  · intro h
    obtain ⟨i, c, -, -, hno⟩ := hm.readWords_eq_error_iff.1 h
    cases hno
  · intro h
    obtain ⟨i, c, -, -, hno⟩ := hm.readWords_eq_error_iff.1 h
    cases hno

/-- Behind the last cell that can be written there is one to be looked at, but nothing in it. -/
example :
    let a : Address := ⟨0, 0xfffffffffffffffe⟩
    let m := (⟨#[.empty], 1⟩ : Memory).put a (Value.ofWord 7)
    (m.readWords a 1).map Prod.fst = .ok #v[7] ∧
      m.readWords a 2 = .error (.memory (.unsetCell ⟨0, 0xffffffffffffffff⟩)) := by
  decide +kernel

end Memory

end CellHints
