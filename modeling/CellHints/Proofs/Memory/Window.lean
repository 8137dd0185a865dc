import CellHints.Hint.Builtin
import CellHints.Proofs.Memory.Growth
import CellHints.Proofs.Success

/-!
# Windows of memory

A window is a row of consecutive cells of one segment.  A range write fills a
window up to the first cell that refuses its value and changes no cell outside;
reading words finds the words of a window.  A window may reach past the end of
its segment's address space: then it does NOT hold anything, and writing stops
there.
-/

namespace CellHints

namespace Address

/-- The cell behind the next one is the next but one. -/
theorem shift_next_eq_ok_iff {a b c : Address} {i : Nat} (h : a.shift 1 = .ok b) :
    b.shift i = .ok c ↔ a.shift (i + 1 : Nat) = .ok c := by
  obtain ⟨hsegment, hoffset⟩ := shift_eq_ok_iff.1 h
  simp only [shift_eq_ok_iff, hsegment, hoffset]
  constructor
  · rintro ⟨hc, ho⟩
    exact ⟨hc, by omega⟩
  · rintro ⟨hc, ho⟩
    exact ⟨hc, by omega⟩

/-- One cell on is a step that is never too long. -/
theorem advance_one (a : Address) : a.advance 1 = a.shift 1 := rfl

/-- The next address, where there is one. -/
theorem shift_one {a : Address} (h : a.offset.toNat + 1 < UInt64.size) :
    a.shift 1 = .ok ⟨a.segment, a.offset + 1⟩ := by
  have hnext : (a.offset + 1).toNat = a.offset.toNat + 1 := by
    rw [UInt64.toNat_add]
    exact Nat.mod_eq_of_lt h
  exact shift_eq_ok_iff.2 ⟨rfl, by rw [hnext]; rfl⟩

theorem shift_injective {a b : Address} {i j : Int} (hi : a.shift i = .ok b)
    (hj : a.shift j = .ok b) : i = j := by
  have hoffset := (shift_eq_ok_iff.1 hi).2
  rw [(shift_eq_ok_iff.1 hj).2] at hoffset
  omega

end Address

/-- A word is held as the field element that counts as much. -/
theorem Value.felt_eq_ofWord_iff {x : Felt} {w : UInt32} :
    Value.felt x = Value.ofWord w ↔ x.val = w.toNat := by
  have hval : (Felt.ofNat w.toNat).val = w.toNat :=
    Nat.mod_eq_of_lt (Nat.lt_trans w.toNat_lt (by decide))
  constructor
  · intro h
    cases h
    exact hval
  · intro h
    exact congrArg Value.felt (Felt.ext (h.trans hval.symm))

namespace Memory

/-- Whether the cells from `a` on hold the values, one behind the other. -/
def Holds (m : Memory) (a : Address) (vs : List Value) : Prop :=
  ∀ (i : Nat) v, vs[i]? = some v → ∃ b, a.shift i = .ok b ∧ m.peek b = some v

/-- Whether `n` is `m` with the values written into the cells from `a` on, each of which
was unset, and with nothing else changed but the length of their segment. -/
structure Writes (m : Memory) (a : Address) (vs : List Value) (n : Memory) : Prop where
  written : ∀ (i : Nat) v, vs[i]? = some v →
    ∃ b, a.shift i = .ok b ∧ m.peek b = none ∧ n.peek b = some v
  kept : ∀ b, (∀ i : Nat, i < vs.length → a.shift i ≠ .ok b) → n.peek b = m.peek b
  segmentLen_eq : ∀ i, i ≠ a.segment → n.segmentLen i = m.segmentLen i
  size_eq : n.segments.size = m.segments.size
  limit_eq : n.limit = m.limit

theorem Writes.nil (m : Memory) (a : Address) : m.Writes a [] m where
  written := by
    intro i v h
    simp at h
  kept := fun _ _ => rfl
  segmentLen_eq := fun _ _ => rfl
  size_eq := rfl
  limit_eq := rfl

theorem write_eq_error_iff {m : Memory} {a : Address} {v : Value} {e : MemoryError} :
    m.write a v = .error e ↔ m.refusal? a v = some e := by
  unfold write
  cases m.refusal? a v with
  | none => simp
  | some e' => simp

theorem peek_write {m n : Memory} {a : Address} {v : Value} (h : m.write a v = .ok n)
    (b : Address) : n.peek b = if b = a then some v else m.peek b := by
  obtain ⟨hfree, rfl⟩ := write_eq_ok_iff.1 h
  exact peek_put b (refusal?_eq_none_iff.1 hfree).2.1

theorem segmentLen_write {m n : Memory} {a : Address} {v : Value} (h : m.write a v = .ok n)
    {i : UInt64} (hi : i ≠ a.segment) : n.segmentLen i = m.segmentLen i := by
  obtain ⟨-, rfl⟩ := write_eq_ok_iff.1 h
  unfold segmentLen
  rw [segment?_put, if_neg hi]

/-- Behind a cell that can be written lies the one that a range goes on with. -/
theorem advance_of_write {m n : Memory} {a : Address} {v : Value} (h : m.write a v = .ok n) :
    a.advance 1 = .ok ⟨a.segment, a.offset + 1⟩ := by
  obtain ⟨hlt, -, -⟩ := refusal?_eq_none_iff.1 (write_eq_ok_iff.1 h).1
  exact Address.shift_one hlt

theorem exists_next_of_write {m n : Memory} {a : Address} {v : Value} (h : m.write a v = .ok n) :
    ∃ b, a.shift 1 = .ok b := ⟨_, advance_of_write h⟩

theorem Writes.cons {m k n : Memory} {a b : Address} {v : Value} {vs : List Value}
    (hwrite : m.write a v = .ok k) (hnext : a.shift 1 = .ok b) (h : k.Writes b vs n) :
    m.Writes a (v :: vs) n := by
  have hpeek := peek_write hwrite
  have hstart : a.shift (0 : Nat) = .ok a := Address.shift_eq_ok_iff.2 ⟨rfl, by simp⟩
  have hsegment : b.segment = a.segment := (Address.shift_eq_ok_iff.1 hnext).1
  refine ⟨?_, ?_, ?_, ?_, ?_⟩
  · intro i w hw
    cases i with
    | zero =>
        -- The first cell lies in front of the others, which leave it alone.
        obtain rfl : v = w := by simpa using hw
        refine ⟨a, hstart, ?_, ?_⟩
        · exact (refusal?_eq_none_iff.1 (write_eq_ok_iff.1 hwrite).1).2.2
        · rw [h.kept a, hpeek, if_pos rfl]
          intro i _ hi
          have hzero := Address.shift_injective hstart ((Address.shift_next_eq_ok_iff hnext).1 hi)
          omega
    | succ i =>
        obtain ⟨c, hc, hunset, hset⟩ := h.written i w (by simpa using hw)
        refine ⟨c, (Address.shift_next_eq_ok_iff hnext).1 hc, ?_, hset⟩
        rw [hpeek] at hunset
        split at hunset
        · contradiction
        · exact hunset
  · intro c hc
    have hne : c ≠ a := by
      rintro rfl
      exact hc 0 (by simp) hstart
    rw [h.kept c, hpeek, if_neg hne]
    intro i hi hshift
    exact hc (i + 1) (by simpa using hi) ((Address.shift_next_eq_ok_iff hnext).1 hshift)
  · intro i hi
    rw [h.segmentLen_eq i (by rwa [hsegment]), segmentLen_write hwrite hi]
  · obtain ⟨-, rfl⟩ := write_eq_ok_iff.1 hwrite
    rw [h.size_eq, size_put]
  · obtain ⟨-, rfl⟩ := write_eq_ok_iff.1 hwrite
    exact h.limit_eq

/-- Whether a row of values is written up to one that its cell refuses with `e`. -/
def StopsWriting (m : Memory) (a : Address) (vs : List Value) (e : MemoryError) (n : Memory) :
    Prop :=
  ∃ (k : Nat) (v : Value) (b : Address), vs[k]? = some v ∧ a.shift k = .ok b ∧
    m.Writes a (vs.take k) n ∧ n.refusal? b v = some e

theorem StopsWriting.cons {m k n : Memory} {a b : Address} {v : Value} {vs : List Value}
    {e : MemoryError} (hwrite : m.write a v = .ok k) (hnext : a.shift 1 = .ok b)
    (h : k.StopsWriting b vs e n) : m.StopsWriting a (v :: vs) e n := by
  obtain ⟨i, w, c, hw, hc, hwrites, hrefused⟩ := h
  refine ⟨i + 1, w, c, by simpa using hw, (Address.shift_next_eq_ok_iff hnext).1 hc, ?_, hrefused⟩
  rw [List.take_succ_cons]
  exact hwrites.cons hwrite hnext

/-- A range write writes all its values, or those in front of the first cell that
refuses one.  Its address never runs out of range before a cell does. -/
theorem writeRange_writes_or_stops (m : Memory) (a : Address) (vs : List Value) :
    (∃ b, (m.writeRange a vs).1 = .ok b ∧ m.Writes a vs (m.writeRange a vs).2) ∨
    ∃ e, (m.writeRange a vs).1 = .error e ∧ m.StopsWriting a vs e (m.writeRange a vs).2 := by
  induction vs generalizing m a with
  | nil => exact Or.inl ⟨a, rfl, .nil m a⟩
  | cons v vs ih =>
      cases hwrite : m.write a v with
      | error e =>
          have hstart : a.shift (0 : Nat) = .ok a := Address.shift_eq_ok_iff.2 ⟨rfl, by simp⟩
          refine Or.inr ⟨e, ?_, 0, v, a, rfl, hstart, ?_, ?_⟩
          all_goals simp only [writeRange, hwrite, List.take_zero]
          · exact .nil m a
          · exact write_eq_error_iff.1 hwrite
      | ok k =>
          obtain ⟨b, hnext⟩ := exists_next_of_write hwrite
          have hrange : m.writeRange a (v :: vs) = k.writeRange b vs := by
            simp only [writeRange, hwrite, Address.advance_one, hnext]
          rw [hrange]
          rcases ih k b with ⟨c, hc, hwrites⟩ | ⟨e, he, hstops⟩
          · exact Or.inl ⟨c, hc, hwrites.cons hwrite hnext⟩
          · exact Or.inr ⟨e, he, hstops.cons hwrite hnext⟩

theorem Holds.snoc {m : Memory} {a b : Address} {vs : List Value} {v : Value} (h : m.Holds a vs)
    (hb : a.shift (vs.length : Nat) = .ok b) (hv : m.peek b = some v) :
    m.Holds a (vs ++ [v]) := by
  intro i w hw
  rcases Nat.lt_trichotomy i vs.length with hlt | rfl | hgt
  · rw [List.getElem?_append_left hlt] at hw
    exact h i w hw
  · obtain rfl : v = w := by simpa using hw
    exact ⟨b, hb, hv⟩
  · rw [List.getElem?_eq_none (by simp; omega)] at hw
    contradiction

theorem peek_of_readWord {m : Memory} {a : Address} {w : UInt32} (h : m.readWord a = .ok w) :
    m.peek a = some (Value.ofWord w) := by
  obtain ⟨x, hx, h⟩ := Except.bind_eq_ok_iff.1 h
  obtain ⟨v, hv, hfelt⟩ := Except.bind_eq_ok_iff.1 (Except.mapError_eq_ok_iff.1 hx)
  obtain rfl := Value.asFelt_eq_ok_iff.1 (Except.mapError_eq_ok_iff.1 hfelt)
  cases hnarrow : x.toUInt32? with
  | none =>
      rw [hnarrow] at h
      contradiction
  | some u =>
      rw [hnarrow] at h
      cases h
      have hval : w.toNat = x.val := Narrow.toUInt32?_eq_some_iff.1 hnarrow
      rw [read_eq_ok_iff.1 hv, Value.felt_eq_ofWord_iff.2 hval.symm]

/-- Words that were read are the words of the window, and the address behind it is there. -/
theorem holds_of_readWords {m : Memory} {a b : Address} {n : Nat} {ws : Vector UInt32 n}
    (h : m.readWords a n = .ok (ws, b)) :
    m.Holds a (ws.toList.map Value.ofWord) ∧ a.shift n = .ok b := by
  induction n generalizing b with
  | zero =>
      cases h
      refine ⟨?_, Address.shift_eq_ok_iff.2 ⟨rfl, by simp⟩⟩
      intro i v hv
      simp at hv
  | succ n ih =>
      obtain ⟨⟨us, c⟩, hus, h⟩ := Except.bind_eq_ok_iff.1 h
      obtain ⟨w, hw, h⟩ := Except.bind_eq_ok_iff.1 h
      obtain ⟨d, hd, h⟩ := Except.bind_eq_ok_iff.1 h
      cases h
      obtain ⟨hholds, hc⟩ := ih hus
      have hlast : a.shift ((us.toList.map Value.ofWord).length : Nat) = .ok c := by
        simpa using hc
      have hsnoc := hholds.snoc hlast (peek_of_readWord hw)
      refine ⟨by simpa [Vector.toList_push] using hsnoc, ?_⟩
      -- The address behind the window is one on from the last cell.
      obtain ⟨hcs, hco⟩ := Address.shift_eq_ok_iff.1 hc
      have hnext : c.shift 1 = .ok b := Except.mapError_eq_ok_iff.1 hd
      obtain ⟨hds, hdo⟩ := Address.shift_eq_ok_iff.1 hnext
      exact Address.shift_eq_ok_iff.2 ⟨hds.trans hcs, by omega⟩

end Memory

end CellHints
