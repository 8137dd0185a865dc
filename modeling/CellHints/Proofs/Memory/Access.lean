import CellHints.Proofs.Memory.History
import CellHints.Proofs.Memory.Window

/-!
# When reading and writing succeed

A cell can be written if it is vacant, and a window if all its cells are: every
write of a range leaves the cells behind it vacant.  A window that holds words
can be read.  The address behind the last word is there because no coherent
memory holds anything at the last offset; a window is NOT read past it.
-/

namespace CellHints

namespace Memory

variable {m n : Memory} {a b : Address} {v : Value} {vs us : List Value}

/-- Whether a cell can be written: it is unset, its segment is there, and its offset is not
the last one. -/
structure Vacant (m : Memory) (a : Address) : Prop where
  segment : a.segment.toNat < m.segments.size
  notAtEnd : ¬AtEnd a
  unset : m.peek a = none

/-- Whether the `n` cells from `a` on can be written. -/
def VacantRow (m : Memory) (a : Address) (n : Nat) : Prop :=
  ∀ i : Nat, i < n → ∃ b, a.shift i = .ok b ∧ m.Vacant b

/-- Whether each of the `n` cells from `a` on holds a field element of 32 bits. -/
def WordRow (m : Memory) (a : Address) (n : Nat) : Prop :=
  ∀ i : Nat, i < n → ∃ b x, a.shift i = .ok b ∧ m.peek b = some (.felt x) ∧ x.val < UInt32.size

theorem refusal?_eq_none_iff_vacant : m.refusal? a v = none ↔ m.Vacant a := by
  have hoffset := a.offset.toNat_lt
  rw [refusal?_eq_none_iff, segment?_isSome_iff]
  constructor
  · rintro ⟨hlast, hsegment, hunset⟩
    refine ⟨hsegment, ?_, hunset⟩
    simp only [AtEnd, UInt64.size] at hlast ⊢
    omega
  · rintro ⟨hsegment, hlast, hunset⟩
    refine ⟨?_, hsegment, hunset⟩
    simp only [AtEnd, UInt64.size] at hlast ⊢
    omega

instance (m : Memory) (a : Address) : Decidable (m.Vacant a) :=
  decidable_of_iff (m.refusal? a (.felt Felt.zero) = none) refusal?_eq_none_iff_vacant

theorem vacantRow_iff {n : Nat} :
    m.VacantRow a n ↔ ∀ i : Nat, i < n → ∃ b ∈ (a.shift i).toOption, m.Vacant b := by
  constructor
  · intro h i hi
    obtain ⟨b, hb, hvacant⟩ := h i hi
    exact ⟨b, by rw [hb]; rfl, hvacant⟩
  · intro h i hi
    obtain ⟨b, hb, hvacant⟩ := h i hi
    cases hshift : a.shift i with
    | error e =>
        rw [hshift] at hb
        contradiction
    | ok c =>
        rw [hshift] at hb
        obtain rfl : c = b := Option.some.inj hb
        exact ⟨c, rfl, hvacant⟩

instance (m : Memory) (a : Address) (n : Nat) : Decidable (m.VacantRow a n) :=
  decidable_of_iff _ vacantRow_iff.symm

theorem Vacant.write (h : m.Vacant a) (v : Value) : m.write a v = .ok (m.put a v) :=
  write_eq_ok_iff.2 ⟨refusal?_eq_none_iff_vacant.2 h, rfl⟩

/-- Cells that are still vacant when a range comes to them let it pass. -/
theorem VacantRow.writeRange (h : m.VacantRow a vs.length) :
    ∃ b n, m.writeRange a vs = (.ok b, n) ∧ m.Writes a vs n := by
  rcases m.writeRange_writes_or_stops a vs with ⟨b, hok, hwrites⟩ | ⟨e, -, hstops⟩
  · exact ⟨b, _, Prod.ext hok rfl, hwrites⟩
  · obtain ⟨k, v, c, hv, hc, hwrites, hrefused⟩ := hstops
    obtain ⟨hk, -⟩ := List.getElem?_eq_some_iff.1 hv
    obtain ⟨c', hc', hvacant⟩ := h k hk
    obtain rfl : c = c' := Except.ok.inj (hc.symm.trans hc')
    -- The values in front of this cell went to other cells.
    have hkept : (m.writeRange a vs).2.peek c = m.peek c := by
      apply hwrites.kept
      intro i hi hshift
      have heq := Address.shift_injective hshift hc
      rw [List.length_take] at hi
      omega
    have hvacant' : (m.writeRange a vs).2.Vacant c :=
      ⟨hwrites.size_eq ▸ hvacant.segment, hvacant.notAtEnd, hkept.trans hvacant.unset⟩
    rw [refusal?_eq_none_iff_vacant.2 hvacant'] at hrefused
    contradiction

theorem Writes.holds (h : m.Writes a vs n) : n.Holds a vs := by
  intro i v hv
  obtain ⟨b, hb, -, hset⟩ := h.written i v hv
  exact ⟨b, hb, hset⟩

/-- What is written can be written. -/
theorem Writes.vacantRow (h : m.Writes a vs n) (hn : n.Coherent) : m.VacantRow a vs.length := by
  intro i hi
  obtain ⟨b, hb, hunset, hset⟩ := h.written i vs[i] (List.getElem?_eq_getElem hi)
  refine ⟨b, hb, ?_, ?_, hunset⟩
  · by_contra hge
    rw [peek_eq_none_of_size_le (by rw [h.size_eq]; omega)] at hset
    contradiction
  · intro hend
    rw [hn.peek_atEnd hend] at hset
    contradiction

theorem Holds.of_grows (h : m.Holds a vs) (hgrows : m.Grows n) : n.Holds a vs := by
  intro i v hv
  obtain ⟨b, hb, hset⟩ := h i v hv
  exact ⟨b, hb, hgrows.peek b v hset⟩

theorem Holds.of_append (h : m.Holds a (vs ++ us)) : m.Holds a vs := by
  intro i v hv
  obtain ⟨hi, -⟩ := List.getElem?_eq_some_iff.1 hv
  exact h i v (by rw [List.getElem?_append_left hi, hv])

/-- A word that is held is read as itself. -/
theorem readWord_of_peek {w : UInt32} (h : m.peek a = some (Value.ofWord w)) :
    m.readWord a = .ok w := by
  have hfelt : m.readFelt a = .ok (Felt.ofNat w.toNat) := by
    apply Except.bind_eq_ok_iff.2
    exact ⟨_, read_eq_ok_iff.2 h, rfl⟩
  have hword : (Felt.ofNat w.toNat).toUInt32? = some w :=
    Narrow.toUInt32?_eq_some_iff.2 (Value.felt_eq_ofWord_iff.1 rfl).symm
  apply Except.bind_eq_ok_iff.2
  refine ⟨_, Except.mapError_eq_ok_iff.2 hfelt, ?_⟩
  rw [hword]
  rfl

/-- Behind a cell that holds something there is another one. -/
theorem Coherent.exists_next (hm : m.Coherent) (h : m.peek a = some v) :
    ∃ b, a.advance 1 = .ok b := by
  have hlast : ¬AtEnd a := by
    intro hend
    rw [hm.peek_atEnd hend] at h
    contradiction
  have hoffset := a.offset.toNat_lt
  have hlt : a.offset.toNat + 1 < UInt64.size := by
    simp only [AtEnd, UInt64.size] at hlast ⊢
    omega
  exact ⟨_, Address.shift_one hlt⟩

/-- A window that holds words is read as these words. -/
theorem Coherent.readWords_of_holds (hm : m.Coherent) {k : Nat} {ws : Vector UInt32 k}
    (h : m.Holds a (ws.toList.map Value.ofWord)) : ∃ b, m.readWords a k = .ok (ws, b) := by
  induction k with
  | zero =>
      obtain rfl : ws = #v[] := Vector.eq_empty
      exact ⟨a, rfl⟩
  | succ k ih =>
      rw [← ws.push_pop_back] at h ⊢
      rw [Vector.toList_push, List.map_append] at h
      obtain ⟨b, hb⟩ := ih h.of_append
      -- The last word stands where the words in front of it end.
      obtain ⟨c, hc, hlast⟩ := h k (Value.ofWord ws.back) (by simp)
      obtain rfl : b = c := Except.ok.inj ((holds_of_readWords hb).2.symm.trans hc)
      obtain ⟨d, hd⟩ := hm.exists_next hlast
      refine ⟨d, Except.bind_eq_ok_iff.2 ⟨_, hb, ?_⟩⟩
      apply Except.bind_eq_ok_iff.2
      refine ⟨_, readWord_of_peek hlast, ?_⟩
      apply Except.bind_eq_ok_iff.2
      exact ⟨d, Except.mapError_eq_ok_iff.2 hd, rfl⟩

/-- A field element of 32 bits is a word. -/
theorem exists_ofWord_eq {x : Felt} (h : x.val < UInt32.size) :
    ∃ w, Value.ofWord w = .felt x := by
  have hval : x.val = (UInt32.ofNat x.val).toNat := (UInt32.toNat_ofNat_of_lt' h).symm
  exact ⟨UInt32.ofNat x.val, (Value.felt_eq_ofWord_iff.2 hval).symm⟩

theorem val_ofWord_lt (w : UInt32) : (Felt.ofNat w.toNat).val < UInt32.size :=
  Nat.lt_of_le_of_lt (Nat.mod_le w.toNat prime) w.toNat_lt_size

/-- Cells that each hold a word hold a row of words. -/
theorem wordRow_iff {k : Nat} :
    m.WordRow a k ↔ ∃ ws : Vector UInt32 k, m.Holds a (ws.toList.map Value.ofWord) := by
  constructor
  · intro h
    induction k with
    | zero => exact ⟨#v[], by intro i v hv; simp at hv⟩
    | succ k ih =>
        obtain ⟨ws, hws⟩ := ih fun i hi => h i (Nat.lt_succ_of_lt hi)
        obtain ⟨b, x, hb, hx, hlt⟩ := h k (Nat.lt_succ_self k)
        obtain ⟨w, hw⟩ := exists_ofWord_eq hlt
        refine ⟨ws.push w, ?_⟩
        rw [Vector.toList_push, List.map_append]
        exact hws.snoc (by simpa using hb) (by rw [hx, hw])
  · rintro ⟨ws, hws⟩ i hi
    obtain ⟨b, hb, hset⟩ := hws i (Value.ofWord ws[i]) (by simp [hi])
    exact ⟨b, _, hb, hset, val_ofWord_lt ws[i]⟩

end Memory

end CellHints
