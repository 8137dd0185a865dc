import CellHints.Memory
import Mathlib.Logic.Relation

/-!
# How memory grows

Every operation on memory is a row of steps, each of which allocates one segment
or writes one cell.  A step keeps what was written, keeps the segments that were
there, and keeps the length of every segment exact.  It is NOT said here which
steps an operation takes.
-/

namespace CellHints

/-- The cells of a segment lie below its length, which is one past the last of
them or zero, and no length leaves room for the last offset. -/
structure Segment.Coherent (s : Segment) : Prop where
  below : ∀ (o : UInt64) v, s.cells[o]? = some v → o.toNat < s.len
  reached : s.len = 0 ∨ ∃ (o : UInt64) (v : Value), s.cells[o]? = some v ∧ o.toNat + 1 = s.len
  bounded : s.len < UInt64.size

namespace Segment

theorem coherent_empty : Coherent empty where
  below := by
    intro offset v h
    simp [empty] at h
  reached := Or.inl rfl
  bounded := by decide

theorem getElem?_insert (s : Segment) (offset o : UInt64) (v : Value) :
    (s.insert offset v).cells[o]? = if o = offset then some v else s.cells[o]? := by
  by_cases h : o = offset
  · simp [insert, h]
  · have hne : offset ≠ o := fun heq => h heq.symm
    simp [insert, Std.ExtTreeMap.getElem?_insert, h, hne]

/-- A new cell either ends the segment or lies inside it. -/
theorem Coherent.insert {s : Segment} (hs : s.Coherent) {offset : UInt64}
    (hoffset : offset.toNat + 1 < UInt64.size) (v : Value) : (s.insert offset v).Coherent where
  below := by
    intro o w h
    rw [getElem?_insert] at h
    show o.toNat < max s.len (offset.toNat + 1)
    split at h
    · next heq =>
        subst heq
        omega
    · have hbelow := hs.below o w h
      omega
  reached := by
    right
    show ∃ (o : UInt64) (w : Value), (s.insert offset v).cells[o]? = some w ∧
      o.toNat + 1 = max s.len (offset.toNat + 1)
    -- The last cell stays the last one, unless the new one lies behind it.
    by_cases hlt : offset.toNat + 1 < s.len
    · obtain hzero | ⟨o, w, ho, hlen⟩ := hs.reached
      · omega
      · have hne : o ≠ offset := by
          rintro rfl
          omega
        refine ⟨o, w, ?_, by omega⟩
        rw [getElem?_insert, if_neg hne, ho]
    · refine ⟨offset, v, ?_, by omega⟩
      rw [getElem?_insert, if_pos rfl]
  bounded := by
    have hbounded := hs.bounded
    show max s.len (offset.toNat + 1) < UInt64.size
    omega

end Segment

namespace Memory

/-- There are no more segments than allowed, and each of them is coherent. -/
structure Coherent (m : Memory) : Prop where
  size_le : m.segments.size ≤ m.limit.toNat
  segment : ∀ i s, m.segment? i = some s → s.Coherent

/-- What stays as it is while memory grows. -/
structure Grows (m n : Memory) : Prop where
  limit_eq : n.limit = m.limit
  size_le : m.segments.size ≤ n.segments.size
  peek : ∀ a v, m.peek a = some v → n.peek a = some v

/-- A single step: a new segment, or a new cell. -/
inductive Step : Memory → Memory → Prop
  | allocate {m n : Memory} {base : Address} (h : m.allocate = .ok (base, n)) : Step m n
  | write {m n : Memory} {a : Address} {v : Value} (h : m.write a v = .ok n) : Step m n

/-- A row of steps. -/
def Leads : Memory → Memory → Prop := Relation.ReflTransGen Step

theorem allocate_eq_ok_iff {m n : Memory} {base : Address} :
    m.allocate = .ok (base, n) ↔
      m.segments.size < m.limit.toNat ∧ base = ⟨UInt64.ofNat m.segments.size, 0⟩ ∧
        n = { m with segments := m.segments.push .empty } := by
  unfold allocate
  split
  · next h => simp [h, eq_comm]
  · next h => simp [h]

/-- Only the segment behind the last one is new. -/
theorem segment?_allocate {m n : Memory} {base : Address} (h : m.allocate = .ok (base, n))
    (i : UInt64) :
    n.segment? i = if i.toNat = m.segments.size then some .empty else m.segment? i := by
  obtain ⟨-, -, rfl⟩ := allocate_eq_ok_iff.1 h
  exact Array.getElem?_push

theorem size_put (m : Memory) (a : Address) (v : Value) :
    (m.put a v).segments.size = m.segments.size := by
  simp [put]

theorem segment?_isSome_iff {m : Memory} {i : UInt64} :
    (m.segment? i).isSome ↔ i.toNat < m.segments.size := by
  simp [segment?]

theorem Grows.refl (m : Memory) : m.Grows m := ⟨rfl, Nat.le_refl _, fun _ _ h => h⟩

theorem Grows.trans {k m n : Memory} (h : k.Grows m) (h' : m.Grows n) : k.Grows n where
  limit_eq := h'.limit_eq.trans h.limit_eq
  size_le := Nat.le_trans h.size_le h'.size_le
  peek := fun a v hv => h'.peek a v (h.peek a v hv)

theorem peek_allocate {m n : Memory} {base : Address} (h : m.allocate = .ok (base, n))
    (a : Address) : n.peek a = if a.segment.toNat = m.segments.size then none else m.peek a := by
  unfold peek
  rw [segment?_allocate h]
  split
  · show (Segment.empty.cells)[a.offset]? = none
    simp [Segment.empty]
  · rfl

theorem peek_eq_none_of_size_le {m : Memory} {a : Address} (h : m.segments.size ≤ a.segment.toNat) :
    m.peek a = none := by
  unfold peek segment?
  rw [Array.getElem?_eq_none h]
  rfl

theorem Step.grows {m n : Memory} (h : Step m n) : m.Grows n := by
  cases h with
  | allocate h =>
      have hpeek := peek_allocate h
      obtain ⟨-, -, rfl⟩ := allocate_eq_ok_iff.1 h
      refine ⟨rfl, by simp, ?_⟩
      intro a v hv
      rw [hpeek, if_neg, hv]
      -- A cell that holds a value lies in one of the old segments.
      intro heq
      rw [peek_eq_none_of_size_le (Nat.le_of_eq heq.symm)] at hv
      contradiction
  | @write a v h =>
      obtain ⟨hfree, rfl⟩ := write_eq_ok_iff.1 h
      obtain ⟨-, hsegment, hunset⟩ := refusal?_eq_none_iff.1 hfree
      refine ⟨rfl, Nat.le_of_eq (size_put m a v).symm, ?_⟩
      intro b w hw
      rw [peek_put b hsegment, if_neg, hw]
      -- The cell that is written held nothing.
      rintro rfl
      rw [hunset] at hw
      contradiction

theorem Step.coherent {m n : Memory} (h : Step m n) (hm : m.Coherent) : n.Coherent := by
  cases h with
  | allocate h =>
      have hsegment := segment?_allocate h
      obtain ⟨hlt, -, rfl⟩ := allocate_eq_ok_iff.1 h
      refine ⟨?_, ?_⟩
      · show (m.segments.push Segment.empty).size ≤ m.limit.toNat
        rw [Array.size_push]
        exact hlt
      · intro i s hs
        rw [hsegment] at hs
        split at hs
        · cases hs
          exact Segment.coherent_empty
        · exact hm.segment i s hs
  | @write a v h =>
      obtain ⟨hfree, rfl⟩ := write_eq_ok_iff.1 h
      obtain ⟨hoffset, -, -⟩ := refusal?_eq_none_iff.1 hfree
      refine ⟨?_, ?_⟩
      · rw [size_put]
        exact hm.size_le
      · intro i s hs
        rw [segment?_put] at hs
        split at hs
        · obtain ⟨t, ht, rfl⟩ := Option.map_eq_some_iff.1 hs
          exact (hm.segment i t ht).insert hoffset v
        · exact hm.segment i s hs

theorem coherent_empty (limit : UInt64) : (empty limit).Coherent := by
  refine ⟨Nat.zero_le _, ?_⟩
  intro i s hs
  simp [empty, segment?] at hs

theorem Leads.grows {m n : Memory} (h : m.Leads n) : m.Grows n := by
  induction h with
  | refl => exact .refl m
  | tail _ hstep ih => exact ih.trans hstep.grows

theorem Leads.coherent {m n : Memory} (h : m.Leads n) (hm : m.Coherent) : n.Coherent := by
  induction h with
  | refl => exact hm
  | tail _ hstep ih => exact hstep.coherent ih

/-- A range write is a row of single writes, also when it stops early. -/
theorem leads_writeRange (m : Memory) (a : Address) (vs : List Value) :
    m.Leads (m.writeRange a vs).2 := by
  induction vs generalizing m a with
  | nil => exact .refl
  | cons v vs ih =>
      unfold writeRange
      -- A write that is refused ends the row; what was written before it stays.
      cases hwrite : m.write a v with
      | error e => exact .refl
      | ok n =>
          have hstep : m.Leads n := .single (.write hwrite)
          cases hnext : a.advance 1 with
          | error e => exact hstep
          | ok b => exact hstep.trans (ih n b)

end Memory

end CellHints
