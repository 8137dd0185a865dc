import CellHints.Proofs.Memory.Window

/-!
# Exchanging operations on memory

What a memory holds does not depend on the order in which its cells came to hold
it.  Two operations that are both possible from a memory, and one behind the
other, can be exchanged, and so can two rows of them; only two allocations
cannot, for each of them gives out the next segment.  It is NOT said here that
two operations which are possible are so one behind the other: both may write
the same cell.
-/

namespace CellHints

attribute [ext] Segment Memory

namespace Segment

theorem insert_comm (s : Segment) {o p : UInt64} (h : o ≠ p) (v w : Value) :
    (s.insert o v).insert p w = (s.insert p w).insert o v := by
  have hcells : ((s.insert o v).insert p w).cells = ((s.insert p w).insert o v).cells := by
    apply Std.ExtTreeMap.ext_getElem?
    intro q
    simp only [getElem?_insert]
    split
    · next hq => rw [if_neg (hq ▸ h.symm)]
    · rfl
  have hlen : ((s.insert o v).insert p w).len = ((s.insert p w).insert o v).len := by
    show max (max s.len (o.toNat + 1)) (p.toNat + 1) = max (max s.len (p.toNat + 1)) (o.toNat + 1)
    omega
  exact Segment.ext hcells hlen

end Segment

namespace Memory

/-- A single operation on memory. -/
inductive Op
  | allocate
  | write (a : Address) (v : Value)

/-- The first address of the segment that is allocated next. -/
def nextBase (m : Memory) : Address := ⟨UInt64.ofNat m.segments.size, 0⟩

/-- The memory behind an operation. -/
def step (m : Memory) : Op → Except MemoryError Memory
  | .allocate => m.allocate.map (·.2)
  | .write a v => m.write a v

/-- Whether a row of operations, none of which is refused, leads from one memory to another. -/
inductive Does : Memory → List Op → Memory → Prop
  | nil (m : Memory) : Does m [] m
  | cons {m k n : Memory} {o : Op} {ops : List Op} (h : m.step o = .ok k) (h' : Does k ops n) :
      Does m (o :: ops) n

variable {m k l n : Memory} {a b : Address} {v w : Value} {o p : Op} {ops : List Op}

theorem step_allocate_eq_ok_iff :
    m.step .allocate = .ok n ↔
      m.segments.size < m.limit.toNat ∧ n = { m with segments := m.segments.push .empty } := by
  show m.allocate.map (·.2) = .ok n ↔ _
  rw [Except.map_eq_ok_iff]
  constructor
  · rintro ⟨⟨base, k⟩, h, rfl⟩
    obtain ⟨hlt, -, hk⟩ := allocate_eq_ok_iff.1 h
    exact ⟨hlt, hk⟩
  · rintro ⟨hlt, rfl⟩
    exact ⟨_, allocate_eq_ok_iff.2 ⟨hlt, rfl, rfl⟩, rfl⟩

theorem Step.of_step (h : m.step o = .ok n) : Step m n := by
  cases o with
  | allocate =>
      obtain ⟨⟨base, k⟩, hallocate, rfl⟩ := Except.map_eq_ok_iff.1 h
      exact .allocate hallocate
  | write a v => exact .write h

theorem Does.leads (h : m.Does ops n) : m.Leads n := by
  induction h with
  | nil m => exact .refl
  | cons h _ ih => exact .head (Step.of_step h) ih

theorem does_write_iff :
    m.Does [.write a v] n ↔ m.write a v = .ok n := by
  constructor
  · intro h
    cases h with
    | cons h hrest =>
        cases hrest
        exact h
  · intro h
    exact .cons h (.nil n)

/-- Only an allocation changes the number of segments. -/
theorem Does.size_eq (h : m.Does ops n) (hops : .allocate ∉ ops) :
    n.segments.size = m.segments.size := by
  induction h with
  | nil m => rfl
  | @cons m k n o ops h _ ih =>
      have hk : k.segments.size = m.segments.size := by
        cases o with
        | allocate => simp at hops
        | write a v =>
            obtain ⟨-, rfl⟩ := write_eq_ok_iff.1 h
            exact size_put m a v
      rw [ih (fun hmem => hops (List.mem_cons_of_mem _ hmem)), hk]

theorem put_comm (m : Memory) (h : a ≠ b) (v w : Value) :
    (m.put a v).put b w = (m.put b w).put a v := by
  have hsegments : ((m.put a v).put b w).segments = ((m.put b w).put a v).segments := by
    apply Array.ext_getElem?
    intro i
    simp only [put, Array.getElem?_modify]
    by_cases ha : a.segment.toNat = i
    · by_cases hb : b.segment.toNat = i
      · -- Cells of one segment differ in their offsets.
        have hoffset : a.offset ≠ b.offset := by
          intro heq
          have hsegment : a.segment = b.segment := UInt64.toNat_inj.1 (ha.trans hb.symm)
          apply h
          cases a
          cases b
          simp_all
        simp only [ha, hb, if_true, Option.map_map]
        congr 1
        funext s
        exact s.insert_comm hoffset v w
      · simp only [if_neg hb]
    · simp only [if_neg ha]
  exact Memory.ext hsegments rfl

/-- A new segment does not disturb a cell that is written in one of the others. -/
theorem push_put (ha : a.segment.toNat < m.segments.size) (v : Value) :
    ({ m with segments := m.segments.push .empty } : Memory).put a v =
      { m.put a v with segments := (m.put a v).segments.push .empty } := by
  have hsegments : (m.segments.push .empty).modify a.segment.toNat (·.insert a.offset v) =
      (m.segments.modify a.segment.toNat (·.insert a.offset v)).push .empty := by
    apply Array.ext_getElem?
    intro i
    simp only [Array.getElem?_modify, Array.getElem?_push, Array.size_modify]
    by_cases hi : i = m.segments.size
    · rw [if_neg (by omega), if_pos hi, if_pos hi]
    · simp only [if_neg hi]
  exact Memory.ext hsegments rfl

theorem write_put_of_ne (h : a ≠ b) (ha : m.write a v = .ok k) (hb : m.write b w = .ok l) :
    l.write a v = .ok (k.put b w) := by
  obtain ⟨hfree, rfl⟩ := write_eq_ok_iff.1 ha
  obtain ⟨hbfree, rfl⟩ := write_eq_ok_iff.1 hb
  obtain ⟨hoffset, hsegment, hunset⟩ := refusal?_eq_none_iff.1 hfree
  obtain ⟨-, hbsegment, -⟩ := refusal?_eq_none_iff.1 hbfree
  rw [write_eq_ok_iff, refusal?_eq_none_iff, segment?_isSome_iff, size_put, peek_put a hbsegment,
    if_neg h, put_comm m h]
  exact ⟨⟨hoffset, segment?_isSome_iff.1 hsegment, hunset⟩, rfl⟩

/-- A cell can still be written behind an allocation, and the allocation made behind the
write. -/
theorem allocate_write_comm (hk : m.step .allocate = .ok k) (hl : m.write a v = .ok l) :
    ∃ n, k.write a v = .ok n ∧ l.step .allocate = .ok n := by
  obtain ⟨hlt, rfl⟩ := step_allocate_eq_ok_iff.1 hk
  obtain ⟨hfree, rfl⟩ := write_eq_ok_iff.1 hl
  obtain ⟨hoffset, hsegment, hunset⟩ := refusal?_eq_none_iff.1 hfree
  have hsize := segment?_isSome_iff.1 hsegment
  refine ⟨_, write_eq_ok_iff.2 ⟨refusal?_eq_none_iff.2 ⟨hoffset, ?_, ?_⟩, rfl⟩, ?_⟩
  · rw [segment?_isSome_iff, Array.size_push]
    omega
  · rw [peek_allocate (allocate_eq_ok_iff.2 ⟨hlt, rfl, rfl⟩), if_neg (Nat.ne_of_lt hsize), hunset]
  · rw [step_allocate_eq_ok_iff, size_put, push_put hsize]
    exact ⟨hlt, rfl⟩

/-- Two operations that are both possible, and one behind the other, can be exchanged. -/
theorem step_exchange (hop : ¬(o = .allocate ∧ p = .allocate)) (hk : m.step o = .ok k)
    (hl : m.step p = .ok l) (hn : k.step p = .ok n) : l.step o = .ok n := by
  cases o with
  | allocate =>
      cases p with
      | allocate => exact absurd ⟨rfl, rfl⟩ hop
      | write b w =>
          obtain ⟨n', hn', hstep⟩ := allocate_write_comm hk hl
          obtain rfl : n' = n := Except.ok.inj (hn'.symm.trans hn)
          exact hstep
  | write a v =>
      cases p with
      | allocate =>
          obtain ⟨n', hn', hstep⟩ := allocate_write_comm hl hk
          obtain rfl : n' = n := Except.ok.inj (hstep.symm.trans hn)
          exact hn'
      | write b w =>
          -- The cell of the first write is set, so the second writes another one.
          have hne : a ≠ b := by
            rintro rfl
            obtain ⟨-, -, hunset⟩ := refusal?_eq_none_iff.1 (write_eq_ok_iff.1 hn).1
            rw [peek_write hk, if_pos rfl] at hunset
            contradiction
          obtain ⟨-, rfl⟩ := write_eq_ok_iff.1 hn
          exact write_put_of_ne hne hk hl

/-- What is possible before and behind some steps is possible between them. -/
theorem exists_step_between (hmk : m.Leads k) (hkn : k.Leads n) (hm : m.step o = .ok l)
    {l' : Memory} (hn : n.step o = .ok l') : ∃ j, k.step o = .ok j := by
  have hbefore := hmk.grows
  have hbehind := hkn.grows
  cases o with
  | allocate =>
      obtain ⟨hlt, -⟩ := step_allocate_eq_ok_iff.1 hn
      have hsize := hbehind.size_le
      rw [hbehind.limit_eq] at hlt
      exact ⟨_, step_allocate_eq_ok_iff.2 ⟨by omega, rfl⟩⟩
  | write a v =>
      obtain ⟨hoffset, hsegment, -⟩ := refusal?_eq_none_iff.1 (write_eq_ok_iff.1 hm).1
      obtain ⟨-, -, hunset⟩ := refusal?_eq_none_iff.1 (write_eq_ok_iff.1 hn).1
      have hsize := hbefore.size_le
      rw [segment?_isSome_iff] at hsegment
      refine ⟨_, write_eq_ok_iff.2 ⟨refusal?_eq_none_iff.2 ⟨hoffset, ?_, ?_⟩, rfl⟩⟩
      · rw [segment?_isSome_iff]
        omega
      · rw [Option.eq_none_iff_forall_ne_some]
        intro u hu
        rw [hbehind.peek a u hu] at hunset
        contradiction

/-- A row of operations is exchanged with a single one by exchanging each of them. -/
theorem Does.exchange_step (h : m.Does ops k) (hop : ¬(.allocate ∈ ops ∧ p = .allocate))
    (hl : m.step p = .ok l) (hn : k.step p = .ok n) : l.Does ops n := by
  induction h generalizing l with
  | nil m =>
      obtain rfl : l = n := Except.ok.inj (hl.symm.trans hn)
      exact .nil l
  | @cons m j k o ops hstep hrest ih =>
      obtain ⟨i, hi⟩ := exists_step_between (.single (.of_step hstep)) hrest.leads hl hn
      have hfirst : ¬(o = .allocate ∧ p = .allocate) := by
        rintro ⟨rfl, hp⟩
        exact hop ⟨List.mem_cons_self, hp⟩
      refine .cons (step_exchange hfirst hstep hl hi) (ih ?_ hi hn)
      rintro ⟨hmem, hp⟩
      exact hop ⟨List.mem_cons_of_mem _ hmem, hp⟩

/-- Two rows of operations that are both possible, and one behind the other, can be
exchanged, unless both allocate. -/
theorem Does.exchange {ops' : List Op} (h : m.Does ops k)
    (hops : ¬(.allocate ∈ ops ∧ .allocate ∈ ops')) (h' : m.Does ops' l) (hn : k.Does ops' n) :
    l.Does ops n := by
  induction h' generalizing k with
  | nil m =>
      cases hn
      exact h
  | @cons m i l p ops' hp hrest ih =>
      cases hn with
      | @cons _ j _ _ _ hq hbehind =>
          have hmoved : i.Does ops j := by
            refine h.exchange_step ?_ hp hq
            rintro ⟨hmem, rfl⟩
            exact hops ⟨hmem, List.mem_cons_self⟩
          refine ih hmoved ?_ hbehind
          rintro ⟨hmem, hmem'⟩
          exact hops ⟨hmem, List.mem_cons_of_mem _ hmem'⟩

/-- The writes of a range, one cell behind the other. -/
def rangeOps (a : Address) : List Value → List Op
  | [] => []
  | v :: vs => .write a v :: rangeOps ⟨a.segment, a.offset + 1⟩ vs

theorem allocate_notMem_rangeOps (a : Address) (vs : List Value) :
    .allocate ∉ rangeOps a vs := by
  induction vs generalizing a with
  | nil => simp [rangeOps]
  | cons v vs ih => simp [rangeOps, ih]

/-- A range write that succeeds is the row of its writes. -/
theorem writeRange_eq_ok_iff {vs : List Value} :
    (∃ b, m.writeRange a vs = (.ok b, n)) ↔ m.Does (rangeOps a vs) n := by
  induction vs generalizing m a with
  | nil =>
      constructor
      · rintro ⟨b, h⟩
        cases h
        exact .nil _
      · intro h
        cases h
        exact ⟨a, rfl⟩
  | cons v vs ih =>
      constructor
      · rintro ⟨b, h⟩
        cases hwrite : m.write a v with
        | error e => simp [writeRange, hwrite] at h
        | ok k =>
            simp only [writeRange, hwrite, advance_of_write hwrite] at h
            exact .cons hwrite (ih.1 ⟨b, h⟩)
      · intro h
        cases h with
        | cons hwrite hrest =>
            have hk := advance_of_write hwrite
            obtain ⟨b, hb⟩ := ih.2 hrest
            refine ⟨b, ?_⟩
            simp only [writeRange, show m.write a v = _ from hwrite, hk, hb]

end Memory

end CellHints
