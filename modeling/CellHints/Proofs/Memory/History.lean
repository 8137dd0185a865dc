import CellHints.Hint.Event
import CellHints.Proofs.Memory.Growth

/-!
# The history of a memory

Whatever a program does, directly or through hints, its memory grows by single
steps.  So every memory of a run is coherent, and each is part of those behind
it.  Runs contain refused operations too; it is NOT assumed that any succeeds.
-/

namespace CellHints

namespace Memory

/-- `n` is one past the last written offset of segment `i`, or zero if none is written. -/
def LengthIs (m : Memory) (i : UInt64) (n : Nat) : Prop :=
  (∀ offset v, m.peek ⟨i, offset⟩ = some v → offset.toNat < n) ∧
    (n = 0 ∨ ∃ offset v, m.peek ⟨i, offset⟩ = some v ∧ offset.toNat + 1 = n)

/-- A cell lies at the last offset that an address can have. -/
def AtEnd (a : Address) : Prop := a.offset.toNat = 0xffffffffffffffff

theorem segmentLen_eq_ok_iff {m : Memory} {i : UInt64} {n : Nat} :
    m.segmentLen i = .ok n ↔ ∃ s, m.segment? i = some s ∧ s.len = n := by
  unfold segmentLen
  cases m.segment? i <;> simp

theorem Coherent.lengthIs {m : Memory} (hm : m.Coherent) {i : UInt64} {n : Nat}
    (h : m.segmentLen i = .ok n) : m.LengthIs i n := by
  obtain ⟨s, hs, rfl⟩ := segmentLen_eq_ok_iff.1 h
  have hpeek : ∀ offset, m.peek ⟨i, offset⟩ = s.cells[offset]? := by
    intro offset
    unfold peek
    rw [hs]
    rfl
  obtain ⟨hbelow, hreached, -⟩ := hm.segment i s hs
  refine ⟨?_, ?_⟩
  · intro offset v hv
    rw [hpeek] at hv
    exact hbelow offset v hv
  · obtain hzero | ⟨offset, v, hv, hlen⟩ := hreached
    · exact Or.inl hzero
    · refine Or.inr ⟨offset, v, ?_, hlen⟩
      rw [hpeek, hv]

theorem Coherent.peek_atEnd {m : Memory} (hm : m.Coherent) {a : Address} (ha : AtEnd a) :
    m.peek a = none := by
  rw [Option.eq_none_iff_forall_ne_some]
  intro v hv
  obtain ⟨s, hs, hcell⟩ := Option.bind_eq_some_iff.1 hv
  -- A cell lies below the length of its segment, and no length is beyond the last offset.
  have hcoherent := hm.segment _ s hs
  have hbelow := hcoherent.below _ v hcell
  have hbounded := hcoherent.bounded
  simp only [AtEnd, UInt64.size] at ha hbounded
  omega

end Memory

/-- The only change of a machine is that its memory grows. -/
structure Machine.Leads (m n : Machine) : Prop where
  memory : m.memory.Leads n.memory
  registers_eq : n.registers = m.registers
  config_eq : n.config = m.config

theorem Machine.Leads.refl (m : Machine) : m.Leads m := ⟨.refl, rfl, rfl⟩

theorem Machine.Leads.trans {k m n : Machine} (h : k.Leads m) (h' : m.Leads n) : k.Leads n where
  memory := h.memory.trans h'.memory
  registers_eq := h'.registers_eq.trans h.registers_eq
  config_eq := h'.config_eq.trans h.config_eq

namespace HintState

theorem leads_withMemory {s : HintState} {memory : Memory} (h : s.machine.memory.Leads memory) :
    s.machine.Leads (s.withMemory memory).machine := ⟨h, rfl, rfl⟩

theorem leads_write (a : Address) (v : Value) (s : HintState) :
    s.machine.Leads (write a v s).2.machine := by
  unfold write
  cases hwrite : s.machine.memory.write a v with
  | error e => exact .refl _
  | ok memory => exact leads_withMemory (.single (.write hwrite))

theorem leads_writeRange (a : Address) (vs : List Value) (s : HintState) :
    s.machine.Leads (writeRange a vs s).2.machine := by
  have hleads := Memory.leads_writeRange s.machine.memory a vs
  unfold writeRange
  rcases hrange : s.machine.memory.writeRange a vs with ⟨e | b, memory⟩
  · rw [hrange] at hleads
    exact leads_withMemory hleads
  · rw [hrange] at hleads
    exact leads_withMemory hleads

end HintState

namespace Builtin

theorem leads_allocate (s : HintState) : s.machine.Leads (allocate s).2.machine := by
  unfold allocate
  cases hallocate : s.machine.memory.allocate with
  | error e => exact .refl _
  | ok found =>
      obtain ⟨base, memory⟩ := found
      -- The new segment stays, also if its address cannot be written.
      have hsegment : s.machine.Leads (s.withMemory memory).machine :=
        HintState.leads_withMemory (.single (.allocate hallocate))
      exact hsegment.trans (HintState.leads_write _ _ _)

theorem leads_leaveScope (s : HintState) : s.machine.Leads (leaveScope s).2.machine := by
  unfold leaveScope
  cases s.scopes.exit <;> exact .refl _

theorem leads_enterLoop (len : Reference) (s : HintState) :
    s.machine.Leads (enterLoop len s).2.machine := by
  unfold enterLoop
  cases len.resolveFelt s.machine <;> exact .refl _

theorem leads_countDown (output : Reference) (s : HintState) :
    s.machine.Leads (countDown output s).2.machine := by
  unfold countDown
  cases s.scopes.getFelt "n" with
  | error e => exact .refl _
  | ok before =>
      dsimp only
      cases output.address s.machine with
      | error e => exact .refl _
      | ok dst =>
          -- The variable is assigned first, and memory does not see it.
          exact HintState.leads_write dst _
            { s with scopes := s.scopes.assign "n" (.felt (before - Felt.one)) }

theorem leads_writeWords (output : Except Fault (Address × List UInt32)) (s : HintState) :
    s.machine.Leads (writeWords output s).2.machine := by
  unfold writeWords
  cases output with
  | error e => exact .refl _
  | ok found => exact HintState.leads_writeRange _ _ _

theorem leads_run (b : Builtin) (s : HintState) : s.machine.Leads (b.run s).2.machine := by
  cases b with
  | allocSegment => exact leads_allocate s
  | enterScope => exact .refl _
  | exitScope => exact leads_leaveScope s
  | memcpyEnterScope len => exact leads_enterLoop len s
  | memcpyContinueCopying output => exact leads_countDown output s
  | packedSha256 start output => exact leads_writeWords _ s
  | sha256Chunk start state output => exact leads_writeWords _ s
  | finalizeSha256 ptrEnd => exact leads_writeWords _ s

end Builtin

theorem Event.leads_act (e : Event) (s : HintState) : s.machine.Leads (e.act s).2.machine := by
  cases e with
  | allocate =>
      cases hallocate : s.machine.memory.allocate with
      | error e =>
          simp only [act, hallocate]
          exact .refl _
      | ok found =>
          simp only [act, hallocate]
          exact HintState.leads_withMemory (.single (.allocate hallocate))
  | write a v => exact HintState.leads_write a v s
  | writeRange a vs => exact HintState.leads_writeRange a vs s
  | enterScope scope => exact .refl _
  | exitScope => exact Builtin.leads_leaveScope s
  | assign name v => exact .refl _
  | hint b => exact Builtin.leads_run b s

/-- A program moves registers between events, so only the memory of a run is compared. -/
theorem HintState.leads_afterTurns (s : HintState) (turns : List Turn) :
    s.machine.memory.Leads (s.afterTurns turns).machine.memory := by
  induction turns generalizing s with
  | nil => exact .refl
  | cons t turns ih =>
      have hevent := (t.event.leads_act (s.withRegisters t.registers)).memory
      exact hevent.trans (ih _)

/-- Every segment has its exact length, and no other segment has one. -/
def Memory.LengthsExact (m : Memory) : Prop :=
  ∀ i, if i.toNat < m.segments.size then ∃ n, m.segmentLen i = .ok n ∧ m.LengthIs i n
    else m.segmentLen i = .error (.unknownSegment i)

theorem Memory.Coherent.lengthsExact {m : Memory} (hm : m.Coherent) : m.LengthsExact := by
  intro i
  split
  · next hlt =>
      obtain ⟨s, hs⟩ := Option.isSome_iff_exists.1 (segment?_isSome_iff.2 hlt)
      have hlen : m.segmentLen i = .ok s.len := segmentLen_eq_ok_iff.2 ⟨s, hs, rfl⟩
      exact ⟨s.len, hlen, hm.lengthIs hlen⟩
  · next hge =>
      have hnone : m.segment? i = none := by
        rwa [← Option.not_isSome_iff_eq_none, segment?_isSome_iff]
      unfold segmentLen
      rw [hnone]

namespace HintState

/-- An allocation gives the next segment, without a written cell, as long as there
are fewer segments than allowed; one that is refused changes nothing. -/
structure AllocatesExactly (s : HintState) : Prop where
  succeeds_iff : (Event.allocate.act s).1 = .ok () ↔
    s.machine.memory.segments.size < s.machine.memory.limit.toNat
  refused : ∀ e, (Event.allocate.act s).1 = .error e → (Event.allocate.act s).2 = s
  found : ∀ base n, s.machine.memory.allocate = .ok (base, n) →
    (Event.allocate.act s).2 = s.withMemory n ∧
    base.segment.toNat = s.machine.memory.segments.size ∧ base.offset = 0 ∧
    n.segments.size = s.machine.memory.segments.size + 1 ∧
    (∀ offset, n.peek ⟨base.segment, offset⟩ = none) ∧ ∀ a, n.peek a = s.machine.memory.peek a

/-- A write succeeds exactly at an unset cell of a segment that is there, the last
offset apart.  It changes that cell and the length of its segment and nothing
else; one that is refused changes nothing. -/
structure WritesExactly (s : HintState) (a : Address) (v : Value) : Prop where
  succeeds_iff : ((Event.write a v).act s).1 = .ok () ↔
    a.segment.toNat < s.machine.memory.segments.size ∧ ¬Memory.AtEnd a ∧
      s.machine.memory.peek a = none
  refused : ∀ e, ((Event.write a v).act s).1 = .error e → ((Event.write a v).act s).2 = s
  written : ((Event.write a v).act s).1 = .ok () → ∃ n,
    ((Event.write a v).act s).2 = s.withMemory n ∧ n.peek a = some v ∧
    (∀ b, b ≠ a → n.peek b = s.machine.memory.peek b) ∧
    (∀ i, i ≠ a.segment → n.segmentLen i = s.machine.memory.segmentLen i) ∧
    n.segments.size = s.machine.memory.segments.size ∧ n.limit = s.machine.memory.limit

theorem allocatesExactly (s : HintState) : s.AllocatesExactly := by
  cases hallocate : s.machine.memory.allocate with
  | error e =>
      have hact : Event.allocate.act s = (.error (.memory e), s) := by
        simp only [Event.act, hallocate]
      refine ⟨?_, ?_, ?_⟩
      · rw [hact]
        refine ⟨nofun, fun hlt => ?_⟩
        unfold Memory.allocate at hallocate
        rw [if_pos hlt] at hallocate
        contradiction
      · intro _ _
        rw [hact]
      · intro base n h
        rw [hallocate] at h
        contradiction
  | ok result =>
      obtain ⟨base, n⟩ := result
      have hact : Event.allocate.act s = (.ok (), s.withMemory n) := by
        simp only [Event.act, hallocate]
      obtain ⟨hlt, hbase, hn⟩ := Memory.allocate_eq_ok_iff.1 hallocate
      have hpeek := Memory.peek_allocate hallocate
      have hindex : base.segment.toNat = s.machine.memory.segments.size := by
        rw [hbase]
        exact UInt64.toNat_ofNat_of_lt' (Nat.lt_trans hlt s.machine.memory.limit.toNat_lt)
      refine ⟨?_, ?_, ?_⟩
      · rw [hact]
        exact ⟨fun _ => hlt, fun _ => rfl⟩
      · intro e h
        rw [hact] at h
        contradiction
      · intro base' n' h
        rw [hallocate] at h
        cases h
        refine ⟨by rw [hact], hindex, by rw [hbase], by simp [hn], ?_, ?_⟩
        · intro offset
          rw [hpeek, if_pos hindex]
        · intro a
          rw [hpeek]
          split
          · next heq => exact (Memory.peek_eq_none_of_size_le (Nat.le_of_eq heq.symm)).symm
          · rfl

theorem writesExactly (s : HintState) (a : Address) (v : Value) : s.WritesExactly a v := by
  have hfree : s.machine.memory.refusal? a v = none ↔
      a.segment.toNat < s.machine.memory.segments.size ∧ ¬Memory.AtEnd a ∧
        s.machine.memory.peek a = none := by
    have hoffset := a.offset.toNat_lt
    rw [Memory.refusal?_eq_none_iff, Memory.segment?_isSome_iff]
    simp only [Memory.AtEnd, UInt64.size]
    constructor
    · intro h
      obtain ⟨hlast, hsegment, hunset⟩ := h
      exact ⟨hsegment, by omega, hunset⟩
    · intro h
      obtain ⟨hsegment, hlast, hunset⟩ := h
      exact ⟨by omega, hsegment, hunset⟩
  -- A write that is refused hands back the state it was given.
  cases hwrite : s.machine.memory.write a v with
  | error e =>
      have hact : (Event.write a v).act s = (.error (.memory e), s) := by
        simp only [Event.act, write, hwrite]
      refine ⟨?_, ?_, ?_⟩
      · rw [hact, ← hfree]
        refine ⟨nofun, fun hnone => ?_⟩
        rw [Memory.write_eq_ok_iff.2 ⟨hnone, rfl⟩] at hwrite
        contradiction
      · intro _ _
        rw [hact]
      · rw [hact]
        nofun
  | ok n =>
      have hact : (Event.write a v).act s = (.ok (), s.withMemory n) := by
        simp only [Event.act, write, hwrite]
      obtain ⟨hnone, rfl⟩ := Memory.write_eq_ok_iff.1 hwrite
      obtain ⟨-, hsegment, -⟩ := Memory.refusal?_eq_none_iff.1 hnone
      refine ⟨?_, ?_, ?_⟩
      · rw [hact, ← hfree]
        exact ⟨fun _ => hnone, fun _ => rfl⟩
      · intro e h
        rw [hact] at h
        contradiction
      · intro _
        refine ⟨_, by rw [hact], ?_, ?_, ?_, Memory.size_put _ _ _, rfl⟩
        · rw [Memory.peek_put a hsegment, if_pos rfl]
        · intro b hb
          rw [Memory.peek_put b hsegment, if_neg hb]
        · intro i hi
          unfold Memory.segmentLen
          rw [Memory.segment?_put, if_neg hi]

end HintState

/-- What every memory of a program is that starts without segments, whatever the
program does with it and however it goes on. -/
theorem memory_history (limit : UInt64) (registers : Registers) (config : Config)
    (scopes : Scopes) (before behind : List Turn) :
    let start : HintState := ⟨⟨.empty limit, registers, config⟩, scopes⟩
    let s := start.afterTurns before
    let m := s.machine.memory
    let later := (start.afterTurns (before ++ behind)).machine.memory
    (∀ a v, m.peek a = some v → later.peek a = some v) ∧
    m.LengthsExact ∧
    (m.limit = limit ∧ m.segments.size ≤ later.segments.size ∧
      later.segments.size ≤ limit.toNat ∧ s.AllocatesExactly) ∧
    (∀ a, Memory.AtEnd a → m.peek a = none) ∧
    ∀ a v, s.WritesExactly a v := by
  intro start s m later
  -- Both halves of the run are rows of steps, the second from where the first ends.
  have hm : (Memory.empty limit).Leads m := start.leads_afterTurns before
  have hlater : m.Leads later := by
    have hleads := s.leads_afterTurns behind
    rwa [← HintState.afterTurns_append] at hleads
  have hcoherent : m.Coherent := hm.coherent (Memory.coherent_empty limit)
  have hlaterCoherent : later.Coherent := hlater.coherent hcoherent
  have hlimit : m.limit = limit := hm.grows.limit_eq
  have hlaterLimit : later.limit = limit := hlater.grows.limit_eq.trans hlimit
  refine ⟨hlater.grows.peek, hcoherent.lengthsExact, ⟨hlimit, hlater.grows.size_le, ?_,
    s.allocatesExactly⟩, fun a ha => hcoherent.peek_atEnd ha, fun a v => s.writesExactly a v⟩
  rw [← hlaterLimit]
  exact hlaterCoherent.size_le

end CellHints
