import CellHints.Proofs.Hint.Frame
import CellHints.Proofs.Hint.Inputs
import CellHints.Proofs.Memory.Exchange
import Mathlib.Data.Prod.Basic

/-!
# Exchanging hints

A hint that succeeds does what it had settled from the state that it met: a row
of operations on memory, and a new stack of scopes.  What another hint does in
between changes nothing of this, unless both allocate or both act on the scopes.
So two hints that both succeed, and one behind the other, can be exchanged: the
state that they leave is the same in every cell, length, register and scope.
NO state is left out, reached or not.
-/

namespace CellHints

namespace Builtin

open Memory (Op)

/-- What a hint settles from the state that it meets: the operations that it is to make on
memory, and the scopes that it is to leave. -/
inductive Plans (s : HintState) : Builtin → List Op → Scopes → Prop
  | allocSegment :
      Plans s .allocSegment
        [.allocate, .write s.machine.registers.ap (.address s.machine.memory.nextBase)] s.scopes
  | enterScope : Plans s .enterScope [] (s.scopes.enter ∅)
  | exitScope {scopes : Scopes} (h : s.scopes.exit = .ok scopes) : Plans s .exitScope [] scopes
  | memcpyEnterScope {len : Reference} {n : Felt} (h : len.resolveFelt s.machine = .ok n) :
      Plans s (.memcpyEnterScope len) [] (s.scopes.enter (loopScope n))
  | memcpyContinueCopying {output : Reference} {before : Felt} {dst : Address}
      (h : s.scopes.getFelt "n" = .ok before) (hdst : output.address s.machine = .ok dst) :
      Plans s (.memcpyContinueCopying output)
        [.write dst (.felt (loopFlag (before - Felt.one)))]
        (s.scopes.assign "n" (.felt (before - Felt.one)))
  | words {b : Builtin} {find : Machine → Except Fault (Address × List UInt32)} {dst : Address}
      {ws : List UInt32} (hb : b.WritesWords find) (h : find s.machine = .ok (dst, ws)) :
      Plans s b (Memory.rangeOps dst (ws.map Value.ofWord)) s.scopes

/-- Whether two hints do not get in each other's way: not both of them allocate, and not
both act on the scopes. -/
def Independent (b c : Builtin) : Prop :=
  ¬(b = .allocSegment ∧ c = .allocSegment) ∧ ¬(b.actsOnScopes = true ∧ c.actsOnScopes = true)

/-- Whether `t` is what a plan makes of `s`. -/
def Carries (s : HintState) (ops : List Op) (scopes : Scopes) (t : HintState) : Prop :=
  ∃ n, s.machine.memory.Does ops n ∧ t = { s.withMemory n with scopes := scopes }

variable {b c : Builtin} {s t u v : HintState} {ops : List Op} {scopes : Scopes}

theorem Carries.does (h : Carries s ops scopes t) :
    s.machine.memory.Does ops t.machine.memory := by
  obtain ⟨n, hdoes, rfl⟩ := h
  exact hdoes

theorem carries_nil_iff : Carries s [] scopes t ↔ t = { s with scopes := scopes } := by
  constructor
  · rintro ⟨n, h, rfl⟩
    cases h
    rfl
  · rintro rfl
    exact ⟨_, .nil _, rfl⟩

/-- A write succeeds exactly if it carries out the plan of it. -/
theorem write_eq_ok_iff_carries {a : Address} {x : Value} :
    HintState.write a x s = (.ok (), t) ↔ Carries s [.write a x] s.scopes t := by
  unfold HintState.write Carries
  simp only [Memory.does_write_iff]
  cases s.machine.memory.write a x with
  | error e => simp
  | ok n =>
      constructor
      · intro h
        cases h
        exact ⟨n, rfl, rfl⟩
      · rintro ⟨n', h, rfl⟩
        cases h
        rfl

theorem allocate_eq_ok_iff_carries :
    allocate s = (.ok (), t) ↔
      Carries s [.allocate, .write s.machine.registers.ap
        (.address s.machine.memory.nextBase)] s.scopes t := by
  cases hallocate : s.machine.memory.allocate with
  | error e =>
      constructor
      · intro h
        simp [allocate, hallocate] at h
      · rintro ⟨n, hdoes, -⟩
        cases hdoes with
        | cons h _ =>
            obtain ⟨found, hfound, -⟩ := Except.map_eq_ok_iff.1 h
            rw [hallocate] at hfound
            contradiction
  | ok found =>
      obtain ⟨base, k⟩ := found
      obtain ⟨-, rfl, -⟩ := Memory.allocate_eq_ok_iff.1 hallocate
      have hstep : s.machine.memory.step .allocate = .ok k :=
        Except.map_eq_ok_iff.2 ⟨_, hallocate, rfl⟩
      have hrun : allocate s = HintState.write s.machine.registers.ap
          (.address s.machine.memory.nextBase) (s.withMemory k) := by
        simp only [allocate, hallocate]
        rfl
      rw [hrun, write_eq_ok_iff_carries]
      constructor
      · rintro ⟨n, hdoes, rfl⟩
        exact ⟨n, .cons hstep hdoes, rfl⟩
      · rintro ⟨n, hdoes, rfl⟩
        cases hdoes with
        | cons h hrest =>
            obtain rfl : k = _ := Except.ok.inj (hstep.symm.trans h)
            exact ⟨n, hrest, rfl⟩

/-- A hint with a plan succeeds exactly if it carries it out. -/
theorem Plans.run_eq_ok_iff (h : b.Plans s ops scopes) :
    b.run s = (.ok (), t) ↔ Carries s ops scopes t := by
  cases h with
  | allocSegment => exact allocate_eq_ok_iff_carries
  | enterScope =>
      rw [carries_nil_iff]
      simp [run, eq_comm]
  | exitScope h =>
      rw [carries_nil_iff]
      simp [run, leaveScope, h, eq_comm]
  | memcpyEnterScope h =>
      rw [carries_nil_iff]
      simp [run, enterLoop, h, eq_comm]
  | memcpyContinueCopying h hdst =>
      -- The counter is set first, and memory does not see it.
      simp only [run, countDown, h, hdst]
      exact write_eq_ok_iff_carries
  | words hb h =>
      rw [hb.run_eq, writeWords_eq_ok_iff]
      constructor
      · rintro ⟨_, _, a, n, hfind, hrange, rfl⟩
        rw [h] at hfind
        cases hfind
        exact ⟨n, Memory.writeRange_eq_ok_iff.1 ⟨a, hrange⟩, rfl⟩
      · rintro ⟨n, hdoes, rfl⟩
        obtain ⟨a, hrange⟩ := Memory.writeRange_eq_ok_iff.2 hdoes
        exact ⟨_, _, a, n, h, hrange, rfl⟩

/-- A hint that succeeds had a plan. -/
theorem exists_plans_of_run (h : b.run s = (.ok (), t)) :
    ∃ ops scopes, b.Plans s ops scopes := by
  have hwords : ∀ {find}, b.WritesWords find → ∃ ops scopes, b.Plans s ops scopes := by
    intro find hb
    rw [hb.run_eq, writeWords_eq_ok_iff] at h
    obtain ⟨dst, ws, _, _, hfind, -⟩ := h
    exact ⟨_, _, .words hb hfind⟩
  cases b with
  | allocSegment => exact ⟨_, _, .allocSegment⟩
  | enterScope => exact ⟨_, _, .enterScope⟩
  | exitScope =>
      cases hexit : s.scopes.exit with
      | error e => simp [run, leaveScope, hexit] at h
      | ok scopes => exact ⟨_, _, .exitScope hexit⟩
  | memcpyEnterScope len =>
      cases hlen : len.resolveFelt s.machine with
      | error e => simp [run, enterLoop, hlen] at h
      | ok n => exact ⟨_, _, .memcpyEnterScope hlen⟩
  | memcpyContinueCopying output =>
      cases hn : s.scopes.getFelt "n" with
      | error e => simp [run, countDown, hn] at h
      | ok before =>
          cases hdst : output.address s.machine with
          | error e => simp [run, countDown, hn, hdst] at h
          | ok dst => exact ⟨_, _, .memcpyContinueCopying hn hdst⟩
  | packedSha256 start output => exact hwords (.packedSha256 start output)
  | sha256Chunk start state output => exact hwords (.sha256Chunk start state output)
  | finalizeSha256 ptrEnd => exact hwords (.finalizeSha256 ptrEnd)

/-- Only one hint plans to allocate. -/
theorem Plans.eq_allocSegment (h : b.Plans s ops scopes) (hops : .allocate ∈ ops) :
    b = .allocSegment := by
  cases h with
  | allocSegment => rfl
  | enterScope => simp at hops
  | exitScope h => simp at hops
  | memcpyEnterScope h => simp at hops
  | memcpyContinueCopying h hdst => simp at hops
  | words hb h => exact absurd hops (Memory.allocate_notMem_rangeOps _ _)

/-- A hint that does not act on the scopes plans to keep them. -/
theorem Plans.scopes_eq (h : b.Plans s ops scopes) (hb : b.actsOnScopes = false) :
    scopes = s.scopes := by
  cases h with
  | allocSegment => rfl
  | enterScope => contradiction
  | exitScope h => contradiction
  | memcpyEnterScope h => contradiction
  | memcpyContinueCopying h hdst => contradiction
  | words _ h => rfl

/-- A plan stays what it is while memory grows, if no segment comes in front of the one it
allocates and the scopes that it acts on stay. -/
theorem Plans.of_leads (h : b.Plans s ops scopes) (hleads : s.machine.Leads t.machine)
    (hsize : b = .allocSegment →
      t.machine.memory.segments.size = s.machine.memory.segments.size)
    (hscopes : b.actsOnScopes = true → t.scopes = s.scopes) :
    b.Plans t ops (if b.actsOnScopes then scopes else t.scopes) := by
  cases h with
  | allocSegment =>
      have hbase : t.machine.memory.nextBase = s.machine.memory.nextBase := by
        unfold Memory.nextBase
        rw [hsize rfl]
      rw [← hbase, ← hleads.registers_eq]
      exact .allocSegment
  | enterScope =>
      rw [← hscopes rfl]
      exact .enterScope
  | exitScope h =>
      rw [← hscopes rfl] at h
      exact .exitScope h
  | memcpyEnterScope h =>
      rw [← hscopes rfl]
      exact .memcpyEnterScope ((hleads.lasts_resolveFelt _).value _ h)
  | memcpyContinueCopying h hdst =>
      rw [← hscopes rfl] at h ⊢
      exact .memcpyContinueCopying h ((hleads.lasts_address _).value _ hdst)
  | words hb h =>
      have hfind := (hb.lasts hleads).value _ h
      rw [if_neg (by cases hb <;> exact Bool.false_ne_true)]
      exact .words hb hfind

/-- Behind an independent hint, a plan is what it was, with the scopes of the later state
where it keeps them. -/
theorem Plans.behind {opsc : List Op} {scopesc : Scopes} (hbc : b.Independent c)
    (h : b.Plans s ops scopes) (hc : c.Plans s opsc scopesc) (hu : Carries s opsc scopesc u) :
    b.Plans u ops (if b.actsOnScopes then scopes else u.scopes) := by
  obtain ⟨n, hdoes, rfl⟩ := hu
  refine h.of_leads ⟨hdoes.leads, rfl, rfl⟩ ?_ ?_
  · intro hb
    exact hdoes.size_eq fun hmem => hbc.1 ⟨hb, hc.eq_allocSegment hmem⟩
  · intro hb
    exact hc.scopes_eq (Bool.eq_false_of_not_eq_true fun hacts => hbc.2 ⟨hb, hacts⟩)

/-- Two independent hints that both succeed, and one behind the other, succeed in either
order and leave the same state. -/
theorem run_exchange (hbc : b.Independent c) (hb : b.run s = (.ok (), t))
    (hc : c.run s = (.ok (), u)) (hv : c.run t = (.ok (), v)) : b.run u = (.ok (), v) := by
  have hcb : c.Independent b := ⟨fun h => hbc.1 h.symm, fun h => hbc.2 h.symm⟩
  obtain ⟨opsb, scopesb, hplanb⟩ := exists_plans_of_run hb
  obtain ⟨opsc, scopesc, hplanc⟩ := exists_plans_of_run hc
  rw [hplanb.run_eq_ok_iff] at hb
  rw [hplanc.run_eq_ok_iff] at hc
  -- Both plans stand behind the other hint.
  have hplanc' := hplanc.behind hcb hplanb hb
  have hplanb' := hplanb.behind hbc hplanc hc
  rw [hplanc'.run_eq_ok_iff] at hv
  rw [hplanb'.run_eq_ok_iff]
  obtain ⟨k, hk, rfl⟩ := hb
  obtain ⟨l, hl, rfl⟩ := hc
  obtain ⟨n, hn, rfl⟩ := hv
  have hops : ¬(.allocate ∈ opsb ∧ .allocate ∈ opsc) := by
    rintro ⟨hmemb, hmemc⟩
    exact hbc.1 ⟨hplanb.eq_allocSegment hmemb, hplanc.eq_allocSegment hmemc⟩
  refine ⟨n, hk.exchange hops hl hn, ?_⟩
  -- At most one of the two hints changes the scopes.
  cases hactsb : b.actsOnScopes with
  | false =>
      have hscopesb := hplanb.scopes_eq hactsb
      cases hactsc : c.actsOnScopes with
      | false =>
          have hscopesc := hplanc.scopes_eq hactsc
          simp [HintState.withMemory, hscopesb, hscopesc]
      | true => simp [HintState.withMemory]
  | true =>
      have hactsc : c.actsOnScopes = false :=
        Bool.eq_false_of_not_eq_true fun h => hbc.2 ⟨hactsb, h⟩
      have hscopesc := hplanc.scopes_eq hactsc
      simp [HintState.withMemory, hactsc]

/-- A segment is allocated, and the second round of a copy loop is made: one writes at `ap`,
the other behind it. -/
theorem run_exchange_allocation_and_round :
    let s : HintState :=
      ⟨⟨⟨#[.empty], 2⟩, ⟨.origin, .origin, .origin⟩, .default⟩, ⟨loopScope (Felt.ofNat 3), []⟩⟩
    let b : Builtin := .allocSegment
    let c : Builtin := .memcpyContinueCopying (.deref ⟨.ap, 1⟩)
    b.Independent c ∧ (b.run s).1 = .ok () ∧ (c.run s).1 = .ok () ∧
      (c.run (b.run s).2).1 = .ok () ∧ b.run (c.run s).2 = (.ok (), (c.run (b.run s).2).2) := by
  intro s b c
  have hbc : b.Independent c := ⟨nofun, nofun⟩
  have hb : (b.run s).1 = .ok () := by decide +kernel
  have hc : (c.run s).1 = .ok () := by decide +kernel
  have hv : (c.run (b.run s).2).1 = .ok () := by decide +kernel
  exact ⟨hbc, hb, hc, hv, run_exchange hbc (Prod.fst_eq_iff.1 hb) (Prod.fst_eq_iff.1 hc)
    (Prod.fst_eq_iff.1 hv)⟩

end Builtin

end CellHints
