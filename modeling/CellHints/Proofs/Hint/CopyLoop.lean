import CellHints.Proofs.Felt.Residue
import CellHints.Proofs.Hint.Frame
import CellHints.Proofs.Memory.Access

/-!
# The copy loop

A copy loop is entered with the number of its steps and counts down by one in
every round, in the field: the counter does NOT stop at zero.  The flag of a
round says whether steps are left, by the signed reading of the counter.  So a
loop of a positive number of steps, at most half the modulus, goes through
exactly that many rounds up to its first flag 1, and any other stops in its first
round.  The program may do what it likes in between, but for the scopes.
-/

namespace CellHints

/-- The round in which the first flag 1 of a loop of `len` steps is written. -/
def Felt.lastRound (len : Felt) : Nat :=
  if 1 ≤ len.val ∧ len.val ≤ (prime + 1) / 2 then len.val else 1

theorem Felt.isPositive_of_lt_lastRound {len : Felt} {i : Nat} (hpos : 1 ≤ i)
    (h : i < len.lastRound) : (len - Felt.ofNat i).isPositive = true := by
  have hprime := prime_eq_two_mul_halfPrime
  unfold lastRound at h
  split at h
  · next hlen =>
      have hval := Felt.val_sub_ofNat (Nat.le_of_lt h)
      unfold isPositive
      rw [decide_eq_true_iff, hval]
      omega
  · omega

/-- In the last round the counter is zero, or lies in the negative half of the field. -/
theorem Felt.not_isPositive_lastRound (len : Felt) :
    ¬(len - Felt.ofNat len.lastRound).isPositive = true := by
  have hprime := prime_eq_two_mul_halfPrime
  have hlt := len.isLt
  unfold lastRound
  split
  · have hval := Felt.val_sub_ofNat (Nat.le_refl len.val)
    unfold isPositive
    rw [decide_eq_true_iff, hval]
    omega
  · next hlen =>
      by_cases hzero : len.val = 0
      · obtain rfl : len = Felt.zero := Felt.ext hzero
        decide
      · have hval := Felt.val_sub_ofNat (x := len) (n := 1) (by omega)
        unfold isPositive
        rw [decide_eq_true_iff, hval]
        omega

namespace Builtin

theorem loopFlag_eq (n : Felt) :
    loopFlag n = if 0 < n.signed then Felt.zero else Felt.one := by
  unfold loopFlag
  simp only [n.isPositive_iff]

theorem getFelt_enter_loopScope (s : Scopes) (n : Felt) :
    (s.enter (loopScope n)).getFelt "n" = .ok n := by
  have htop : (loopScope n)["n"]? = some (.felt n) := Std.ExtTreeMap.getElem?_insert_self
  unfold Scopes.getFelt Scopes.get Scopes.enter
  simp only [htop]
  rfl

/-- A loop scope holds nothing but its counter. -/
theorem assign_enter_loopScope (s : Scopes) (n k : Felt) :
    (s.enter (loopScope n)).assign "n" (.felt k) = s.enter (loopScope k) := by
  have htop : (loopScope n).insert "n" (.felt k) = loopScope k := by
    apply Std.ExtTreeMap.ext_getElem?
    intro name
    simp only [loopScope, Std.ExtTreeMap.getElem?_insert]
    split <;> rfl
  unfold Scopes.assign Scopes.enter
  rw [htop]

/-- Whether calls are rounds of a copy loop.  Each counts down, nothing on the way to it
acts on the scopes, and `output` names the next of the cells, which is vacant then. -/
inductive Rounds (output : Reference) : HintState → List Call → List Address → Prop
  | nil (s : HintState) : Rounds output s [] []
  | cons {s : HintState} {c : Call} {calls : List Call} {dst : Address} {dsts : List Address}
      (hint : c.hint = .memcpyContinueCopying output)
      (before : ∀ t ∈ c.before, t.event.actsOnScopes = false)
      (address : output.address (s.meets c).machine = .ok dst)
      (vacant : (s.meets c).machine.memory.Vacant dst)
      (rest : Rounds output (s.call c).2 calls dsts) :
      Rounds output s (c :: calls) (dst :: dsts)

variable {s : HintState} {scopes : Scopes} {output : Reference} {dst : Address} {n : Felt}

theorem run_memcpyEnterScope {len : Reference} (h : len.resolveFelt s.machine = .ok n) :
    (memcpyEnterScope len).run s = (.ok (), { s with scopes := s.scopes.enter (loopScope n) }) := by
  simp only [run, enterLoop, h]

/-- Counting down in the scope of a loop, with a vacant cell for the flag. -/
theorem run_memcpyContinueCopying (hscopes : s.scopes = scopes.enter (loopScope n))
    (hdst : output.address s.machine = .ok dst) (hvacant : s.machine.memory.Vacant dst) :
    (memcpyContinueCopying output).run s =
      (.ok (), { s.withMemory (s.machine.memory.put dst (.felt (loopFlag (n - Felt.one)))) with
        scopes := scopes.enter (loopScope (n - Felt.one)) }) := by
  simp only [run, countDown, hscopes, getFelt_enter_loopScope, hdst, assign_enter_loopScope,
    HintState.write, hvacant.write]
  rfl

/-- One round takes one off the counter and writes the flag of what is left. -/
theorem call_round {c : Call} (hc : c.hint = .memcpyContinueCopying output)
    (hbefore : ∀ t ∈ c.before, t.event.actsOnScopes = false)
    (hdst : output.address (s.meets c).machine = .ok dst)
    (hvacant : (s.meets c).machine.memory.Vacant dst)
    (hscopes : s.scopes = scopes.enter (loopScope n)) :
    (s.call c).1 = .ok () ∧ (s.call c).2.scopes = scopes.enter (loopScope (n - Felt.one)) ∧
      (s.call c).2.machine.memory.peek dst = some (.felt (loopFlag (n - Felt.one))) := by
  have hmeets : (s.meets c).scopes = scopes.enter (loopScope n) :=
    (HintState.scopes_afterTurns hbefore s).trans hscopes
  unfold HintState.call
  rw [hc, run_memcpyContinueCopying hmeets hdst hvacant]
  refine ⟨rfl, rfl, ?_⟩
  show ((s.meets c).machine.memory.put dst _).peek dst = _
  rw [Memory.peek_put dst (Memory.segment?_isSome_iff.2 hvacant.segment), if_pos rfl]

/-- The rounds of a loop that has `len - i` steps to go. -/
theorem Rounds.counted {len : Felt} {i : Nat} {calls : List Call} {dsts : List Address}
    (h : Rounds output s calls dsts)
    (hscopes : s.scopes = scopes.enter (loopScope (len - Felt.ofNat i))) :
    (∀ r ∈ (s.callAll calls).1, r = .ok ()) ∧
    (s.callAll calls).2.scopes =
      scopes.enter (loopScope (len - Felt.ofNat (i + calls.length))) ∧
    ∀ j dst, dsts[j]? = some dst → (s.callAll calls).2.machine.memory.peek dst =
      some (.felt (loopFlag (len - Felt.ofNat (i + (j + 1))))) := by
  induction h generalizing i with
  | nil s => exact ⟨nofun, hscopes, nofun⟩
  | @cons s c calls dst dsts hint before address vacant rest ih =>
      obtain ⟨hok, hcounted, hflag⟩ := call_round hint before address vacant hscopes
      rw [← Felt.sub_ofNat_succ] at hcounted hflag
      obtain ⟨hresults, hend, hflags⟩ := ih hcounted
      rw [HintState.callAll_cons]
      refine ⟨?_, ?_, ?_⟩
      · intro r hr
        rcases List.mem_cons.1 hr with rfl | hr
        · exact hok
        · exact hresults r hr
      · rw [hend, List.length_cons, Nat.add_right_comm, Nat.add_assoc]
      · intro j d hd
        cases j with
        | zero =>
            -- The first flag stays while the others are written.
            obtain rfl : dst = d := by simpa using hd
            exact ((s.call c).2.leads_callAll calls).grows.peek _ _ hflag
        | succ j =>
            rw [hflags j d (by simpa using hd), show i + 1 + (j + 1) = i + (j + 1 + 1) by omega]

/-- A copy loop of `n` steps, up to any round and with anything but scopes happening in
between and behind: all its hints succeed, the counter and every flag are what is left
says, the first flag 1 is that of the last round, and leaving the scope of the loop brings
the scopes back. -/
theorem copyLoop_counts {len : Reference} {calls : List Call} {dsts : List Address}
    {behind : List Turn} (hlen : len.resolveFelt s.machine = .ok n)
    (hrounds : Rounds output ((memcpyEnterScope len).run s).2 calls dsts)
    (hbehind : ∀ t ∈ behind, t.event.actsOnScopes = false) :
    let entered := (memcpyEnterScope len).run s
    let looped := entered.2.callAll calls
    let t := looped.2.afterTurns behind
    entered.1 = .ok () ∧ (∀ r ∈ looped.1, r = .ok ()) ∧
    t.scopes.getFelt "n" = .ok (n - Felt.ofNat calls.length) ∧
    (∀ i dst, dsts[i]? = some dst → ∃ flag, t.machine.memory.peek dst = some (.felt flag) ∧
      flag = (if 0 < (n - Felt.ofNat (i + 1)).signed then Felt.zero else Felt.one) ∧
      (i + 1 < n.lastRound → flag = Felt.zero) ∧ (i + 1 = n.lastRound → flag = Felt.one)) ∧
    exitScope.run t = (.ok (), { t with scopes := s.scopes }) := by
  intro entered looped t
  have henter : entered = _ := run_memcpyEnterScope hlen
  have hstart : entered.2.scopes = s.scopes.enter (loopScope (n - Felt.ofNat 0)) := by
    rw [henter, Felt.sub_ofNat_zero]
  obtain ⟨hresults, hend, hflags⟩ := hrounds.counted hstart
  have hscopes : t.scopes = s.scopes.enter (loopScope (n - Felt.ofNat calls.length)) := by
    rw [HintState.scopes_afterTurns hbehind, hend, Nat.zero_add]
  refine ⟨by rw [henter], hresults, ?_, ?_, ?_⟩
  · rw [hscopes, getFelt_enter_loopScope]
  · intro i dst hdst
    have hflag := hflags i dst hdst
    rw [Nat.zero_add] at hflag
    refine ⟨_, (looped.2.leads_afterTurns behind).grows.peek _ _ hflag, loopFlag_eq _, ?_, ?_⟩
    · intro hlt
      exact if_pos (Felt.isPositive_of_lt_lastRound (Nat.succ_pos i) hlt)
    · intro hlast
      rw [hlast]
      exact if_neg n.not_isPositive_lastRound
  · show leaveScope t = _
    unfold leaveScope
    rw [hscopes, Scopes.exit_enter]

/-- A loop of two steps, with `ap` moved and a cell written on the way. -/
theorem copyLoop_counts_two_rounds :
    let s : HintState :=
      ⟨⟨⟨#[.empty], 1⟩, ⟨.origin, .origin, .origin⟩, .default⟩, .root⟩
    let step : Builtin := .memcpyContinueCopying (.deref ⟨.ap, 0⟩)
    let first : Call := ⟨[], ⟨.origin, ⟨0, 2⟩, .origin⟩, step⟩
    let second : Call :=
      ⟨[⟨s.machine.registers, .write ⟨0, 9⟩ (.address .origin)⟩], ⟨.origin, ⟨0, 5⟩, .origin⟩, step⟩
    let entered := (Builtin.memcpyEnterScope (.immediate (Felt.ofNat 2))).run s
    let t := (entered.2.callAll [first, second]).2
    t.scopes.getFelt "n" = .ok (Felt.ofNat 2 - Felt.ofNat 2) ∧
      t.machine.memory.peek ⟨0, 2⟩ = some (.felt Felt.zero) ∧
      t.machine.memory.peek ⟨0, 5⟩ = some (.felt Felt.one) ∧
      exitScope.run t = (.ok (), { t with scopes := s.scopes }) := by
  intro s step first second entered t
  have hrounds : Rounds (.deref ⟨.ap, 0⟩) entered.2 [first, second] [⟨0, 2⟩, ⟨0, 5⟩] := by
    refine .cons rfl nofun (by decide +kernel) (by decide +kernel) ?_
    exact .cons rfl (by decide +kernel) (by decide +kernel) (by decide +kernel) (.nil _)
  have hlen : (Reference.immediate (Felt.ofNat 2)).resolveFelt s.machine = .ok (Felt.ofNat 2) := rfl
  have hbehind : ∀ t ∈ ([] : List Turn), t.event.actsOnScopes = false := nofun
  obtain ⟨-, -, hn, hflags, hexit⟩ := copyLoop_counts hlen hrounds hbehind
  obtain ⟨zero, hfirst, -, hzero, -⟩ := hflags 0 ⟨0, 2⟩ rfl
  obtain ⟨one, hsecond, -, -, hone⟩ := hflags 1 ⟨0, 5⟩ rfl
  rw [hzero (by decide +kernel)] at hfirst
  rw [hone (by decide +kernel)] at hsecond
  exact ⟨hn, hfirst, hsecond, hexit⟩

end Builtin

end CellHints
