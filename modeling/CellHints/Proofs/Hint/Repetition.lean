import CellHints.Proofs.Hint.Exchange

/-!
# Repeating a hint

A cell that a hint wrote stays written, and along with the registers the hint
finds its cells again.  So a hint that writes memory succeeds at most once with
the registers where they are, whatever happens in between, and a repetition
writes nothing.  A repetition may still leave a new segment, or take a loop
counter down: it is NOT undone.
-/

namespace CellHints

namespace Memory

variable {m n k : Memory} {a : Address} {v : Value} {ops : List Op}

/-- A cell that was written refuses every value from then on. -/
theorem write_eq_error_of_write (h : m.write a v = .ok n) (hk : n.Leads k) (w : Value) :
    k.write a w = .error (.writeOnceViolation a v w) := by
  obtain ⟨hoffset, -, -⟩ := refusal?_eq_none_iff.1 (write_eq_ok_iff.1 h).1
  have hset : n.peek a = some v := by rw [peek_write h, if_pos rfl]
  obtain ⟨s, hs, hcell⟩ := Option.bind_eq_some_iff.1 (hk.grows.peek a v hset)
  rw [write_eq_error_iff]
  unfold refusal?
  simp only [if_pos hoffset, hs, hcell, Option.map_some]

/-- What a row of operations wrote is refused behind it. -/
theorem Does.write_eq_error (h : m.Does ops n) (hops : .write a v ∈ ops) (hk : n.Leads k)
    (w : Value) : k.write a w = .error (.writeOnceViolation a v w) := by
  induction h with
  | nil m => simp at hops
  | @cons m j n o ops hstep hrest ih =>
      rcases List.mem_cons.1 hops with rfl | hmem
      · exact write_eq_error_of_write hstep (hrest.leads.trans hk) w
      · exact ih hmem hk

end Memory

namespace Builtin

/-- Whether a hint writes memory when it succeeds. -/
def writesMemory : Builtin → Bool
  | enterScope | exitScope | memcpyEnterScope _ => false
  | allocSegment | memcpyContinueCopying _ | packedSha256 _ _ | sha256Chunk _ _ _
  | finalizeSha256 _ => true

/-- Whether a hint writes the words of hashes. -/
def hashes : Builtin → Bool
  | packedSha256 _ _ | sha256Chunk _ _ _ | finalizeSha256 _ => true
  | allocSegment | enterScope | exitScope | memcpyEnterScope _ | memcpyContinueCopying _ => false

variable {s later : HintState}

theorem write_refused {a : Address} {v : Value} {e : MemoryError}
    (h : s.machine.memory.write a v = .error e) :
    HintState.write a v s = (.error (.memory e), s) := by
  unfold HintState.write
  rw [h]

/-- An allocation that finds no place for the address of the new segment fails. -/
theorem allocate_refused
    (h : ∀ k base, s.machine.memory.Leads k →
      ∃ e, k.write s.machine.registers.ap (.address base) = .error e) :
    ∃ e, (allocate s).1 = .error e := by
  unfold allocate
  cases hallocate : s.machine.memory.allocate with
  | error e => exact ⟨_, rfl⟩
  | ok found =>
      obtain ⟨base, k⟩ := found
      obtain ⟨e, he⟩ := h k base (.single (.allocate hallocate))
      have hrefused : (s.withMemory k).machine.memory.write s.machine.registers.ap
          (.address base) = .error e := he
      exact ⟨.memory e, congrArg Prod.fst (write_refused hrefused)⟩

theorem countDown_refused {output : Reference} {dst : Address}
    (hdst : output.address s.machine = .ok dst)
    (h : ∀ w, ∃ e, s.machine.memory.write dst w = .error e) :
    ∃ e, (countDown output s).1 = .error e := by
  unfold countDown
  cases s.scopes.getFelt "n" with
  | error e => exact ⟨_, rfl⟩
  | ok before =>
      -- The counter is set first, and memory does not see it.
      let counted : HintState :=
        { s with scopes := s.scopes.assign "n" (.felt (before - Felt.one)) }
      obtain ⟨e, he⟩ := h (.felt (loopFlag (before - Felt.one)))
      have hrefused : counted.machine.memory.write dst (.felt (loopFlag (before - Felt.one))) =
          .error e := he
      simp only [hdst]
      exact ⟨.memory e, congrArg Prod.fst (write_refused hrefused)⟩

/-- Words whose first cell refuses its word are not written at all. -/
theorem writeWords_refused {dst : Address} {w : UInt32} {ws : List UInt32} {e : MemoryError}
    (h : s.machine.memory.write dst (Value.ofWord w) = .error e) :
    writeWords (.ok (dst, w :: ws)) s = (.error (.memory e), s) := by
  simp only [writeWords, HintState.writeRange, List.map_cons, Memory.writeRange, h]
  rfl

/-- A hint that writes memory and has succeeded fails from every later state with the same
registers, and writes no cell there.  Where it writes words, the first of them meets itself. -/
theorem repetition_fails {b : Builtin} {t : HintState} (hb : b.writesMemory = true)
    (h : b.run s = (.ok (), t)) (turns : List Turn) :
    let later := (t.afterTurns turns).withRegisters s.machine.registers
    ∃ e, (b.run later).1 = .error e ∧
      (∀ a, (b.run later).2.machine.memory.peek a = later.machine.memory.peek a) ∧
      (b.hashes = true → ∃ dst w ws, b.Output s.machine dst (w :: ws) ∧
        e = .memory (.writeOnceViolation dst (Value.ofWord w) (Value.ofWord w))) := by
  intro later
  obtain ⟨ops, scopes, hplan⟩ := exists_plans_of_run h
  have hdoes := (hplan.run_eq_ok_iff.1 h).does
  have hrun := b.leads_run s
  rw [h] at hrun
  have hbehind : t.machine.memory.Leads later.machine.memory := t.leads_afterTurns turns
  have hleads : s.machine.Leads later.machine :=
    ⟨hrun.memory.trans hbehind, rfl, (t.config_afterTurns turns).trans hrun.config_eq⟩
  cases hplan with
  | allocSegment =>
      obtain ⟨e, he⟩ : ∃ e, (allocate later).1 = .error e := by
        apply allocate_refused
        intro k base hk
        exact ⟨_, hdoes.write_eq_error (List.mem_cons_of_mem _ List.mem_cons_self)
          (hbehind.trans hk) _⟩
      exact ⟨e, he, (leaves_allocate he).2.1, nofun⟩
  | enterScope => contradiction
  | exitScope h => contradiction
  | memcpyEnterScope h => contradiction
  | @memcpyContinueCopying output before dst _ hdst =>
      obtain ⟨e, he⟩ : ∃ e, (countDown output later).1 = .error e := by
        apply countDown_refused ((hleads.lasts_address output).value dst hdst)
        intro w
        exact ⟨_, hdoes.write_eq_error List.mem_cons_self hbehind w⟩
      refine ⟨e, he, ?_, nofun⟩
      intro a
      show (countDown output later).2.machine.memory.peek a = _
      rw [(leaves_countDown he).1]
  | @words _ find dst ws hwords hfind =>
      obtain ⟨houtput, hne⟩ := hwords.output hfind
      obtain ⟨w, ws, rfl⟩ := List.exists_cons_of_ne_nil hne
      have hrefused := hdoes.write_eq_error List.mem_cons_self hbehind (Value.ofWord w)
      have hagain : b.run later = (.error (.memory (.writeOnceViolation dst (Value.ofWord w)
          (Value.ofWord w))), later) := by
        rw [hwords.run_eq, (hwords.lasts hleads).value _ hfind]
        exact writeWords_refused hrefused
      rw [hagain]
      exact ⟨_, rfl, fun _ => rfl, fun _ => ⟨dst, w, ws, houtput, rfl⟩⟩

/-- Padding is written once, and not again behind an exit and an allocation that fail, and
a new scope. -/
theorem repetition_fails_padding :
    let s : HintState :=
      ⟨⟨(⟨#[.empty], 2⟩ : Memory).put .origin (.address ⟨0, 1⟩), ⟨.origin, .origin, .origin⟩,
        .default⟩, .root⟩
    let b : Builtin := .finalizeSha256 (.deref ⟨.ap, 0⟩)
    let elsewhere : Registers := ⟨.origin, ⟨0, 7⟩, .origin⟩
    (b.run s).1 = .ok () ∧
    let later := ((b.run s).2.afterTurns [⟨elsewhere, .hint .exitScope⟩,
      ⟨elsewhere, .hint .allocSegment⟩, ⟨elsewhere, .enterScope ∅⟩]).withRegisters
        s.machine.registers
    ∃ e, (b.run later).1 = .error e ∧
      (∀ a, (b.run later).2.machine.memory.peek a = later.machine.memory.peek a) ∧
      (b.hashes = true → ∃ dst w ws, b.Output s.machine dst (w :: ws) ∧
        e = .memory (.writeOnceViolation dst (Value.ofWord w) (Value.ofWord w))) := by
  intro s b elsewhere
  have hwrites : b.writesMemory = true := rfl
  have hok : (b.run s).1 = .ok () := by decide +kernel
  exact ⟨hok, repetition_fails hwrites (Prod.fst_eq_iff.1 hok) _⟩

end Builtin

end CellHints
