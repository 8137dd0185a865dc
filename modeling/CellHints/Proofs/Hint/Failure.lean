import CellHints.Proofs.Felt.Residue
import CellHints.Proofs.Memory.History
import CellHints.Proofs.Memory.Window

/-!
# What a failing hint leaves

Nothing is undone when a hint fails, so what it leaves depends on how far it
came.  Scopes and loops are entered and left at once or not at all; the counter
of a loop is taken down before the flag is written; a new segment stays though
its address found no place; and of a row of words those in front of the refused
one stay.  It is NOT said here when a hint fails.
-/

namespace CellHints

/-- The scopes with one taken from the counter `n` of the top scope, if it is a number. -/
def Scopes.countedDown (s : Scopes) : Scopes :=
  match s.top["n"]? with
  | some (.felt n) => s.assign "n" (.felt (n - Felt.one))
  | some (.int z) => s.assign "n" (.felt (Felt.ofInt (z - 1)))
  | _ => s

/-- Whether a reference points to a window that holds the words. -/
def Machine.HoldsAt (m : Machine) (r : Reference) (ws : List UInt32) : Prop :=
  ∃ a, r.resolveAddress m = .ok a ∧ m.memory.Holds a (ws.map Value.ofWord)

namespace Builtin

/-- What a hint that writes words is to write and where, once everything it reads is there. -/
inductive Output (m : Machine) : Builtin → Address → List UInt32 → Prop
  | packedSha256 {start output : Reference} {block : Sha256.Block} {dst : Address}
      (hblock : m.HoldsAt start block.toList) (hdst : output.resolveAddress m = .ok dst) :
      Output m (.packedSha256 start output) dst (Sha256.compress Sha256.initial block).toList
  | sha256Chunk {start state output : Reference} {block : Sha256.Block} {before : Sha256.State}
      {dst : Address} (hblock : m.HoldsAt start block.toList)
      (hbefore : m.HoldsAt state before.toList) (hdst : output.resolveAddress m = .ok dst) :
      Output m (.sha256Chunk start state output) dst (Sha256.compress before block).toList
  | finalizeSha256 {ptrEnd : Reference} {dst : Address} (hdst : ptrEnd.resolveAddress m = .ok dst) :
      Output m (.finalizeSha256 ptrEnd) dst padding

/-- What is left of `width` words that a hint is to write: nothing was changed, or all was
read and the words in front of the first refused one were written. -/
def LeavesWords (b : Builtin) (width : Nat) (s : HintState) (e : Fault) (t : HintState) : Prop :=
  t = s ∨ ∃ dst ws cause, b.Output s.machine dst ws ∧ ws.length = width ∧ e = .memory cause ∧
    s.machine.memory.StopsWriting dst (ws.map Value.ofWord) cause t.machine.memory ∧
    t.scopes = s.scopes

/-- What a hint that fails with `e` leaves of the machine's memory and of the scopes. -/
def Leaves (b : Builtin) (s : HintState) (e : Fault) (t : HintState) : Prop :=
  match b with
  | enterScope => False
  | exitScope => t = s
  | memcpyEnterScope _ => t = s
  | allocSegment =>
      t.scopes = s.scopes ∧ (∀ a, t.machine.memory.peek a = s.machine.memory.peek a) ∧
        (t = s ∨ t.machine.memory =
          { s.machine.memory with segments := s.machine.memory.segments.push .empty })
  | memcpyContinueCopying _ =>
      t.machine.memory = s.machine.memory ∧ t.scopes = s.scopes.countedDown
  | packedSha256 _ _ => b.LeavesWords 8 s e t
  | sha256Chunk _ _ _ => b.LeavesWords 8 s e t
  | finalizeSha256 _ => b.LeavesWords 192 s e t

theorem holdsAt_of_readWords {m : Machine} {r : Reference} {a b : Address} {n : Nat}
    {ws : Vector UInt32 n} (ha : r.resolveAddress m = .ok a)
    (h : m.memory.readWords a n = .ok (ws, b)) : m.HoldsAt r ws.toList :=
  ⟨a, ha, (Memory.holds_of_readWords h).1⟩

theorem holdsAt_of_readBlock {m : Machine} {start : Reference} {block : Sha256.Block}
    (h : readBlock m start = .ok block) : m.HoldsAt start block.toList := by
  obtain ⟨a, ha, h⟩ := Except.bind_eq_ok_iff.1 h
  obtain ⟨⟨ws, b⟩, hws, h⟩ := Except.bind_eq_ok_iff.1 h
  cases h
  exact holdsAt_of_readWords ha hws

theorem holdsAt_of_readState {m : Machine} {state : Reference} {before : Sha256.State}
    (h : readState m state = .ok before) : m.HoldsAt state before.toList := by
  obtain ⟨a, ha, h⟩ := Except.bind_eq_ok_iff.1 h
  obtain ⟨⟨ws, b⟩, hws, h⟩ := Except.bind_eq_ok_iff.1 h
  cases h
  exact holdsAt_of_readWords ha hws

theorem output_of_packedOutput {m : Machine} {start output : Reference} {dst : Address}
    {ws : List UInt32} (h : packedOutput m start output = .ok (dst, ws)) :
    Output m (.packedSha256 start output) dst ws ∧ ws.length = 8 := by
  obtain ⟨block, hblock, h⟩ := Except.bind_eq_ok_iff.1 h
  obtain ⟨a, ha, h⟩ := Except.bind_eq_ok_iff.1 h
  cases h
  exact ⟨.packedSha256 (holdsAt_of_readBlock hblock) ha, Vector.length_toList⟩

theorem output_of_chunkOutput {m : Machine} {start state output : Reference} {dst : Address}
    {ws : List UInt32} (h : chunkOutput m start state output = .ok (dst, ws)) :
    Output m (.sha256Chunk start state output) dst ws ∧ ws.length = 8 := by
  obtain ⟨block, hblock, h⟩ := Except.bind_eq_ok_iff.1 h
  obtain ⟨before, hbefore, h⟩ := Except.bind_eq_ok_iff.1 h
  obtain ⟨a, ha, h⟩ := Except.bind_eq_ok_iff.1 h
  cases h
  exact ⟨.sha256Chunk (holdsAt_of_readBlock hblock) (holdsAt_of_readState hbefore) ha,
    Vector.length_toList⟩

/-- Six instances of a block, a state and a state. -/
theorem length_padding : padding.length = 192 := by
  simp [padding, paddingInstance, batchSize]

theorem output_of_paddingOutput {m : Machine} {ptrEnd : Reference} {dst : Address}
    {ws : List UInt32} (h : paddingOutput m ptrEnd = .ok (dst, ws)) :
    Output m (.finalizeSha256 ptrEnd) dst ws ∧ ws.length = 192 := by
  obtain ⟨a, ha, h⟩ := Except.bind_eq_ok_iff.1 h
  cases h
  exact ⟨.finalizeSha256 ha, length_padding⟩

/-- A hint that writes words fails where it reads, and then changes nothing, or at the
first word that is refused. -/
theorem leavesWords_writeWords {b : Builtin} {width : Nat} {s : HintState}
    {output : Except Fault (Address × List UInt32)}
    (houtput : ∀ dst ws, output = .ok (dst, ws) → b.Output s.machine dst ws ∧ ws.length = width)
    {e : Fault} (h : (writeWords output s).1 = .error e) :
    b.LeavesWords width s e (writeWords output s).2 := by
  cases output with
  | error e' => exact Or.inl rfl
  | ok found =>
      obtain ⟨dst, ws⟩ := found
      obtain ⟨hspec, hlength⟩ := houtput dst ws rfl
      have hrange := s.machine.memory.writeRange_writes_or_stops dst (ws.map Value.ofWord)
      simp only [writeWords, HintState.writeRange] at h ⊢
      rcases hwrite : s.machine.memory.writeRange dst (ws.map Value.ofWord) with
        ⟨cause | last, memory⟩
      · rw [hwrite] at hrange h
        cases h
        rcases hrange with ⟨_, hok, -⟩ | ⟨_, herror, hstops⟩
        · contradiction
        · cases herror
          exact Or.inr ⟨dst, ws, cause, hspec, hlength, rfl, hstops, rfl⟩
      · rw [hwrite] at h
        contradiction

theorem leaves_allocate {s : HintState} {e : Fault} (h : (allocate s).1 = .error e) :
    Builtin.allocSegment.Leaves s e (allocate s).2 := by
  unfold allocate at h ⊢
  cases hallocate : s.machine.memory.allocate with
  | error cause => exact ⟨rfl, fun _ => rfl, Or.inl rfl⟩
  | ok found =>
      obtain ⟨base, memory⟩ := found
      simp only [hallocate, HintState.write] at h ⊢
      cases hwrite : (s.withMemory memory).machine.memory.write s.machine.registers.ap
          (.address base) with
      | ok later =>
          rw [hwrite] at h
          contradiction
      | error cause =>
          -- The new segment has no cells, and the others have theirs.
          obtain ⟨-, -, hmemory⟩ := Memory.allocate_eq_ok_iff.1 hallocate
          refine ⟨rfl, fun a => ?_, Or.inr hmemory⟩
          show memory.peek a = s.machine.memory.peek a
          rw [Memory.peek_allocate hallocate]
          split
          · next heq => exact (Memory.peek_eq_none_of_size_le (Nat.le_of_eq heq.symm)).symm
          · rfl

theorem eq_of_leaveScope_eq_error {s : HintState} {e : Fault} (h : (leaveScope s).1 = .error e) :
    (leaveScope s).2 = s := by
  unfold leaveScope at h ⊢
  cases hexit : s.scopes.exit with
  | error cause => rfl
  | ok scopes =>
      rw [hexit] at h
      contradiction

theorem eq_of_enterLoop_eq_error {len : Reference} {s : HintState} {e : Fault}
    (h : (enterLoop len s).1 = .error e) : (enterLoop len s).2 = s := by
  unfold enterLoop at h ⊢
  cases hlen : len.resolveFelt s.machine with
  | error cause => rfl
  | ok n =>
      rw [hlen] at h
      contradiction

/-- The counter is a number exactly if it can be taken down. -/
theorem countedDown_eq (s : Scopes) :
    s.countedDown = match s.getFelt "n" with
      | .ok n => s.assign "n" (.felt (n - Felt.one))
      | .error _ => s := by
  unfold Scopes.countedDown Scopes.getFelt Scopes.get
  cases s.top["n"]? with
  | none => rfl
  | some v =>
      cases v with
      | felt n => rfl
      | int z =>
          have hone : Felt.ofInt 1 = Felt.one := rfl
          show s.assign "n" (.felt (Felt.ofInt (z - 1))) =
            s.assign "n" (.felt (Felt.ofInt z - Felt.one))
          rw [Felt.ofInt_sub, hone]
      | address a => rfl
      | felts xs => rfl

theorem leaves_countDown {output : Reference} {s : HintState} {e : Fault}
    (h : (countDown output s).1 = .error e) :
    (Builtin.memcpyContinueCopying output).Leaves s e (countDown output s).2 := by
  unfold countDown at h ⊢
  show _ ∧ _ = s.scopes.countedDown
  rw [countedDown_eq]
  cases hn : s.scopes.getFelt "n" with
  | error cause => exact ⟨rfl, rfl⟩
  | ok n =>
      simp only [hn] at h ⊢
      cases hdst : output.address s.machine with
      | error cause => exact ⟨rfl, rfl⟩
      | ok dst =>
          simp only [hdst, HintState.write] at h ⊢
          cases hwrite : s.machine.memory.write dst (.felt (loopFlag (n - Felt.one))) with
          | error cause => exact ⟨rfl, rfl⟩
          | ok memory =>
              rw [hwrite] at h
              contradiction

/-- Every hint that fails leaves what its kind leaves, and no hint, failing or not, moves a
register or changes a setting. -/
theorem leaves_of_run_eq_error (b : Builtin) (s : HintState) :
    (∀ e, (b.run s).1 = .error e → b.Leaves s e (b.run s).2) ∧
    (b.run s).2.machine.registers = s.machine.registers ∧
    (b.run s).2.machine.config = s.machine.config := by
  have hleads := leads_run b s
  refine ⟨fun e h => ?_, hleads.registers_eq, hleads.config_eq⟩
  cases b with
  | allocSegment => exact leaves_allocate h
  | enterScope => contradiction
  | exitScope => exact eq_of_leaveScope_eq_error h
  | memcpyEnterScope len => exact eq_of_enterLoop_eq_error h
  | memcpyContinueCopying output => exact leaves_countDown h
  | packedSha256 start output =>
      exact leavesWords_writeWords (fun _ _ => output_of_packedOutput) h
  | sha256Chunk start state output =>
      exact leavesWords_writeWords (fun _ _ => output_of_chunkOutput) h
  | finalizeSha256 ptrEnd => exact leavesWords_writeWords (fun _ _ => output_of_paddingOutput) h

/-- The padding goes to the cells from `0:1` on, and the cell at `0:3` holds 1 already: two
words are written. -/
theorem leaves_of_run_eq_error_padding :
    let s : HintState :=
      ⟨⟨((⟨#[.empty], 1⟩ : Memory).put .origin (.address ⟨0, 1⟩)).put ⟨0, 3⟩ (.felt Felt.one),
        ⟨.origin, .origin, .origin⟩, .default⟩, .root⟩
    let b : Builtin := .finalizeSha256 (.deref ⟨.ap, 0⟩)
    let e : Fault :=
      .memory (.writeOnceViolation ⟨0, 3⟩ (.felt Felt.one) (.felt Felt.zero))
    (b.run s).1 = .error e ∧ b.Leaves s e (b.run s).2 ∧
      (b.run s).2.machine.registers = s.machine.registers := by
  intro s b e
  have hfails : (b.run s).1 = .error e := by decide +kernel
  obtain ⟨hleaves, hregisters, -⟩ := leaves_of_run_eq_error b s
  exact ⟨hfails, hleaves e hfails, hregisters⟩

end Builtin

end CellHints
