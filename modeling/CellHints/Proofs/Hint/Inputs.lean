import CellHints.Proofs.Hint.Failure
import CellHints.Proofs.Operand.Stability

/-!
# What hints read

Hints read operands, single values and windows of words.  All that they read
lasts: along with memory that grows, a result stays what it is unless something
was missing.  The hints that write words differ only in how they come by the
words and their place, and are treated as one.
-/

namespace CellHints

namespace Memory.Grows

variable {m n : Memory}

theorem lasts_readFelt (h : m.Grows n) (a : Address) :
    Lasts ((m.readFelt a).mapError .memory) ((n.readFelt a).mapError .memory) :=
  h.lasts_readAs a Value.asFelt

theorem lasts_readWord (h : m.Grows n) (a : Address) : Lasts (m.readWord a) (n.readWord a) :=
  (h.lasts_readFelt a).bind fun _ => .refl _

theorem lasts_readWords (h : m.Grows n) (a : Address) (k : Nat) :
    Lasts (m.readWords a k) (n.readWords a k) := by
  induction k with
  | zero => exact .refl _
  | succ k ih =>
      apply ih.bind
      rintro ⟨ws, b⟩
      exact (h.lasts_readWord b).bind fun _ => .refl _

end Memory.Grows

namespace Machine.Leads

variable {m n : Machine}

theorem lasts_resolveFelt (h : m.Leads n) (r : Reference) :
    Lasts (r.resolveFelt m) (r.resolveFelt n) :=
  (h.lasts_resolve r).bind fun _ => .refl _

theorem lasts_resolveAddress (h : m.Leads n) (r : Reference) :
    Lasts (r.resolveAddress m) (r.resolveAddress n) :=
  (h.lasts_resolve r).bind fun _ => .refl _

theorem lasts_readBlock (h : m.Leads n) (start : Reference) :
    Lasts (Builtin.readBlock m start) (Builtin.readBlock n start) := by
  apply (h.lasts_resolveAddress start).bind
  intro a
  exact (h.memory.grows.lasts_readWords a 16).bind fun _ => .refl _

theorem lasts_readState (h : m.Leads n) (state : Reference) :
    Lasts (Builtin.readState m state) (Builtin.readState n state) := by
  apply (h.lasts_resolveAddress state).bind
  intro a
  exact (h.memory.grows.lasts_readWords a 8).bind fun _ => .refl _

end Machine.Leads

namespace Builtin

/-- Whether a hint writes words, and how it works out where they go and what they are. -/
inductive WritesWords : Builtin → (Machine → Except Fault (Address × List UInt32)) → Prop
  | packedSha256 (start output : Reference) :
      WritesWords (.packedSha256 start output) fun m => packedOutput m start output
  | sha256Chunk (start state output : Reference) :
      WritesWords (.sha256Chunk start state output) fun m => chunkOutput m start state output
  | finalizeSha256 (ptrEnd : Reference) :
      WritesWords (.finalizeSha256 ptrEnd) fun m => paddingOutput m ptrEnd

namespace WritesWords

variable {b : Builtin} {find : Machine → Except Fault (Address × List UInt32)}

theorem run_eq (h : b.WritesWords find) (s : HintState) :
    b.run s = writeWords (find s.machine) s := by
  cases h <;> rfl

theorem output (h : b.WritesWords find) {m : Machine} {dst : Address} {ws : List UInt32}
    (hfind : find m = .ok (dst, ws)) : b.Output m dst ws ∧ ws ≠ [] := by
  have hlength : ∀ {n : Nat}, ws.length = n + 1 → ws ≠ [] := by
    rintro n hn rfl
    contradiction
  cases h with
  | packedSha256 start output =>
      obtain ⟨houtput, hwidth⟩ := output_of_packedOutput hfind
      exact ⟨houtput, hlength hwidth⟩
  | sha256Chunk start state output =>
      obtain ⟨houtput, hwidth⟩ := output_of_chunkOutput hfind
      exact ⟨houtput, hlength hwidth⟩
  | finalizeSha256 ptrEnd =>
      obtain ⟨houtput, hwidth⟩ := output_of_paddingOutput hfind
      exact ⟨houtput, hlength hwidth⟩

/-- The words and their place stay what they are. -/
theorem lasts (h : b.WritesWords find) {m n : Machine} (hleads : m.Leads n) :
    Lasts (find m) (find n) := by
  cases h with
  | packedSha256 start output =>
      apply (hleads.lasts_readBlock start).bind
      intro block
      exact (hleads.lasts_resolveAddress output).bind fun _ => .refl _
  | sha256Chunk start state output =>
      apply (hleads.lasts_readBlock start).bind
      intro block
      apply (hleads.lasts_readState state).bind
      intro before
      exact (hleads.lasts_resolveAddress output).bind fun _ => .refl _
  | finalizeSha256 ptrEnd =>
      exact (hleads.lasts_resolveAddress ptrEnd).bind fun _ => .refl _

end WritesWords

/-- Words are written exactly if they were found and their cells could be written. -/
theorem writeWords_eq_ok_iff {output : Except Fault (Address × List UInt32)} {s t : HintState} :
    writeWords output s = (.ok (), t) ↔ ∃ dst ws b n, output = .ok (dst, ws) ∧
      s.machine.memory.writeRange dst (ws.map Value.ofWord) = (.ok b, n) ∧ t = s.withMemory n := by
  cases output with
  | error e => simp [writeWords]
  | ok found =>
      obtain ⟨dst, ws⟩ := found
      simp only [writeWords, HintState.writeRange]
      rcases hrange : s.machine.memory.writeRange dst (ws.map Value.ofWord) with ⟨e | b, n⟩
      · constructor
        · intro h
          cases h
        · rintro ⟨_, _, _, _, ⟨⟩, h, -⟩
          rw [hrange] at h
          cases h
      · constructor
        · intro h
          cases h
          exact ⟨dst, ws, b, n, rfl, hrange, rfl⟩
        · rintro ⟨_, _, _, _, ⟨⟩, h, rfl⟩
          rw [hrange] at h
          cases h
          rfl

end Builtin

end CellHints
