import CellHints.Hint.Event
import CellHints.Proofs.Memory.History

/-!
# What hints and events leave alone

Half of the hints do not look at the scopes, and those of them that fail leave
the scopes alone as well.  No event moves a register or changes a setting, so a
run in which the program moves registers ends with the settings that it began
with, and with memory that has grown.
-/

namespace CellHints

/-- Whether a hint enters, leaves, reads or sets a scope. -/
def Builtin.actsOnScopes : Builtin → Bool
  | enterScope | exitScope | memcpyEnterScope _ | memcpyContinueCopying _ => true
  | allocSegment | packedSha256 _ _ | sha256Chunk _ _ _ | finalizeSha256 _ => false

/-- Whether an event enters, leaves, reads or sets a scope. -/
def Event.actsOnScopes : Event → Bool
  | enterScope _ | exitScope | assign _ _ => true
  | allocate | write _ _ | writeRange _ _ => false
  | hint b => b.actsOnScopes

namespace HintState

theorem scopes_write (a : Address) (v : Value) (s : HintState) :
    (write a v s).2.scopes = s.scopes := by
  unfold write
  cases s.machine.memory.write a v <;> rfl

theorem scopes_writeRange (a : Address) (vs : List Value) (s : HintState) :
    (writeRange a vs s).2.scopes = s.scopes := by
  unfold writeRange
  rcases s.machine.memory.writeRange a vs with ⟨e | b, memory⟩ <;> rfl

end HintState

namespace Builtin

theorem scopes_writeWords (output : Except Fault (Address × List UInt32)) (s : HintState) :
    (writeWords output s).2.scopes = s.scopes := by
  unfold writeWords
  cases output with
  | error e => rfl
  | ok found => exact HintState.scopes_writeRange _ _ s

theorem scopes_allocate (s : HintState) : (allocate s).2.scopes = s.scopes := by
  unfold allocate
  cases s.machine.memory.allocate with
  | error e => rfl
  | ok found => exact HintState.scopes_write _ _ _

/-- A hint that does not act on the scopes keeps them, whether it succeeds or fails. -/
theorem scopes_run {b : Builtin} (hb : b.actsOnScopes = false) (s : HintState) :
    (b.run s).2.scopes = s.scopes := by
  cases b with
  | allocSegment => exact scopes_allocate s
  | enterScope => contradiction
  | exitScope => contradiction
  | memcpyEnterScope len => contradiction
  | memcpyContinueCopying output => contradiction
  | packedSha256 start output => exact scopes_writeWords _ s
  | sha256Chunk start state output => exact scopes_writeWords _ s
  | finalizeSha256 ptrEnd => exact scopes_writeWords _ s

end Builtin

theorem Event.scopes_act {e : Event} (he : e.actsOnScopes = false) (s : HintState) :
    (e.act s).2.scopes = s.scopes := by
  cases e with
  | allocate =>
      simp only [act]
      cases s.machine.memory.allocate <;> rfl
  | write a v => exact HintState.scopes_write a v s
  | writeRange a vs => exact HintState.scopes_writeRange a vs s
  | enterScope scope => contradiction
  | exitScope => contradiction
  | assign name v => contradiction
  | hint b => exact Builtin.scopes_run he s

namespace HintState

theorem scopes_afterTurns {turns : List Turn} (hturns : ∀ t ∈ turns, t.event.actsOnScopes = false)
    (s : HintState) : (s.afterTurns turns).scopes = s.scopes := by
  induction turns generalizing s with
  | nil => rfl
  | cons t turns ih =>
      have hevent := t.event.scopes_act (hturns t List.mem_cons_self) (s.withRegisters t.registers)
      exact (ih (fun u hu => hturns u (List.mem_cons_of_mem _ hu)) _).trans hevent

theorem config_afterTurns (s : HintState) (turns : List Turn) :
    (s.afterTurns turns).machine.config = s.machine.config := by
  induction turns generalizing s with
  | nil => rfl
  | cons t turns ih =>
      exact (ih _).trans (t.event.leads_act (s.withRegisters t.registers)).config_eq

theorem leads_meets (s : HintState) (c : Call) :
    s.machine.memory.Leads (s.meets c).machine.memory :=
  s.leads_afterTurns c.before

theorem leads_call (s : HintState) (c : Call) :
    s.machine.memory.Leads (s.call c).2.machine.memory := by
  rw [← s.afterTurns_call c]
  exact s.leads_afterTurns _

theorem leads_callAll (s : HintState) (calls : List Call) :
    s.machine.memory.Leads (s.callAll calls).2.machine.memory := by
  induction calls generalizing s with
  | nil => exact .refl
  | cons c calls ih => exact (s.leads_call c).trans (ih _)

end HintState

end CellHints
