import CellHints.Hint.Builtin

/-!
# What can happen between two hints

A run is a row of events, each of which acts on the state that the one before it
left.  A failing event does NOT end the run: what it did until it failed stays,
and the next event goes on from there.  No event moves a register; between two
events the program does, and a turn is an event with the registers it meets.

A program does not come to a hint at once.  A call is a hint together with the
turns that lead up to it, and a called hint that fails does NOT end the run
either.
-/

namespace CellHints

/-- One thing that can happen to the memory or to the scopes. -/
inductive Event
  | allocate
  | write (a : Address) (v : Value)
  | writeRange (a : Address) (vs : List Value)
  | enterScope (scope : Scope)
  | exitScope
  | assign (name : String) (v : ScopeValue)
  | hint (b : Builtin)
deriving DecidableEq

namespace Event

def act : Event → Action
  | allocate => fun s =>
      match s.machine.memory.allocate with
      | .ok (_, memory) => (.ok (), s.withMemory memory)
      | .error e => (.error (.memory e), s)
  | write a v => HintState.write a v
  | writeRange a vs => HintState.writeRange a vs
  | enterScope scope => fun s => (.ok (), { s with scopes := s.scopes.enter scope })
  | exitScope => Builtin.leaveScope
  | assign name v => fun s => (.ok (), { s with scopes := s.scopes.assign name v })
  | hint b => b.run

end Event

namespace HintState

/-- The state behind a row of events. -/
def after (s : HintState) (events : List Event) : HintState :=
  events.foldl (fun s e => (e.act s).2) s

theorem after_cons (s : HintState) (e : Event) (events : List Event) :
    s.after (e :: events) = (e.act s).2.after events := rfl

theorem after_append (s : HintState) (before behind : List Event) :
    s.after (before ++ behind) = (s.after before).after behind := by
  rw [after, List.foldl_append]; rfl

def withRegisters (s : HintState) (registers : Registers) : HintState :=
  { s with machine := { s.machine with registers := registers } }

end HintState

/-- An event, and where the program has moved the registers in front of it. -/
structure Turn where
  registers : Registers
  event : Event
deriving DecidableEq

namespace HintState

/-- The state behind a row of turns. -/
def afterTurns (s : HintState) (turns : List Turn) : HintState :=
  turns.foldl (fun s t => (t.event.act (s.withRegisters t.registers)).2) s

theorem afterTurns_append (s : HintState) (before behind : List Turn) :
    s.afterTurns (before ++ behind) = (s.afterTurns before).afterTurns behind := by
  rw [afterTurns, List.foldl_append]; rfl

end HintState

/-! ### Calls -/

/-- A hint, what the program does before it comes to it, and where it then has the
registers. -/
structure Call where
  before : List Turn
  registers : Registers
  hint : Builtin
deriving DecidableEq

namespace HintState

/-- The state that a called hint meets. -/
def meets (s : HintState) (c : Call) : HintState :=
  (s.afterTurns c.before).withRegisters c.registers

/-- Whether a called hint succeeds, and the state that it leaves. -/
def call (s : HintState) (c : Call) : Except Fault Unit × HintState := c.hint.run (s.meets c)

/-- Whether the hints of a row of calls succeed, one by one, and the state that the last
of them leaves. -/
def callAll (s : HintState) : List Call → List (Except Fault Unit) × HintState
  | [] => ([], s)
  | c :: calls =>
      let (result, t) := s.call c
      let (results, u) := t.callAll calls
      (result :: results, u)

theorem callAll_cons (s : HintState) (c : Call) (calls : List Call) :
    s.callAll (c :: calls) =
      ((s.call c).1 :: ((s.call c).2.callAll calls).1, ((s.call c).2.callAll calls).2) := rfl

/-- A call is a row of turns, the last of which is the hint. -/
theorem afterTurns_call (s : HintState) (c : Call) :
    s.afterTurns (c.before ++ [⟨c.registers, .hint c.hint⟩]) = (s.call c).2 := by
  rw [afterTurns_append]
  rfl

end HintState

end CellHints
