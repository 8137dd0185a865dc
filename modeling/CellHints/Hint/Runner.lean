import CellHints.Hint.Table

/-!
# Running hints

A runner holds the hints of a program, the scopes that they share, and the
record of the hints that were run while the machine was set to trace.  The hints
of a counter run in order, each from the state that the one before it left, up
to the first that fails.

A program comes to its hints many times.  Between two visits it does what it
likes with the machine and with the scopes, and it goes on behind a visit that
fails as behind one that succeeds.
-/

namespace CellHints

open Std (ExtTreeMap)

/-- The hints that were run, with their counters, the latest last. -/
abbrev History := List (UInt64 × String)

/-- The hints of a program and what their runs share. -/
structure Runner where
  hints : ExtTreeMap UInt64 (List Hint)
  scopes : Scopes
  history : History

namespace Runner

/-- A runner of the given hints, before its first run. -/
def ofHints (hints : List (UInt64 × Hint)) : Runner :=
  ⟨hints.foldl (fun t entry => t.insert entry.1 (t[entry.1]?.getD [] ++ [entry.2])) ∅,
    .root, []⟩

def empty : Runner := ofHints []

/-- A runner of the hints of a table, all of which must load. -/
def ofTable (t : HintTable) : Except Fault Runner := do
  let loaded ← t.entries.mapM fun entry => entry.2.load.map fun b => (entry.1, b.hint)
  return ofHints loaded

def hintsAt (r : Runner) (pc : UInt64) : List Hint := r.hints[pc]?.getD []

def hasHints (r : Runner) (pc : UInt64) : Bool := r.hints.contains pc

def size (r : Runner) : Nat := (r.hints.toList.flatMap fun entry => entry.2).length

/-- Run hints one behind the other up to the first that fails. -/
def runAll (pc : UInt64) : List Hint → HintState → History →
    Except Fault Unit × HintState × History
  | [], s, history => (.ok (), s, history)
  | hint :: rest, s, history =>
      let history := if s.machine.config.trace then history ++ [(pc, hint.name)] else history
      match hint.body s with
      | (.ok (), s) => runAll pc rest s history
      | (.error e, s) => (.error (.inHint hint.name e), s, history)

/-- Run the hints of a counter. -/
def run (r : Runner) (m : Machine) (pc : UInt64) : Except Fault Unit × Machine × Runner :=
  match runAll pc (r.hintsAt pc) ⟨m, r.scopes⟩ r.history with
  | (result, s, history) => (result, s.machine, { r with scopes := s.scopes, history := history })

end Runner

/-! ### Visits -/

/-- A counter that a program comes to, and what it does on the way there. -/
structure Visit where
  before : HintState → HintState
  pc : UInt64

namespace Runner

/-- The state that the hints of a visit meet. -/
def meets (r : Runner) (m : Machine) (v : Visit) : HintState := v.before ⟨m, r.scopes⟩

/-- Run the hints of the counter that a program comes to. -/
def visit (r : Runner) (m : Machine) (v : Visit) : Except Fault Unit × Machine × Runner :=
  { r with scopes := (r.meets m v).scopes }.run (r.meets m v).machine v.pc

/-- The machine and the runner behind a row of visits. -/
def visitAll (r : Runner) (m : Machine) : List Visit → Machine × Runner
  | [] => (m, r)
  | v :: visits => (r.visit m v).2.2.visitAll (r.visit m v).2.1 visits

end Runner

end CellHints
