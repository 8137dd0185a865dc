import CellHints.Hint.Runner
import CellHints.Proofs.Memory.History

/-!
# What a program reaches

A program acts by single events and by running all the hints of a counter, and
goes on behind a failure as behind a success.  A run of hints is a row of events,
up to the first hint that fails, so a state that is reached is the state behind a
row of events.  Registers are NOT moved on the way.
-/

namespace CellHints

/-- The states that events and runs of built-in hints lead to. -/
inductive HintState.Reaches (s : HintState) : HintState → Prop
  | refl : Reaches s s
  | event {t : HintState} (h : Reaches s t) (e : Event) : Reaches s (e.act t).2
  /-- All the hints of a counter, from the machine and the scopes of the runner. -/
  | run {t : HintState} (h : Reaches s t) {r : Runner} (hscopes : r.scopes = t.scopes)
      {pc : UInt64} {bs : List Builtin} (hhints : r.hintsAt pc = bs.map Builtin.hint) :
      Reaches s ⟨(r.run t.machine pc).2.1, (r.run t.machine pc).2.2.scopes⟩

namespace Runner

/-- A run of hints acts as the events of the hints that it came to. -/
theorem exists_runAll_eq_after (pc : UInt64) (bs : List Builtin) (s : HintState)
    (history : History) :
    ∃ k, (runAll pc (bs.map Builtin.hint) s history).2.1 = s.after ((bs.take k).map .hint) := by
  -- The run goes on from what each hint leaves, so the state is arbitrary.
  induction bs generalizing s history with
  | nil => exact ⟨0, rfl⟩
  | cons b bs ih =>
      rcases hrun : b.run s with ⟨result, t⟩
      have hbody : b.hint.body s = (result, t) := hrun
      cases result with
      | error e =>
          refine ⟨1, ?_⟩
          simp only [List.map_cons, runAll, hbody]
          show t = (b.run s).2
          rw [hrun]
      | ok _ =>
          simp only [List.map_cons, runAll, hbody]
          obtain ⟨k, hk⟩ := ih t _
          refine ⟨k + 1, ?_⟩
          rw [hk, List.take_succ_cons, List.map_cons, HintState.after_cons]
          show t.after _ = (b.run s).2.after _
          rw [hrun]

end Runner

namespace HintState

theorem leads_after (s : HintState) (events : List Event) :
    s.machine.Leads (s.after events).machine := by
  induction events generalizing s with
  | nil => exact .refl _
  | cons e events ih => exact (e.leads_act s).trans (ih _)

theorem Reaches.exists_after {s t : HintState} (h : s.Reaches t) :
    ∃ events, t = s.after events := by
  induction h with
  | refl => exact ⟨[], rfl⟩
  | event _ e ih =>
      obtain ⟨events, rfl⟩ := ih
      exact ⟨events ++ [e], by rw [after_append]; rfl⟩
  | @run t _ r hscopes pc bs hhints ih =>
      obtain ⟨events, rfl⟩ := ih
      obtain ⟨k, hk⟩ := Runner.exists_runAll_eq_after pc bs (s.after events) r.history
      refine ⟨events ++ (bs.take k).map .hint, ?_⟩
      rw [after_append, ← hk, Runner.run, hhints, hscopes]

/-- Nothing that is reached differs from the start in more than memory that has grown. -/
theorem Reaches.leads {s t : HintState} (h : s.Reaches t) : s.machine.Leads t.machine := by
  obtain ⟨events, rfl⟩ := h.exists_after
  exact s.leads_after events

end HintState

end CellHints
