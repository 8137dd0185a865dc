import CellHints.Hint.Runner

/-!
# Hints in order

The hints of a counter are started one behind the other, each from the state that
the one in front of it left, and the first that fails is the last that is started.
Bodies are arbitrary: they may change the setting that says whether hints are
recorded, and what counts is the setting that a hint finds when it starts.  What a
visit adds to the history depends on nothing that was recorded before.
-/

namespace CellHints

namespace Hint

/-- The state that hints leave one behind the other, whether they succeed or fail. -/
def leave (hints : List Hint) (s : HintState) : HintState :=
  hints.foldl (fun s hint => (hint.body s).2) s

theorem leave_cons (hint : Hint) (hints : List Hint) (s : HintState) :
    leave (hint :: hints) s = leave hints (hint.body s).2 := rfl

/-- How many hints are started: all in front of the first that fails, and that one. -/
def started : List Hint → HintState → Nat
  | [], _ => 0
  | hint :: hints, s =>
      match hint.body s with
      | (.ok (), t) => started hints t + 1
      | (.error _, _) => 1

/-- Whether the first `k` hints succeed, each where those in front of it lead. -/
def Succeed (hints : List Hint) (s : HintState) (k : Nat) : Prop :=
  ∀ i < k, ∀ hint, hints[i]? = some hint → (hint.body (leave (hints.take i) s)).1 = .ok ()

/-- How many hints a run starts, and how it ends: every hint succeeds, or one fails behind
others that succeed, and then the result is its fault under its name. -/
inductive Ends (hints : List Hint) (s : HintState) : Nat → Except Fault Unit → Prop
  | success (all : Succeed hints s hints.length) : Ends hints s hints.length (.ok ())
  | failure {j : Nat} {hint : Hint} {e : Fault} (front : Succeed hints s j)
      (last : hints[j]? = some hint)
      (fails : (hint.body (leave (hints.take j) s)).1 = .error e) :
      Ends hints s (j + 1) (.error (.inHint hint.name e))

/-- What is recorded of the first `k` hints: those that find recording switched on when
they start. -/
def recorded (pc : UInt64) (hints : List Hint) (s : HintState) (k : Nat) : History :=
  (List.range k).filterMap fun i =>
    if (leave (hints.take i) s).machine.config.trace then
      hints[i]?.map fun hint => (pc, hint.name)
    else none

variable {hint : Hint} {hints : List Hint} {s t : HintState} {pc : UInt64}

theorem Succeed.cons {k : Nat} (hbody : hint.body s = (.ok (), t)) (h : Succeed hints t k) :
    Succeed (hint :: hints) s (k + 1) := by
  intro i hi next hnext
  cases i with
  | zero =>
      obtain rfl : hint = next := by simpa using hnext
      exact congrArg Prod.fst hbody
  | succ i =>
      rw [List.take_succ_cons, leave_cons, hbody]
      exact h i (Nat.lt_of_succ_lt_succ hi) next (by simpa using hnext)

theorem Ends.cons {k : Nat} {result : Except Fault Unit} (hbody : hint.body s = (.ok (), t))
    (h : Ends hints t k result) : Ends (hint :: hints) s (k + 1) result := by
  cases h with
  | success all => exact .success (all.cons hbody)
  | @failure j last e front hlast fails =>
      refine .failure (front.cons hbody) (by simpa using hlast) ?_
      rw [List.take_succ_cons, leave_cons, hbody]
      exact fails

theorem recorded_cons (k : Nat) :
    recorded pc (hint :: hints) s (k + 1) =
      (if s.machine.config.trace then [(pc, hint.name)] else []) ++
        recorded pc hints (hint.body s).2 k := by
  have hfirst : leave ((hint :: hints).take 0) s = s := rfl
  unfold recorded
  rw [List.range_succ_eq_map, List.filterMap_cons, List.filterMap_map, hfirst]
  have hrest : (fun i => if (leave ((hint :: hints).take i) s).machine.config.trace then
        (hint :: hints)[i]?.map fun hint => (pc, hint.name) else none) ∘ Nat.succ =
      fun i => if (leave (hints.take i) (hint.body s).2).machine.config.trace then
        hints[i]?.map fun hint => (pc, hint.name) else none := by
    funext i
    rfl
  rw [hrest]
  cases s.machine.config.trace <;> simp

end Hint

namespace Runner

open Hint

/-- What running hints does: those that are started succeed up to the last, what they
leave is left, and of them those that were to be recorded are recorded. -/
theorem runAll_ends (pc : UInt64) (hints : List Hint) (s : HintState) (history : History) :
    Ends hints s (started hints s) (runAll pc hints s history).1 ∧
    (runAll pc hints s history).2.1 = leave (hints.take (started hints s)) s ∧
    (runAll pc hints s history).2.2 =
      history ++ recorded pc hints s (started hints s) := by
  -- The run goes on from what each hint leaves and records.
  induction hints generalizing s history with
  | nil => exact ⟨.success nofun, rfl, (List.append_nil history).symm⟩
  | cons hint hints ih =>
      rcases hbody : hint.body s with ⟨result, t⟩
      have hentry : (if s.machine.config.trace then history ++ [(pc, hint.name)] else history) =
          history ++ (if s.machine.config.trace then [(pc, hint.name)] else []) := by
        cases s.machine.config.trace <;> simp
      cases result with
      | error e =>
          have hfails : (hint.body (leave ((hint :: hints).take 0) s)).1 = .error e :=
            congrArg Prod.fst hbody
          simp only [runAll, started, hbody]
          refine ⟨.failure nofun rfl hfails, ?_, ?_⟩
          · rw [List.take_succ_cons, leave_cons, hbody]
            rfl
          · rw [hentry, recorded_cons]
            simp [recorded]
      | ok _ =>
          simp only [runAll, started, hbody]
          obtain ⟨hends, hstate, hhistory⟩ := ih t
            (if s.machine.config.trace then history ++ [(pc, hint.name)] else history)
          refine ⟨hends.cons hbody, ?_, ?_⟩
          · rw [hstate, List.take_succ_cons, leave_cons, hbody]
          · rw [hhistory, hentry, List.append_assoc, recorded_cons, hbody]

/-- A run of the hints of a counter: how it ends, what it leaves and what it records. -/
structure RunsInOrder (r : Runner) (m : Machine) (pc : UInt64)
    (outcome : Except Fault Unit × Machine × Runner) : Prop where
  ends : Ends (r.hintsAt pc) ⟨m, r.scopes⟩ (started (r.hintsAt pc) ⟨m, r.scopes⟩) outcome.1
  leaves : HintState.mk outcome.2.1 outcome.2.2.scopes =
    leave ((r.hintsAt pc).take (started (r.hintsAt pc) ⟨m, r.scopes⟩)) ⟨m, r.scopes⟩
  records : outcome.2.2.history = r.history ++
    recorded pc (r.hintsAt pc) ⟨m, r.scopes⟩ (started (r.hintsAt pc) ⟨m, r.scopes⟩)
  hints_eq : outcome.2.2.hints = r.hints

theorem run_runsInOrder (r : Runner) (m : Machine) (pc : UInt64) :
    r.RunsInOrder m pc (r.run m pc) := by
  obtain ⟨hends, hstate, hhistory⟩ := runAll_ends pc (r.hintsAt pc) ⟨m, r.scopes⟩ r.history
  exact ⟨hends, hstate, hhistory, rfl⟩

/-- What the visits of a row add to the history, visit by visit. -/
def additions (r : Runner) (m : Machine) : List Visit → List History
  | [] => []
  | v :: visits =>
      recorded v.pc (r.hintsAt v.pc) (r.meets m v) (started (r.hintsAt v.pc) (r.meets m v)) ::
        (r.visit m v).2.2.additions (r.visit m v).2.1 visits

theorem visitAll_records (r : Runner) (m : Machine) (visits : List Visit) :
    (r.visitAll m visits).2.hints = r.hints ∧
    (r.visitAll m visits).2.history = r.history ++ (r.additions m visits).flatten := by
  induction visits generalizing r m with
  | nil => exact ⟨rfl, (List.append_nil r.history).symm⟩
  | cons v visits ih =>
      have hvisit := run_runsInOrder { r with scopes := (r.meets m v).scopes }
        (r.meets m v).machine v.pc
      obtain ⟨hhints, hhistory⟩ := ih (r.visit m v).2.2 (r.visit m v).2.1
      refine ⟨hhints.trans hvisit.hints_eq, ?_⟩
      rw [visitAll, hhistory, additions, List.flatten_cons, ← List.append_assoc]
      exact congrArg (· ++ _) hvisit.records

/-- The hints of a counter run in order up to the first that fails, along a row of visits
the history grows by what each visit adds, and a counter without hints changes nothing. -/
theorem hints_run_in_order (r : Runner) :
    (∀ m pc, r.RunsInOrder m pc (r.run m pc)) ∧
    (∀ m visits, (r.visitAll m visits).2.hints = r.hints ∧
      (r.visitAll m visits).2.history = r.history ++ (r.additions m visits).flatten) ∧
    ∀ m pc, r.hintsAt pc = [] → r.run m pc = (.ok (), m, r) := by
  refine ⟨r.run_runsInOrder, r.visitAll_records, ?_⟩
  intro m pc hnone
  unfold run
  rw [hnone]
  rfl

/-- Recording is switched on by a hint that is not recorded itself; the hint behind it
fails, is recorded, and is the last that is started. -/
theorem hints_run_in_order_switched_on :
    let on : Hint := ⟨"On", fun s =>
      (.ok (), { s with machine := { s.machine with config := ⟨2, true⟩ } })⟩
    let r := ofHints [(7, on), (7, .failing "Fail" "boom"), (7, .assigning "Late" "x" (.int 1))]
    let m : Machine := ⟨.empty 2, ⟨.origin, .origin, .origin⟩, ⟨2, false⟩⟩
    r.RunsInOrder m 7 (r.run m 7) ∧
      (r.run m 7).1 = .error (.inHint "Fail" (.other "boom")) ∧
      (r.run m 7).2.1.config.trace = true ∧ (r.run m 7).2.2.scopes = r.scopes ∧
      (r.run m 7).2.2.history = [(7, "Fail")] ∧ r.run m 8 = (.ok (), m, r) := by
  intro on r m
  obtain ⟨horder, -, hnone⟩ := hints_run_in_order r
  have hempty : r.hintsAt 8 = [] := rfl
  exact ⟨horder m 7, rfl, rfl, rfl, rfl, hnone m 8 hempty⟩

end Runner

end CellHints
