import CellHints.Hint.ScopeOp
import CellHints.Proofs.Hint.Frame
import Mathlib.Data.List.Infix

/-!
# Discipline of scopes

A stack of scopes is what its accepted operations say, whoever asked for them: as
deep as scopes were entered and not left, and on top the scope that was entered last
and not left, with what was assigned there since.  Look-ups see nothing else.  As
long as a run does not come down to where it started, it leaves everything there
alone, so leaving the last of its scopes brings the stack back.
-/

namespace CellHints

namespace ScopeOp

/-- Whether an operation enters a scope. -/
def isEnter : ScopeOp → Bool
  | enter _ => true
  | exit | assign _ _ | get _ | getFelt _ | getAddress _ => false

/-- Whether an operation leaves a scope. -/
def isExit : ScopeOp → Bool
  | exit => true
  | enter _ | assign _ _ | get _ | getFelt _ | getAddress _ => false

/-- What a variable was last given in the scope that lies under `closed` others, by
accepted operations with the latest first.  An exit closes the scopes that were entered
before it; the scope where the counting ends was seeded with variables when entered. -/
def given (name : String) : Nat → List ScopeOp → Option ScopeValue
  | _, [] => none
  | 0, enter scope :: _ => scope[name]?
  | closed + 1, enter _ :: earlier => given name closed earlier
  | closed, exit :: earlier => given name (closed + 1) earlier
  | 0, assign other v :: earlier => if other = name then some v else given name 0 earlier
  | closed + 1, assign _ _ :: earlier => given name (closed + 1) earlier
  | closed, get _ :: earlier => given name closed earlier
  | closed, getFelt _ :: earlier => given name closed earlier
  | closed, getAddress _ :: earlier => given name closed earlier

/-- An operation that is refused changes nothing. -/
theorem act_of_error {op : ScopeOp} {s : Scopes} {e : ScopeError} (h : (op.act s).1 = .error e) :
    (op.act s).2 = s := by
  cases op with
  | enter scope => contradiction
  | exit =>
      simp only [act] at h ⊢
      cases hexit : s.exit with
      | ok t =>
          rw [hexit] at h
          contradiction
      | error e' => rfl
  | assign name v => contradiction
  | get name => rfl
  | getFelt name => rfl
  | getAddress name => rfl

end ScopeOp

namespace Scopes

open ScopeOp

/-- The scopes of a stack, the top one first. -/
def toList (s : Scopes) : List Scope := s.top :: s.below

theorem length_toList (s : Scopes) : s.toList.length = s.depth := rfl

theorem toList_enter (s : Scopes) (scope : Scope) :
    (s.enter scope).toList = scope :: s.toList := rfl

theorem eq_enter_of_toList {s t : Scopes} {scope : Scope} (h : t.toList = scope :: s.toList) :
    t = s.enter scope := by
  cases s
  cases t
  simp only [toList, List.cons.injEq] at h
  obtain ⟨rfl, rfl⟩ := h
  rfl

theorem accepted_concat (s : Scopes) (ops : List ScopeOp) (op : ScopeOp) :
    s.accepted (ops ++ [op]) = s.accepted ops ++
      match (op.act (s.after ops)).1 with
      | .ok _ => [op]
      | .error _ => [] := by
  induction ops generalizing s with
  | nil =>
      simp only [List.nil_append, accepted]
      rcases hact : op.act s with ⟨e | u, t⟩ <;> simp [after, hact]
  | cons first ops ih =>
      rcases hact : first.act s with ⟨e | u, t⟩ <;> simp [accepted, after_cons, hact, ih]

theorem after_concat (s : Scopes) (ops : List ScopeOp) (op : ScopeOp) :
    s.after (ops ++ [op]) = (op.act (s.after ops)).2 := by
  rw [after_append]
  rfl

/-- A scope is left unless it is the only one. -/
theorem exit_act_cases (s : Scopes) :
    (∃ scope t, s = t.enter scope ∧ ScopeOp.exit.act s = (.ok (), t)) ∨
      (s.depth = 1 ∧ ScopeOp.exit.act s = (.error .cannotExitLastScope, s)) := by
  cases s with
  | mk top below =>
      cases below with
      | nil => exact Or.inr ⟨rfl, rfl⟩
      | cons next rest => exact Or.inl ⟨top, ⟨next, rest⟩, rfl, rfl⟩

/-- The value of a variable that holds `v`, or nothing at all. -/
def valueAnswer (name : String) : Option ScopeValue → Except ScopeError ScopeValue
  | some v => .ok v
  | none => .error (.variableNotFound name)

def feltAnswer (name : String) : Option ScopeValue → Except ScopeError Felt
  | some (.felt x) => .ok x
  | some (.int z) => .ok (Felt.ofInt z)
  | some (.address _) | some (.felts _) => .error (.unexpectedType name .felt)
  | none => .error (.variableNotFound name)

def addressAnswer (name : String) : Option ScopeValue → Except ScopeError Address
  | some (.address a) => .ok a
  | some (.felt _) | some (.int _) | some (.felts _) => .error (.unexpectedType name .address)
  | none => .error (.variableNotFound name)

/-- Whether all look-ups of a variable answer what they do if it holds `v`. -/
structure Sees (s : Scopes) (name : String) (v : Option ScopeValue) : Prop where
  get : s.get name = valueAnswer name v
  getFelt : s.getFelt name = feltAnswer name v
  getAddress : s.getAddress name = addressAnswer name v

theorem sees_top (s : Scopes) (name : String) : s.Sees name s.top[name]? where
  get := by
    unfold Scopes.get
    cases s.top[name]? <;> rfl
  getFelt := by
    unfold Scopes.getFelt Scopes.get
    rcases s.top[name]? with _ | _ | _ | _ | _ <;> rfl
  getAddress := by
    unfold Scopes.getAddress Scopes.get
    rcases s.top[name]? with _ | _ | _ | _ | _ <;> rfl

/-- The stack agrees with the accepted operations that led to it from one empty scope. -/
structure Agrees (s : Scopes) (ops : List ScopeOp) : Prop where
  depth_eq : (s.depth : Int) = 1 + ops.countP isEnter - ops.countP isExit
  given_eq : ∀ (i : Nat) (name : String),
    given name i ops.reverse = s.toList[i]?.bind fun scope => scope[name]?

theorem agrees_root : root.Agrees [] where
  depth_eq := rfl
  given_eq := by
    intro i name
    cases i with
    | zero => exact Std.ExtTreeMap.getElem?_empty.symm
    | succ i => rfl

theorem Agrees.enter {s : Scopes} {ops : List ScopeOp} (h : s.Agrees ops) (scope : Scope) :
    (s.enter scope).Agrees (ops ++ [.enter scope]) where
  depth_eq := by
    have hdepth := h.depth_eq
    rw [depth_enter, List.countP_append, List.countP_append]
    simp only [List.countP_singleton, isEnter, isExit]
    push_cast
    omega
  given_eq := by
    intro i name
    rw [List.reverse_append, toList_enter]
    cases i with
    | zero => rfl
    | succ i => exact h.given_eq i name

theorem Agrees.exit {s : Scopes} {ops : List ScopeOp} {scope : Scope}
    (h : (s.enter scope).Agrees ops) : s.Agrees (ops ++ [.exit]) where
  depth_eq := by
    have hdepth := h.depth_eq
    rw [depth_enter] at hdepth
    rw [List.countP_append, List.countP_append]
    simp only [List.countP_singleton, isEnter, isExit]
    push_cast at hdepth ⊢
    omega
  given_eq := by
    intro i name
    rw [List.reverse_append]
    exact h.given_eq (i + 1) name

theorem Agrees.assign {s : Scopes} {ops : List ScopeOp} (h : s.Agrees ops) (name : String)
    (v : ScopeValue) : (s.assign name v).Agrees (ops ++ [.assign name v]) where
  depth_eq := by
    have hdepth : (s.assign name v).depth = s.depth := rfl
    rw [List.countP_append, List.countP_append, hdepth]
    simpa [isEnter, isExit] using h.depth_eq
  given_eq := by
    intro i other
    rw [List.reverse_append]
    have hgiven := h.given_eq i other
    cases i with
    | zero =>
        show (if name = other then some v else given other 0 ops.reverse) =
          (s.top.insert name v)[other]?
        rw [Std.ExtTreeMap.getElem?_insert, hgiven]
        simp only [Std.LawfulEqCmp.compare_eq_iff_eq]
        rfl
    | succ i => exact hgiven

/-- A look-up leaves both the stack and what was given as they were. -/
theorem Agrees.lookup {s : Scopes} {ops : List ScopeOp} {op : ScopeOp} (h : s.Agrees ops)
    (hdepth : op.isEnter = false ∧ op.isExit = false)
    (hgiven : ∀ i name earlier, given name i (op :: earlier) = given name i earlier) :
    s.Agrees (ops ++ [op]) where
  depth_eq := by
    rw [List.countP_append, List.countP_append]
    simpa [hdepth] using h.depth_eq
  given_eq := by
    intro i name
    rw [List.reverse_append]
    exact (hgiven i name _).trans (h.given_eq i name)

/-- What one accepted operation preserves. -/
theorem Agrees.act {s : Scopes} {ops : List ScopeOp} {op : ScopeOp} (h : s.Agrees ops)
    (hok : (op.act s).1 = .ok ()) : (op.act s).2.Agrees (ops ++ [op]) := by
  cases op with
  | enter scope => exact h.enter scope
  | exit =>
      rcases s.exit_act_cases with ⟨scope, t, rfl, hact⟩ | ⟨-, hact⟩
      · rw [hact]
        exact h.exit
      · rw [hact] at hok
        contradiction
  | assign name v => exact h.assign name v
  | get name => exact h.lookup ⟨rfl, rfl⟩ fun i _ _ => by cases i <;> rfl
  | getFelt name => exact h.lookup ⟨rfl, rfl⟩ fun i _ _ => by cases i <;> rfl
  | getAddress name => exact h.lookup ⟨rfl, rfl⟩ fun i _ _ => by cases i <;> rfl

/-- What a whole run preserves. -/
theorem agrees_after (ops : List ScopeOp) : (root.after ops).Agrees (root.accepted ops) := by
  induction ops using List.reverseRecOn with
  | nil => exact agrees_root
  | append_singleton ops op ih =>
      rw [after_concat, accepted_concat]
      cases hact : (op.act (root.after ops)).1 with
      | ok u => exact ih.act hact
      | error e =>
          rw [act_of_error hact, List.append_nil]
          exact ih

/-- One operation above a stack that it does not come down to. -/
theorem above_act {s : Scopes} {op : ScopeOp} {upper base : List Scope}
    (h : s.toList = upper ++ base) (hmeets : base.length < s.depth)
    (hleaves : base.length < (op.act s).2.depth) :
    ∃ upper, (op.act s).2.toList = upper ++ base := by
  obtain ⟨first, upper, rfl⟩ : ∃ first rest, upper = first :: rest := by
    apply List.exists_cons_of_ne_nil
    rintro rfl
    rw [← length_toList, h] at hmeets
    exact Nat.lt_irrefl _ hmeets
  cases op with
  | enter scope => exact ⟨scope :: first :: upper, congrArg (scope :: ·) h⟩
  | exit =>
      rcases s.exit_act_cases with ⟨scope, t, rfl, hact⟩ | ⟨-, hact⟩
      · rw [hact]
        exact ⟨upper, (List.cons.inj h).2⟩
      · rw [hact]
        exact ⟨first :: upper, h⟩
  | assign name v => exact ⟨first.insert name v :: upper, by
      obtain ⟨htop, hbelow⟩ := List.cons.inj h
      show s.top.insert name v :: s.below = _
      rw [htop, hbelow]
      rfl⟩
  | get name => exact ⟨first :: upper, h⟩
  | getFelt name => exact ⟨first :: upper, h⟩
  | getAddress name => exact ⟨first :: upper, h⟩

/-- A run that stays above a stack keeps every scope of it. -/
theorem exists_toList_after (s : Scopes) (scope : Scope) (ops : List ScopeOp)
    (habove : ∀ before, before <+: ops → s.depth < ((s.enter scope).after before).depth) :
    ∃ upper, ((s.enter scope).after ops).toList = upper ++ s.toList := by
  induction ops using List.reverseRecOn with
  | nil => exact ⟨[scope], rfl⟩
  | append_singleton ops op ih =>
      have hmeets := habove ops (List.prefix_append ops [op])
      have hleaves := habove (ops ++ [op]) (List.prefix_refl _)
      obtain ⟨upper, hupper⟩ := ih fun before hbefore =>
        habove before (hbefore.trans (List.prefix_append ops [op]))
      rw [after_concat] at hleaves ⊢
      rw [← s.length_toList] at hmeets hleaves
      exact above_act hupper hmeets hleaves

/-- A run that stays above a stack and ends one scope above it ends on that stack. -/
theorem exit_after {s : Scopes} {scope : Scope} {ops : List ScopeOp}
    (habove : ∀ before, before <+: ops → s.depth < ((s.enter scope).after before).depth)
    (hdepth : ((s.enter scope).after ops).depth = s.depth + 1) :
    ((s.enter scope).after ops).exit = .ok s := by
  obtain ⟨upper, hupper⟩ := s.exists_toList_after scope ops habove
  have hlength := congrArg List.length hupper
  rw [length_toList, hdepth, List.length_append, length_toList] at hlength
  obtain ⟨last, rfl⟩ : ∃ last, upper = [last] := List.length_eq_one_iff.1 (by omega)
  rw [eq_enter_of_toList hupper]
  exact exit_enter s last

/-- What is so behind accepted operations: how deep the stack is, that its only scope is
not left and any other is, by the program and by a hint, and what look-ups see. -/
structure Disciplined (s : Scopes) (ops : List ScopeOp) : Prop where
  depth_eq : (s.depth : Int) = 1 + ops.countP isEnter - ops.countP isExit
  depth_pos : 1 ≤ s.depth
  exit_fails_iff : (∃ e, (ScopeOp.exit.act s).1 = .error e) ↔ s.depth = 1
  exit_refused : s.depth = 1 → (ScopeOp.exit.act s).2 = s ∧
    ∀ m, Builtin.exitScope.run ⟨m, s⟩ = (.error (.scope .cannotExitLastScope), ⟨m, s⟩)
  sees : ∀ name, s.Sees name (given name 0 ops.reverse)

theorem exit_fails_iff (s : Scopes) : (∃ e, (ScopeOp.exit.act s).1 = .error e) ↔ s.depth = 1 := by
  rcases s.exit_act_cases with ⟨scope, t, rfl, hact⟩ | ⟨hdepth, hact⟩
  · have hdepth : (t.enter scope).depth ≠ 1 := by
      rw [depth_enter]
      exact Nat.succ_ne_succ_iff.2 (Nat.succ_ne_zero _)
    rw [hact]
    simp [hdepth]
  · rw [hact]
    exact ⟨fun _ => hdepth, fun _ => ⟨_, rfl⟩⟩

theorem exit_refused {s : Scopes} (h : s.depth = 1) : (ScopeOp.exit.act s).2 = s ∧
    ∀ m, Builtin.exitScope.run ⟨m, s⟩ = (.error (.scope .cannotExitLastScope), ⟨m, s⟩) := by
  cases s with
  | mk top below =>
      obtain rfl : below = [] := List.length_eq_zero_iff.1 (Nat.succ.inj h)
      exact ⟨rfl, fun _ => rfl⟩

theorem Agrees.disciplined {s : Scopes} {ops : List ScopeOp} (h : s.Agrees ops) :
    s.Disciplined ops where
  depth_eq := h.depth_eq
  depth_pos := Nat.succ_pos _
  exit_fails_iff := s.exit_fails_iff
  exit_refused := exit_refused
  sees := by
    intro name
    rw [h.given_eq 0 name]
    exact s.sees_top name

end Scopes

namespace Builtin

theorem scopes_leaveScope (s : HintState) :
    (leaveScope s).2.scopes = (ScopeOp.exit.act s.scopes).2 := by
  simp only [leaveScope, ScopeOp.act]
  cases s.scopes.exit <;> rfl

theorem scopes_countDown (output : Reference) (s : HintState) :
    (countDown output s).2.scopes =
      s.scopes.after ((memcpyContinueCopying output).scopeOps s) := by
  simp only [countDown, scopeOps]
  cases s.scopes.getFelt "n" with
  | error e => rfl
  | ok n =>
      -- The counter is set before it is seen whether the flag finds a cell.
      dsimp only
      cases output.address s.machine with
      | error e => rfl
      | ok dst => exact HintState.scopes_write _ _ _

/-- A hint changes the scopes by what it asks for, whether it succeeds or fails. -/
theorem scopes_run_eq_after (b : Builtin) (s : HintState) :
    (b.run s).2.scopes = s.scopes.after (b.scopeOps s) := by
  cases b with
  | allocSegment => exact scopes_allocate s
  | enterScope => rfl
  | exitScope => exact scopes_leaveScope s
  | memcpyEnterScope len =>
      simp only [run, enterLoop, scopeOps]
      cases len.resolveFelt s.machine <;> rfl
  | memcpyContinueCopying output => exact scopes_countDown output s
  | packedSha256 start output => exact scopes_writeWords _ s
  | sha256Chunk start state output => exact scopes_writeWords _ s
  | finalizeSha256 ptrEnd => exact scopes_writeWords _ s

end Builtin

namespace Runner

/-- Hints that run one behind the other change the scopes by what they ask for. -/
theorem scopes_runAll (pc : UInt64) (bs : List Builtin) (s : HintState) (history : History) :
    (runAll pc (bs.map Builtin.hint) s history).2.1.scopes =
      s.scopes.after (Builtin.scopeOpsAll bs s) := by
  induction bs generalizing s history with
  | nil => rfl
  | cons b bs ih =>
      have hfirst := b.scopes_run_eq_after s
      rcases hrun : b.run s with ⟨result, t⟩
      have hbody : b.hint.body s = (result, t) := hrun
      rw [hrun] at hfirst
      cases result with
      | error e =>
          simp only [List.map_cons, runAll, hbody, Builtin.scopeOpsAll, hrun, List.append_nil]
          exact hfirst
      | ok u =>
          simp only [List.map_cons, runAll, hbody, Builtin.scopeOpsAll, hrun]
          rw [ih, Scopes.after_append, ← hfirst]

theorem Issues.scopes_eq {r t : Runner} {ops : List ScopeOp} (h : r.Issues ops t) :
    t.scopes = r.scopes.after ops := by
  induction h with
  | nil => rfl
  | op _ op ih => rw [Scopes.after_concat, ← ih]
  | @run t ops _ m pc bs hhints ih =>
      rw [Scopes.after_append, ← ih, Runner.run, hhints]
      exact scopes_runAll pc bs ⟨m, t.scopes⟩ t.history

variable {r t : Runner} {ops : List ScopeOp}

/-- On the way of a runner whose scopes were fresh the stack is what its accepted operations
say, in front of every one of them and at the end.  And a runner that enters a scope on any
stack, stays above that stack and ends one scope above it gets the stack back, with all its
variables, by leaving that scope. -/
theorem scopes_disciplined :
    (r.scopes = .root → r.Issues ops t →
      t.scopes = Scopes.root.after ops ∧ ∀ before, before <+: ops →
        (Scopes.root.after before).Disciplined (Scopes.root.accepted before)) ∧
    ∀ scope, { r with scopes := r.scopes.enter scope }.Issues ops t →
      (∀ before, before <+: ops →
        r.scopes.depth + 1 ≤ ((r.scopes.enter scope).after before).depth) →
      t.scopes.depth = r.scopes.depth + 1 → t.scopes.exit = .ok r.scopes := by
  constructor
  · intro hroot hissues
    refine ⟨by rw [hissues.scopes_eq, hroot], ?_⟩
    intro before _
    exact (Scopes.agrees_after before).disciplined
  · intro scope hissues habove hdepth
    rw [hissues.scopes_eq] at hdepth ⊢
    exact Scopes.exit_after habove hdepth

/-- A variable is overwritten above a scope that has one of the same name, a loop is
entered, counted down and left, and a loop of unknown length is refused. -/
theorem scopes_disciplined_around_loop :
    let below := Scopes.root.assign "n" (.int 1)
    let loop : List Builtin :=
      [.memcpyEnterScope (.immediate Felt.one), .memcpyContinueCopying (.deref ⟨.ap, 0⟩),
        .exitScope, .memcpyEnterScope (.deref ⟨.ap, 1⟩)]
    let fresh : Runner := ofHints (loop.map fun b => (0, b.hint))
    let r : Runner := { fresh with scopes := below }
    let m : Machine := ⟨⟨#[.empty], 1⟩, ⟨.origin, .origin, .origin⟩, .default⟩
    let inside : Runner := { r with scopes := below.enter ∅ }
    let assigned : Runner := { inside with scopes := inside.scopes.assign "n" (.int 2) }
    let t := (assigned.run m 0).2.2
    let ops : List ScopeOp := [.assign "n" (.int 2), .enter (Builtin.loopScope Felt.one),
      .getFelt "n", .assign "n" (.felt Felt.zero), .exit]
    let all : List ScopeOp := .assign "n" (.int 1) :: .enter ∅ :: ops
    (assigned.run m 0).1 = .error (.inHint "MemcpyEnterScope" (.memory (.unsetCell ⟨0, 1⟩))) ∧
      fresh.Issues all t ∧ t.scopes.Disciplined (Scopes.root.accepted all) ∧
      t.scopes.getFelt "n" = .ok (Felt.ofNat 2) ∧
      inside.Issues ops t ∧ t.scopes.exit = .ok r.scopes := by
  intro below loop fresh r m inside assigned t ops all
  have hloop : assigned.hintsAt 0 = loop.map Builtin.hint := rfl
  have hfresh : fresh.Issues [.assign "n" (.int 1), .enter ∅, .assign "n" (.int 2)] assigned :=
    ((Issues.nil.op (.assign "n" (.int 1))).op (.enter ∅)).op (.assign "n" (.int 2))
  have hinside : inside.Issues [.assign "n" (.int 2)] assigned :=
    Issues.nil.op (.assign "n" (.int 2))
  have hall : fresh.Issues all t := hfresh.run m hloop
  have hissues : inside.Issues ops t := hinside.run m hloop
  have habove : ∀ before, before <+: ops →
      below.depth + 1 ≤ ((below.enter ∅).after before).depth := by
    simp only [← List.mem_inits]
    decide +kernel
  obtain ⟨hscopes, hdisciplined⟩ := scopes_disciplined.1 rfl hall
  have hend := hdisciplined all (List.prefix_refl all)
  rw [← hscopes] at hend
  have hexit := scopes_disciplined.2 ∅ hissues habove (by decide +kernel)
  exact ⟨by decide +kernel, hall, hend, by decide +kernel, hissues, hexit⟩

end Runner

end CellHints
