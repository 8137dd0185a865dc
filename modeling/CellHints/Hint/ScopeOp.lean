import CellHints.Hint.Runner

/-!
# Operations on scopes

What can be asked of a stack of scopes, by the program itself or by a hint that it
runs.  An operation that is refused changes nothing, and neither does a look-up.  A
hint asks for what it does where it starts, which depends on the state it meets: a
loop counter that is no number is looked up and NOT set.
-/

namespace CellHints

/-- What can be asked of a stack of scopes. -/
inductive ScopeOp
  | enter (scope : Scope)
  | exit
  | assign (name : String) (v : ScopeValue)
  | get (name : String)
  | getFelt (name : String)
  | getAddress (name : String)
deriving DecidableEq

/-- Whether an operation is accepted, and the stack behind it. -/
def ScopeOp.act : ScopeOp → Scopes → Except ScopeError Unit × Scopes
  | enter scope, s => (.ok (), s.enter scope)
  | exit, s =>
      match s.exit with
      | .ok t => (.ok (), t)
      | .error e => (.error e, s)
  | assign name v, s => (.ok (), s.assign name v)
  | get name, s => ((s.get name).map fun _ => (), s)
  | getFelt name, s => ((s.getFelt name).map fun _ => (), s)
  | getAddress name, s => ((s.getAddress name).map fun _ => (), s)

namespace Scopes

/-- The stack behind a row of operations. -/
def after (s : Scopes) (ops : List ScopeOp) : Scopes := ops.foldl (fun s op => (op.act s).2) s

theorem after_cons (s : Scopes) (op : ScopeOp) (ops : List ScopeOp) :
    s.after (op :: ops) = (op.act s).2.after ops := rfl

theorem after_append (s : Scopes) (before behind : List ScopeOp) :
    s.after (before ++ behind) = (s.after before).after behind := by
  rw [after, List.foldl_append]; rfl

/-- The operations of a row that are accepted. -/
def accepted (s : Scopes) : List ScopeOp → List ScopeOp
  | [] => []
  | op :: ops =>
      match op.act s with
      | (.ok _, t) => op :: t.accepted ops
      | (.error _, t) => t.accepted ops

end Scopes

namespace Builtin

/-- The operations that a hint asks for. -/
def scopeOps : Builtin → HintState → List ScopeOp
  | enterScope, _ => [.enter ∅]
  | exitScope, _ => [.exit]
  | memcpyEnterScope len, s =>
      match len.resolveFelt s.machine with
      | .ok n => [.enter (loopScope n)]
      | .error _ => []
  | memcpyContinueCopying _, s =>
      match s.scopes.getFelt "n" with
      | .ok n => [.getFelt "n", .assign "n" (.felt (n - Felt.one))]
      | .error _ => [.getFelt "n"]
  | allocSegment, _ | packedSha256 _ _, _ | sha256Chunk _ _ _, _ | finalizeSha256 _, _ => []

/-- The operations that hints ask for one behind the other, up to the first that fails. -/
def scopeOpsAll : List Builtin → HintState → List ScopeOp
  | [], _ => []
  | b :: bs, s =>
      b.scopeOps s ++
        match b.run s with
        | (.ok _, t) => scopeOpsAll bs t
        | (.error _, _) => []

end Builtin

/-- Whether the operations are what a program asks for on the way from one runner to
another: itself, or by running the hints of a counter on whatever machine there is. -/
inductive Runner.Issues (r : Runner) : List ScopeOp → Runner → Prop
  | nil : Issues r [] r
  | op {t : Runner} {ops : List ScopeOp} (h : Issues r ops t) (op : ScopeOp) :
      Issues r (ops ++ [op]) { t with scopes := (op.act t.scopes).2 }
  | run {t : Runner} {ops : List ScopeOp} (h : Issues r ops t) (m : Machine) {pc : UInt64}
      {bs : List Builtin} (hhints : t.hintsAt pc = bs.map Builtin.hint) :
      Issues r (ops ++ Builtin.scopeOpsAll bs ⟨m, t.scopes⟩) (t.run m pc).2.2

end CellHints
