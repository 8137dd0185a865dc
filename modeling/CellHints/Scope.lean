import CellHints.Address
import Std.Data.ExtTreeMap

/-!
# Scopes

Hints share variables through a stack of scopes.  Only the top scope is seen: a
name is NOT looked up further down.  The lowest scope is there from the start
and stays.
-/

namespace CellHints

open Std (ExtTreeMap)

/-- What a variable holds. -/
inductive ScopeValue
  | felt (x : Felt)
  | address (a : Address)
  /-- An integer of any size. -/
  | int (z : Int)
  | felts (xs : List Felt)
deriving DecidableEq

/-- The variables of a scope by name. -/
abbrev Scope := ExtTreeMap String ScopeValue

/-- A stack of scopes; there is always a top one. -/
structure Scopes where
  top : Scope
  below : List Scope
deriving DecidableEq

/-- What a variable was asked to be. -/
inductive ScopeKind
  | felt
  | address
deriving DecidableEq

/-- The wording of what a variable was asked to be. -/
def ScopeKind.text : ScopeKind → String
  | felt => "a field element"
  | address => "an address"

/-- Why a scope operation is refused. -/
inductive ScopeError
  | cannotExitLastScope
  | variableNotFound (name : String)
  | unexpectedType (name : String) (expected : ScopeKind)
deriving DecidableEq

/-- The wording of a refused scope operation. -/
def ScopeError.message : ScopeError → String
  | cannotExitLastScope => "cannot exit the last scope"
  | variableNotFound name => "variable not found: " ++ name
  | unexpectedType name expected => "variable " ++ name ++ " is not " ++ expected.text

namespace Scopes

/-- One scope without variables. -/
def root : Scopes := ⟨∅, []⟩

def depth (s : Scopes) : Nat := s.below.length + 1

/-- The stack under a new top scope. -/
def enter (s : Scopes) (scope : Scope) : Scopes := ⟨scope, s.top :: s.below⟩

/-- The stack without its top scope. -/
def exit (s : Scopes) : Except ScopeError Scopes :=
  match s.below with
  | [] => .error .cannotExitLastScope
  | top :: below => .ok ⟨top, below⟩

theorem depth_enter (s : Scopes) (scope : Scope) : (s.enter scope).depth = s.depth + 1 := rfl

theorem exit_enter (s : Scopes) (scope : Scope) : (s.enter scope).exit = .ok s := rfl

/-- What a variable of the top scope holds. -/
def get (s : Scopes) (name : String) : Except ScopeError ScopeValue :=
  match s.top[name]? with
  | some v => .ok v
  | none => .error (.variableNotFound name)

/-- The stack with a variable of the top scope set. -/
def assign (s : Scopes) (name : String) (v : ScopeValue) : Scopes :=
  { s with top := s.top.insert name v }

/-- The field element that a variable holds; an integer counts by its residue. -/
def getFelt (s : Scopes) (name : String) : Except ScopeError Felt := do
  match ← s.get name with
  | .felt x => return x
  | .int z => return Felt.ofInt z
  | .address _ | .felts _ => throw (.unexpectedType name .felt)

def getAddress (s : Scopes) (name : String) : Except ScopeError Address := do
  match ← s.get name with
  | .address a => return a
  | .felt _ | .int _ | .felts _ => throw (.unexpectedType name .address)

end Scopes

end CellHints
