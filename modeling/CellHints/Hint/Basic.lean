import CellHints.Machine

/-!
# Hints

A hint has a name and a body.  A body acts on the machine and on the scopes of
the run.  A body that fails leaves what it did until then: nothing is undone.
The hints that a program can ask for by name are those that have a code.
-/

namespace CellHints

/-- What hints act on. -/
structure HintState where
  machine : Machine
  scopes : Scopes
deriving DecidableEq

/-- An action: whether it succeeds, and in either case the state that it leaves. -/
abbrev Action := HintState → Except Fault Unit × HintState

/-- A named action. -/
structure Hint where
  name : String
  body : Action

namespace HintState

def withMemory (s : HintState) (memory : Memory) : HintState :=
  { s with machine := { s.machine with memory := memory } }

def write (a : Address) (v : Value) : Action := fun s =>
  match s.machine.memory.write a v with
  | .ok memory => (.ok (), s.withMemory memory)
  | .error e => (.error (.memory e), s)

/-- Write cells one behind the other, as far as they can be. -/
def writeRange (a : Address) (vs : List Value) : Action := fun s =>
  match s.machine.memory.writeRange a vs with
  | (.ok _, memory) => (.ok (), s.withMemory memory)
  | (.error e, memory) => (.error (.memory e), s.withMemory memory)

end HintState

namespace Hint

/-- A hint that does nothing but fail, in its own words. -/
def failing (name text : String) : Hint := ⟨name, fun s => (.error (.other text), s)⟩

/-- A hint that writes a value at `ap`. -/
def writing (name : String) (v : Value) : Hint :=
  ⟨name, fun s => HintState.write s.machine.registers.ap v s⟩

/-- A hint that sets a variable. -/
def assigning (name variableName : String) (v : ScopeValue) : Hint :=
  ⟨name, fun s => (.ok (), { s with scopes := s.scopes.assign variableName v })⟩

end Hint

/-! ### Codes -/

/-- A hint that a program can ask for. -/
inductive HintCode
  | allocSegment
  | enterScope
  | exitScope
  | memcpyEnterScope
  | memcpyContinueCopying
  | packedSha256
  | sha256Chunk
  | finalizeSha256
deriving DecidableEq

/-- A name that no hint has. -/
structure UnknownHintCode where
  name : String
deriving DecidableEq

/-- The wording of a name that no hint has. -/
def UnknownHintCode.message (e : UnknownHintCode) : String := "Unknown hint code: " ++ e.name

namespace HintCode

def all : List HintCode :=
  [allocSegment, enterScope, exitScope, memcpyEnterScope, memcpyContinueCopying, packedSha256,
   sha256Chunk, finalizeSha256]

/-- The name that a program uses. -/
def name : HintCode → String
  | allocSegment => "AllocSegment"
  | enterScope => "VMEnterScope"
  | exitScope => "VMExitScope"
  | memcpyEnterScope => "MemcpyEnterScope"
  | memcpyContinueCopying => "MemcpyContinueCopying"
  | packedSha256 => "PackedSha256"
  | sha256Chunk => "Sha256Chunk"
  | finalizeSha256 => "FinalizeSha256"

def ofName (s : String) : Except UnknownHintCode HintCode :=
  match all.find? (·.name = s) with
  | some code => .ok code
  | none => .error ⟨s⟩

end HintCode

end CellHints
