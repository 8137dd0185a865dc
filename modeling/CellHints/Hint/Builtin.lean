import CellHints.Hint.Basic
import CellHints.Hint.Operands
import CellHints.Machine
import CellHints.Sha256

/-!
# The hints that come with the machine

Each code has one hint, and each hint its operands:

    AllocSegment             none; the base of a new segment is written at `ap`
    VMEnterScope             none
    VMExitScope              none
    MemcpyEnterScope         len
    MemcpyContinueCopying    output
    PackedSha256             sha256_start, output
    Sha256Chunk              sha256_start, state, output
    FinalizeSha256           sha256_ptr_end

A hash state or a message block is a window of consecutive cells, one 32-bit
word in each.
-/

namespace CellHints

/-- The names of the operands of a code, in the order in which they are looked up. -/
def HintCode.operandNames : HintCode → List String
  | allocSegment | enterScope | exitScope => []
  | memcpyEnterScope => ["len"]
  | memcpyContinueCopying => ["output"]
  | packedSha256 => ["sha256_start", "output"]
  | sha256Chunk => ["sha256_start", "state", "output"]
  | finalizeSha256 => ["sha256_ptr_end"]

/-- A hint that comes with the machine, with its operands. -/
inductive Builtin
  | allocSegment
  | enterScope
  | exitScope
  | memcpyEnterScope (len : Reference)
  | memcpyContinueCopying (output : Reference)
  | packedSha256 (start output : Reference)
  | sha256Chunk (start state output : Reference)
  | finalizeSha256 (ptrEnd : Reference)
deriving DecidableEq

def Memory.readWord (m : Memory) (a : Address) : Except Fault UInt32 := do
  let x ← (m.readFelt a).mapError .memory
  match x.toUInt32? with
  | some w => return w
  | none => throw (.wordOutOfRange a x)

/-- The words in the `n` cells from `a` on, and the address past the last. -/
def Memory.readWords (m : Memory) (a : Address) :
    (n : Nat) → Except Fault (Vector UInt32 n × Address)
  | 0 => .ok (#v[], a)
  | n + 1 => do
      let (ws, b) ← m.readWords a n
      let w ← m.readWord b
      let b ← (b.advance 1).mapError .value
      return (ws.push w, b)

/-- A word as what a memory cell holds. -/
def Value.ofWord (w : UInt32) : Value := .felt (Felt.ofNat w.toNat)

namespace Builtin

def code : Builtin → HintCode
  | allocSegment => .allocSegment
  | enterScope => .enterScope
  | exitScope => .exitScope
  | memcpyEnterScope _ => .memcpyEnterScope
  | memcpyContinueCopying _ => .memcpyContinueCopying
  | packedSha256 _ _ => .packedSha256
  | sha256Chunk _ _ _ => .sha256Chunk
  | finalizeSha256 _ => .finalizeSha256

/-- The operands of a hint, in the order of their names. -/
def operands : Builtin → List Reference
  | allocSegment | enterScope | exitScope => []
  | memcpyEnterScope len => [len]
  | memcpyContinueCopying output => [output]
  | packedSha256 start output => [start, output]
  | sha256Chunk start state output => [start, state, output]
  | finalizeSha256 ptrEnd => [ptrEnd]

/-- The hint of a code, its operands found by name. -/
def ofCode (t : Operands) : HintCode → Except Fault Builtin
  | .allocSegment => .ok allocSegment
  | .enterScope => .ok enterScope
  | .exitScope => .ok exitScope
  | .memcpyEnterScope => (t.findValue "len").map memcpyEnterScope
  | .memcpyContinueCopying => (t.findValue "output").map memcpyContinueCopying
  | .packedSha256 => do
      let start ← t.findValue "sha256_start"
      let output ← t.findValue "output"
      return packedSha256 start output
  | .sha256Chunk => do
      let start ← t.findValue "sha256_start"
      let state ← t.findValue "state"
      let output ← t.findValue "output"
      return sha256Chunk start state output
  | .finalizeSha256 => (t.findValue "sha256_ptr_end").map finalizeSha256

/-- The number of hash instances in one batch. -/
def batchSize : Nat := 7

/-- A dummy instance: a block of zeros, the initial state, and that state after the block. -/
def paddingInstance : List UInt32 :=
  let zeros : Sha256.Block := Vector.replicate 16 0
  zeros.toList ++ Sha256.initial.toList ++ (Sha256.compress Sha256.initial zeros).toList

/-- The words that fill a batch behind its first instance. -/
def padding : List UInt32 := (List.replicate (batchSize - 1) paddingInstance).flatten

/-- The block in the window that `start` points to. -/
def readBlock (m : Machine) (start : Reference) : Except Fault Sha256.Block := do
  return (← m.memory.readWords (← start.resolveAddress m) 16).1

/-- The hash state in the window that `state` points to. -/
def readState (m : Machine) (state : Reference) : Except Fault Sha256.State := do
  return (← m.memory.readWords (← state.resolveAddress m) 8).1

/-- Where the digest of the block at `start` goes, and its words. -/
def packedOutput (m : Machine) (start output : Reference) :
    Except Fault (Address × List UInt32) := do
  let block ← readBlock m start
  return (← output.resolveAddress m, (Sha256.compress Sha256.initial block).toList)

/-- Where the state that follows the one at `state` goes, and its words. -/
def chunkOutput (m : Machine) (start state output : Reference) :
    Except Fault (Address × List UInt32) := do
  let block ← readBlock m start
  let before ← readState m state
  return (← output.resolveAddress m, (Sha256.compress before block).toList)

/-- Where the padding of a batch goes, and its words. -/
def paddingOutput (m : Machine) (ptrEnd : Reference) : Except Fault (Address × List UInt32) := do
  return (← ptrEnd.resolveAddress m, padding)

/-- Write words where they go. -/
def writeWords (output : Except Fault (Address × List UInt32)) : Action := fun s =>
  match output with
  | .ok (dst, ws) => HintState.writeRange dst (ws.map Value.ofWord) s
  | .error e => (.error e, s)

/-- Allocate a segment and write its base at `ap`. -/
def allocate : Action := fun s =>
  match s.machine.memory.allocate with
  | .ok (base, memory) =>
      HintState.write s.machine.registers.ap (.address base) (s.withMemory memory)
  | .error e => (.error (.memory e), s)

def leaveScope : Action := fun s =>
  match s.scopes.exit with
  | .ok scopes => (.ok (), { s with scopes := scopes })
  | .error e => (.error (.scope e), s)

/-- The scope of a copy loop: the number of steps to go is `n`. -/
def loopScope (n : Felt) : Scope := (∅ : Scope).insert "n" (.felt n)

/-- Enter the scope of a copy loop of `len` steps. -/
def enterLoop (len : Reference) : Action := fun s =>
  match len.resolveFelt s.machine with
  | .ok n => (.ok (), { s with scopes := s.scopes.enter (loopScope n) })
  | .error e => (.error e, s)

/-- What the loop flag is when `n` steps are left: 0 to go on, 1 to stop. -/
def loopFlag (n : Felt) : Felt := if n.isPositive then Felt.zero else Felt.one

/-- Take one from `n` and write the loop flag to `output`. -/
def countDown (output : Reference) : Action := fun s =>
  match s.scopes.getFelt "n" with
  | .error e => (.error (.scope e), s)
  | .ok before =>
      let n := before - Felt.one
      let s := { s with scopes := s.scopes.assign "n" (.felt n) }
      match output.address s.machine with
      | .ok dst => HintState.write dst (.felt (loopFlag n)) s
      | .error e => (.error e, s)

def run : Builtin → Action
  | allocSegment => allocate
  | enterScope => fun s => (.ok (), { s with scopes := s.scopes.enter ∅ })
  | exitScope => leaveScope
  | memcpyEnterScope len => enterLoop len
  | memcpyContinueCopying output => countDown output
  | packedSha256 start output => fun s => writeWords (packedOutput s.machine start output) s
  | sha256Chunk start state output => fun s =>
      writeWords (chunkOutput s.machine start state output) s
  | finalizeSha256 ptrEnd => fun s => writeWords (paddingOutput s.machine ptrEnd) s

/-- A hint under the name of its code. -/
def hint (b : Builtin) : Hint := ⟨b.code.name, b.run⟩

end Builtin

end CellHints
