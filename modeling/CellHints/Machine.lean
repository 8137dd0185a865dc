import CellHints.Fault

/-!
# The machine

What hints see of the machine that they help along: its memory, its three
registers and its settings.  Hints do NOT move registers and do NOT change
settings.

On a machine a reference stands for the address of the cell that it names, and
for the value that it denotes.  A bare cell denotes its own address and NOT its
content.  Of the two sides of an operation the left one is looked at first.
-/

namespace CellHints

/-- The settings of a machine. -/
structure Config where
  /-- How many segments there may be, the program and execution segments included. -/
  maxSegments : UInt64
  /-- Whether the hints that are run are recorded. -/
  trace : Bool
deriving DecidableEq

/-- Settings where nothing else is asked for. -/
def Config.default : Config := ⟨65536, false⟩

/-- The program counter, the allocation pointer and the frame pointer. -/
structure Registers where
  pc : Address
  ap : Address
  fp : Address
deriving DecidableEq

/-- A machine as hints see it. -/
structure Machine where
  memory : Memory
  registers : Registers
  config : Config
deriving DecidableEq

namespace Machine

/-- The index of the segment that holds the program. -/
def programSegment : UInt64 := 0

/-- The index of the segment that holds the execution stack. -/
def executionSegment : UInt64 := 1

/-- A machine with its program and execution segments and nothing written; `pc`
stands at the first of them, `ap` and `fp` at the second. -/
def create (config : Config) : Except Fault Machine := do
  let (program, memory) ← (Memory.empty config.maxSegments).allocate.mapError .memory
  let (execution, memory) ← memory.allocate.mapError .memory
  return ⟨memory, ⟨program, execution, execution⟩, config⟩

def register (m : Machine) : Register → Address
  | .ap => m.registers.ap
  | .fp => m.registers.fp

def cellAddress (m : Machine) (c : Cell) : Except Fault Address :=
  ((m.register c.register).shift c.offset.toInt).mapError .value

end Machine

/-! ### What references stand for -/

namespace Reference

/-- The address of the cell that a reference names. -/
def address (m : Machine) : Reference → Except Fault Address
  | cell c => m.cellAddress c
  | deref c => m.cellAddress c
  | doubleDeref c offset => do
      let pointer ← (m.memory.readAddress (← m.cellAddress c)).mapError .memory
      (pointer.shift offset.toInt).mapError .value
  | r@(immediate _) | r@(binary _ _ _) => .error (.noAddress r)

/-- The value of an operation on two values; `r` is what the operation is part of. -/
def combine (r : Reference) : Operator → Value → Value → Except Fault Value
  | .add, .felt x, .felt y => .ok (.felt (x + y))
  | .add, .address a, .felt y => ((a.addFelt y).mapError .value).map .address
  | .mul, .felt x, .felt y => .ok (.felt (x * y))
  | _, _, _ => .error (.unsupportedOperands r)

def resolve (m : Machine) : Reference → Except Fault Value
  | cell c => (m.cellAddress c).map .address
  | r@(deref _) | r@(doubleDeref _ _) => do (m.memory.read (← r.address m)).mapError .memory
  | immediate x => .ok (.felt x)
  | binary op lhs rhs => do
      let x ← lhs.resolve m
      let y ← rhs.resolve m
      combine (binary op lhs rhs) op x y

/-- The field element that a reference denotes. -/
def resolveFelt (m : Machine) (r : Reference) : Except Fault Felt := do
  (← r.resolve m).asFelt.mapError .value

def resolveAddress (m : Machine) (r : Reference) : Except Fault Address := do
  (← r.resolve m).asAddress.mapError .value

end Reference

end CellHints
