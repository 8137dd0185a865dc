import CellHints.Hint.Builtin

/-!
# Hint tables

A program's hints by program counter, each a code with its operands in text.
The hints of one counter stay in the order in which they were added.  A counter
may be listed with no hints at all.
-/

namespace CellHints

open Std (ExtTreeMap)

/-- A hint of a program: its code, and its operands in text by name. -/
structure HintDescriptor where
  code : HintCode
  references : ExtTreeMap String String
deriving DecidableEq

/-- The hints of a program by program counter. -/
structure HintTable where
  hints : ExtTreeMap UInt64 (List HintDescriptor)
deriving DecidableEq

namespace HintDescriptor

def ofCode (code : HintCode) : HintDescriptor := ⟨code, ∅⟩

/-- The descriptor with one more operand; a name that was there gets the new text. -/
def withReference (d : HintDescriptor) (name text : String) : HintDescriptor :=
  { d with references := d.references.insert name text }

/-- The operands, read in the order of their names. -/
def operands (d : HintDescriptor) : Except Fault Operands := Operands.ofTexts d.references.toList

/-- The hint that a descriptor asks for; a failure names it. -/
def load (d : HintDescriptor) : Except Fault Builtin :=
  (d.operands.bind fun t => Builtin.ofCode t d.code).mapError (.inHint d.code.name)

end HintDescriptor

namespace HintTable

def empty : HintTable := ⟨∅⟩

def hintsAt (t : HintTable) (pc : UInt64) : List HintDescriptor := t.hints[pc]?.getD []

/-- The table with a hint added behind the others of its counter. -/
def add (t : HintTable) (pc : UInt64) (d : HintDescriptor) : HintTable :=
  ⟨t.hints.insert pc (t.hintsAt pc ++ [d])⟩

/-- A table with the given hints added one by one. -/
def ofAdds (adds : List (UInt64 × HintDescriptor)) : HintTable :=
  adds.foldl (fun t a => t.add a.1 a.2) empty

/-- The hints one by one, by counter and then as they were added. -/
def entries (t : HintTable) : List (UInt64 × HintDescriptor) :=
  t.hints.toList.flatMap fun entry => entry.2.map fun d => (entry.1, d)

def size (t : HintTable) : Nat := t.entries.length

/-- Whether there are no hints; a counter without hints does not count. -/
def isEmpty (t : HintTable) : Bool := t.size = 0

end HintTable

end CellHints
