import CellHints.Memory
import CellHints.Reference.Evaluation
import CellHints.Scope

/-!
# Faults

Why a hint, or a step that it is made of, fails.  A fault keeps its cause: the
wording of a cause is found, word for word, at the end of the wording of what it
caused.
-/

namespace CellHints

/-- Why a hint or a part of it fails. -/
inductive Fault
  | memory (e : MemoryError)
  | scope (e : ScopeError)
  | reference (e : ReferenceError)
  | value (e : ValueError)
  | unknownOperand (name : String)
  /-- An operand with this name is there already. -/
  | duplicateOperand (name : String)
  /-- Several operands have names that end in this one. -/
  | ambiguousOperand (name : String) (candidates : List String)
  /-- The operand should have a value but is a cell. -/
  | operandIsCell (name : String)
  /-- The operand should be a cell but is none. -/
  | operandIsNoCell (name : String)
  /-- The reference names no cell that could be read or written. -/
  | noAddress (r : Reference)
  /-- The operation of the reference has no meaning on its two values. -/
  | unsupportedOperands (r : Reference)
  /-- The cell should hold a 32-bit word but holds something larger. -/
  | wordOutOfRange (a : Address) (x : Felt)
  /-- The named hint failed. -/
  | inHint (name : String) (cause : Fault)
  /-- A failure in a hint's own words. -/
  | other (text : String)
deriving DecidableEq

def Fault.message : Fault → String
  | memory e => "Memory error: " ++ e.message
  | scope e => "Scope error: " ++ e.message
  | reference e => "Reference error: " ++ e.message
  | value e => "Value error: " ++ e.message
  | unknownOperand name => "Unknown operand: " ++ name
  | duplicateOperand name => "Duplicate operand: " ++ name
  | ambiguousOperand name candidates =>
      "Operand " ++ name ++ " is ambiguous: matches " ++ Quoted.quoteList candidates
  | operandIsCell name =>
      "Invalid operand " ++ name ++
        ": expected a resolvable operand, found a bare register cell"
  | operandIsNoCell name => "Invalid operand " ++ name ++ ": expected a register cell"
  | noAddress r => "Cannot resolve " ++ r.text ++ ": does not name a memory cell"
  | unsupportedOperands r => "Cannot resolve " ++ r.text ++ ": unsupported operand types"
  | wordOutOfRange a x =>
      "Input word at " ++ a.text ++ " does not fit in 32 bits: " ++ x.text
  | inHint name cause => "hint " ++ name ++ " failed: " ++ cause.message
  | other text => text

end CellHints
