import CellHints.Document.Shape
import CellHints.Document.Writer
import CellHints.Hint.Table

/-!
# Hint tables as documents

A hint table is an object with one member, `hints`, whose keys are program
counters in decimal.  Counters and operand names are written in ascending order.
Of two entries for one counter, or of two operands of one name, the later counts.
-/

namespace CellHints

open Std (ExtTreeMap)

namespace HintCode

/-- The name of a code in documents. -/
def documentName : HintCode → String
  | enterScope => "VmEnterScope"
  | exitScope => "VmExitScope"
  | code => code.name

def toDocument (code : HintCode) : Document := .ofText code.documentName

def ofDocument? (depth : Nat) (d : Document) : Option HintCode := do
  let name ← d.bareChoice? depth
  all.find? (·.documentName = name)

end HintCode

namespace HintDescriptor

def referencesDocument (references : ExtTreeMap String String) : Document :=
  .ofFields (references.toList.map fun entry => (entry.1, .ofText entry.2))

def referencesOfDocument? (depth : Nat) (d : Document) : Option (ExtTreeMap String String) := do
  let entries ← d.members? Document.spoken? (fun _ => Document.text?) depth
  return entries.foldl (fun t entry => t.insert entry.1 entry.2) ∅

def toDocument (d : HintDescriptor) : Document :=
  .ofFields [("code", d.code.toDocument), ("references", referencesDocument d.references)]

/-- The descriptor that a structure holds; the operands may be missing. -/
def ofDocument? : Nat → Document → Option HintDescriptor
  | 0, _ => none
  | depth + 1, d => do
      match ← d.fields? ["code", "references"] with
      | [some code, none] => return .ofCode (← HintCode.ofDocument? depth code)
      | [some code, some references] =>
          return ⟨← HintCode.ofDocument? depth code, ← referencesOfDocument? depth references⟩
      | _ => none

end HintDescriptor

namespace HintTable

/-- The program counter that a key spells, in digits only and without leading zeros. -/
def counterOfKey? (key : List Char) : Option UInt64 :=
  if key.all Char.isDigit ∧ key ≠ [] ∧ (key.head? = some '0' → key.length = 1) then
    Narrow.toUInt64? (Decimal.value key)
  else none

def hintsDocument (hints : ExtTreeMap UInt64 (List HintDescriptor)) : Document :=
  .ofFields (hints.toList.map fun entry =>
    (Decimal.ofNat entry.1.toNat, .array (entry.2.map HintDescriptor.toDocument)))

def hintsOfDocument? (depth : Nat) (d : Document) :
    Option (ExtTreeMap UInt64 (List HintDescriptor)) := do
  let entries ← d.members? counterOfKey? (Document.list? HintDescriptor.ofDocument?) depth
  return entries.foldl (fun t entry => t.insert entry.1 entry.2) ∅

def toDocument (t : HintTable) : Document := .ofFields [("hints", hintsDocument t.hints)]

def ofDocument? : Nat → Document → Option HintTable
  | 0, _ => none
  | depth + 1, d => do
      match ← d.fields? ["hints"] with
      | [some hints] => return ⟨← hintsOfDocument? depth hints⟩
      | _ => none

/-- The text of a table, over several lines. -/
def toJson (t : HintTable) : String := t.toDocument.spreadText

def ofJson? (s : String) : Option HintTable := Document.readAs ofDocument? s

end HintTable

end CellHints
