import CellHints.Document.HintTable
import CellHints.Document.Values

/-!
# Forms of values

How the values of a type are written as documents and read from them.  Writing knows
no limit, and operations can hold each other to any depth, but a document is read only
if it does not nest too deeply.
-/

namespace CellHints

namespace Document

mutual

/-- The most arrays and objects of a document that are open at once. -/
def nesting : Document → Nat
  | array items => nestingItems items + 1
  | object members => nestingMembers members + 1
  | _ => 0

/-- The most that are open at once in any of the items. -/
def nestingItems : List Document → Nat
  | [] => 0
  | item :: items => max (nesting item) (nestingItems items)

/-- The most that are open at once in the value of any of the members. -/
def nestingMembers : List (List Char × Document) → Nat
  | [] => 0
  | (_, item) :: members => max (nesting item) (nestingMembers members)

end

/-- How values are written, and how they are read where `depth` more arrays and objects
may be open. -/
structure Form (α : Type) where
  write : α → Document
  read : Nat → Document → Option α

/-- Whether a value is read from its text, with blanks or without, unless it nests too deeply. -/
def Form.ReadsBack {α : Type} (F : Form α) (v : α) : Prop :=
  (F.write v).nesting < 128 →
    readAs F.read (F.write v).compactText = some v ∧ readAs F.read (F.write v).spreadText = some v

end Document

open Document (Form)

def Felt.form : Form Felt := ⟨Felt.toDocument, Felt.ofDocument?⟩

/-- The document that lists digits, however many. -/
def Felt.digitsDocument (ds : List UInt32) : Document := .array (ds.map fun w => .ofNat w.toNat)

def Address.form : Form Address := ⟨Address.toDocument, Address.ofDocument?⟩

def Value.form : Form Value := ⟨Value.toDocument, Value.ofDocument?⟩

def Register.form : Form Register := ⟨Register.toDocument, Register.ofDocument?⟩

def Operator.form : Form Operator := ⟨Operator.toDocument, Operator.ofDocument?⟩

def Cell.form : Form Cell := ⟨Cell.toDocument, Cell.ofDocument?⟩

namespace Reference

def derefForm : Form Cell := ⟨derefDocument, derefOfDocument?⟩

def doubleDerefForm : Form (Cell × Int16) :=
  ⟨fun p => doubleDerefDocument p.1 p.2, doubleDerefOfDocument?⟩

/-- An operation with its two sides, outside of a reference. -/
def binaryForm : Form (Operator × Reference × Reference) :=
  ⟨fun p => binaryDocument p.1 p.2.1 p.2.2, binaryOfDocument?⟩

def form : Form Reference := ⟨toDocument, ofDocument?⟩

end Reference

def HintDescriptor.form : Form HintDescriptor :=
  ⟨HintDescriptor.toDocument, HintDescriptor.ofDocument?⟩

end CellHints
