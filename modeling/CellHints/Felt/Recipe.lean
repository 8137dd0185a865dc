import CellHints.Document.Values

/-!
# How field elements come about

A field element is made from a number, a text or a document, and calculated from others
by the operations of the field.  Each recipe is carried out three times: on the integers
that its ingredients stand for, on field elements, and on stored numbers.  Machine words
are stored as they are.

Stored numbers are the unsigned numbers that field elements are kept as, where nothing is
known about their size.  Taking away what is larger fails instead of stopping at zero.
The operations put right by one modulus at most, so past the modulus they are NOT
arithmetic of residues, and can fail.
-/

namespace CellHints

/-- Why there is no field element to make. -/
inductive Felt.Unread
  | numeral (e : NumeralError)
  /-- A document is not a list of digits. -/
  | shape
deriving DecidableEq

namespace Stored

/-- Why no number is stored. -/
inductive Fault
  | unread (e : Felt.Unread)
  /-- What is taken away is larger than what it is taken from. -/
  | underflow
  /-- A remainder that should be stored is negative. -/
  | negative
deriving DecidableEq

/-- Unsigned subtraction. -/
def takeAway (m n : Nat) : Except Fault Nat :=
  if n ≤ m then .ok (m - n) else .error .underflow

/-- A number of any size; one below the modulus is not divided. -/
def ofNat (n : Nat) : Nat := if n < prime then n else n % prime

/-- An integer, by remainders that take their sign from what is divided. -/
def ofInt (z : Int) : Except Fault Nat :=
  let r := (z.tmod prime + prime).tmod prime
  if 0 ≤ r then .ok r.toNat else .error .negative

def add (m n : Nat) : Except Fault Nat :=
  if prime ≤ m + n then takeAway (m + n) prime else .ok (m + n)

def sub (m n : Nat) : Except Fault Nat :=
  if n ≤ m then takeAway m n else takeAway (m + prime) n

def mul (m n : Nat) : Nat := m * n % prime

def neg (n : Nat) : Except Fault Nat := if n = 0 then .ok 0 else takeAway prime n

end Stored

namespace Felt

/-- What a field element can be made from. -/
inductive Source
  | zero
  | one
  | natural (n : Nat)
  | integer (z : Int)
  | uint32 (w : UInt32)
  | uint64 (w : UInt64)
  | size (w : USize)
  | int16 (w : Int16)
  | int64 (w : Int64)
  | text (s : String)
  /-- A document inside of which `depth` more arrays and objects may be open. -/
  | document (depth : Nat) (d : Document)

namespace Source

/-- The digits that a document lists. -/
def readDocument (depth : Nat) (d : Document) : Except Unread (List UInt32) :=
  match d.list? (fun _ => Document.uint32?) depth with
  | some ds => .ok ds
  | none => .error .shape

/-- The integer that a text spells between its blanks. -/
def readText (s : String) : Except Unread Int :=
  (readInteger (Blank.trim s.toList)).mapError .numeral

/-- The integer that a source stands for. -/
def exact : Source → Except Unread Int
  | zero => .ok 0
  | one => .ok 1
  | natural n => .ok n
  | integer z => .ok z
  | uint32 w => .ok w.toNat
  | uint64 w => .ok w.toNat
  | size w => .ok w.toNat
  | int16 w => .ok w.toInt
  | int64 w => .ok w.toInt
  | text s => readText s
  | document depth d => do return ofDigitsNat (← readDocument depth d)

/-- The field element that is made from a source. -/
def felt : Source → Except Unread Felt
  | zero => .ok Felt.zero
  | one => .ok Felt.one
  | natural n => .ok (ofNat n)
  | integer z => .ok (ofInt z)
  | uint32 w => .ok (ofNat w.toNat)
  | uint64 w => .ok (ofNat w.toNat)
  | size w => .ok (ofNat w.toNat)
  | int16 w => .ok (ofInt w.toInt)
  | int64 w => .ok (ofInt w.toInt)
  | text s => (ofText s).mapError .numeral
  | document depth d =>
      match ofDocument? depth d with
      | some x => .ok x
      | none => .error .shape

/-- The number that is stored for a source. -/
def stored : Source → Except Stored.Fault Nat
  | zero => .ok 0
  | one => .ok 1
  | natural n => .ok (Stored.ofNat n)
  | integer z => Stored.ofInt z
  | uint32 w => .ok w.toNat
  | uint64 w => .ok w.toNat
  | size w => .ok w.toNat
  | int16 w => Stored.ofInt w.toInt
  | int64 w => Stored.ofInt w.toInt
  | text s => do Stored.ofInt (← (readText s).mapError .unread)
  | document depth d => do
      return Stored.ofNat (ofDigitsNat (← (readDocument depth d).mapError .unread))

end Source

/-- A way to calculate a field element. -/
inductive Recipe
  | source (s : Source)
  | add (a b : Recipe)
  | sub (a b : Recipe)
  | mul (a b : Recipe)
  | neg (a : Recipe)

namespace Recipe

/-- The integer that a recipe stands for. -/
def exact : Recipe → Except Unread Int
  | source s => s.exact
  | add a b => do return (← a.exact) + (← b.exact)
  | sub a b => do return (← a.exact) - (← b.exact)
  | mul a b => do return (← a.exact) * (← b.exact)
  | neg a => do return -(← a.exact)

/-- The field element that a recipe makes. -/
def felt : Recipe → Except Unread Felt
  | source s => s.felt
  | add a b => do return (← a.felt) + (← b.felt)
  | sub a b => do return (← a.felt) - (← b.felt)
  | mul a b => do return (← a.felt) * (← b.felt)
  | neg a => do return -(← a.felt)

/-- The number that is stored for a recipe. -/
def stored : Recipe → Except Stored.Fault Nat
  | source s => s.stored
  | add a b => do Stored.add (← a.stored) (← b.stored)
  | sub a b => do Stored.sub (← a.stored) (← b.stored)
  | mul a b => do return Stored.mul (← a.stored) (← b.stored)
  | neg a => do Stored.neg (← a.stored)

end Recipe

end Felt

end CellHints
