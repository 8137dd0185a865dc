import CellHints.Felt.Basic
import CellHints.Text.Decimal

/-!
# Field elements as text and as digits

A field element is written as its residue in decimal.  Reading takes any
integer, of any size and either sign, and keeps its residue.  Blanks around the
number are cut, and underscores may stand anywhere behind the first digit.  A
number does NOT carry two signs.

In documents a field element stands in base `2 ^ 32`, least digit first and
without zeros at the end, so that zero has no digits.  Reading takes any digits
and keeps the residue of the number they make up.
-/

namespace CellHints

/-- Why a text is not a number. -/
inductive NumeralError
  | empty
  | invalidDigit
deriving DecidableEq

/-- The wording of a failure to read a number. -/
def NumeralError.message : NumeralError → String
  | empty => "cannot parse integer from empty string"
  | invalidDigit => "invalid digit found in string"

namespace Felt

def text (x : Felt) : String := Decimal.ofNat x.val

def signedText (x : Felt) : String := Decimal.ofInt x.signed

/-- Digits, with underscores behind the first of them. -/
def readDigits : List Char → Except NumeralError Nat
  | [] => .error .empty
  | c :: rest =>
      if c ≠ '_' ∧ (c :: rest).all (fun d => d.isDigit || d = '_') then
        .ok (Decimal.value ((c :: rest).filter (· ≠ '_')))
      else .error .invalidDigit

/-- An optional sign and digits. -/
def readInteger : List Char → Except NumeralError Int
  | '-' :: rest => (readDigits rest).map fun n => -(n : Int)
  | '+' :: rest => (readDigits rest).map fun n => (n : Int)
  | cs => (readDigits cs).map fun n => (n : Int)

/-- The residue of the integer that `s` spells between its blanks. -/
def ofText (s : String) : Except NumeralError Felt :=
  (readInteger (Blank.trim s.toList)).map ofInt

/-! ### Digits -/

/-- The digits of a number in base `2 ^ 32`, least first. -/
def digitsOf (n : Nat) : List UInt32 :=
  if _h : n = 0 then [] else UInt32.ofNat (n % UInt32.size) :: digitsOf (n / UInt32.size)
termination_by n
decreasing_by exact Nat.div_lt_self (Nat.pos_of_ne_zero _h) (by decide)

/-- The number that digits in base `2 ^ 32` make up. -/
def ofDigitsNat : List UInt32 → Nat
  | [] => 0
  | d :: ds => d.toNat + UInt32.size * ofDigitsNat ds

def digits (x : Felt) : List UInt32 := digitsOf x.val

/-- The field element that digits make up. -/
def ofDigits (ds : List UInt32) : Felt := ofNat (ofDigitsNat ds)

theorem ofDigitsNat_digitsOf (n : Nat) : ofDigitsNat (digitsOf n) = n := by
  induction n using Nat.strongRecOn with
  | ind n ih =>
      rw [digitsOf]
      split
      · next h => rw [h]; rfl
      · next h =>
          have hlt : n / UInt32.size < n := Nat.div_lt_self (Nat.pos_of_ne_zero h) (by decide)
          have hdigit : (UInt32.ofNat (n % UInt32.size)).toNat = n % UInt32.size :=
            UInt32.toNat_ofNat_of_lt' (Nat.mod_lt n (by decide))
          rw [ofDigitsNat, ih _ hlt, hdigit]
          exact Nat.mod_add_div n UInt32.size

end Felt

end CellHints
