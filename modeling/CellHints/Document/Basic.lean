/-!
# Documents

JSON values as they are written.  A string is kept as it stands between its
quotes, escapes and all, since some readers care how a text was spelled and
others never look at it.  Objects keep their members in order, and may name a
member twice.
-/

namespace CellHints

/-- A JSON value. -/
inductive Document
  | null
  | bool (b : Bool)
  /-- A number without fraction or exponent that is not a negative zero. -/
  | integer (z : Int)
  /-- Any other number, as written. -/
  | real (literal : List Char)
  /-- A string, as written between its quotes. -/
  | text (body : List Char)
  | array (items : List Document)
  | object (members : List (List Char × Document))

namespace Document

/-- The value of a hexadecimal digit of either case. -/
def hexValue? (c : Char) : Option Nat :=
  if c.isDigit then some (c.toNat - '0'.toNat)
  else if 'a' ≤ c ∧ c ≤ 'f' then some (c.toNat - 'a'.toNat + 10)
  else if 'A' ≤ c ∧ c ≤ 'F' then some (c.toNat - 'A'.toNat + 10)
  else none

/-- The value of four hexadecimal digits. -/
def hexValue4? (a b c d : Char) : Option Nat := do
  return ((← hexValue? a) * 16 + (← hexValue? b)) * 256 + ((← hexValue? c) * 16 + (← hexValue? d))

/-- The characters that can follow a backslash on their own, with what they stand for. -/
def escapes : List (Char × Char) :=
  [('"', '"'), ('\\', '\\'), ('/', '/'), ('b', '\x08'), ('f', '\x0c'), ('n', '\n'), ('r', '\r'),
   ('t', '\t')]

/-- The character that a pair of surrogates stands for. -/
def joinSurrogates (high low : Nat) : Char :=
  Char.ofNat (0x10000 + (high - 0xd800) * 0x400 + (low - 0xdc00))

/-- The text that the body of a string stands for; a surrogate alone stands for nothing. -/
def unescape : List Char → Option (List Char)
  | [] => some []
  | '\\' :: 'u' :: a :: b :: c :: d :: rest => do
      let unit ← hexValue4? a b c d
      if 0xd800 ≤ unit ∧ unit < 0xdc00 then
        match rest with
        | '\\' :: 'u' :: a :: b :: c :: d :: rest => do
            let low ← hexValue4? a b c d
            if 0xdc00 ≤ low ∧ low < 0xe000 then
              return joinSurrogates unit low :: (← unescape rest)
            else none
        | _ => none
      else if 0xdc00 ≤ unit ∧ unit < 0xe000 then none
      else return Char.ofNat unit :: (← unescape rest)
  | '\\' :: e :: rest => do
      let c ← escapes.lookup e
      return c :: (← unescape rest)
  | c :: rest => do return c :: (← unescape rest)

/-- The spelling of one character in the body of a string. -/
def escape (c : Char) : List Char :=
  if c = '"' then ['\\', '"']
  else if c = '\\' then ['\\', '\\']
  else if c = '\x08' then ['\\', 'b']
  else if c = '\x0c' then ['\\', 'f']
  else if c = '\n' then ['\\', 'n']
  else if c = '\r' then ['\\', 'r']
  else if c = '\t' then ['\\', 't']
  else if c.toNat < 0x20 then
    ['\\', 'u', '0', '0', Nat.digitChar (c.toNat / 16), Nat.digitChar (c.toNat % 16)]
  else [c]

/-- The body of a string that stands for `s`. -/
def spell (s : String) : List Char := s.toList.flatMap escape

/-- The text that the body of a string stands for. -/
def spoken? (body : List Char) : Option String := (unescape body).map String.ofList

def ofText (s : String) : Document := .text (spell s)

end Document

end CellHints
