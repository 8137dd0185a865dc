import CellHints.Document.Basic
import CellHints.Text.Decimal

/-!
# Reading documents

Strict JSON: no comments, no trailing commas, no control characters in strings,
no leading zeros, and nothing behind the value but blanks.  Documents may be
nested as deeply as the text is long.
-/

namespace CellHints.Document

/-- The characters that may stand between the parts of a document. -/
def isBlank (c : Char) : Bool := c = ' ' || c = '\t' || c = '\n' || c = '\r'

/-- The text behind leading blanks. -/
def skip (s : List Char) : List Char := s.dropWhile isBlank

/-- The body of a string whose opening quote was read, and the text behind the closing one. -/
def takeBody : List Char → Option (List Char × List Char)
  | [] => none
  | '"' :: rest => some ([], rest)
  | '\\' :: 'u' :: a :: b :: c :: d :: rest => do
      let _ ← hexValue4? a b c d
      let (body, rest) ← takeBody rest
      return ('\\' :: 'u' :: a :: b :: c :: d :: body, rest)
  | '\\' :: e :: rest => do
      let _ ← escapes.lookup e
      let (body, rest) ← takeBody rest
      return ('\\' :: e :: body, rest)
  | c :: rest =>
      if c.toNat < 0x20 then none
      else do
        let (body, rest) ← takeBody rest
        return (c :: body, rest)

/-- A run of at least one digit, and the text behind it. -/
def takeDigits (s : List Char) : Option (List Char × List Char) :=
  let ds := s.takeWhile Char.isDigit
  if ds.isEmpty then none else some (ds, s.dropWhile Char.isDigit)

/-- A fraction, if there is one. -/
def takeFraction : List Char → Option (List Char × List Char)
  | '.' :: rest => do
      let (ds, rest) ← takeDigits rest
      return ('.' :: ds, rest)
  | s => some ([], s)

/-- An exponent, if there is one. -/
def takeExponent : List Char → Option (List Char × List Char)
  | e :: rest =>
      if e = 'e' ∨ e = 'E' then do
        let (sign, rest) :=
          match rest with
          | '+' :: rest => (['+'], rest)
          | '-' :: rest => (['-'], rest)
          | rest => ([], rest)
        let (ds, rest) ← takeDigits rest
        return (e :: sign ++ ds, rest)
      else some ([], e :: rest)
  | [] => some ([], [])

/-- The document of a number whose parts were read. -/
def ofNumber (negative : Bool) (whole behind : List Char) : Document :=
  let n := Decimal.value whole
  if behind = [] ∧ ¬(negative ∧ n = 0) then .integer (if negative then -(n : Int) else n)
  else .real ((if negative then ['-'] else []) ++ whole ++ behind)

def takeUnsigned (negative : Bool) (s : List Char) : Option (Document × List Char) := do
  let (whole, rest) ← takeDigits s
  if whole.head? = some '0' ∧ whole.length ≠ 1 then none
  else
    let (fraction, rest) ← takeFraction rest
    let (exponent, rest) ← takeExponent rest
    return (ofNumber negative whole (fraction ++ exponent), rest)

def takeNumber : List Char → Option (Document × List Char)
  | '-' :: rest => takeUnsigned true rest
  | s => takeUnsigned false s

/-- A document that is no array, object or string. -/
def takeAtom : List Char → Option (Document × List Char)
  | 'n' :: 'u' :: 'l' :: 'l' :: rest => some (.null, rest)
  | 't' :: 'r' :: 'u' :: 'e' :: rest => some (.bool true, rest)
  | 'f' :: 'a' :: 'l' :: 's' :: 'e' :: rest => some (.bool false, rest)
  | s => takeNumber s

mutual

/-- A document and the text behind it.  The first argument bounds the calls; the
length of the text is enough. -/
def take : Nat → List Char → Option (Document × List Char)
  | 0, _ => none
  | n + 1, s =>
      match skip s with
      | '\x7b' :: rest =>
          match skip rest with
          | '\x7d' :: rest => some (.object [], rest)
          | rest => do
              let (members, rest) ← takeMembers n rest
              return (.object members, rest)
      | '[' :: rest =>
          match skip rest with
          | ']' :: rest => some (.array [], rest)
          | rest => do
              let (items, rest) ← takeItems n rest
              return (.array items, rest)
      | '"' :: rest => do
          let (body, rest) ← takeBody rest
          return (.text body, rest)
      | rest => takeAtom rest

/-- The items of an array up to its closing bracket, at least one. -/
def takeItems : Nat → List Char → Option (List Document × List Char)
  | 0, _ => none
  | n + 1, s => do
      let (item, rest) ← take n s
      match skip rest with
      | ',' :: rest =>
          let (items, rest) ← takeItems n rest
          return (item :: items, rest)
      | ']' :: rest => return ([item], rest)
      | _ => none

/-- The members of an object up to its closing brace, at least one. -/
def takeMembers : Nat → List Char → Option (List (List Char × Document) × List Char)
  | 0, _ => none
  | n + 1, s =>
      match skip s with
      | '"' :: rest => do
          let (key, rest) ← takeBody rest
          match skip rest with
          | ':' :: rest =>
              let (item, rest) ← take n rest
              match skip rest with
              | ',' :: rest =>
                  let (members, rest) ← takeMembers n rest
                  return ((key, item) :: members, rest)
              | '\x7d' :: rest => return ([(key, item)], rest)
              | _ => none
          | _ => none
      | _ => none

end

/-- The document that a whole text is. -/
def read (s : String) : Option Document := do
  let (d, rest) ← take (s.length + 1) s.toList
  if skip rest = [] then return d else none

end CellHints.Document
