import CellHints.Reference.Token
import CellHints.Text.Decimal
import CellHints.Text.Quoted

/-!
# What reference text is expected to go on with

Text that is no reference is refused where it first stops being the beginning of
one, with all that could have stood there.  Positions are byte offsets.
-/

namespace CellHints

/-- A class of tokens that could stand at a place, or the end of the text. -/
inductive Expectation
  | openBracket
  | closeBracket
  | openParen
  | closeParen
  | comma
  | dot
  | star
  | minus
  | sign
  | castWord
  | typeName
  | register
  | number
  | endOfInput
deriving DecidableEq

def Expectation.text : Expectation → String
  | openBracket => "'['"
  | closeBracket => "']'"
  | openParen => "'('"
  | closeParen => "')'"
  | comma => "','"
  | dot => "'.'"
  | star => "'*'"
  | minus => "'-'"
  | sign => "'+' or '-'"
  | castWord => "cast"
  | typeName => "type name"
  | register => "'ap' or 'fp'"
  | number => "number"
  | endOfInput => "end of input"

/-- The wording of several expectations. -/
def Expectation.listText : List Expectation → String
  | [] => "a hint reference"
  | [single] => single.text
  | many => "one of " ++ ", ".intercalate (many.map text)

/-- Why a text has no reference tree. -/
inductive SyntaxError
  /-- A character that no token starts with. -/
  | stray (char : StrayChar)
  /-- A token, or the end of the text, where something else was expected. -/
  | unexpected (position : Nat) (expected : List Expectation) (found : Option Token)
deriving DecidableEq

namespace SyntaxError

def position : SyntaxError → Nat
  | stray char => char.position
  | unexpected position _ _ => position

/-- What a failure says, its position apart. -/
def reason : SyntaxError → String
  | stray char => "unexpected character " ++ Quoted.quote (String.ofList [char.char])
  | unexpected _ expected none =>
      "expected " ++ Expectation.listText expected ++ ", found end of input"
  | unexpected _ expected (some token) =>
      "expected " ++ Expectation.listText expected ++ ", found '" ++ token.text ++ "'"

def message (e : SyntaxError) : String :=
  "Syntax error at position " ++ Decimal.ofNat e.position ++ ": " ++ e.reason

end SyntaxError

end CellHints
