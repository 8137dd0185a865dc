/-!
# Tokens of reference text

Reference text is cut into digit runs, names and single marks.  A digit run or a
name is as long as it can be; spaces and tabs only separate.  Each token keeps
the bytes of the text that it stands on.  Marks outside the grammar are tokens
all the same: it is NOT the business of this module to refuse them.
-/

namespace CellHints

/-- A token of reference text. -/
inductive Token
  | number (digits : String)
  | ident (name : String)
  | openBracket
  | closeBracket
  | openParen
  | closeParen
  | plus
  | minus
  | star
  | comma
  | dot
  /-- A mark that stands in no reference. -/
  | mark (c : Char)
deriving DecidableEq

/-- The text that a token was cut from. -/
def Token.text : Token → String
  | number digits => digits
  | ident name => name
  | openBracket => "["
  | closeBracket => "]"
  | openParen => "("
  | closeParen => ")"
  | plus => "+"
  | minus => "-"
  | star => "*"
  | comma => ","
  | dot => "."
  | mark c => String.ofList [c]

/-- A token and the bytes it stands on, from `start` up to but without `stop`. -/
structure PlacedToken where
  token : Token
  start : Nat
  stop : Nat
deriving DecidableEq

/-- A character that no token can start with, and the byte it stands at. -/
structure StrayChar where
  position : Nat
  char : Char
deriving DecidableEq

namespace Token

/-- The characters that separate tokens and belong to none. -/
def isSeparator (c : Char) : Bool := c = ' ' || c = '\t'

def isNameStart (c : Char) : Bool := c.isAlpha || c = '_'

def isNamePart (c : Char) : Bool := c.isAlpha || c.isDigit || c = '_'

/-- The marks that stand in no reference. -/
def strayMarks : List Char :=
  ['!', '@', '#', '$', '%', '^', '&', '=', '\x7b', '\x7d', '|', ':', ';', '"', '\'', '<', '>',
   '?', '/', '\\']

/-- The token that a single mark is. -/
def ofMark? : Char → Option Token
  | '[' => some openBracket
  | ']' => some closeBracket
  | '(' => some openParen
  | ')' => some closeParen
  | '+' => some plus
  | '-' => some minus
  | '*' => some star
  | ',' => some comma
  | '.' => some dot
  | c => if strayMarks.contains c then some (mark c) else none

/-- The tokens of `cs`, where `pos` bytes stand before it. -/
def scan (pos : Nat) (cs : List Char) : Except StrayChar (List PlacedToken) :=
  match cs with
  | [] => .ok []
  | c :: rest =>
      if isSeparator c then scan (pos + 1) rest
      else if c.isDigit then
        let tail := rest.takeWhile Char.isDigit
        let stop := pos + 1 + tail.length
        (scan stop (rest.dropWhile Char.isDigit)).map
          (⟨number (String.ofList (c :: tail)), pos, stop⟩ :: ·)
      else if isNameStart c then
        let tail := rest.takeWhile isNamePart
        let stop := pos + 1 + tail.length
        (scan stop (rest.dropWhile isNamePart)).map
          (⟨ident (String.ofList (c :: tail)), pos, stop⟩ :: ·)
      else
        match ofMark? c with
        | some token => (scan (pos + 1) rest).map (⟨token, pos, pos + 1⟩ :: ·)
        | none => .error ⟨pos, c⟩
termination_by cs.length
decreasing_by
  all_goals simp only [List.length_cons]
  · omega
  · have := (List.dropWhile_sublist Char.isDigit (l := rest)).length_le; omega
  · have := (List.dropWhile_sublist isNamePart (l := rest)).length_le; omega
  · omega

def tokenize (s : String) : Except StrayChar (List PlacedToken) := scan 0 s.toList

end Token

end CellHints
