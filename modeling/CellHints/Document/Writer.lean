import CellHints.Document.Basic
import CellHints.Text.Decimal

/-!
# Writing documents

A document is written without blanks, or spread over lines with two spaces for
each level.  Empty arrays and objects stay on their line.
-/

namespace CellHints.Document

def quoted (body : List Char) : List Char := '"' :: body ++ ['"']

mutual

/-- A document without blanks. -/
def compact : Document → List Char
  | null => ['n', 'u', 'l', 'l']
  | bool true => ['t', 'r', 'u', 'e']
  | bool false => ['f', 'a', 'l', 's', 'e']
  | integer z => (Decimal.ofInt z).toList
  | real literal => literal
  | text body => quoted body
  | array items => '[' :: compactItems items ++ [']']
  | object members => '\x7b' :: compactMembers members ++ ['\x7d']

/-- The items of an array between its brackets. -/
def compactItems : List Document → List Char
  | [] => []
  | [item] => compact item
  | item :: items => compact item ++ ',' :: compactItems items

/-- The members of an object between its braces. -/
def compactMembers : List (List Char × Document) → List Char
  | [] => []
  | [(key, item)] => quoted key ++ ':' :: compact item
  | (key, item) :: members => quoted key ++ ':' :: compact item ++ ',' :: compactMembers members

end

def newline (level : Nat) : List Char := '\n' :: List.replicate (2 * level) ' '

mutual

/-- A document over several lines, where it starts at a level. -/
def spread (level : Nat) : Document → List Char
  | array [] => ['[', ']']
  | array items => '[' :: spreadItems (level + 1) items ++ newline level ++ [']']
  | object [] => ['\x7b', '\x7d']
  | object members => '\x7b' :: spreadMembers (level + 1) members ++ newline level ++ ['\x7d']
  | null => ['n', 'u', 'l', 'l']
  | bool true => ['t', 'r', 'u', 'e']
  | bool false => ['f', 'a', 'l', 's', 'e']
  | integer z => (Decimal.ofInt z).toList
  | real literal => literal
  | text body => quoted body

/-- The items of an array, each on a line of its own. -/
def spreadItems (level : Nat) : List Document → List Char
  | [] => []
  | [item] => newline level ++ spread level item
  | item :: items => newline level ++ spread level item ++ ',' :: spreadItems level items

/-- The members of an object, each on a line of its own. -/
def spreadMembers (level : Nat) : List (List Char × Document) → List Char
  | [] => []
  | [(key, item)] => newline level ++ quoted key ++ ':' :: ' ' :: spread level item
  | (key, item) :: members =>
      newline level ++ quoted key ++ ':' :: ' ' :: spread level item ++
        ',' :: spreadMembers level members

end

/-- The text of a document without blanks. -/
def compactText (d : Document) : String := String.ofList d.compact

/-- The text of a document over several lines. -/
def spreadText (d : Document) : String := String.ofList (d.spread 0)

end CellHints.Document
