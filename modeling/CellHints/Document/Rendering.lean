import CellHints.Document.Shape
import CellHints.Document.Writer

/-!
# Texts of documents

Which texts stand for a document, said without a reader.  Blanks may stand around
each part of a document, but not within a string, a number or a word.  Strings are
spelled in one way only, and numbers other than integers have no text here: this
is what a writer may write and NOT all that a reader has to accept.
-/

namespace CellHints.Document

/-- Whether a text holds nothing but blanks. -/
def Blanks (w : List Char) : Prop := ∀ c ∈ w, isBlank c = true

/-- What a piece of text can be: a document, or what follows the opening mark of an array
or an object, up to and with the closing mark. -/
inductive Piece
  | value (d : Document)
  | items (ds : List Document)
  | fields (fs : List (String × Document))

/-- Whether a text stands for a document, or for what follows an opening mark. -/
inductive Renders : Piece → List Char → Prop
  | null : Renders (.value .null) ['n', 'u', 'l', 'l']
  | true : Renders (.value (.bool true)) ['t', 'r', 'u', 'e']
  | false : Renders (.value (.bool false)) ['f', 'a', 'l', 's', 'e']
  | integer (z : Int) : Renders (.value (.integer z)) (Decimal.ofInt z).toList
  | text (s : String) : Renders (.value (.ofText s)) (quoted (spell s))
  | blanks {p : Piece} {w s : List Char} (hw : Blanks w) (h : Renders p s) : Renders p (w ++ s)
  | emptyArray {w : List Char} (hw : Blanks w) : Renders (.value (.array [])) ('[' :: w ++ [']'])
  | array {ds : List Document} {s : List Char} (h : Renders (.items ds) s) :
      Renders (.value (.array ds)) ('[' :: s)
  | lastItem {d : Document} {s w : List Char} (h : Renders (.value d) s) (hw : Blanks w) :
      Renders (.items [d]) (s ++ w ++ [']'])
  | item {d : Document} {ds : List Document} {s w r : List Char} (h : Renders (.value d) s)
      (hw : Blanks w) (hr : Renders (.items ds) r) : Renders (.items (d :: ds)) (s ++ w ++ ',' :: r)
  | emptyObject {w : List Char} (hw : Blanks w) :
      Renders (.value (.ofFields [])) ('\x7b' :: w ++ ['\x7d'])
  | object {fs : List (String × Document)} {s : List Char} (h : Renders (.fields fs) s) :
      Renders (.value (.ofFields fs)) ('\x7b' :: s)
  | lastField (name : String) {d : Document} {v s w : List Char} (hv : Blanks v)
      (h : Renders (.value d) s) (hw : Blanks w) :
      Renders (.fields [(name, d)]) (quoted (spell name) ++ v ++ ':' :: s ++ w ++ ['\x7d'])
  | field (name : String) {d : Document} {fs : List (String × Document)} {v s w r : List Char}
      (hv : Blanks v) (h : Renders (.value d) s) (hw : Blanks w) (hr : Renders (.fields fs) r) :
      Renders (.fields ((name, d) :: fs)) (quoted (spell name) ++ v ++ ':' :: s ++ w ++ ',' :: r)

/-- Whether a document has a text: its numbers are integers and its strings are spelled. -/
inductive Plain : Document → Prop
  | null : Plain .null
  | bool (b : Bool) : Plain (.bool b)
  | integer (z : Int) : Plain (.integer z)
  | text (s : String) : Plain (.ofText s)
  | array {items : List Document} (h : ∀ d ∈ items, Plain d) : Plain (.array items)
  | object {fields : List (String × Document)} (h : ∀ field ∈ fields, Plain field.2) :
      Plain (.ofFields fields)

end CellHints.Document
