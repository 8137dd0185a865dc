import CellHints.Reference.Expectation
import CellHints.Reference.Tree

/-!
# Reading reference trees

A parser takes tokens from the front of a list.  It answers with a value and the
tokens it left, or with nothing, and in both cases with every expectation that
was not met on the way, in the order of the attempts.  Alternatives are tried in
turn from the same tokens, so a failed one leaves no trace but its misses.  The
misses that lie furthest on are the ones reported.
-/

namespace CellHints

/-- An expectation that was not met where `left` tokens were left. -/
structure Miss where
  left : Nat
  wanted : Expectation
deriving DecidableEq

/-- What a parser answers: a value and the tokens behind it, or nothing; and the misses. -/
abbrev Outcome (α : Type) := Option (α × List Token) × List Miss

/-- A parser of phrases that denote an `α`. -/
def Parser (α : Type) := List Token → Outcome α

namespace Parser

variable {α β : Type}

instance : Monad Parser where
  pure a := fun ts => (some (a, ts), [])
  bind p f := fun ts =>
    match p ts with
    | (none, misses) => (none, misses)
    | (some (a, rest), misses) =>
        let next := f a rest
        (next.1, misses ++ next.2)

/-- The first alternative, and the second from the same tokens if the first fails. -/
def orElse (p : Parser α) (q : Parser α) : Parser α := fun ts =>
  match p ts with
  | (some found, misses) => (some found, misses)
  | (none, misses) =>
      let next := q ts
      (next.1, misses ++ next.2)

instance : OrElse (Parser α) := ⟨fun p q => orElse p (q ())⟩

/-- One token that `f` gives a value to. -/
def accept (wanted : Expectation) (f : Token → Option α) : Parser α
  | [] => (none, [⟨0, wanted⟩])
  | t :: rest =>
      match f t with
      | some a => (some (a, rest), [])
      | none => (none, [⟨rest.length + 1, wanted⟩])

/-- The one token `t`. -/
def token (t : Token) (wanted : Expectation) : Parser Unit :=
  accept wanted fun u => if u = t then some () else none

/-- As many phrases of `p` as follow each other; a phrase without tokens ends the row. -/
def many (p : Parser α) (ts : List Token) : Outcome (List α) :=
  match p ts with
  | (none, misses) => (some ([], ts), misses)
  | (some (a, rest), misses) =>
      if rest.length < ts.length then
        match many p rest with
        | (some (as, rest), more) => (some (a :: as, rest), misses ++ more)
        | (none, more) => (none, misses ++ more)
      else (some ([], ts), misses)
termination_by ts.length

/-- At most `n` phrases of `p`; the answer is their number. -/
def atMost (p : Parser Unit) : Nat → Parser Nat
  | 0 => return 0
  | n + 1 => (do p; return (← atMost p n) + 1) <|> return 0

def name : Parser String :=
  accept .typeName fun
    | .ident s => some s
    | _ => none

def castWord : Parser Unit := token (.ident "cast") .castWord

def register : Parser Register :=
  accept .register fun
    | .ident s => Register.ofName? s
    | _ => none

def number : Parser Nat :=
  accept .number fun
    | .number ds => some (Decimal.value ds.toList)
    | _ => none

def sign : Parser Tree.Sign :=
  accept .sign fun
    | .plus => some .plus
    | .minus => some .minus
    | _ => none

/-- A literal: `n`, or `(-n)`. -/
def literal : Parser Tree.Literal :=
  (do return .plain (← number)) <|> do
    token .openParen .openParen
    token .minus .minus
    let n ← number
    token .closeParen .closeParen
    return .negated n

def shifted : Parser Tree.Place := do
  let r ← register
  let s ← sign
  return .shifted r s (← literal)

def bare : Parser Tree.Place := do
  return .bare (← register)

def deref : Parser Tree.Place := do
  token .openBracket .openBracket
  let p ← shifted <|> bare
  token .closeBracket .closeBracket
  return p

/-- A place in double brackets, with a distance from the inner ones or without. -/
def doubleDeref : Parser Tree.Factor :=
  (do
    token .openBracket .openBracket
    let p ← deref
    let s ← sign
    let n ← literal
    token .closeBracket .closeBracket
    return .doubleDerefShifted p s n) <|> do
    token .openBracket .openBracket
    let p ← deref
    token .closeBracket .closeBracket
    return .doubleDeref p

/-- A place outside brackets; a distance needs parentheses there. -/
def place : Parser Tree.Place :=
  (do
    token .openParen .openParen
    let p ← shifted
    token .closeParen .closeParen
    return p) <|> bare

def factor : Parser Tree.Factor :=
  doubleDeref
    <|> (do return .deref (← deref))
    <|> (do return .place (← place))
    <|> (do return .integer (← literal))

/-- A product of two factors, or one factor. -/
def term : Parser Tree.Term :=
  (do
    let lhs ← factor
    token .star .star
    return .product lhs (← factor)) <|> do
    return .factor (← factor)

def summand : Parser (Tree.Sign × Tree.Term) := do
  let s ← sign
  return (s, ← term)

def chain : Parser Tree.Chain := do
  let first ← term
  return ⟨first, ← many summand⟩

/-- A dotted name with at most two pointer marks. -/
def typeName : Parser Tree.TypeName := do
  let head ← name
  let tail ← many (do token .dot .dot; name)
  return ⟨head, tail, ← atMost (token .star .star) 2⟩

/-- A sum cast to a type. -/
def cast : Parser Tree.Cast := do
  castWord
  token .openParen .openParen
  let value ← chain
  token .comma .comma
  let type ← typeName
  token .closeParen .closeParen
  return ⟨value, type⟩

/-- A cast, in brackets or not. -/
def tree : Parser Tree :=
  (do
    token .openBracket .openBracket
    let c ← cast
    token .closeBracket .closeBracket
    return .bracketed c) <|> do
    return .plain (← cast)

/-- The tree of exactly these tokens, or else the misses. -/
def complete (ts : List Token) : Except (List Miss) Tree :=
  match tree ts with
  | (some (t, []), _) => .ok t
  | (some (_, rest), misses) => .error (misses ++ [⟨rest.length, .endOfInput⟩])
  | (none, misses) => .error misses

end Parser

namespace Miss

/-- The fewest tokens left at any miss, out of `total`. -/
def leastLeft (total : Nat) (misses : List Miss) : Nat :=
  misses.foldl (fun least miss => min least miss.left) total

/-- What was wanted at the misses furthest on, each once and in the order of the attempts. -/
def furthest (least : Nat) (misses : List Miss) : List Expectation :=
  ((misses.filter (·.left = least)).map (·.wanted)).eraseDups

/-- The report on tokens that stand in a text of `size` bytes. -/
def report (size : Nat) (tokens : List PlacedToken) (misses : List Miss) : SyntaxError :=
  let least := leastLeft tokens.length misses
  match tokens[tokens.length - least]? with
  | some found => .unexpected found.start (furthest least misses) (some found.token)
  | none => .unexpected size (furthest least misses) none

end Miss

/-- The tree of a reference text. -/
def Tree.ofText (s : String) : Except SyntaxError Tree :=
  match Token.tokenize s with
  | .error stray => .error (.stray stray)
  | .ok tokens =>
      match Parser.complete (tokens.map (·.token)) with
      | .ok t => .ok t
      | .error misses => .error (Miss.report s.utf8ByteSize tokens misses)

end CellHints
