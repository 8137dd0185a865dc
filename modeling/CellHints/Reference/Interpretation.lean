import CellHints.Machine
import CellHints.Reference.Tree

/-!
# What a tree says on a machine

The value of a sum, read straight off its tree and the machine, without a
reference in between.  Distances are integers of any size here, and a sum that
starts at a cell is shifted once, by the total of its distances.  It is NOT
checked that single distances fit 16 bits: that is a question of whether the
tree denotes a reference at all.
-/

namespace CellHints.Tree

/-- An integer behind its sign. -/
def Sign.times : Sign → Int → Int
  | plus, z => z
  | minus, z => -z

def Place.address (m : Machine) : Place → Option Address
  | bare r => some (m.register r)
  | shifted r s n => ((m.register r).shift (s.times n.value)).toOption

/-- The address stored in the cell at a place. -/
def Place.pointer (m : Machine) (p : Place) : Option Address := do
  (← m.memory.peek (← p.address m)).asAddress.toOption

/-- The value that a factor says. -/
def Factor.value (m : Machine) : Factor → Option Value
  | doubleDeref p => do m.memory.peek (← p.pointer m)
  | doubleDerefShifted p s n => do
      m.memory.peek (← ((← p.pointer m).shift (s.times n.value)).toOption)
  | deref p => do m.memory.peek (← p.address m)
  | place p => do return .address (← p.address m)
  | integer n => some (.felt (Felt.ofInt n.value))

def Factor.felt (m : Machine) (f : Factor) : Option Felt := do (← f.value m).asFelt.toOption

/-- The value that a term says; only field elements can be multiplied. -/
def Term.value (m : Machine) : Term → Option Value
  | factor f => f.value m
  | product lhs rhs => do return .felt ((← lhs.felt m) * (← rhs.felt m))

def Term.felt (m : Machine) (t : Term) : Option Felt := do (← t.value m).asFelt.toOption

/-- The total distance that summands say, each by its signed reading. -/
def totalDistance (m : Machine) : List (Sign × Term) → Option Int
  | [] => some 0
  | (s, t) :: rest => do return s.times (← t.felt m).signed + (← totalDistance m rest)

/-- A value with a field element added to it or taken from it.  An address moves
by the signed reading, which is a distance of 64 bits. -/
def Sign.combine : Sign → Value → Felt → Option Value
  | plus, .felt x, y => some (.felt (x + y))
  | minus, .felt x, y => some (.felt (x - y))
  | s, .address a, y => do
      let distance ← Narrow.toInt64? (s.times y.signed)
      return .address (← (a.shift distance.toInt).toOption)

/-- A value with summands added or taken away one by one from the left. -/
def plusAll (m : Machine) (v : Value) : List (Sign × Term) → Option Value
  | [] => some v
  | (s, t) :: rest => do plusAll m (← s.combine v (← t.felt m)) rest

/-- The register and the distance of a term that is a register cell. -/
def Term.place? : Term → Option (Register × Int)
  | factor (.place (.bare r)) => some (r, 0)
  | factor (.place (.shifted r s n)) => some (r, s.times n.value)
  | _ => none

def Chain.value (m : Machine) (c : Chain) : Option Value :=
  match c.first.place? with
  | some (r, z) => do
      return .address (← ((m.register r).shift (z + (← totalDistance m c.others))).toOption)
  | none => do plusAll m (← c.first.value m) c.others

end CellHints.Tree
