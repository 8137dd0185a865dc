import CellHints.Address
import CellHints.Document.Basic
import CellHints.Document.Form
import CellHints.Document.HintTable
import CellHints.Document.Reader
import CellHints.Document.Rendering
import CellHints.Document.Shape
import CellHints.Document.Values
import CellHints.Document.Writer
import CellHints.Fault
import CellHints.Felt.Basic
import CellHints.Felt.Recipe
import CellHints.Felt.Text
import CellHints.Hint.Basic
import CellHints.Hint.Builtin
import CellHints.Hint.Event
import CellHints.Hint.Operands
import CellHints.Hint.Runner
import CellHints.Hint.ScopeOp
import CellHints.Hint.Table
import CellHints.Machine
import CellHints.Memory
import CellHints.Narrow
import CellHints.Proofs.Address.Shift
import CellHints.Proofs.Document.HintTable
import CellHints.Proofs.Document.Leaf
import CellHints.Proofs.Document.Reading
import CellHints.Proofs.Document.Shape
import CellHints.Proofs.Document.Values
import CellHints.Proofs.Felt.Canonical
import CellHints.Proofs.Felt.Numeral
import CellHints.Proofs.Felt.Residue
import CellHints.Proofs.Felt.SignedReading
import CellHints.Proofs.Hint.CopyLoop
import CellHints.Proofs.Hint.Exchange
import CellHints.Proofs.Hint.Failure
import CellHints.Proofs.Hint.Frame
import CellHints.Proofs.Hint.Grouping
import CellHints.Proofs.Hint.HashChain
import CellHints.Proofs.Hint.HashWindows
import CellHints.Proofs.Hint.Inputs
import CellHints.Proofs.Hint.Loading
import CellHints.Proofs.Hint.Lookup
import CellHints.Proofs.Hint.Order
import CellHints.Proofs.Hint.Reach
import CellHints.Proofs.Hint.Repetition
import CellHints.Proofs.Hint.Requests
import CellHints.Proofs.Hint.ScopeDiscipline
import CellHints.Proofs.Memory.Access
import CellHints.Proofs.Memory.Exchange
import CellHints.Proofs.Memory.Growth
import CellHints.Proofs.Memory.History
import CellHints.Proofs.Memory.Prefix
import CellHints.Proofs.Memory.Window
import CellHints.Proofs.Memory.Words
import CellHints.Proofs.Operand.Stability
import CellHints.Proofs.Reference.Accumulation
import CellHints.Proofs.Reference.Cut
import CellHints.Proofs.Reference.Distance
import CellHints.Proofs.Reference.DoubleDereference
import CellHints.Proofs.Reference.Expected
import CellHints.Proofs.Reference.Grammar
import CellHints.Proofs.Reference.Interpretation
import CellHints.Proofs.Reference.Lexing
import CellHints.Proofs.Reference.Misses
import CellHints.Proofs.Reference.OffsetNotation
import CellHints.Proofs.Reference.Pointee
import CellHints.Proofs.Reference.Printing
import CellHints.Proofs.Reference.Reading
import CellHints.Proofs.Reference.Spacing
import CellHints.Proofs.Reference.Splitting
import CellHints.Proofs.Reference.Wording
import CellHints.Proofs.Success
import CellHints.Proofs.Text.ByteOrder
import CellHints.Reference.Basic
import CellHints.Reference.Evaluation
import CellHints.Reference.Expectation
import CellHints.Reference.Grammar
import CellHints.Reference.Interpretation
import CellHints.Reference.Parser
import CellHints.Reference.Token
import CellHints.Reference.Tree
import CellHints.Scope
import CellHints.Sha256
import CellHints.Text.Decimal
import CellHints.Text.Quoted
