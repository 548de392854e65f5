import MiniTemplate.Binary64.Basic
import MiniTemplate.Binary64.Shortest
import MiniTemplate.Dialect.Directive
import MiniTemplate.Dialect.Mode
import MiniTemplate.Error
import MiniTemplate.Interpolation
import MiniTemplate.Json.Basic
import MiniTemplate.Json.Numeral
import MiniTemplate.Json.Printer
import MiniTemplate.Json.Reader
import MiniTemplate.Json.Record
import MiniTemplate.Markup.Codec
import MiniTemplate.Markup.Kind
import MiniTemplate.Markup.Node
import MiniTemplate.Pass.Attribute
import MiniTemplate.Pass.Bridge
import MiniTemplate.Pass.Chain
import MiniTemplate.Pass.Frontend
import MiniTemplate.Pass.Simplify
import MiniTemplate.Proofs.Binary64.Range
import MiniTemplate.Proofs.Binary64.Whole
import MiniTemplate.Proofs.Dialect.Names
import MiniTemplate.Proofs.Interpolation
import MiniTemplate.Proofs.Itemwise
import MiniTemplate.Proofs.Json.InRange
import MiniTemplate.Proofs.Json.Merged
import MiniTemplate.Proofs.Json.ReadRange
import MiniTemplate.Proofs.Markup.Apart
import MiniTemplate.Proofs.Markup.RoundTrip
import MiniTemplate.Proofs.Nesting
import MiniTemplate.Proofs.Pass.Attachment
import MiniTemplate.Proofs.Pass.Calls
import MiniTemplate.Proofs.Pass.Conformance
import MiniTemplate.Proofs.Pass.Emission
import MiniTemplate.Proofs.Pass.Exchange
import MiniTemplate.Proofs.Pass.Folding
import MiniTemplate.Proofs.Pass.Noninterference
import MiniTemplate.Proofs.Pass.Origin
import MiniTemplate.Proofs.Pass.Orphans
import MiniTemplate.Proofs.Pass.Outcome
import MiniTemplate.Proofs.Pass.Rendering
import MiniTemplate.Proofs.Pass.Rerun
import MiniTemplate.Proofs.Pass.Spent
import MiniTemplate.Proofs.Pass.Survival
import MiniTemplate.Proofs.Pass.Trace
import MiniTemplate.Proofs.Pass.Verbatim
import MiniTemplate.Proofs.Remainder
import MiniTemplate.Proofs.Script.Bodies
import MiniTemplate.Proofs.Script.Course
import MiniTemplate.Proofs.Script.Denotation
import MiniTemplate.Proofs.Script.Extent
import MiniTemplate.Proofs.Script.Greedy
import MiniTemplate.Proofs.Script.Leading
import MiniTemplate.Proofs.Script.Levels
import MiniTemplate.Proofs.Script.Lexeme
import MiniTemplate.Proofs.Script.Numbers
import MiniTemplate.Proofs.Script.Operands
import MiniTemplate.Proofs.Script.Operators
import MiniTemplate.Proofs.Script.Outline
import MiniTemplate.Proofs.Script.Passage
import MiniTemplate.Proofs.Script.Printed
import MiniTemplate.Proofs.Script.Quoted
import MiniTemplate.Proofs.Script.Reading
import MiniTemplate.Proofs.Script.Recovery
import MiniTemplate.Proofs.Script.Soundness
import MiniTemplate.Proofs.Script.Spacing
import MiniTemplate.Proofs.Script.Suffix
import MiniTemplate.Proofs.Script.Unsupported
import MiniTemplate.Proofs.Script.Written
import MiniTemplate.Proofs.Segmentation
import MiniTemplate.Proofs.Tree.Breaches
import MiniTemplate.Proofs.Tree.Report
import MiniTemplate.Proofs.Tree.RoundTrip
import MiniTemplate.Proofs.Tree.Verdict
import MiniTemplate.Proofs.Tree.Written
import MiniTemplate.Script.Expr
import MiniTemplate.Script.ExprJson
import MiniTemplate.Script.Grammar.Arrow
import MiniTemplate.Script.Grammar.Basic
import MiniTemplate.Script.Grammar.Class
import MiniTemplate.Script.Grammar.Declaration
import MiniTemplate.Script.Grammar.Function
import MiniTemplate.Script.Grammar.Loop
import MiniTemplate.Script.Grammar.Module
import MiniTemplate.Script.Grammar.Operand
import MiniTemplate.Script.Grammar.Operator
import MiniTemplate.Script.Grammar.Statement
import MiniTemplate.Script.Grammar.Target
import MiniTemplate.Script.Letter
import MiniTemplate.Script.LetterTable
import MiniTemplate.Script.Lowering
import MiniTemplate.Script.Numeral
import MiniTemplate.Script.Parse
import MiniTemplate.Script.Phrase
import MiniTemplate.Script.Quotation
import MiniTemplate.Script.Stream
import MiniTemplate.Script.Token
import MiniTemplate.Text.Blank
import MiniTemplate.Text.Digit
import MiniTemplate.Text.Quoted
import MiniTemplate.Tree.Codec
import MiniTemplate.Tree.Contract
import MiniTemplate.Tree.Node
import MiniTemplate.Tree.Slot
import MiniTemplate.Tree.Walk
