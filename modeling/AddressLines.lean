import AddressLines.Code.Address
import AddressLines.Code.Line
import AddressLines.Code.Step
import AddressLines.Command.Excerpt
import AddressLines.Command.FileTree
import AddressLines.Command.Options
import AddressLines.Command.Run
import AddressLines.Compile
import AddressLines.Fault
import AddressLines.Grammar.Expr
import AddressLines.Grammar.Parsed
import AddressLines.Grammar.Program
import AddressLines.Grammar.Stmt
import AddressLines.Main
import AddressLines.Number.Binary64
import AddressLines.Number.Numeral
import AddressLines.Number.Shortest
import AddressLines.Number.Written
import AddressLines.Proofs.Code.Address
import AddressLines.Proofs.Code.Condition
import AddressLines.Proofs.Code.FirstMatch
import AddressLines.Proofs.Code.Numbering
import AddressLines.Proofs.Code.Outline
import AddressLines.Proofs.Code.Plain
import AddressLines.Proofs.Code.ReadBack
import AddressLines.Proofs.Code.Text
import AddressLines.Proofs.Command.FileTree
import AddressLines.Proofs.Command.Printed
import AddressLines.Proofs.Command.Run
import AddressLines.Proofs.Compile.Layout
import AddressLines.Proofs.Compile.Lines
import AddressLines.Proofs.Compile.Positions
import AddressLines.Proofs.Compile.Report
import AddressLines.Proofs.Grammar.Climbing
import AddressLines.Proofs.Grammar.Complete
import AddressLines.Proofs.Grammar.Derivation
import AddressLines.Proofs.Grammar.Exprs
import AddressLines.Proofs.Grammar.Faults
import AddressLines.Proofs.Grammar.Layout
import AddressLines.Proofs.Grammar.Parts
import AddressLines.Proofs.Grammar.Progress
import AddressLines.Proofs.Grammar.Sound
import AddressLines.Proofs.Grammar.Strays
import AddressLines.Proofs.Grammar.Yield
import AddressLines.Proofs.Number.Decimal
import AddressLines.Proofs.Number.Marks
import AddressLines.Proofs.Number.Nearest
import AddressLines.Proofs.Number.Numeral
import AddressLines.Proofs.Number.RoundTrip
import AddressLines.Proofs.Number.Shortest
import AddressLines.Proofs.Text.Lines
import AddressLines.Proofs.Text.Places
import AddressLines.Proofs.Token.Comment
import AddressLines.Proofs.Token.Coverage
import AddressLines.Proofs.Token.Literal
import AddressLines.Proofs.Token.Shape
import AddressLines.Proofs.Token.Spelling
import AddressLines.Proofs.Token.Words
import AddressLines.Proofs.Tree.Alike
import AddressLines.Proofs.Tree.Dump
import AddressLines.Proofs.Tree.Exprs
import AddressLines.Proofs.Tree.Gap
import AddressLines.Proofs.Tree.Names
import AddressLines.Proofs.Tree.NormalForm
import AddressLines.Proofs.Tree.Whole
import AddressLines.Proofs.Typing.Agreement
import AddressLines.Proofs.Typing.Alike
import AddressLines.Proofs.Typing.Chain
import AddressLines.Proofs.Typing.Discipline
import AddressLines.Proofs.Typing.Faults
import AddressLines.Proofs.Typing.Frame
import AddressLines.Proofs.Typing.Independence
import AddressLines.Proofs.Typing.Moves
import AddressLines.Proofs.Typing.Place
import AddressLines.Proofs.Typing.Sites
import AddressLines.Proofs.Typing.System
import AddressLines.Proofs.Typing.Table
import AddressLines.Proofs.Typing.Undefined
import AddressLines.Text.Blank
import AddressLines.Text.Escape
import AddressLines.Text.Line
import AddressLines.Text.Measure
import AddressLines.Text.Word
import AddressLines.Token.Basic
import AddressLines.Token.Lexeme
import AddressLines.Token.Scan
import AddressLines.Tree.Dump
import AddressLines.Tree.Expr
import AddressLines.Tree.Operator
import AddressLines.Tree.Stmt
import AddressLines.Typing.Check
import AddressLines.Typing.Scope
import AddressLines.Typing.Ty
