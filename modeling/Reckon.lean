import Reckon.CommandLine.Arguments
import Reckon.CommandLine.Task
import Reckon.CommandLine.Usage
import Reckon.Diagnostic
import Reckon.Evaluation
import Reckon.Expression
import Reckon.Grammar.ParseError
import Reckon.Grammar.Parser
import Reckon.Main
import Reckon.Number.Arithmetic
import Reckon.Number.Basic
import Reckon.Number.Binary64
import Reckon.Number.Decimal
import Reckon.Proofs.Cutoff
import Reckon.Proofs.Derivation
import Reckon.Proofs.Lexing
import Reckon.Proofs.Numerals
import Reckon.Proofs.Parsing
import Reckon.Proofs.Pieces
import Reckon.Proofs.Places
import Reckon.Proofs.Reading
import Reckon.Proofs.Rounding
import Reckon.Session
import Reckon.Settings.Basic
import Reckon.Settings.Library
import Reckon.Text.Blank
import Reckon.Text.CaseContext
import Reckon.Text.CharRange
import Reckon.Text.DecimalDigit
import Reckon.Text.Document
import Reckon.Text.Integer
import Reckon.Text.Lowercase
import Reckon.Text.Position
import Reckon.Text.Printable
import Reckon.Text.Quoted
import Reckon.Text.Uppercase
import Reckon.Token.Basic
import Reckon.Token.LexError
import Reckon.Token.Scanner
import Reckon.Tree.Basic
import Reckon.Tree.Fold
import Reckon.Tree.Printer
import Reckon.Tree.Visit
import Reckon.Proofs.Folding
import Reckon.Proofs.Rendering
import Reckon.Proofs.RoundTrip
import Reckon.Proofs.Guards
import Reckon.Proofs.Listing
import Reckon.Proofs.Stopping
import Reckon.Proofs.Bounds
import Reckon.Proofs.EarliestError
import Reckon.Proofs.Safety
import Reckon.Proofs.Lockstep
import Reckon.Proofs.Layout
import Reckon.Proofs.Tiling
import Reckon.Proofs.Widths
import Reckon.Proofs.WholeNumbers
import Reckon.Proofs.Traversal
import Reckon.Proofs.Blame
import Reckon.Proofs.ResultKind
import Reckon.Proofs.Composition
import Reckon.Proofs.Concatenation
import Reckon.Proofs.NodeSpans
import Reckon.Proofs.Pointing
import Reckon.Proofs.DecimalText
import Reckon.Proofs.Unambiguous
import Reckon.Proofs.Positional
import Reckon.Proofs.Handmade
import Reckon.Proofs.Answers
import Reckon.Proofs.Conversation
import Reckon.Proofs.Reentry
import Reckon.Proofs.FileInput
import Reckon.Proofs.Stepping
import Reckon.Proofs.Frames
import Reckon.Proofs.Discipline
import Reckon.Proofs.PlainLibrary
import Reckon.Proofs.Selection
