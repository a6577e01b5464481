import SmallLisp.Builtin.Arithmetic
import SmallLisp.Builtin.Basic
import SmallLisp.Builtin.Call
import SmallLisp.Builtin.Comparison
import SmallLisp.Builtin.Sequences
import SmallLisp.Decimal.Positional
import SmallLisp.Decimal.Shortest
import SmallLisp.Diagnostic
import SmallLisp.Evaluation.Evaluate
import SmallLisp.Evaluation.Parameters
import SmallLisp.Expansion.Expand
import SmallLisp.Expansion.MacroTable
import SmallLisp.Expansion.Template
import SmallLisp.Fault
import SmallLisp.Main
import SmallLisp.Number.Remainder
import SmallLisp.Proofs.Alike
import SmallLisp.Proofs.Binding
import SmallLisp.Proofs.Calls
import SmallLisp.Proofs.Comparison
import SmallLisp.Proofs.Correspondence
import SmallLisp.Proofs.Depth
import SmallLisp.Proofs.DialogueFold
import SmallLisp.Proofs.Doubles
import SmallLisp.Proofs.Emission
import SmallLisp.Proofs.ExpansionMeaning
import SmallLisp.Proofs.ExpansionShape
import SmallLisp.Proofs.Grammar
import SmallLisp.Proofs.Growth
import SmallLisp.Proofs.HistoryDigest
import SmallLisp.Proofs.LineByLine
import SmallLisp.Proofs.Lines
import SmallLisp.Proofs.MacroFree
import SmallLisp.Proofs.NumberText
import SmallLisp.Proofs.Occurrence
import SmallLisp.Proofs.RoundTrip
import SmallLisp.Proofs.RunLaws
import SmallLisp.Proofs.SavedFile
import SmallLisp.Proofs.Shapes
import SmallLisp.Proofs.Soundness
import SmallLisp.Proofs.Stopping
import SmallLisp.Proofs.TemplateMeaning
import SmallLisp.Proofs.Tiling
import SmallLisp.Proofs.Tokens
import SmallLisp.Proofs.Unfinished
import SmallLisp.Proofs.Visibility
import SmallLisp.Proofs.Widening
import SmallLisp.Run
import SmallLisp.Session
import SmallLisp.Shell.Dialogue
import SmallLisp.Shell.FileTree
import SmallLisp.Shell.History
import SmallLisp.Shell.Options
import SmallLisp.Shell.Path
import SmallLisp.Shell.Program
import SmallLisp.Shell.Reply
import SmallLisp.Shell.Script
import SmallLisp.Source.Literal
import SmallLisp.Source.Position
import SmallLisp.Source.Reading
import SmallLisp.Source.Scanner
import SmallLisp.Source.SourceError
import SmallLisp.Source.Token
import SmallLisp.SpecialForm
import SmallLisp.Store.Basic
import SmallLisp.Text.Alphanumeric
import SmallLisp.Text.Ascending
import SmallLisp.Text.Blank
import SmallLisp.Text.Escaped
import SmallLisp.Value.Basic
import SmallLisp.Value.Equality
import SmallLisp.Value.Inspect
import SmallLisp.Value.Written
import SmallLisp.Proofs.LineTable
import SmallLisp.Proofs.Positions
import SmallLisp.Proofs.Unterminated
import SmallLisp.Proofs.AtomPatterns
import SmallLisp.Proofs.Escapes
import SmallLisp.Proofs.ExactArithmetic
import SmallLisp.Proofs.ComparisonChains
import SmallLisp.Proofs.ProperMacros
import SmallLisp.Proofs.Settling
import SmallLisp.Proofs.FrameTree
import SmallLisp.Proofs.Clearing
