import CAudit.Text.Lines
import CAudit.Token.Json
import CAudit.SyntaxTree
import CAudit.Parse.Json
import CAudit.Main
import CAudit.Proofs.CleanRun
import CAudit.Proofs.Grammar
import CAudit.Proofs.SyntaxTree
import CAudit.Proofs.CleanExpression
import CAudit.Proofs.CleanDeclaration
import CAudit.Proofs.Ledger
import CAudit.Proofs.Accounting
import CAudit.Proofs.Leaves
import CAudit.Proofs.CleanStatement
import CAudit.Proofs.CaseLabel
import CAudit.Proofs.CleanControl
import CAudit.Proofs.Recognition
import CAudit.Proofs.Agreement
import CAudit.Proofs.Place
import CAudit.Proofs.Context
import CAudit.Proofs.Padding
import CAudit.Proofs.Composition
import CAudit.Proofs.Sequel
import CAudit.Proofs.Concatenation
import CAudit.Proofs.Shape
import CAudit.Proofs.Recovery
import CAudit.Proofs.DepthCounter
import CAudit.Proofs.NestingBound
import CAudit.Proofs.Extent
import CAudit.Proofs.Scanning
import CAudit.Proofs.Lookahead
import CAudit.Proofs.CommentBlank
import CAudit.Proofs.Delimiter
import CAudit.Proofs.Merge
import CAudit.Proofs.Audit
import CAudit.Proofs.LineNumber
import CAudit.Proofs.Lines
import CAudit.Proofs.Choice
import CAudit.Proofs.Staging
import CAudit.Proofs.SuppliedTokens
import CAudit.Proofs.ArithmeticRisk
import CAudit.Proofs.CheckWindow
import CAudit.Proofs.JsonString
import CAudit.Proofs.JsonNumber
import CAudit.Proofs.JsonList
import CAudit.Proofs.JsonGrammar
import CAudit.Proofs.JsonWriting
import CAudit.Proofs.JsonRecord
import CAudit.Proofs.Wrapping
import CAudit.Proofs.FirstList
import CAudit.Proofs.Reimport
import CAudit.Proofs.TreeRoundTrip
import CAudit.Proofs.PreOrder
import CAudit.Proofs.QuotedLabel
import CAudit.Proofs.Drawing
import CAudit.Proofs.WarningLine
import CAudit.Proofs.ConfigFile
import CAudit.Proofs.Progress
import CAudit.Proofs.SpareLevels
import CAudit.Proofs.LongestWord
import CAudit.Proofs.Traversal
