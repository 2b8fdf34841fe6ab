import Reckon.Assignment
import Reckon.Base64
import Reckon.Builtin
import Reckon.Builtin.Arguments
import Reckon.Builtin.Numeric
import Reckon.Builtin.Temporal
import Reckon.Builtin.Textual
import Reckon.Calendar.Layout
import Reckon.Calendar.Moment
import Reckon.Canonical
import Reckon.CommandLine
import Reckon.CommandLine.Arguments
import Reckon.CommandLine.Command
import Reckon.CommandLine.Help
import Reckon.Diagnostic
import Reckon.Evaluator
import Reckon.Failure
import Reckon.Formula
import Reckon.Json.Document
import Reckon.Json.Entries
import Reckon.Json.Number
import Reckon.Json.Reader
import Reckon.Main
import Reckon.Number.Arithmetic
import Reckon.Number.Binary
import Reckon.Number.Decimal
import Reckon.Number.Numeral
import Reckon.Number.Text
import Reckon.Operation
import Reckon.Operator
import Reckon.Pattern
import Reckon.Pattern.Automaton
import Reckon.Pattern.Meaning
import Reckon.Pattern.Reader
import Reckon.Pattern.Syntax
import Reckon.Properties
import Reckon.Reduction
import Reckon.Report
import Reckon.Reported
import Reckon.Source.Bracket
import Reckon.Source.Literal
import Reckon.Source.Quotation
import Reckon.Source.Tokens
import Reckon.Suggestion
import Reckon.Table
import Reckon.Token
import Reckon.Unicode.Blank
import Reckon.Unicode.Case
import Reckon.Unicode.Category
import Reckon.Unicode.CharSet
import Reckon.Unicode.Folding
import Reckon.Unicode.Grapheme
import Reckon.Unicode.Property
import Reckon.Unicode.Script
import Reckon.Value
import Reckon.Yaml.Cursor
import Reckon.Yaml.Entries
import Reckon.Yaml.Node
import Reckon.Yaml.Scalar
import Reckon.Yaml.Token
import Reckon.Proofs.TokenTree
import Reckon.Proofs.ReductionSteps
import Reckon.Proofs.ReductionWeight
import Reckon.Proofs.ReductionTokens
import Reckon.Proofs.ReductionLoops
import Reckon.Proofs.EvaluationOutcome
import Reckon.Proofs.ReductionRuns
import Reckon.Proofs.ReductionProgress
import Reckon.Proofs.AssignmentRuns
import Reckon.Proofs.AlikeTokens
import Reckon.Proofs.NestedReduction
import Reckon.Proofs.NestingLimit
import Reckon.Proofs.NestingLevels
import Reckon.Proofs.NestingMet
import Reckon.Proofs.HigherLimit
import Reckon.Proofs.OperandSigns
import Reckon.Proofs.ReductionMeaning
import Reckon.Proofs.SequenceTrees
import Reckon.Proofs.SequenceOutcome
import Reckon.Proofs.DecimalReading
import Reckon.Proofs.FloatBits
import Reckon.Proofs.NumberReading
import Reckon.Proofs.ClosedText
import Reckon.Proofs.NameReading
import Reckon.Proofs.Readable
import Reckon.Proofs.CanonicalReading
import Reckon.Proofs.CanonicalInverse
import Reckon.Proofs.SourceReadable
import Reckon.Proofs.CanonicalFixedPoint
import Reckon.Proofs.CanonicalPieces
import Reckon.Proofs.PieceTexts
import Reckon.Proofs.StrayPieces
import Reckon.Proofs.SourceWellFormed
import Reckon.Proofs.RepairPlacement
import Reckon.Proofs.RepairRestarts
import Reckon.Proofs.FormulaSeparators
import Reckon.Proofs.MentionedNames
import Reckon.Proofs.LocalFailures
import Reckon.Proofs.FormulaNesting
import Reckon.Proofs.TableStorage
import Reckon.Proofs.ConditionalInverse
import Reckon.Proofs.RepairAdjacency
import Reckon.Proofs.ReductionOrder
import Reckon.Proofs.ParenthesizedBranch
import Reckon.Proofs.BalancedText
import Reckon.Proofs.LiteralReading
import Reckon.Proofs.BracketReading
import Reckon.Proofs.UnclosedReports
import Reckon.Proofs.AppliedOperations
import Reckon.Proofs.AppliedOperands
import Reckon.Proofs.FloatSigns
import Reckon.Proofs.CancelledSigns
import Reckon.Proofs.NumeralPrefix
import Reckon.Proofs.QuotedText
import Reckon.Proofs.TableAgreement
import Reckon.Proofs.SourceRegions
import Reckon.Proofs.RegionReading
import Reckon.Proofs.SourcePositions
import Reckon.Proofs.WholeNumbers
import Reckon.Proofs.FloatOrder
import Reckon.Proofs.EditDistance
import Reckon.Proofs.PartBounds
import Reckon.Proofs.PrintedNumbers
import Reckon.Proofs.EvaluatorReuse
import Reckon.Proofs.LiteralEnds
