import TemplateScript.Command.Folder
import TemplateScript.Main
import TemplateScript.Proofs.BreakdownOrigin
import TemplateScript.Proofs.Derivation
import TemplateScript.Proofs.DoubleBits
import TemplateScript.Proofs.Execution
import TemplateScript.Proofs.Failures
import TemplateScript.Proofs.Gap
import TemplateScript.Proofs.GrammarComplete
import TemplateScript.Proofs.GrammarSound
import TemplateScript.Proofs.JournalFrame
import TemplateScript.Proofs.Lockstep
import TemplateScript.Proofs.Lossless
import TemplateScript.Proofs.ModeAgreement
import TemplateScript.Proofs.NumeralReadBack
import TemplateScript.Proofs.ReadBack
import TemplateScript.Proofs.ReaderLemmas
import TemplateScript.Proofs.Remainder
import TemplateScript.Proofs.Rendering
import TemplateScript.Proofs.RunOutcome
import TemplateScript.Proofs.TreeShape
import TemplateScript.Proofs.Visits
import TemplateScript.Proofs.Permanence
import TemplateScript.Proofs.Conformance
import TemplateScript.Proofs.ProgramRegion
import TemplateScript.Proofs.EvaluationPlaces
import TemplateScript.Proofs.ScanSteps
import TemplateScript.Proofs.ScanSeams
import TemplateScript.Proofs.RegionOnly
import TemplateScript.Proofs.SpacedScan
import TemplateScript.Proofs.ExpressionScript
import TemplateScript.Proofs.Arithmetic
import TemplateScript.Proofs.ScannedTokens
import TemplateScript.Proofs.SourceOrder
import TemplateScript.Proofs.ReadingFaults
import TemplateScript.Proofs.OutcomeReports
import TemplateScript.Proofs.ScriptTrees
import TemplateScript.Proofs.ScriptReports
import TemplateScript.Proofs.ScopeHistory
import TemplateScript.Proofs.ScanCourse
import TemplateScript.Proofs.Respacing
import TemplateScript.Proofs.SpelledValues
import TemplateScript.Proofs.NodeSpans
import TemplateScript.Proofs.Positions
import TemplateScript.Proofs.RunPositions
import TemplateScript.Proofs.ForestSteps
import TemplateScript.Proofs.WriteFrame
import TemplateScript.Proofs.TreeText
import TemplateScript.Proofs.RunCommand
import TemplateScript.Proofs.DigitLimit
import TemplateScript.Proofs.JsonGrammar
import TemplateScript.Proofs.ShortestDecimal
import TemplateScript.Proofs.JsonNumbers
import TemplateScript.Proofs.DistinctNames
import TemplateScript.Proofs.JsonText
import TemplateScript.Proofs.JsonReports
import TemplateScript.Proofs.JsonDecoding
import TemplateScript.Proofs.ReadFrame
import TemplateScript.Proofs.LineSeams
import TemplateScript.Proofs.ReaderExtension
import TemplateScript.Proofs.RepeatedReading
import TemplateScript.Proofs.StatementSeams
import TemplateScript.Proofs.ObjectLiterals
import TemplateScript.Proofs.Carets
import TemplateScript.Proofs.QuotedLines
import TemplateScript.Proofs.QuotedText
import TemplateScript.Proofs.DumpedRows
import TemplateScript.Proofs.DumpedTrees
import TemplateScript.Proofs.RunLog
