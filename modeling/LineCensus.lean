import LineCensus.Analysis.File
import LineCensus.Analysis.Folder
import LineCensus.Batch
import LineCensus.Command.Options
import LineCensus.Command.Run
import LineCensus.Command.Usage
import LineCensus.Declaration.Family
import LineCensus.Declaration.Indented
import LineCensus.Declaration.Script
import LineCensus.Declaration.Typed
import LineCensus.Error
import LineCensus.Ignore.Glob
import LineCensus.Ignore.Rule
import LineCensus.Ignore.Spec
import LineCensus.Language.Basic
import LineCensus.Language.Registry
import LineCensus.Line
import LineCensus.Main
import LineCensus.Numeric.Binary64
import LineCensus.Numeric.Decimal
import LineCensus.Pattern.Basic
import LineCensus.Pattern.Forms
import LineCensus.Proofs.BatchCount
import LineCensus.Proofs.BatchRun
import LineCensus.Proofs.CommandRuns
import LineCensus.Proofs.CommentEdits
import LineCensus.Proofs.Cutting
import LineCensus.Proofs.DecimalReading
import LineCensus.Proofs.DeclaredBound
import LineCensus.Proofs.ExitCodes
import LineCensus.Proofs.ExtensionFilter
import LineCensus.Proofs.FamilyScan
import LineCensus.Proofs.FileExtensions
import LineCensus.Proofs.FileReports
import LineCensus.Proofs.FileSizes
import LineCensus.Proofs.FolderEnd
import LineCensus.Proofs.FolderReports
import LineCensus.Proofs.FolderRun
import LineCensus.Proofs.FolderTotals
import LineCensus.Proofs.IgnoredBelow
import LineCensus.Proofs.IndentedFamilies
import LineCensus.Proofs.IndentedHeaders
import LineCensus.Proofs.IndentedParameters
import LineCensus.Proofs.IndentedTargets
import LineCensus.Proofs.JoinedTexts
import LineCensus.Proofs.LetterCase
import LineCensus.Proofs.LetterlessLines
import LineCensus.Proofs.LineLayout
import LineCensus.Proofs.LineTotals
import LineCensus.Proofs.LoadedRules
import LineCensus.Proofs.LowerCase
import LineCensus.Proofs.MergedFolders
import LineCensus.Proofs.NameRules
import LineCensus.Proofs.Nearest
import LineCensus.Proofs.OccurrenceBounds
import LineCensus.Proofs.Padding
import LineCensus.Proofs.PathText
import LineCensus.Proofs.PatternTexts
import LineCensus.Proofs.PatternWays
import LineCensus.Proofs.PlainReading
import LineCensus.Proofs.Progress
import LineCensus.Proofs.Pruning
import LineCensus.Proofs.Refusals
import LineCensus.Proofs.Registrations
import LineCensus.Proofs.ReportName
import LineCensus.Proofs.Rounding
import LineCensus.Proofs.RuleLines
import LineCensus.Proofs.ScannedFiles
import LineCensus.Proofs.ScannedSources
import LineCensus.Proofs.ScriptBindings
import LineCensus.Proofs.ScriptBrackets
import LineCensus.Proofs.ScriptFamilies
import LineCensus.Proofs.SingleRuns
import LineCensus.Proofs.Stretches
import LineCensus.Proofs.TokenCounts
import LineCensus.Proofs.TreeNames
import LineCensus.Proofs.TreeWalk
import LineCensus.Proofs.Trimming
import LineCensus.Proofs.TypedDeclarations
import LineCensus.Proofs.TypedFamilies
import LineCensus.Proofs.TypedHeaders
import LineCensus.Proofs.TypedParameters
import LineCensus.Proofs.WholeWords
import LineCensus.Proofs.WordScan
import LineCensus.Proofs.WrittenLists
import LineCensus.Report.FileSize
import LineCensus.Report.Json
import LineCensus.Report.Layout
import LineCensus.Report.Printed
import LineCensus.Report.Record
import LineCensus.Scan
import LineCensus.Settings
import LineCensus.Tally.Folder
import LineCensus.Tally.Stats
import LineCensus.Text.Blank
import LineCensus.Text.Integer
import LineCensus.Text.LowerCase
import LineCensus.Text.Newline
import LineCensus.Text.Quoted
import LineCensus.Text.Ranges
import LineCensus.Text.Search
import LineCensus.Text.Utf8
import LineCensus.Text.WordChar
import LineCensus.Tokens
import LineCensus.Tree.Basic
import LineCensus.Tree.Path
import LineCensus.Tree.Walk
import LineCensus.Value
