import CallAlign.Alignment
import CallAlign.Call
import CallAlign.CommandLine
import CallAlign.CommandLine.Options
import CallAlign.CommandLine.Request
import CallAlign.CommandLine.Snapshot
import CallAlign.CommandLine.Usage
import CallAlign.Config
import CallAlign.ConfigFile
import CallAlign.Discovery
import CallAlign.FileSystem
import CallAlign.Glob
import CallAlign.IgnoreRules
import CallAlign.IgnoreRules.Pattern
import CallAlign.Inspection
import CallAlign.Json
import CallAlign.Log
import CallAlign.Main
import CallAlign.Number.Binary64
import CallAlign.Number.Shortest
import CallAlign.Offense
import CallAlign.OffenseFields
import CallAlign.Position
import CallAlign.Proofs.AlignmentVerdict
import CallAlign.Proofs.BracelessHash
import CallAlign.Proofs.CallListing
import CallAlign.Proofs.CallNodes
import CallAlign.Proofs.CharacterColumns
import CallAlign.Proofs.CheckReports
import CallAlign.Proofs.ConfigLoading
import CallAlign.Proofs.DecodedRows
import CallAlign.Proofs.DefaultSelection
import CallAlign.Proofs.DirectoryRun
import CallAlign.Proofs.DiscoveredFiles
import CallAlign.Proofs.DistinctOffenses
import CallAlign.Proofs.EncodedText
import CallAlign.Proofs.FileTree
import CallAlign.Proofs.JsonLines
import CallAlign.Proofs.JsonText
import CallAlign.Proofs.LineEndings
import CallAlign.Proofs.LongIntegers
import CallAlign.Proofs.MovedCode
import CallAlign.Proofs.NarrowedRun
import CallAlign.Proofs.Nesting
import CallAlign.Proofs.NodeText
import CallAlign.Proofs.ObservedLayout
import CallAlign.Proofs.OffensePositions
import CallAlign.Proofs.PathOrder
import CallAlign.Proofs.PatternMatching
import CallAlign.Proofs.ReplacedSubtree
import CallAlign.Proofs.RunFailures
import CallAlign.Proofs.ScalarReaders
import CallAlign.Proofs.SourceOrder
import CallAlign.Proofs.StrictDecoding
import CallAlign.Proofs.TabSuppression
import CallAlign.Proofs.TabbedRows
import CallAlign.Proofs.TextReport
import CallAlign.Proofs.TreeFilter
import CallAlign.Proofs.ValidConfig
import CallAlign.Proofs.VisitedDirectories
import CallAlign.Record
import CallAlign.Regex
import CallAlign.Regex.Text
import CallAlign.Report
import CallAlign.Run
import CallAlign.Selection
import CallAlign.Source
import CallAlign.SourceLines
import CallAlign.SyntaxTree
import CallAlign.Text.Blank
import CallAlign.Text.Digit
import CallAlign.Text.Printable
import CallAlign.Text.Quoted
import CallAlign.Toml.Document
import CallAlign.Toml.Scalar
import CallAlign.Utf8
import CallAlign.Validation
import CallAlign.Value
