import RuleScan.Analysis.Baseline
import RuleScan.Analysis.Basic
import RuleScan.Analysis.Discovery
import RuleScan.Analysis.Encoding
import RuleScan.Analysis.Progress
import RuleScan.Analysis.Report
import RuleScan.Analysis.Run
import RuleScan.Analysis.Unit
import RuleScan.Analysis.Workspace
import RuleScan.Command.Arguments
import RuleScan.Command.Basic
import RuleScan.Command.Execution
import RuleScan.Command.Options
import RuleScan.Config.Basic
import RuleScan.Config.Loading
import RuleScan.Config.Validation
import RuleScan.Digest.Sha256
import RuleScan.Disk.Basic
import RuleScan.Disk.Path
import RuleScan.Evaluation.Budget
import RuleScan.Evaluation.Clauses
import RuleScan.Evaluation.Counted
import RuleScan.Evaluation.Match
import RuleScan.Evaluation.Textual
import RuleScan.Glob.Basic
import RuleScan.Glob.Braces
import RuleScan.Glob.CharSet
import RuleScan.Glob.Segment
import RuleScan.Log.Basic
import RuleScan.Main
import RuleScan.Number.Basic
import RuleScan.Number.Rounding
import RuleScan.Number.Shortest
import RuleScan.Parsing.Basic
import RuleScan.Parsing.CompilerTree
import RuleScan.Parsing.Decoding
import RuleScan.Parsing.GrammarTree
import RuleScan.Pool.Tasks
import RuleScan.Pool.Threads
import RuleScan.Proofs.Analysis.Accounting
import RuleScan.Proofs.Analysis.Baselines
import RuleScan.Proofs.Analysis.Contents
import RuleScan.Proofs.Analysis.Courses
import RuleScan.Proofs.Analysis.Determinism
import RuleScan.Proofs.Analysis.Discovery
import RuleScan.Proofs.Analysis.FullRuns
import RuleScan.Proofs.Analysis.Interruption
import RuleScan.Proofs.Analysis.Isolation
import RuleScan.Proofs.Analysis.Listings
import RuleScan.Proofs.Analysis.Repetitions
import RuleScan.Proofs.Analysis.Reruns
import RuleScan.Proofs.Analysis.Schedules
import RuleScan.Proofs.Analysis.Stops
import RuleScan.Proofs.Analysis.Traces
import RuleScan.Proofs.Analysis.Uniqueness
import RuleScan.Proofs.Analysis.Units
import RuleScan.Proofs.Command.Rerunning
import RuleScan.Proofs.Config.Checks
import RuleScan.Proofs.Config.Faults
import RuleScan.Proofs.Config.NormalForm
import RuleScan.Proofs.Config.Overrides
import RuleScan.Proofs.Config.Reports
import RuleScan.Proofs.Evaluation.Agreement
import RuleScan.Proofs.Evaluation.Checkpoints
import RuleScan.Proofs.Evaluation.Conjunction
import RuleScan.Proofs.Evaluation.Constraints
import RuleScan.Proofs.Evaluation.Counted
import RuleScan.Proofs.Evaluation.Guards
import RuleScan.Proofs.Evaluation.Keys
import RuleScan.Proofs.Evaluation.Lasting
import RuleScan.Proofs.Evaluation.Merging
import RuleScan.Proofs.Evaluation.Parts
import RuleScan.Proofs.Evaluation.Records
import RuleScan.Proofs.Evaluation.Safety
import RuleScan.Proofs.Evaluation.Sharing
import RuleScan.Proofs.Evaluation.StepBudget
import RuleScan.Proofs.Evaluation.Surroundings
import RuleScan.Proofs.Evaluation.Survivors
import RuleScan.Proofs.Evaluation.Unions
import RuleScan.Proofs.Evaluation.UniqueNames
import RuleScan.Proofs.Number.Decimals
import RuleScan.Proofs.Parsing.Cursors
import RuleScan.Proofs.Parsing.Flags
import RuleScan.Proofs.Pool.Batches
import RuleScan.Proofs.Pool.Calls
import RuleScan.Proofs.Pool.Closing
import RuleScan.Proofs.Pool.Idling
import RuleScan.Proofs.Pool.Lifecycle
import RuleScan.Proofs.Pool.Replies
import RuleScan.Proofs.Query.Appending
import RuleScan.Proofs.Query.Captures
import RuleScan.Proofs.Query.Choices
import RuleScan.Proofs.Query.FirstSolutions
import RuleScan.Proofs.Query.Inventory
import RuleScan.Proofs.Query.Mandatory
import RuleScan.Proofs.Query.Matching
import RuleScan.Proofs.Query.Printing
import RuleScan.Proofs.Query.Rejections
import RuleScan.Proofs.Query.RoundTrip
import RuleScan.Proofs.Query.Skipping
import RuleScan.Proofs.Query.Solutions
import RuleScan.Proofs.Query.Tiling
import RuleScan.Proofs.Regex.Classes
import RuleScan.Proofs.Regex.Declared
import RuleScan.Proofs.Regex.GroupNames
import RuleScan.Proofs.Regex.Openings
import RuleScan.Proofs.Regex.Passing
import RuleScan.Proofs.Regex.Terms
import RuleScan.Proofs.Report.Logs
import RuleScan.Proofs.Report.Ordering
import RuleScan.Proofs.Rule.Acceptance
import RuleScan.Proofs.Rule.Checksums
import RuleScan.Proofs.Rule.ClauseChecks
import RuleScan.Proofs.Rule.Deduplication
import RuleScan.Proofs.Rule.Fingerprints
import RuleScan.Proofs.Rule.Fixes
import RuleScan.Proofs.Rule.Placeholders
import RuleScan.Proofs.Rule.Ranges
import RuleScan.Proofs.Rule.Reading
import RuleScan.Proofs.Rule.Rendering
import RuleScan.Proofs.Rule.Revalidation
import RuleScan.Proofs.Rule.Safety
import RuleScan.Proofs.Rule.Splicing
import RuleScan.Proofs.Rule.Unread
import RuleScan.Proofs.Rule.Validity
import RuleScan.Proofs.Ruleset.Loading
import RuleScan.Proofs.Source.Positions
import RuleScan.Proofs.Source.Rows
import RuleScan.Proofs.Testing.FirstFit
import RuleScan.Proofs.Testing.Pairing
import RuleScan.Proofs.Text.Order
import RuleScan.Proofs.Tree.Addresses
import RuleScan.Proofs.Tree.Finishing
import RuleScan.Proofs.Tree.Traversal
import RuleScan.Proofs.Value.Canonical
import RuleScan.Proofs.Value.Layering
import RuleScan.Proofs.Value.Merging
import RuleScan.Query.Basic
import RuleScan.Query.Encoding
import RuleScan.Query.Matcher
import RuleScan.Query.Parser
import RuleScan.Query.Token
import RuleScan.Regex.Basic
import RuleScan.Regex.Matcher
import RuleScan.Regex.Parser
import RuleScan.Report.Decoding
import RuleScan.Report.Document
import RuleScan.Report.Fault
import RuleScan.Report.Output
import RuleScan.Report.Sarif
import RuleScan.Report.Style
import RuleScan.Report.Table
import RuleScan.Rule.Basic
import RuleScan.Rule.Decoding
import RuleScan.Rule.Encoding
import RuleScan.Rule.Template
import RuleScan.Rule.Validation
import RuleScan.Rule.Violation
import RuleScan.Ruleset.Basic
import RuleScan.Ruleset.Decoding
import RuleScan.Ruleset.Loading
import RuleScan.Ruleset.Registry
import RuleScan.Source.Language
import RuleScan.Source.Span
import RuleScan.Testing.Basic
import RuleScan.Testing.Output
import RuleScan.Text.Blank
import RuleScan.Text.CaseMapping
import RuleScan.Text.Category
import RuleScan.Text.EditDistance
import RuleScan.Text.Emoji
import RuleScan.Text.Identifier
import RuleScan.Text.LowerCase
import RuleScan.Text.Property
import RuleScan.Text.Ranges
import RuleScan.Text.Script
import RuleScan.Text.Units
import RuleScan.Text.Url
import RuleScan.Text.Utf8
import RuleScan.Tree.Basic
import RuleScan.Tree.Decoding
import RuleScan.Tree.Walk
import RuleScan.Value.Basic
import RuleScan.Value.Merging
import RuleScan.Value.Parser
import RuleScan.Value.Printer
