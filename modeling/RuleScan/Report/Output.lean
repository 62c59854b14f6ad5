import RuleScan.Report.Document
import RuleScan.Report.Sarif
import RuleScan.Report.Table

/-! The forms in which a report is written. -/

namespace RuleScan

inductive OutputFormat where
  | table
  | json
  | sarif
  deriving DecidableEq, Inhabited

namespace OutputFormat

def all : List OutputFormat := [.table, .json, .sarif]

def word : OutputFormat → String
  | .table => "table"
  | .json => "json"
  | .sarif => "sarif"

def ofWord? (s : String) : Option OutputFormat := all.find? (·.word == s)

end OutputFormat

/-- Writes a report given as a value in its own member order. -/
def Report.renderAs (r : Report) (source : Value) (colored : Bool) : OutputFormat → String
  | .table => Table.ofReport colored r
  | .json => Document.render (Document.ofReport source)
  | .sarif => Document.render (Sarif.ofReport r)

def Report.render (r : Report) (colored : Bool) (format : OutputFormat) : String :=
  r.renderAs r.toValue colored format

/-- The lowest severity that makes a run fail; none means that no violation does. -/
abbrev FailOn := Option Severity

/-- The exit code of a run: 2 if it was cancelled or no file could be analyzed, 1 if a violation is at
least as severe as asked for, else 0. -/
def Report.exitCode (r : Report) (failOn : FailOn) : Nat :=
  if r.cancelled then 2
  else if r.summary.filesAnalyzed = 0 && 0 < r.summary.errors then 2
  else
    match failOn with
    | none => 0
    | some least => if r.violations.any fun v => least.rank ≤ v.severity.rank then 1 else 0

def Document.ofRules (rules : List Rule) (errors : List LoadFailure) : Value :=
  Value.object
    [("rules", .arr (rules.map fun r =>
        Value.object
          [("id", r.id), ("name", Value.orNull (optionalText r.name)),
            ("description", Value.orNull (optionalText r.description)), ("severity", r.severity.word),
            ("category", Value.orNull (optionalText r.category)),
            ("languages", Value.strings (r.languages.map Language.name)), ("tags", Value.strings (r.tags.getD [])),
            ("fixtures", Value.ofNat (r.tests.getD []).length),
            ("checksum", Value.orNull (optionalText r.checksum))])),
      ("loadErrors", .arr (errors.map fun e => Document.loadError e.toValue))]

end RuleScan
