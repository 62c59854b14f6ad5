import RuleScan.Analysis.Basic
import RuleScan.Ruleset.Basic

/-! The report of a run. -/

namespace RuleScan

structure RuleStatistics where
  ruleId : String
  files : Nat := 0
  violations : Nat := 0
  errors : Nat := 0
  timeouts : Nat := 0
  executionTimeMs : Number := 0
  /-- The slowest single evaluation. -/
  maxExecutionTimeMs : Number := 0

structure SeverityCounts where
  error : Nat := 0
  warning : Nat := 0
  notice : Nat := 0
  deriving DecidableEq

namespace SeverityCounts

def of (vs : List Violation) : SeverityCounts :=
  { error := vs.countP (·.severity = .error), warning := vs.countP (·.severity = .warning)
    notice := vs.countP (·.severity = .notice) }

end SeverityCounts

structure RunSummary where
  filesAnalyzed : Nat
  filesFailed : Nat
  rulesLoaded : Nat
  /-- Evaluations that completed. -/
  evaluations : Nat
  violations : Nat
  errors : Nat
  bySeverity : SeverityCounts
  duplicatesCollapsed : Nat
  /-- Violations dropped by the baseline. -/
  suppressed : Nat
  durationMs : Number

structure Report where
  violations : List Violation
  errors : List AnalysisError
  loadErrors : List LoadFailure
  summary : RunSummary
  cancelled : Bool
  reason : Option CancelReason := none
  statistics : Option (List RuleStatistics) := none

end RuleScan
