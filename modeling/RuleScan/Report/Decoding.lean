import RuleScan.Analysis.Report
import RuleScan.Tree.Decoding

/-! Reading reports back from decoded values, without checking them. -/

namespace RuleScan

def Location.ofValue (v : Value) : Location :=
  ⟨v.countAt "line", v.countAt "column", v.countAt "endLine", v.countAt "endColumn",
    v.intAt "startOffset", v.intAt "endOffset"⟩

def Edit.ofValue (v : Value) : Edit := ⟨.ofValue (v.memberAt "location"), v.textAt "content"⟩

def Fix.ofValue (v : Value) : Fix := ⟨v.textAt "description", (v.listAt "edits").map Edit.ofValue⟩

def Violation.ofValue (v : Value) : Violation :=
  { ruleId := v.textAt "ruleId", file := v.textAt "file", language := .ofRecord v
    severity := ((v.textAt? "severity").bind Severity.ofWord?).getD .error, category := v.textAt? "category"
    message := v.textAt "message", location := .ofValue (v.memberAt "location")
    fix := ((v.get? "fix").filter Value.isObj).map Fix.ofValue, fingerprint := v.textAt "fingerprint" }

def AnalysisError.ofValue (v : Value) : AnalysisError :=
  { kind := ((v.textAt? "kind").bind ErrorKind.ofWord?).getD .read, file := v.textAt "file"
    ruleId := v.textAt? "ruleId", code := v.textAt "code", message := v.textAt "message" }

def LoadFailure.ofValue (v : Value) : LoadFailure :=
  { source := v.textAt "source", position := v.natAt? "position", ruleId := v.textAt? "ruleId"
    code := v.textAt "code", message := v.textAt "message", issues := v.listAt "issues" }

def RuleStatistics.ofValue (v : Value) : RuleStatistics :=
  { ruleId := v.textAt "ruleId", files := v.countAt "files", violations := v.countAt "violations"
    errors := v.countAt "errors", timeouts := v.countAt "timeouts"
    executionTimeMs := v.numberAt "executionTimeMs", maxExecutionTimeMs := v.numberAt "maxExecutionTimeMs" }

def SeverityCounts.ofValue (v : Value) : SeverityCounts :=
  { error := v.countAt "error", warning := v.countAt "warning", notice := v.countAt "notice" }

def RunSummary.ofValue (v : Value) : RunSummary :=
  { filesAnalyzed := v.countAt "filesAnalyzed", filesFailed := v.countAt "filesFailed"
    rulesLoaded := v.countAt "rulesLoaded", evaluations := v.countAt "evaluations"
    violations := v.countAt "violations", errors := v.countAt "errors"
    bySeverity := .ofValue (v.memberAt "bySeverity"), duplicatesCollapsed := v.countAt "duplicatesCollapsed"
    suppressed := v.countAt "suppressed", durationMs := v.numberAt "durationMs" }

def CancelReason.ofWord? (s : String) : Option CancelReason :=
  [CancelReason.aborted, .budgetExceeded].find? (·.word == s)

def Report.ofValue (v : Value) : Report :=
  { violations := (v.listAt "violations").map Violation.ofValue
    errors := (v.listAt "errors").map AnalysisError.ofValue
    loadErrors := (v.listAt "loadErrors").map LoadFailure.ofValue, summary := .ofValue (v.memberAt "summary")
    cancelled := v.boolAt "cancelled", reason := (v.textAt? "cancellationReason").bind CancelReason.ofWord?
    statistics := ((v.get? "statistics").bind Value.arr?).map (·.map RuleStatistics.ofValue) }

end RuleScan
