import RuleScan.Analysis.Workspace
import RuleScan.Report.Document
import RuleScan.Ruleset.Decoding

/-! What an analysis of one file gives as decoded values, and the options of a workspace from them. -/

namespace RuleScan

def RuleEvaluation.toValue (e : RuleEvaluation) : Value :=
  Value.record
    [("ruleId", some e.ruleId), ("violations", some (.arr (e.violations.map Violation.toValue))),
      ("duplicatesCollapsed", some (Value.ofNat e.duplicatesCollapsed)), ("elapsedMs", some (Value.ofInt e.elapsedMs)),
      ("error", e.error.map AnalysisError.toValue)]

def UnitResult.toValue (r : UnitResult) : Value :=
  Value.object
    [("path", r.path), ("analyzed", .bool r.analyzed), ("errors", .arr (r.errors.map AnalysisError.toValue)),
      ("evaluations", .arr (r.evaluations.map RuleEvaluation.toValue)),
      ("cancellation", .ofText? (r.cancellation.map CancelReason.word))]

def UnitEvent.toValue : UnitEvent → Value
  | .started id index => .arr [.str "start", .str id, Value.ofNat index]
  | .ended id => .arr [.str "end", .str id]

def WorkspaceOptions.ofValue (v : Value) : WorkspaceOptions :=
  { RunOptions.ofValue v with
    included := (v.textsAt? "include").getD [], ignore := (v.textsAt? "ignore").getD []
    registry := (v.get? "registry").bind Registry.ofValue? }

end RuleScan
