import RuleScan.Analysis.Report
import RuleScan.Rule.Encoding
import RuleScan.Rule.Violation
import RuleScan.Value.Printer

/-! Reports as documents, with their violations and fixes. In a document every field is present: an
absent value is null, an absent list is empty. Records inside keep the order of their members. -/

namespace RuleScan

def Location.toValue (l : Location) : Value :=
  Value.object
    [("line", Value.ofNat l.line), ("column", Value.ofNat l.column), ("endLine", Value.ofNat l.endLine),
      ("endColumn", Value.ofNat l.endColumn), ("startOffset", Value.ofInt l.startOffset),
      ("endOffset", Value.ofInt l.endOffset)]

def Edit.toValue (e : Edit) : Value :=
  Value.object [("location", e.location.toValue), ("content", e.content)]

def Fix.toValue (f : Fix) : Value :=
  Value.object [("description", f.description), ("edits", .arr (f.edits.map Edit.toValue))]

/-- A violation; a fix is left out when there is none. -/
def Violation.toValue (v : Violation) : Value :=
  Value.record
    [("ruleId", some v.ruleId), ("file", some v.file), ("language", some v.language.name),
      ("severity", some v.severity.word), ("category", some (Value.orNull (optionalText v.category))),
      ("message", some v.message), ("location", some v.location.toValue),
      ("fingerprint", some v.fingerprint), ("fix", v.fix.map Fix.toValue)]

def AnalysisError.toValue (e : AnalysisError) : Value :=
  Value.record
    [("kind", some e.kind.word), ("file", some e.file), ("ruleId", e.ruleId.map .str), ("code", some e.code),
      ("message", some e.message)]

def RuleStatistics.toValue (s : RuleStatistics) : Value :=
  Value.object
    [("ruleId", s.ruleId), ("files", Value.ofNat s.files), ("violations", Value.ofNat s.violations),
      ("errors", Value.ofNat s.errors), ("timeouts", Value.ofNat s.timeouts),
      ("executionTimeMs", .num s.executionTimeMs), ("maxExecutionTimeMs", .num s.maxExecutionTimeMs)]

def SeverityCounts.toValue (c : SeverityCounts) : Value :=
  Value.object
    [("error", Value.ofNat c.error), ("warning", Value.ofNat c.warning), ("notice", Value.ofNat c.notice)]

def RunSummary.toValue (s : RunSummary) : Value :=
  Value.object
    [("filesAnalyzed", Value.ofNat s.filesAnalyzed), ("filesFailed", Value.ofNat s.filesFailed),
      ("rulesLoaded", Value.ofNat s.rulesLoaded), ("evaluations", Value.ofNat s.evaluations),
      ("violations", Value.ofNat s.violations), ("errors", Value.ofNat s.errors),
      ("bySeverity", s.bySeverity.toValue), ("duplicatesCollapsed", Value.ofNat s.duplicatesCollapsed),
      ("suppressed", Value.ofNat s.suppressed), ("durationMs", .num s.durationMs)]

/-- A report as a value; what is absent is left out. -/
def Report.toValue (r : Report) : Value :=
  Value.record
    [("violations", some (.arr (r.violations.map Violation.toValue))),
      ("errors", some (.arr (r.errors.map AnalysisError.toValue))),
      ("loadErrors", some (.arr (r.loadErrors.map LoadFailure.toValue))), ("summary", some r.summary.toValue),
      ("cancelled", some (.bool r.cancelled)), ("cancellationReason", r.reason.map (.str ·.word)),
      ("statistics", r.statistics.map fun s => .arr (s.map RuleStatistics.toValue))]

namespace Document

def schemaVersion : String := "1.0"

/-- These members of a value in this order; those marked are null where they are absent. -/
def pick (v : Value) (fields : List (String × Bool)) : Value :=
  Value.record (fields.map fun (key, nullable) =>
    (key, if nullable then some (Value.orNull (v.get? key)) else v.get? key))

/-- The items of a list, or none. -/
def itemsAt (v : Value) (key : String) : List Value := ((v.get? key).bind Value.arr?).getD []

def violation (v : Value) : Value :=
  pick v
    [("ruleId", false), ("file", false), ("language", false), ("severity", false), ("category", true),
      ("message", false), ("location", false), ("fix", true), ("fingerprint", false)]

def error (v : Value) : Value :=
  pick v [("kind", false), ("file", false), ("ruleId", true), ("code", false), ("message", false)]

def loadError (v : Value) : Value :=
  pick v
    [("source", false), ("position", false), ("ruleId", true), ("code", false), ("message", false),
      ("issues", false)]

def ofReport (v : Value) : Value :=
  Value.record
    [("schemaVersion", some schemaVersion), ("cancelled", v.get? "cancelled"),
      ("cancellationReason", some (Value.orNull (v.get? "cancellationReason"))), ("summary", v.get? "summary"),
      ("violations", some (.arr ((itemsAt v "violations").map violation))),
      ("errors", some (.arr ((itemsAt v "errors").map error))),
      ("loadErrors", some (.arr ((itemsAt v "loadErrors").map loadError))),
      ("statistics", some (.arr (itemsAt v "statistics")))]

def render (document : Value) : String := document.pretty ++ "\n"

end Document

def Report.document (r : Report) : Value := Document.ofReport r.toValue

end RuleScan
