import RuleScan.Analysis.Report
import RuleScan.Value.Printer

/-! Reports in the SARIF 2.1.0 exchange format. -/

namespace RuleScan.Sarif

def toolName : String := "codeprobe"

def toolVersion : String := "0.1.0"

/-- A notice is called a note. -/
def level : Severity → String
  | .notice => "note"
  | s => s.word

def text (s : String) : Value := Value.object [("text", s)]

def artifact (uri : String) : Value := Value.object [("uri", uri)]

def region (l : Location) : Value :=
  Value.object
    [("startLine", Value.ofNat l.line), ("startColumn", Value.ofNat l.column), ("endLine", Value.ofNat l.endLine),
      ("endColumn", Value.ofNat l.endColumn)]

def fix (uri : String) (f : Fix) : Value :=
  Value.object
    [("description", text f.description),
      ("artifactChanges", .arr
        [Value.object
          [("artifactLocation", artifact uri),
            ("replacements", .arr (f.edits.map fun e =>
              Value.object [("deletedRegion", region e.location), ("insertedContent", text e.content)]))]])]

/-- The rules listed so far, each with the severity of its first violation, and the number of each by its name. -/
structure Listing where
  rules : List (String × Severity) := []
  index : List (String × Nat) := []

namespace Listing

/-- Lists the rule that a violation names, unless it has a number. -/
def add (l : Listing) (v : Violation) : Listing :=
  if (l.index.lookup v.ruleId).isSome then l
  else ⟨l.rules ++ [(v.ruleId, v.severity)], (v.ruleId, l.rules.length) :: l.index⟩

def ofViolations (vs : List Violation) : Listing := vs.foldl add {}

end Listing

def result (index : List (String × Nat)) (v : Violation) : Value :=
  Value.record
    [("ruleId", some v.ruleId), ("ruleIndex", some (Value.ofNat ((index.lookup v.ruleId).getD 0))),
      ("level", some (level v.severity)), ("message", some (text v.message)),
      ("locations", some (.arr
        [Value.object
          [("physicalLocation",
            Value.object [("artifactLocation", artifact v.file), ("region", region v.location)])]])),
      ("partialFingerprints", some (Value.object [("codeprobe/v1", v.fingerprint)])),
      ("fixes", v.fix.map fun f => .arr [fix v.file f])]

def errorNotification (e : AnalysisError) : Value :=
  let message :=
    match e.ruleId.filter (· ≠ "") with
    | some id => id ++ ": " ++ e.message
    | none => e.message
  Value.object
    [("level", if e.isFileFailure then "error" else "warning"), ("message", text message),
      ("descriptor", Value.object [("id", e.code)]),
      ("locations", .arr [Value.object
        [("physicalLocation", Value.object [("artifactLocation", artifact e.file)])]])]

def loadNotification (e : LoadFailure) : Value :=
  Value.object
    [("level", "error"), ("message", text (e.source ++ ": " ++ e.message)),
      ("descriptor", Value.object [("id", e.code)])]

def ofReport (r : Report) : Value :=
  let listing := Listing.ofViolations r.violations
  let driver := Value.object
    [("name", toolName), ("version", toolVersion),
      ("rules", .arr (listing.rules.map fun (id, severity) =>
        Value.object [("id", id), ("defaultConfiguration", Value.object [("level", level severity)])]))]
  Value.object
    [("$schema", "https://json.schemastore.org/sarif-2.1.0.json"), ("version", "2.1.0"),
      ("runs", .arr
        [Value.object
          [("tool", Value.object [("driver", driver)]),
            ("results", .arr (r.violations.map (result listing.index))),
            ("invocations", .arr
              [Value.object
                [("executionSuccessful", .bool (!r.cancelled)),
                  ("toolExecutionNotifications", .arr
                    (r.errors.map errorNotification ++ r.loadErrors.map loadNotification))]])]])]

end RuleScan.Sarif
