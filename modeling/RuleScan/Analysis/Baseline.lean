import RuleScan.Disk.Basic
import RuleScan.Report.Document
import RuleScan.Value.Parser

/-! Baselines: the fingerprints of violations that are accepted. -/

namespace RuleScan

inductive BaselineError where
  | unreadable (path reason : String)
  | malformed (path : String)
  deriving DecidableEq

namespace BaselineError

def path : BaselineError → String
  | .unreadable path _ | .malformed path => path

def message : BaselineError → String
  | .unreadable path reason => "Cannot read baseline " ++ path ++ ": " ++ reason
  | .malformed path => "Baseline " ++ path ++ " must hold a list of fingerprints"

end BaselineError

namespace Baseline

/-- A list of strings and nothing else. -/
def texts? : Value → Option (List String)
  | .arr items => items.mapM Value.str?
  | _ => none

/-- The fingerprints of a decoded baseline: a list, or an object that holds one. -/
def fingerprints? (v : Value) : Option (List String) := (texts? v).or ((v.get? "fingerprints").bind texts?)

def read (disk : Disk) (path : String) : Except BaselineError (List String) :=
  match disk.read path with
  | .error e => .error (.unreadable path e.message)
  | .ok file =>
    match Value.parse? file.content.lossy with
    | none => .error (.unreadable path "invalid JSON")
    | some v =>
      match fingerprints? v with
      | some prints => .ok prints
      | none => .error (.malformed path)

/-- Fingerprints each once, in code unit order. -/
def distinct (prints : List String) : List String := Text.sort prints.eraseDups

def ofViolations (vs : List Violation) : List String := distinct (vs.map (·.fingerprint))

def document (prints : List String) : Value :=
  Value.object [("schemaVersion", Document.schemaVersion), ("fingerprints", Value.strings prints)]

/-- Writes a baseline, making the directories it lies in. -/
def write (disk : Disk) (path : String) (prints : List String) : Except SystemError Disk := do
  let disk ← disk.makeDirectory (Path.parent path)
  disk.write path (Document.render (document prints))

end Baseline

end RuleScan
