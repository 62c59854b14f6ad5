import RuleScan.Config.Validation
import RuleScan.Disk.Basic
import RuleScan.Number.Rounding
import RuleScan.Report.Fault
import RuleScan.Text.Blank
import RuleScan.Value.Merging
import RuleScan.Value.Parser

/-! Loading the configuration of a workspace: the file, with the variables of the environment laid
over it. -/

namespace RuleScan

abbrev Environment := List (String × String)

/-- A whole number written in decimal digits, blanks around it apart, and at least one. -/
def Number.positiveDecimal? (s : String) : Option Number :=
  let digits := (Text.trim s).toList
  if digits.isEmpty || !digits.all Char.isDigit then none
  else
    let n := Number.ofDecimal false (digits.foldl (fun n c => n * 10 + (c.toNat - 48)) 0) 0
    if 0 < n.sign then some n else none

namespace Config

def numberVariables : List (String × String) :=
  [("CODEPROBE_MAX_WORKERS", "maxWorkers"), ("CODEPROBE_RULE_TIMEOUT_MS", "ruleTimeoutMs"),
    ("CODEPROBE_MAX_STEPS", "maxSteps"), ("CODEPROBE_MAX_DURATION_MS", "maxDurationMs")]

/-- The members that the environment sets; a number or a level that cannot be read is ignored. -/
def overrides (env : Environment) : Members :=
  let numbers := numberVariables.filterMap fun (name, field) =>
    ((env.lookup name).bind Number.positiveDecimal?).map fun n => (field, Value.num n)
  let analysis : Members := if numbers.isEmpty then [] else [("analysis", .obj numbers)]
  let registry : Members :=
    match (env.lookup "CODEPROBE_REGISTRY_URL").filter (· ≠ "") with
    | some url => [("registry", .obj [("url", url)])]
    | none => []
  let level : Members :=
    match (env.lookup "CODEPROBE_LOG_LEVEL").bind fun s => LogLevel.ofWord? s.toLower with
    | some l => [("logLevel", l.word)]
    | none => []
  analysis ++ registry ++ level

def variableNames : List String :=
  numberVariables.map (·.1) ++ ["CODEPROBE_REGISTRY_URL", "CODEPROBE_LOG_LEVEL"]

inductive LoadError where
  | unreadable (path : String) (cause : SystemError)
  | notJson (path : String)
  | notObject (path : String)
  | invalid (issues : List ConfigIssue)
  | textless

namespace LoadError

def ofRefusal : Refusal → LoadError
  | .invalid issues => .invalid issues
  | .textless => .textless

def name : LoadError → String
  | .unreadable .. => "ConfigLoadError"
  | .notJson _ | .notObject _ => "ConfigParseError"
  | .invalid _ => "ConfigValidationFailedError"
  | .textless => "TypeError"

def message : LoadError → String
  | .unreadable _ cause => "Failed to read configuration file: " ++ cause.message
  | .notJson _ => "Failed to parse configuration file: invalid JSON"
  | .notObject _ => "Configuration must be a JSON object"
  | .invalid issues => ConfigIssue.summary issues
  | .textless => "Cannot convert object to primitive value"

def path? : LoadError → Option String
  | .unreadable path _ | .notJson path | .notObject path => some path
  | .invalid _ | .textless => none

end LoadError

structure Loaded where
  config : Config
  /-- The file, if there is one. -/
  file : Option String
  overridden : Bool

def fileOf (workspace : String) : String := Path.join workspace ".codeprobe/config.json"

/-- The members of the configuration file, if there is one. -/
def readFile (disk : Disk) (path : String) : Except LoadError (Option Members) :=
  match disk.read path with
  | .error (.noEntry _ _) => .ok none
  | .error cause => .error (.unreadable path cause)
  | .ok file =>
    match Value.parse? file.content.lossy with
    | none => .error (.notJson path)
    | some (.obj m) => .ok (some m)
    | some _ => .error (.notObject path)

/-- Loads the configuration of a workspace; without a file it is the default one. -/
def load [UrlReader] (disk : Disk) (workspace : String) (env : Environment) : Except LoadError Loaded := do
  let path := fileOf workspace
  let found ← readFile disk path
  let laid := overrides env
  let members := if laid.isEmpty then found.getD [] else Value.mergeMembers (found.getD []) laid
  match validate (some (.obj members)) with
  | .error refusal => .error (.ofRefusal refusal)
  | .ok config => .ok { config, file := found.map fun _ => path, overridden := !laid.isEmpty }

end Config

end RuleScan
