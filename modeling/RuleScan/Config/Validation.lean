import RuleScan.Config.Basic
import RuleScan.Text.Url
import RuleScan.Value.Printer

/-! Checking a decoded configuration. Every field that is present is checked on its own; a missing one
takes its default. A configuration is accepted when no check finds an issue. -/

namespace RuleScan

structure ConfigIssue where
  /-- The field, such as `analysis.maxSteps` or `ignore[2]`; empty for the whole. -/
  path : String
  message : String
  expected : String
  actual : Value
  suggestion : Option String := none

namespace ConfigIssue

def toValue (i : ConfigIssue) : Value :=
  Value.record
    [("path", some i.path), ("message", some i.message), ("expected", some i.expected),
      ("actual", some i.actual), ("suggestion", i.suggestion.map .str)]

/-- The path as shown to a reader. -/
def place (i : ConfigIssue) : String := if i.path = "" then "root" else i.path

def paragraph (i : ConfigIssue) (number : Nat) : String :=
  "\n" ++ toString number ++ ". " ++ i.place ++ ": " ++ i.message ++ "\n   Expected: " ++ i.expected ++
    "\n   Got: " ++ i.actual.compact ++
    (match i.suggestion with
    | some s => "\n   Suggestion: " ++ s
    | none => "")

/-- All issues, for a reader. -/
def format (issues : List ConfigIssue) : String :=
  if issues.isEmpty then "No errors"
  else
    "Configuration validation failed with " ++ toString issues.length ++ " error(s):\n" ++
      "\n".intercalate (issues.zipIdx.map fun (i, n) => i.paragraph (n + 1))

def summary (issues : List ConfigIssue) : String :=
  if issues.isEmpty then "Configuration is valid"
  else
    toString issues.length ++ " error(s) in: " ++ ", ".intercalate (issues.map (·.place)).eraseDups

end ConfigIssue

namespace Value

mutual

/-- A value as it reads in a running text, if it has a form there: items are joined by commas, and all objects read
alike. -/
def plainText : Value → String
  | .null => "null"
  | .bool b => if b then "true" else "false"
  | .num (.infinite negative) => if negative then "-Infinity" else "Infinity"
  | .num n => n.render
  | .str s => s
  | .arr items => ",".intercalate (plainItems items)
  | .obj _ => "[object Object]"

/-- The items of a list in a running text; null is left empty. -/
def plainItems : List Value → List String
  | [] => []
  | .null :: rest => "" :: plainItems rest
  | v :: rest => plainText v :: plainItems rest

end

mutual

/-- Whether a value has a form in a running text. An object has none if a member stands in place of what gives it
one. -/
def hasText : Value → Bool
  | .arr items => itemsHaveText items
  | .obj m => !Members.contains m "toString"
  | _ => true

def itemsHaveText : List Value → Bool
  | [] => true
  | v :: rest => hasText v && itemsHaveText rest

end

/-- A whole number of at least one. -/
def positive? : Value → Option Nat
  | .num n => n.toNat?.filter (1 ≤ ·)
  | _ => none

end Value

namespace Config

/-- The outcome of a check: what it found wrong, and the field with its default where it is missing
or wrong. -/
structure Checked (α : Type) where
  issues : List ConfigIssue
  value : α

def fields : List String :=
  ["rulesets", "include", "ignore", "disabledRules", "analysis", "registry", "baseline", "logLevel"]

/-- The issues of the entries of a list, from the `index`-th on. -/
def entryIssues (path : String) (index : Nat) : List Value → List ConfigIssue
  | [] => []
  | v :: rest =>
    let later := entryIssues path (index + 1) rest
    match v with
    | .str s => if s = "" then issue v :: later else later
    | _ => issue v :: later
where
  issue (v : Value) : ConfigIssue :=
    { path := path ++ "[" ++ toString index ++ "]", message := "Each entry must be a non-empty string"
      expected := "non-empty string", actual := v }

def checkTexts (path : String) : Option Value → Checked (List String)
  | none => ⟨[], []⟩
  | some (.arr items) =>
    ⟨entryIssues path 0 items, (items.filterMap Value.str?).filter (· ≠ "")⟩
  | some v =>
    let sample := if path = "rulesets" then "rules/" else "src/**"
    ⟨[{ path, message := path ++ " must be an array of strings", expected := "string[]"
        actual := v.kindWord, suggestion := some ("Use an array like: [\"" ++ sample ++ "\"]") }], []⟩

/-- A whole number of at least one. -/
def checkPositive (path : String) (fallback : Nat) : Option Value → Checked Nat
  | none => ⟨[], fallback⟩
  | some v =>
    match v.positive? with
    | some n => ⟨[], n⟩
    | none =>
      ⟨[{ path, message := path ++ " must be a positive integer", expected := "integer >= 1", actual := v }],
        fallback⟩

/-- A whole number of at least one, or null for none. -/
def checkLimit (path : String) (fallback : Option Nat) : Option Value → Checked (Option Nat)
  | none => ⟨[], fallback⟩
  | some .null => ⟨[], none⟩
  | some v =>
    match v.positive? with
    | some n => ⟨[], some n⟩
    | none =>
      ⟨[{ path, message := path ++ " must be a positive integer or null", expected := "integer >= 1 | null"
          actual := v, suggestion := some "Use null to remove the limit" }], fallback⟩

def checkPolicy (fallback : SyntaxPolicy) : Option Value → Checked SyntaxPolicy
  | none => ⟨[], fallback⟩
  | some v =>
    match v.str?.bind SyntaxPolicy.ofWord? with
    | some policy => ⟨[], policy⟩
    | none =>
      ⟨[{ path := "analysis.syntaxErrors"
          message := "Invalid syntax error policy \"" ++ v.plainText ++ "\""
          expected := " | ".intercalate (SyntaxPolicy.all.map SyntaxPolicy.word), actual := v
          suggestion := some "\"tolerate\" analyzes recovered trees, \"reject\" reports them as parse errors" }],
        fallback⟩

def checkAnalysis : Option Value → Checked AnalysisSettings
  | none => ⟨[], {}⟩
  | some (.obj m) =>
    let usual : AnalysisSettings := {}
    let policy := checkPolicy usual.syntaxErrors (Members.get? m "syntaxErrors")
    let workers := checkLimit "analysis.maxWorkers" usual.maxWorkers (Members.get? m "maxWorkers")
    let timeout := checkPositive "analysis.ruleTimeoutMs" usual.ruleTimeoutMs (Members.get? m "ruleTimeoutMs")
    let steps := checkPositive "analysis.maxSteps" usual.maxSteps (Members.get? m "maxSteps")
    let duration := checkLimit "analysis.maxDurationMs" usual.maxDurationMs (Members.get? m "maxDurationMs")
    let size := checkPositive "analysis.maxFileSizeBytes" usual.maxFileSizeBytes (Members.get? m "maxFileSizeBytes")
    ⟨policy.issues ++ workers.issues ++ timeout.issues ++ steps.issues ++ duration.issues ++ size.issues,
      { maxWorkers := workers.value, ruleTimeoutMs := timeout.value, maxSteps := steps.value
        maxDurationMs := duration.value, maxFileSizeBytes := size.value, syntaxErrors := policy.value }⟩
  | some v =>
    ⟨[{ path := "analysis", message := "Analysis settings must be an object"
        expected :=
          "\x7b maxWorkers?, ruleTimeoutMs?, maxSteps?, maxDurationMs?, maxFileSizeBytes?, syntaxErrors? \x7d"
        actual := v.kindWord }], {}⟩

/-- An address of a registry, or null for none. -/
def checkUrl [UrlReader] (fallback : Option String) : Option Value → Checked (Option String)
  | none => ⟨[], fallback⟩
  | some .null => ⟨[], none⟩
  | some v =>
    match v.str?.filter UrlReader.isHttp with
    | some url => ⟨[], some url⟩
    | none =>
      ⟨[{ path := "registry.url", message := "Registry URL must be an http(s) URL"
          expected := "http(s) URL | null", actual := v
          suggestion := some "Use a base URL like \"https://rules.example.com/api/v2\"" }], fallback⟩

def checkRegistry [UrlReader] : Option Value → Checked RegistrySettings
  | none => ⟨[], {}⟩
  | some (.obj m) =>
    let usual : RegistrySettings := {}
    let url := checkUrl usual.url (Members.get? m "url")
    let timeout := checkPositive "registry.timeoutMs" usual.timeoutMs (Members.get? m "timeoutMs")
    ⟨url.issues ++ timeout.issues, { url := url.value, timeoutMs := timeout.value }⟩
  | some v =>
    ⟨[{ path := "registry", message := "Registry settings must be an object"
        expected := "\x7b url?: string | null, timeoutMs?: number \x7d", actual := v.kindWord }], {}⟩

/-- A path that is not empty, or null for none. -/
def checkBaseline : Option Value → Checked (Option String)
  | none => ⟨[], none⟩
  | some .null => ⟨[], none⟩
  | some v =>
    match v.str?.filter (· ≠ "") with
    | some path => ⟨[], some path⟩
    | none =>
      ⟨[{ path := "baseline", message := "Baseline must be a file path or null"
          expected := "non-empty string | null", actual := v }], none⟩

def checkLogLevel : Option Value → Checked LogLevel
  | none => ⟨[], .info⟩
  | some v =>
    match v.str?.bind LogLevel.ofWord? with
    | some level => ⟨[], level⟩
    | none =>
      ⟨[{ path := "logLevel", message := "Invalid log level \"" ++ v.plainText ++ "\""
          expected := " | ".intercalate (LogLevel.all.map LogLevel.word), actual := v }], .info⟩

/-- An issue for every key that is no field, in walking order. -/
def unknownKeys (m : Members) : List ConfigIssue :=
  (m.keys.filter (!fields.contains ·)).map fun key =>
    { path := key, message := "Unknown configuration key \"" ++ key ++ "\""
      expected := " | ".intercalate fields, actual := key
      suggestion := some "Remove the key or check its spelling" }

def checkMembers [UrlReader] (m : Members) : Checked Config :=
  let baseline := checkBaseline (m.get? "baseline")
  let logLevel := checkLogLevel (m.get? "logLevel")
  let rulesets := checkTexts "rulesets" (m.get? "rulesets")
  let included := checkTexts "include" (m.get? "include")
  let ignored := checkTexts "ignore" (m.get? "ignore")
  let disabled := checkTexts "disabledRules" (m.get? "disabledRules")
  let analysis := checkAnalysis (m.get? "analysis")
  let registry := checkRegistry (m.get? "registry")
  ⟨unknownKeys m ++ baseline.issues ++ logLevel.issues ++ rulesets.issues ++ included.issues ++
      ignored.issues ++ disabled.issues ++ analysis.issues ++ registry.issues,
    { rulesets := rulesets.value, included := included.value, ignore := ignored.value
      disabledRules := disabled.value, analysis := analysis.value, registry := registry.value
      baseline := baseline.value, logLevel := logLevel.value }⟩

/-- Checks a decoded value, which may be missing. -/
def check [UrlReader] : Option Value → Checked Config
  | some (.obj m) => checkMembers m
  | v =>
    ⟨[{ path := "", message := "Configuration must be an object", expected := "object"
        actual := Value.describe v }], {}⟩

/-- Why a decoded value stands for no configuration. -/
inductive Refusal where
  | invalid (issues : List ConfigIssue)
  /-- A value that has no form in a running text was to be named in one. -/
  | textless

/-- Whether a value that an issue would name has no form in a running text: a log level, or a policy for syntax
errors. -/
def textless (v : Option Value) : Bool :=
  let level := v.bind (·.get? "logLevel")
  let policy := (v.bind (·.get? "analysis")).bind (·.get? "syntaxErrors")
  level.any (!·.hasText) || policy.any (!·.hasText)

/-- The configuration that a decoded value stands for, or what is wrong with it. -/
def validate [UrlReader] (v : Option Value) : Except Refusal Config :=
  if textless v then .error .textless
  else
    let checked := check v
    if checked.issues.isEmpty then .ok checked.value else .error (.invalid checked.issues)

end Config

end RuleScan
