import RuleScan.Disk.Basic
import RuleScan.Log.Basic
import RuleScan.Ruleset.Basic
import RuleScan.Ruleset.Registry

/-! Loading rulesets. A source that cannot be read or decoded gives one failure and no rules. -/

namespace RuleScan

/-- What loading can reach. -/
structure Reach where
  disk : Disk
  /-- The directory that relative paths start from. -/
  base : String
  registry : Option Registry := none
  network : Network := fun _ => .answered 404 "Not Found" ""

namespace Ruleset

inductive DecodeError where
  | notJson
  | notYaml
  deriving DecidableEq

def DecodeError.message : DecodeError → String
  | .notJson => "invalid JSON"
  | .notYaml => "invalid YAML"

/-- Decodes a text by the extension of its file; `yaml` is what it means in the other notation. -/
def decodeText (text fileName : String) (yaml : Option Value) : Except DecodeError Value :=
  if (Path.extension fileName).toLower = ".json" then
    match Value.parse? text with
    | some v => .ok v
    | none => .error .notJson
  else
    match yaml with
    | some v => .ok v
    | none => .error .notYaml

def loadFile (disk : Disk) (path : String) : Ruleset :=
  let name := Path.stem path
  match disk.read path with
  | .error e => failed path name "read-failed" ("Failed to read ruleset: " ++ e.message)
  | .ok file =>
    match decodeText file.content.lossy path file.decoded with
    | .error e => failed path name "parse-failed" ("Failed to parse ruleset: " ++ e.message)
    | .ok document => ofDocument path name (some document)

/-- The ruleset files of a directory, merged in order of their names. -/
def loadDirectory (disk : Disk) (path : String) : Ruleset :=
  let name := Path.basename path
  match disk.list path with
  | .error e => failed path name "read-failed" ("Failed to read ruleset directory: " ++ e.message)
  | .ok entries =>
    let files := entries.filterMap fun (entry, e) =>
      match e with
      | .file _ => if RulesetSource.isRulesetFile entry then some entry else none
      | _ => none
    let (rules, errors) := mergeAll (files.map fun file => loadFile disk (Path.join path file))
    { source := path, name, rules, errors }

def loadNamed (reach : Reach) (name : String) : Ruleset × List Request :=
  let display := RulesetSource.registryMark ++ name
  match reach.registry with
  | none => (failed display name "registry-not-configured" "No registry URL is configured", [])
  | some registry =>
    let requests := [registry.request name]
    match registry.fetch reach.network name with
    | .error e => (failed display name e.code e.message, requests)
    | .ok document => (ofDocument display name (some document), requests)

/-- Loads one source, with the requests it takes. -/
def load (reach : Reach) : RulesetSource → Ruleset × List Request
  | .inline name document => (ofDocument ("inline:" ++ name) name document, [])
  | .file path => (loadFile reach.disk (Path.resolve reach.base path), [])
  | .directory path => (loadDirectory reach.disk (Path.resolve reach.base path), [])
  | .registry name => loadNamed reach name

def failureLine (f : LoadFailure) : LogLine :=
  let place :=
    match f.position with
    | none => ""
    | some p =>
      let id := (f.ruleId.filter (· ≠ "")).elim "" fun id => " \"" ++ id ++ "\""
      " (rule #" ++ toString p ++ id ++ ")"
  .warn (f.source ++ place ++ ": " ++ f.message)

def logOf (source : RulesetSource) (set : Ruleset) : List LogLine :=
  [.debug ("Loading ruleset " ++ source.display)] ++ set.errors.map failureLine ++
    [.debug ("Loaded " ++ toString set.rules.length ++ " rule(s) from " ++ source.display)]

end Ruleset

structure LoadedRules where
  rules : List Rule
  errors : List LoadFailure
  rulesets : List Ruleset
  log : List LogLine
  requests : List Request

/-- Loads several sources into one list of rules; of one id the first stays. -/
def LoadedRules.load (reach : Reach) (sources : List RulesetSource) : LoadedRules :=
  let loaded := sources.map fun s => (s, Ruleset.load reach s)
  let sets := loaded.map (·.2.1)
  let (rules, errors) := Ruleset.mergeAll sets
  { rules := rules.map (·.1), errors, rulesets := sets
    log := loaded.flatMap fun (s, set, _) => Ruleset.logOf s set
    requests := loaded.flatMap (·.2.2) }

end RuleScan
