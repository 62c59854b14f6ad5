import RuleScan.Analysis.Discovery
import RuleScan.Analysis.Run
import RuleScan.Report.Fault
import RuleScan.Rule.Decoding
import RuleScan.Ruleset.Loading

/-! The analysis of a workspace: its rules are loaded, its files found, and the rules run over them.
Options are read from decoded values; what is missing there stays as usual. -/

namespace RuleScan

namespace ListingOrder

def ofWord? : String → Option ListingOrder
  | "deterministic" => some .deterministic
  | "arrival" => some .arrival
  | _ => none

end ListingOrder

def ExecutionMode.ofWord? (s : String) : Option ExecutionMode :=
  [ExecutionMode.workerThreads, .inProcess].find? (·.word == s)

def UnitSettings.ofValue (v : Value) : UnitSettings :=
  let usual : UnitSettings := {}
  { maxSteps := (v.intAt? "maxSteps").getD usual.maxSteps
    ruleTimeoutMs := (v.intAt? "ruleTimeoutMs").getD usual.ruleTimeoutMs
    maxFileSizeBytes := (v.intAt? "maxFileSizeBytes").getD usual.maxFileSizeBytes
    syntaxErrors := ((v.textAt? "syntaxErrors").bind SyntaxPolicy.ofWord?).getD usual.syntaxErrors
    runDeadline := v.intAt? "runDeadline" }

def RunOptions.ofValue (v : Value) : RunOptions :=
  let settings := UnitSettings.ofValue v
  { ruleIds := v.textsAt? "ruleIds", excludeRuleIds := (v.textsAt? "excludeRuleIds").getD []
    ruleTimeoutMs := settings.ruleTimeoutMs, maxSteps := settings.maxSteps
    maxDurationMs := v.intAt? "maxDurationMs"
    ordering := ((v.textAt? "ordering").bind ListingOrder.ofWord?).getD .deterministic
    execution := (v.textAt? "execution").bind ExecutionMode.ofWord?
    syntaxErrors := settings.syntaxErrors, maxFileSizeBytes := settings.maxFileSizeBytes
    baseline := v.textsAt? "baseline", collectStatistics := v.boolAt "collectStatistics" }

structure WorkspaceOptions extends RunOptions where
  included : List String := []
  ignore : List String := []
  registry : Option Registry := none
  /-- The number of files analyzed at a time; the report does not depend on it. -/
  maxWorkers : Option Number := none

inductive WorkspaceError where
  | unreadable (root reason : String)
  | notDirectory (root : String)
  | noRules (sources loadErrors : Nat)
  | noFiles (root : String)
  | cannotRun (e : RunError)
  deriving DecidableEq

namespace WorkspaceError

def message : WorkspaceError → String
  | .unreadable root reason => "Cannot read workspace " ++ root ++ ": " ++ reason
  | .notDirectory root => root ++ " is not a directory"
  | .noRules _ _ => "No rule could be loaded from the given rulesets"
  | .noFiles root => "No files to analyze under " ++ root
  | .cannotRun e => e.message

def code? : WorkspaceError → Option String
  | .unreadable .. | .notDirectory _ => some "workspace-unreadable"
  | .noRules .. => some "no-rules"
  | .noFiles _ => some "no-files"
  | .cannotRun _ => none

def context : WorkspaceError → Members
  | .unreadable root _ | .notDirectory root | .noFiles root => [("workspaceRoot", .str root)]
  | .noRules sources loadErrors =>
    [("sources", Value.ofNat sources), ("loadErrors", Value.ofNat loadErrors)]
  | .cannotRun _ => []

def fault (e : WorkspaceError) : Fault :=
  match e.code? with
  | none => .plain "Error" e.message
  | some code =>
    { name := "FatalAnalysisError", message := e.message, code := some code, recoverable := false
      context := e.context }

end WorkspaceError

namespace Workspace

structure Tools extends UnitTools where
  network : Network := fun _ => .answered 404 "Not Found" ""
  /-- Whether the parsers are one's own. -/
  ownParsers : Bool := false

/-- The outcome of an analysis: the report or why there is none, and what happened on the way. -/
structure Outcome where
  result : Except WorkspaceError Report
  log : List LogLine := []
  requests : List Request := []
  world : Surroundings

def checkRoot (disk : Disk) (root : String) : Except WorkspaceError Unit :=
  match disk.stat root with
  | .error e => .error (.unreadable root e.message)
  | .ok (.directory _) => .ok ()
  | .ok _ => .error (.notDirectory root)

/-- The files to analyze: those listed and not ignored, or those found. -/
def filesOf (root : String) (listed : Option (List String)) (options : WorkspaceOptions) (tools : Tools) :
    Except WorkspaceError (List String) :=
  let found : Except SystemError (List String) :=
    match listed with
    | some files =>
      .ok ((files.map (Discovery.workspacePath root)).filter (!Glob.anyAccepts options.ignore ·))
    | none =>
      let d : Discovery := { parsers := tools.parsers, included := options.included, ignore := options.ignore }
      d.files tools.disk root
  match found with
  | .error e => .error (.unreadable root e.message)
  | .ok [] => .error (.noFiles root)
  | .ok files => .ok files

def analyze (root : String) (listed : Option (List String)) (sources : List RulesetSource)
    (options : WorkspaceOptions) (tools : Tools) (world : Surroundings) : Outcome :=
  match checkRoot tools.disk root with
  | .error e => { result := .error e, world }
  | .ok () =>
    let loaded := LoadedRules.load
      { disk := tools.disk, base := root, registry := options.registry, network := tools.network } sources
    let failed (e : WorkspaceError) : Outcome :=
      { result := .error e, log := loaded.log, requests := loaded.requests, world }
    if (Rule.select options.toRunOptions loaded.rules).isEmpty then
      failed (.noRules sources.length loaded.errors.length)
    else
      match filesOf root listed options tools with
      | .error e => failed e
      | .ok files =>
        match AnalysisRun.executionFor options.execution tools.ownParsers with
        | .error e => failed (.cannotRun e)
        | .ok mode =>
          let inputs : List SourceInput := files.map fun path => { path, absolutePath := some (Path.join root path) }
          let run := AnalysisRun.run inputs loaded.rules options.toRunOptions loaded.errors mode tools.toUnitTools world
          { result := .ok run.report, log := loaded.log ++ run.log, requests := loaded.requests, world := run.world }

end Workspace

end RuleScan
