import RuleScan.Analysis.Report
import RuleScan.Analysis.Unit
import RuleScan.Log.Basic

/-! A run: every rule over every file, and the report of what was found. A file that fails never stops
the run. -/

namespace RuleScan

/-- The order in which a report lists what was found. -/
inductive ListingOrder where
  | deterministic
  | arrival
  deriving DecidableEq

/-- Where files are analyzed. -/
inductive ExecutionMode where
  | workerThreads
  | inProcess
  deriving DecidableEq

def ExecutionMode.word : ExecutionMode → String
  | .workerThreads => "worker-threads"
  | .inProcess => "in-process"

/-- Which rules run, and under which limits. -/
structure RunOptions where
  /-- Only these rules, if there are any. -/
  ruleIds : Option (List String) := none
  excludeRuleIds : List String := []
  ruleTimeoutMs : Int := 5000
  maxSteps : Int := 2000000
  maxDurationMs : Option Int := none
  ordering : ListingOrder := .deterministic
  execution : Option ExecutionMode := none
  syntaxErrors : SyntaxPolicy := .tolerate
  maxFileSizeBytes : Int := 1048576
  /-- Fingerprints of violations that are not reported. -/
  baseline : Option (List String) := none
  collectStatistics : Bool := false

namespace Rule

def isSelected (options : RunOptions) (id : String) : Bool :=
  (match options.ruleIds with
  | none | some [] => true
  | some ids => ids.contains id) && !options.excludeRuleIds.contains id

def select (options : RunOptions) (rules : List Rule) : List Rule := rules.filter (isSelected options ·.id)

end Rule

inductive RunError where
  /-- Parsers of one's own exist on the calling thread only. -/
  | ownParsersOnThreads
  deriving DecidableEq

def RunError.message : RunError → String
  | .ownParsersOnThreads =>
    "A custom parser registry cannot be used on worker threads; use in-process execution"

namespace AnalysisRun

/-- Where files are analyzed, given what is asked for and whether the parsers are one's own. -/
def executionFor (requested : Option ExecutionMode) (ownParsers : Bool) : Except RunError ExecutionMode :=
  if requested = some .workerThreads && ownParsers then .error .ownParsersOnThreads
  else .ok (requested.getD (if ownParsers then .inProcess else .workerThreads))

/-- How far a run has come. -/
structure State where
  world : Surroundings
  cancellation : Option CancelReason := none
  log : List LogLine := []
  units : List UnitResult := []

namespace State

/-- Cancels the run; the first reason stays. -/
def cancel (s : State) (reason : CancelReason) : State :=
  match s.cancellation with
  | some _ => s
  | none =>
    { s with
      cancellation := some reason
      log := s.log ++ [.debug ("Cancelling analysis: " ++ reason.word)] }

/-- Cancels the run if a stop is asked for or its time is over. -/
def check (s : State) (settings : UnitSettings) : State :=
  match s.cancellation with
  | some _ => s
  | none =>
    match FileUnit.cancellation settings s.world with
    | (some reason, world) => { s with world }.cancel reason
    | (none, world) => { s with world }

/-- Reads the clock, as at the start and at the end of each file. -/
def tick (s : State) : State := { s with world := s.world.readClock.2 }

/-- Analyzes one file; once the run is cancelled it is left alone. -/
def step (rules : List Rule) (settings : UnitSettings) (tools : UnitTools) (s : State) (input : SourceInput) :
    State :=
  let s := s.tick.check settings
  match s.cancellation with
  | some _ => State.tick { s with units := s.units ++ [{ path := input.path }] }
  | none =>
    let (result, _, world) := FileUnit.run input rules settings tools s.world
    let s := { s with world, units := s.units ++ [result] }
    (match result.cancellation with
    | some reason => s.cancel reason
    | none => s).tick

end State

def unitLog (unit : UnitResult) : List LogLine :=
  unit.errors.map (fun e => LogLine.debug ("Skipped " ++ e.file ++ ": " ++ e.message)) ++
    unit.evaluations.filterMap fun evaluation =>
      evaluation.error.map fun e =>
        LogLine.warn ("Rule " ++ evaluation.ruleId ++
          (if e.kind = .timeout then " timed out on " else " failed on ") ++ unit.path ++ ": " ++ e.message)

def addStatistics (evaluation : RuleEvaluation) : List RuleStatistics → List RuleStatistics
  | [] => [grow { ruleId := evaluation.ruleId }]
  | s :: rest =>
    if s.ruleId = evaluation.ruleId then grow s :: rest else s :: addStatistics evaluation rest
where
  grow (s : RuleStatistics) : RuleStatistics :=
    let elapsed := Number.ofInt evaluation.elapsedMs
    let failed : Option ErrorKind := evaluation.error.map AnalysisError.kind
    { s with
      files := s.files + 1
      violations := s.violations + evaluation.violations.length
      executionTimeMs := s.executionTimeMs.add elapsed
      maxExecutionTimeMs := if s.maxExecutionTimeMs.lt elapsed then elapsed else s.maxExecutionTimeMs
      timeouts := s.timeouts + (if failed = some .timeout then 1 else 0)
      errors := s.errors + (if failed.isSome && failed ≠ some .timeout then 1 else 0) }

/-- The statistics of each rule, in order of the ids. -/
def statistics (evaluations : List RuleEvaluation) : List RuleStatistics :=
  (evaluations.foldl (fun acc e => addStatistics e acc) []).mergeSort fun a b => Text.le a.ruleId b.ruleId

def report (options : RunOptions) (rulesLoaded : Nat) (loadErrors : List LoadFailure) (units : List UnitResult)
    (cancellation : Option CancelReason) (durationMs : Int) : Report :=
  let evaluations := units.flatMap (·.evaluations)
  let errors := units.flatMap (·.errors) ++ evaluations.filterMap (·.error)
  let found := evaluations.flatMap (·.violations)
  let ordered := options.ordering = .deterministic
  let errors := if ordered then AnalysisError.sort errors else errors
  let found := if ordered then Violation.sort found else found
  let violations :=
    match options.baseline with
    | none => found
    | some known => found.filter (!known.contains ·.fingerprint)
  { violations, errors, loadErrors
    summary :=
      { filesAnalyzed := units.countP (·.analyzed), filesFailed := errors.countP (·.isFileFailure)
        rulesLoaded, evaluations := evaluations.countP (·.error.isNone), violations := violations.length
        errors := errors.length, bySeverity := SeverityCounts.of violations
        duplicatesCollapsed := evaluations.foldl (fun n e => n + e.duplicatesCollapsed) 0
        suppressed := found.length - violations.length, durationMs := Number.ofInt durationMs }
    cancelled := cancellation.isSome
    reason := cancellation
    statistics := if options.collectStatistics then some (statistics evaluations) else none }

/-- The outcome of a run: the report, what was logged, and the surroundings after it. -/
structure Outcome where
  report : Report
  log : List LogLine
  world : Surroundings

/-- Runs the selected rules over the inputs in order. -/
def run (inputs : List SourceInput) (rules : List Rule) (options : RunOptions) (loadErrors : List LoadFailure)
    (mode : ExecutionMode) (tools : UnitTools) (world : Surroundings) : Outcome :=
  let (startedAt, world) := world.readClock
  let selected := Rule.select options rules
  let settings : UnitSettings :=
    { maxSteps := options.maxSteps, ruleTimeoutMs := options.ruleTimeoutMs
      maxFileSizeBytes := options.maxFileSizeBytes, syntaxErrors := options.syntaxErrors
      runDeadline := options.maxDurationMs.map (startedAt + ·) }
  let opening := LogLine.info ("Analyzing " ++ toString inputs.length ++ " file(s) with " ++
    toString selected.length ++ " rule(s) (" ++ mode.word ++ ")")
  let s := (inputs.foldl (State.step selected settings tools) { world, log := [opening] }).check settings
  let (now, world) := s.world.readClock
  let report := report options rules.length loadErrors s.units s.cancellation (now - startedAt)
  let notice :=
    match s.cancellation with
    | none => []
    | some reason =>
      [LogLine.warn ("Analysis cancelled (" ++ reason.word ++ "); the report covers completed units only")]
  let closing := LogLine.info ("Found " ++ toString report.summary.violations ++ " violation(s) in " ++
    toString report.summary.filesAnalyzed ++ " file(s), " ++ toString report.summary.errors ++ " error(s) in " ++
    report.summary.durationMs.render ++ "ms")
  { report, log := s.log ++ s.units.flatMap unitLog ++ notice ++ [closing], world }

end AnalysisRun

end RuleScan
