import RuleScan.Analysis.Basic
import RuleScan.Evaluation.Clauses

/-! The analysis of one file: it is read and parsed once, and each rule for its language is evaluated
in order until the run is cancelled. -/

namespace RuleScan

/-- What others do while a file is analyzed: ask for a stop when its tree is built, or when a rule starts. -/
structure Interference where
  onParse : String → Bool := fun _ => false
  onRule : String → Bool := fun _ => false

structure UnitTools where
  parsers : ParserRegistry
  disk : Disk
  interference : Interference := {}

namespace FileUnit

/-- Whether the run is cancelled: a stop is asked for, or its time is over. -/
def cancellation (settings : UnitSettings) (world : Surroundings) : Option CancelReason × Surroundings :=
  let (stop, world) := world.look
  if stop then (some .aborted, world)
  else
    match settings.runDeadline with
    | none => (none, world)
    | some deadline =>
      let (now, world) := world.readClock
      (if deadline < now then some .budgetExceeded else none, world)

/-- The kind of a failed evaluation: running out of steps or time is a timeout. -/
def kindOf : EvalError → ErrorKind
  | .halted _ => .timeout
  | _ => .evaluation

def evaluationError (path ruleId : String) (kind : ErrorKind) (f : Fault) : AnalysisError :=
  { kind, file := path, ruleId := some ruleId, code := f.code.getD "evaluation-failed", message := f.message }

/-- Evaluates one rule on the tree of a file. A cancelled evaluation has no outcome. -/
def evaluateRule (path : String) (tree : Tree) (rule : Rule) (settings : UnitSettings)
    (collector : Collector) (world : Surroundings) :
    Except CancelReason RuleEvaluation × Collector × Surroundings :=
  let (startedAt, world) := world.readClock
  let tracker := Tracker.start
    { maxSteps := settings.maxSteps, deadline := some (startedAt + settings.ruleTimeoutMs)
      runDeadline := settings.runDeadline } world
  let failed (kind : ErrorKind) (f : Fault) (world : Surroundings) : RuleEvaluation × Surroundings :=
    let (now, world) := world.readClock
    ({ ruleId := rule.id, elapsedMs := now - startedAt, error := some (evaluationError path rule.id kind f) },
      world)
  match (Clause.evaluateAll tree rule.patterns).run tracker with
  | .error (.halted (.cancelled reason)) tracker => (.error reason, collector, tracker.world)
  | .error e tracker =>
    let (evaluation, world) := failed (kindOf e) e.fault tracker.world
    (.ok evaluation, collector, world)
  | .ok found tracker =>
    match Collector.collect path tree.language tree.source rule found collector with
    | (.error e, collector) =>
      let (evaluation, world) := failed .evaluation e.fault tracker.world
      (.ok evaluation, collector, world)
    | (.ok violations, after) =>
      let (now, world) := tracker.world.readClock
      (.ok
        { ruleId := rule.id, violations, duplicatesCollapsed := after.collapsed - collector.collapsed
          elapsedMs := now - startedAt }, after, world)

structure Progress where
  evaluations : List RuleEvaluation := []
  events : List UnitEvent := []
  cancellation : Option CancelReason := none
  world : Surroundings

/-- Evaluates the rules for a language in order, from the one with this index on. -/
def evaluateRules (path : String) (tree : Tree) (language : Language) (settings : UnitSettings)
    (interference : Interference) : List Rule → Nat → Collector → Surroundings → Progress
  | [], _, _, world => { world }
  | rule :: rest, index, collector, world =>
    if !rule.languages.contains language then
      evaluateRules path tree language settings interference rest (index + 1) collector world
    else
      match cancellation settings world with
      | (some reason, world) => { cancellation := some reason, world }
      | (none, world) =>
        let world := if interference.onRule rule.id then world.setStop true else world
        let start := UnitEvent.started rule.id index
        match evaluateRule path tree rule settings collector world with
        | (.error reason, _, world) => { events := [start], cancellation := some reason, world }
        | (.ok evaluation, collector, world) =>
          let later := evaluateRules path tree language settings interference rest (index + 1) collector world
          { later with
            evaluations := evaluation :: later.evaluations
            events := start :: .ended rule.id :: later.events }

def run (input : SourceInput) (rules : List Rule) (settings : UnitSettings) (tools : UnitTools)
    (world : Surroundings) : UnitResult × List UnitEvent × Surroundings :=
  let result : UnitResult := { path := input.path }
  match cancellation settings world with
  | (some reason, world) => ({ result with cancellation := some reason }, [], world)
  | (none, world) =>
    match input.language.or (tools.parsers.detect? input.path) with
    | none => ({ result with errors := [.ofParseError ⟨input.path, .unhandled input.path⟩] }, [], world)
    | some language =>
      match input.read settings.maxFileSizeBytes tools.disk with
      | .error e => ({ result with errors := [e] }, [], world)
      | .ok source =>
        if !rules.any (·.languages.contains language) then ({ result with analyzed := true }, [], world)
        else
          let parsed := tools.parsers.parse source language (some input.path) settings.syntaxErrors
          let stop := ParseError.afterBuild parsed && tools.interference.onParse input.path
          let world := if stop then world.setStop true else world
          match parsed with
          | .error e => ({ result with errors := [.ofParseError e] }, [], world)
          | .ok tree =>
            let p := evaluateRules input.path tree language settings tools.interference rules 0 {} world
            ({ result with analyzed := true, evaluations := p.evaluations, cancellation := p.cancellation },
              p.events, p.world)

end FileUnit

end RuleScan
