import RuleScan.Analysis.Unit
import RuleScan.Proofs.Evaluation.Surroundings
import RuleScan.Proofs.Rule.Deduplication

/-! What the analysis of one file does: it ends before any rule, or evaluates rules in order with one
collector, each of which comes to a conclusion of its own or is out of time. -/
namespace RuleScan

def AnalysisError.OutOfTime (e : AnalysisError) : Prop :=
  e.kind = .timeout ∧ ∃ elapsed, e.message = (Halt.timeLimit 0 elapsed).message

namespace RuleEvaluation

def untimed (e : RuleEvaluation) : RuleEvaluation := { e with elapsedMs := 0 }

/-- The evaluation was halted by its time limit. -/
def OutOfTime (e : RuleEvaluation) : Prop := ∃ err ∈ e.error, err.OutOfTime

end RuleEvaluation

def UnitResult.untimed (u : UnitResult) : UnitResult := { u with evaluations := u.evaluations.map (·.untimed) }

namespace SourceInput

/-- A file that is not read is too large, or no text, or the system refuses it. -/
theorem error_of_read {input : SourceInput} {limit : Int} {disk : Disk} {e : AnalysisError}
    (h : input.read limit disk = .error e) :
    (∃ size, e = .ofParseError ⟨input.path, .tooLarge size limit⟩) ∨ e = .ofParseError ⟨input.path, .notUtf8⟩ ∨
      ∃ refusal : SystemError, e =
        { kind := .read, file := input.path, code := "read-failed"
          message := "Failed to read file: " ++ refusal.message } := by
  have hdecode : ∀ {content : Content}, decode content input.path = .error e →
      e = .ofParseError ⟨input.path, .notUtf8⟩ := by
    intro content hd
    unfold decode at hd
    split at hd
    · cases hd
    · exact (Except.error.inj hd).symm
  unfold read at h
  dsimp only at h
  split at h
  · split at h
    · exact .inl ⟨_, (Except.error.inj h).symm⟩
    · cases h
  · split at h
    · exact .inl ⟨_, (Except.error.inj h).symm⟩
    · exact .inr (.inl (hdecode h))
  · split at h
    · exact .inr (.inr ⟨_, (Except.error.inj h).symm⟩)
    · exact .inr (.inr ⟨_, (Except.error.inj h).symm⟩)
    · split at h
      · exact .inl ⟨_, (Except.error.inj h).symm⟩
      · exact .inr (.inl (hdecode h))
    · exact .inr (.inr ⟨_, (Except.error.inj h).symm⟩)

end SourceInput

namespace FileUnit

/-- An evaluation that failed, with its time left out. -/
def failure (path ruleId : String) (kind : ErrorKind) (f : Fault) : RuleEvaluation :=
  { ruleId, elapsedMs := 0, error := some (evaluationError path ruleId kind f) }

/-- What evaluating a rule comes to when nothing but its steps can halt it, with its time left out. -/
def conclude (path : String) (tree : Tree) (maxSteps : Int) (rule : Rule) (c : Collector) :
    RuleEvaluation × Collector :=
  match Clause.outcome tree rule.patterns maxSteps with
  | .error e => (failure path rule.id (kindOf e) e.fault, c)
  | .ok found =>
    match Collector.collect path tree.language tree.source rule found c with
    | (.error e, after) => (failure path rule.id .evaluation e.fault, after)
    | (.ok violations, after) =>
      ({ ruleId := rule.id, violations, duplicatesCollapsed := after.collapsed - c.collapsed, elapsedMs := 0 },
        after)

section Rules

variable {path : String} {tree : Tree} {settings : UnitSettings}

/-- A rule's search fails, or what it found cannot be reported, or violations are collected. -/
theorem conclude_cases (path : String) (tree : Tree) (maxSteps : Int) (rule : Rule) (c : Collector) :
    (∃ e, Clause.outcome tree rule.patterns maxSteps = .error e ∧
        conclude path tree maxSteps rule c = (failure path rule.id (kindOf e) e.fault, c)) ∨
      ∃ found, Clause.outcome tree rule.patterns maxSteps = .ok found ∧
        ((∃ e after, Collector.collect path tree.language tree.source rule found c = (.error e, after) ∧
            conclude path tree maxSteps rule c = (failure path rule.id .evaluation e.fault, after)) ∨
          ∃ violations after,
            Collector.collect path tree.language tree.source rule found c = (.ok violations, after) ∧
            conclude path tree maxSteps rule c =
              ({ ruleId := rule.id, violations, duplicatesCollapsed := after.collapsed - c.collapsed
                 elapsedMs := 0 }, after)) := by
  unfold conclude
  cases Clause.outcome tree rule.patterns maxSteps with
  | error e => exact .inl ⟨e, rfl, rfl⟩
  | ok found =>
    refine .inr ⟨found, rfl, ?_⟩
    dsimp only
    rcases Collector.collect path tree.language tree.source rule found c with ⟨e | violations, after⟩
    · exact .inl ⟨e, after, rfl, rfl⟩
    · exact .inr ⟨violations, after, rfl, rfl⟩

def trackerOf (settings : UnitSettings) (w : Surroundings) : Tracker :=
  .start
    { maxSteps := settings.maxSteps, deadline := some (w.readClock.1 + settings.ruleTimeoutMs)
      runDeadline := settings.runDeadline } w.readClock.2

/-- What the search of a rule that started at some time is made into. -/
def wrapUp (path : String) (tree : Tree) (rule : Rule) (startedAt : Int) (c : Collector) :
    EStateM.Result EvalError Tracker (List Match) → Except CancelReason RuleEvaluation × Collector × Surroundings
  | .error (.halted (.cancelled reason)) t => (.error reason, c, t.world)
  | .error e t =>
    (.ok { failure path rule.id (kindOf e) e.fault with elapsedMs := t.world.readClock.1 - startedAt }, c,
      t.world.readClock.2)
  | .ok found t =>
    match Collector.collect path tree.language tree.source rule found c with
    | (.error e, after) =>
      (.ok { failure path rule.id .evaluation e.fault with elapsedMs := t.world.readClock.1 - startedAt }, after,
        t.world.readClock.2)
    | (.ok violations, after) =>
      (.ok
        { ruleId := rule.id, violations, duplicatesCollapsed := after.collapsed - c.collapsed
          elapsedMs := t.world.readClock.1 - startedAt }, after, t.world.readClock.2)

theorem evaluateRule_eq (rule : Rule) (c : Collector) (w : Surroundings) :
    evaluateRule path tree rule settings c w =
      wrapUp path tree rule w.readClock.1 c (Clause.evaluateAll tree rule.patterns (trackerOf settings w)) := by
  unfold evaluateRule
  change (match Clause.evaluateAll tree rule.patterns (trackerOf settings w) with
    | .error (.halted (.cancelled reason)) t' => _
    | .error err t' => _
    | .ok found t' => _) = _
  rcases Clause.evaluateAll tree rule.patterns (trackerOf settings w) with ⟨found, t⟩ | ⟨e, t⟩
  · rfl
  · rcases e with (_ | _ | _) | _ | _ | _ | _ | _ | _ <;> rfl

/-- A search that the surroundings do not halt is made into the rule's conclusion. -/
theorem exists_wrapUp_eq (path : String) {rule : Rule} {w : Surroundings}
    (h : ∀ halt t, Clause.evaluateAll tree rule.patterns (trackerOf settings w) = .error (.halted halt) t → ¬halt.Outer)
    (c : Collector) :
    ∃ e, evaluateRule path tree rule settings c w =
        (.ok e, (conclude path tree settings.maxSteps rule c).2,
          (Counted.trackerLeft (Clause.evaluateAll tree rule.patterns (trackerOf settings w))).world.readClock.2) ∧
      e.untimed = (conclude path tree settings.maxSteps rule c).1 := by
  have hmax : (trackerOf settings w).budget.maxSteps = settings.maxSteps := rfl
  rw [evaluateRule_eq]
  unfold conclude
  rcases Clause.evaluateAll_trichotomy tree rule.patterns (t := trackerOf settings w) rfl with
    ⟨o, t', ho, hout, hrun⟩ | ⟨steps, elapsed, steps', elapsed', t', hout, hrun⟩ | ⟨halt, t', hrun, houter⟩
  · rw [hrun, ← hmax, hout]
    cases o with
    | error err =>
      cases err with
      | halted halt => exact absurd rfl (ho halt)
      | query _ | regex _ | misplaced _ | noPositive | noNode _ | readOnly _ => exact ⟨_, rfl, rfl⟩
    | ok found =>
      dsimp only [Counted.ended, wrapUp]
      rcases Collector.collect path tree.language tree.source rule found c with ⟨_ | vs, after⟩
      · exact ⟨_, rfl, rfl⟩
      · exact ⟨_, rfl, rfl⟩
  · rw [hrun, ← hmax, hout]
    exact ⟨_, rfl, rfl⟩
  · exact absurd houter (h halt t' hrun)

/-- An evaluation that ends is out of time, or is the rule's conclusion. -/
theorem evaluateRule_cases {rule : Rule} {c c' : Collector} {w w' : Surroundings} {e : RuleEvaluation}
    (h : evaluateRule path tree rule settings c w = (.ok e, c', w')) :
    (∃ elapsed, e.untimed = failure path rule.id .timeout (Halt.timeLimit 0 elapsed).fault ∧ c' = c) ∨
      (e.untimed, c') = conclude path tree settings.maxSteps rule c := by
  by_cases hinner : ∀ halt t,
      Clause.evaluateAll tree rule.patterns (trackerOf settings w) = .error (.halted halt) t → ¬halt.Outer
  · obtain ⟨e', heval, he'⟩ := exists_wrapUp_eq path hinner c
    rw [h] at heval
    cases heval
    exact .inr (Prod.ext he' rfl)
  · -- of the halts that come from outside only a time limit gives an evaluation
    push Not at hinner
    obtain ⟨halt, t, hrun, houter⟩ := hinner
    rw [evaluateRule_eq, hrun] at h
    cases halt with
    | stepLimit _ _ _ => exact houter.elim
    | cancelled reason => cases h
    | timeLimit steps elapsed =>
      cases h
      exact .inl ⟨elapsed, rfl, rfl⟩

theorem outOfTime_of_untimed {ruleId : String} {e : RuleEvaluation} {elapsed : Int}
    (h : e.untimed = failure path ruleId .timeout (Halt.timeLimit 0 elapsed).fault) : e.OutOfTime := by
  have herror : e.untimed.error = _ := congrArg RuleEvaluation.error h
  exact ⟨_, herror, rfl, elapsed, rfl⟩

/-- A rule is let start in some surroundings, and its evaluation ends. -/
def Evaluates (path : String) (tree : Tree) (settings : UnitSettings) (interference : Interference)
    (rule : Rule) (c : Collector) (w : Surroundings) (e : RuleEvaluation) (c' : Collector) : Prop :=
  ∃ w₁ w₂, cancellation settings w = (none, w₁) ∧
    evaluateRule path tree rule settings c (if interference.onRule rule.id then w₁.setStop true else w₁) =
      (.ok e, c', w₂)

/-- Rules are evaluated one after another with one collector. -/
inductive Evaluated (path : String) (tree : Tree) (settings : UnitSettings) (interference : Interference) :
    List Rule → Collector → List RuleEvaluation → Prop
  | nil (c : Collector) : Evaluated path tree settings interference [] c []
  | cons {rule : Rule} {rules : List Rule} {c c' : Collector} {w : Surroundings} {e : RuleEvaluation}
      {es : List RuleEvaluation} (head : Evaluates path tree settings interference rule c w e c')
      (tail : Evaluated path tree settings interference rules c' es) :
      Evaluated path tree settings interference (rule :: rules) c (e :: es)

variable {interference : Interference}

variable (path tree settings interference) in
/-- The rules for a language are evaluated in order, all of them unless the run is cancelled. -/
theorem evaluated_evaluateRules (language : Language) (rules : List Rule) (index : Nat) (c : Collector)
    (w : Surroundings) :
    ∃ done, done <+: rules.filter (·.languages.contains language) ∧
      ((evaluateRules path tree language settings interference rules index c w).cancellation = none →
        done = rules.filter (·.languages.contains language)) ∧
      Evaluated path tree settings interference done c
        (evaluateRules path tree language settings interference rules index c w).evaluations := by
  induction rules generalizing index c w with
  | nil => exact ⟨[], List.prefix_rfl, fun _ => rfl, .nil c⟩
  | cons rule rules ih =>
    rw [evaluateRules]
    by_cases hl : rule.languages.contains language
    · simp only [hl, Bool.not_true, Bool.false_eq_true, if_false, List.filter_cons_of_pos]
      rcases hcheck : cancellation settings w with ⟨_ | reason, w₁⟩
      · dsimp only
        rcases hrule : evaluateRule path tree rule settings c
          (if interference.onRule rule.id then w₁.setStop true else w₁) with ⟨reason | e, c', w₂⟩
        · exact ⟨[], List.nil_prefix, nofun, .nil c⟩
        · obtain ⟨done, hfront, hall, hdone⟩ := ih (index + 1) c' w₂
          refine ⟨rule :: done, List.cons_prefix_cons.mpr ⟨rfl, hfront⟩, fun h => ?_, ?_⟩
          · rw [hall h]
          · exact .cons ⟨w₁, w₂, hcheck, hrule⟩ hdone
      · exact ⟨[], List.nil_prefix, nofun, .nil c⟩
    · have hskip : (rule :: rules).filter (·.languages.contains language) =
          rules.filter (·.languages.contains language) := List.filter_cons_of_neg hl
      rw [hskip]
      simp only [hl, Bool.not_false, if_true]
      exact ih (index + 1) c w

/-- What rules that share a collector come to when nothing but their steps can halt them. -/
def concludeAll (path : String) (tree : Tree) (maxSteps : Int) : List Rule → Collector → List RuleEvaluation
  | [], _ => []
  | rule :: rules, c =>
    (conclude path tree maxSteps rule c).1 ::
      concludeAll path tree maxSteps rules (conclude path tree maxSteps rule c).2

/-- Without time limits that are reached, rules come to their conclusions. -/
theorem Evaluated.map_untimed {rules : List Rule} {c : Collector} {es : List RuleEvaluation}
    (h : Evaluated path tree settings interference rules c es) (htime : ∀ e ∈ es, ¬e.OutOfTime) :
    es.map (·.untimed) = concludeAll path tree settings.maxSteps rules c := by
  induction h with
  | nil => rfl
  | cons head tail ih =>
    obtain ⟨w₁, w₂, -, hrule⟩ := head
    obtain ⟨hfirst, hrest⟩ := List.forall_mem_cons.mp htime
    rcases evaluateRule_cases hrule with ⟨elapsed, he, -⟩ | he
    · exact absurd (outOfTime_of_untimed he) hfirst
    · rw [List.map_cons, ih hrest, concludeAll, ← he]

theorem cancellation_still {w : Surroundings} {now : Int} (hw : w.SameAhead (.still now))
    (hdeadline : ∀ d ∈ settings.runDeadline, now ≤ d) :
    ∃ w', cancellation settings w = (none, w') ∧ w'.SameAhead (.still now) := by
  have hstop : w.look.1 = false := hw.look_fst
  have hnow : w.look.2.readClock.1 = now := hw.look_still.readClock_fst
  unfold cancellation
  simp only [hstop, Bool.false_eq_true, if_false]
  cases hd : settings.runDeadline with
  | none => exact ⟨_, rfl, hw.look_still⟩
  | some deadline =>
    have hle := hdeadline deadline hd
    simp only [hnow, Int.not_lt.mpr hle, if_false]
    exact ⟨_, rfl, hw.look_still.readClock_still⟩

/-- In surroundings that stay as they are, a rule comes to its conclusion. -/
theorem exists_evaluateRule_eq (path : String) (tree : Tree) {w : Surroundings} {now : Int}
    (hw : w.SameAhead (.still now)) (htimeout : 0 ≤ settings.ruleTimeoutMs)
    (hdeadline : ∀ d ∈ settings.runDeadline, now ≤ d) (rule : Rule) (c : Collector) :
    ∃ e w', evaluateRule path tree rule settings c w = (.ok e, (conclude path tree settings.maxSteps rule c).2, w') ∧
      e.untimed = (conclude path tree settings.maxSteps rule c).1 ∧ w'.SameAhead (.still now) := by
  have hnow : w.readClock.1 = now := hw.readClock_fst
  have hcalm : (trackerOf settings w).Calm now := by
    refine ⟨hw.readClock_still.readClock_still, ?_, hdeadline⟩
    rintro _ ⟨⟩
    omega
  have hsearch := Clause.undisturbed_evaluateAll tree rule.patterns hcalm
  obtain ⟨e, heval, he⟩ := exists_wrapUp_eq path hsearch.inner c
  exact ⟨e, _, heval, he, hsearch.calm.world.readClock_still⟩

theorem evaluateRules_still (path : String) (tree : Tree) (language : Language) {rules : List Rule}
    {w : Surroundings} {now : Int} (hw : w.SameAhead (.still now)) (htimeout : 0 ≤ settings.ruleTimeoutMs)
    (hdeadline : ∀ d ∈ settings.runDeadline, now ≤ d) (hquiet : ∀ rule ∈ rules, interference.onRule rule.id = false)
    (index : Nat) (c : Collector) :
    (evaluateRules path tree language settings interference rules index c w).cancellation = none ∧
      (evaluateRules path tree language settings interference rules index c w).evaluations.map (·.untimed) =
        concludeAll path tree settings.maxSteps (rules.filter (·.languages.contains language)) c := by
  induction rules generalizing index c w with
  | nil => exact ⟨rfl, rfl⟩
  | cons rule rules ih =>
    obtain ⟨hrule, hrules⟩ := List.forall_mem_cons.mp hquiet
    rw [evaluateRules]
    by_cases hl : rule.languages.contains language
    · obtain ⟨w₁, hcheck, hw₁⟩ := cancellation_still hw hdeadline
      obtain ⟨e, w₂, heval, he, hw₂⟩ := exists_evaluateRule_eq path tree hw₁ htimeout hdeadline rule c
      obtain ⟨hcancel, hlater⟩ := ih hw₂ hrules (index + 1) (conclude path tree settings.maxSteps rule c).2
      simp only [hl, Bool.not_true, Bool.false_eq_true, if_false, List.filter_cons_of_pos, hcheck, hrule, heval]
      exact ⟨hcancel, by rw [List.map_cons, he, hlater, concludeAll]⟩
    · have hskip : (rule :: rules).filter (·.languages.contains language) =
          rules.filter (·.languages.contains language) := List.filter_cons_of_neg hl
      rw [hskip]
      simp only [hl, Bool.not_false, if_true]
      exact ih hw hrules (index + 1) c

end Rules

/-! The file itself. -/

def languageOf? (input : SourceInput) (tools : UnitTools) : Option Language :=
  input.language.or (tools.parsers.detect? input.path)

/-- Reads and parses a file. Without a rule for its language there is no need of a tree. -/
def opened (input : SourceInput) (rules : List Rule) (settings : UnitSettings) (tools : UnitTools) :
    Except AnalysisError (Option (Language × Tree)) :=
  match languageOf? input tools with
  | none => .error (.ofParseError ⟨input.path, .unhandled input.path⟩)
  | some language =>
    match input.read settings.maxFileSizeBytes tools.disk with
    | .error e => .error e
    | .ok source =>
      if rules.any (·.languages.contains language) then
        match tools.parsers.parse source language (some input.path) settings.syntaxErrors with
        | .error e => .error (.ofParseError e)
        | .ok tree => .ok (some (language, tree))
      else .ok none

/-- The result of a file that is not left alone: one failure, no need for rules, or what its rules came to. -/
def started (input : SourceInput) (rules : List Rule) (settings : UnitSettings) (tools : UnitTools)
    (world : Surroundings) : UnitResult :=
  match opened input rules settings tools with
  | .error e => { path := input.path, errors := [e] }
  | .ok none => { path := input.path, analyzed := true }
  | .ok (some (language, tree)) =>
    let p := evaluateRules input.path tree language settings tools.interference rules 0 {}
      (if tools.interference.onParse input.path then world.setStop true else world)
    { path := input.path, analyzed := true, evaluations := p.evaluations, cancellation := p.cancellation }

theorem run_fst (input : SourceInput) (rules : List Rule) (settings : UnitSettings) (tools : UnitTools)
    (world : Surroundings) :
    (run input rules settings tools world).1 =
      match cancellation settings world with
      | (some reason, _) => { path := input.path, cancellation := some reason }
      | (none, world) => started input rules settings tools world := by
  unfold run started opened languageOf?
  rcases cancellation settings world with ⟨_ | reason, world⟩
  · dsimp only
    cases input.language.or (tools.parsers.detect? input.path) with
    | none => rfl
    | some language =>
      dsimp only
      cases input.read settings.maxFileSizeBytes tools.disk with
      | error e => rfl
      | ok source =>
        dsimp only
        cases rules.any (·.languages.contains language) with
        | false => rfl
        | true =>
          simp only [Bool.not_true, Bool.false_eq_true, if_false, if_true]
          cases tools.parsers.parse source language (some input.path) settings.syntaxErrors with
          | error e => rfl
          | ok tree => simp only [ParseError.afterBuild, Bool.true_and]
  · rfl

theorem exists_run_eq_started {input : SourceInput} {rules : List Rule} {settings : UnitSettings}
    {tools : UnitTools} {world : Surroundings}
    (h : (run input rules settings tools world).1.cancellation = none) :
    ∃ world', (run input rules settings tools world).1 = started input rules settings tools world' := by
  rw [run_fst] at h ⊢
  revert h
  rcases cancellation settings world with ⟨_ | reason, world'⟩
  · exact fun _ => ⟨world', rfl⟩
  · exact nofun

def comesTo (input : SourceInput) (rules : List Rule) (settings : UnitSettings) (tools : UnitTools) : UnitResult :=
  match opened input rules settings tools with
  | .error e => { path := input.path, errors := [e] }
  | .ok none => { path := input.path, analyzed := true }
  | .ok (some (language, tree)) =>
    { path := input.path, analyzed := true
      evaluations := concludeAll input.path tree settings.maxSteps (rules.filter (·.languages.contains language)) {} }

/-- A run that is neither cancelled nor out of time is fixed by the file and the rules. -/
theorem untimed_run {input : SourceInput} {rules : List Rule} {settings : UnitSettings} {tools : UnitTools}
    {world : Surroundings} (hrun : (run input rules settings tools world).1.cancellation = none)
    (htime : ∀ e ∈ (run input rules settings tools world).1.evaluations, ¬e.OutOfTime) :
    (run input rules settings tools world).1.untimed = comesTo input rules settings tools := by
  obtain ⟨world', hstarted⟩ := exists_run_eq_started hrun
  rw [hstarted] at hrun htime ⊢
  unfold started at hrun htime ⊢
  unfold comesTo
  rcases hopened : opened input rules settings tools with e | _ | ⟨language, tree⟩
  · rfl
  · rfl
  · rw [hopened] at hrun htime
    dsimp only at hrun htime ⊢
    obtain ⟨done, -, hall, hdone⟩ := evaluated_evaluateRules input.path tree settings tools.interference language
      rules 0 {}
      (if tools.interference.onParse input.path then world'.setStop true else world')
    obtain rfl := hall hrun
    rw [UnitResult.untimed, hdone.map_untimed htime, hrun]

/-- In surroundings that stay as they are, with nobody to ask for a stop and limits that are not over from the
start, a file comes to what is fixed by it and the rules. -/
theorem run_still (input : SourceInput) (rules : List Rule) (settings : UnitSettings) (tools : UnitTools) {now : Int}
    (htimeout : 0 ≤ settings.ruleTimeoutMs) (hdeadline : ∀ d ∈ settings.runDeadline, now ≤ d)
    (hparse : tools.interference.onParse input.path = false)
    (hquiet : ∀ rule ∈ rules, tools.interference.onRule rule.id = false) :
    (run input rules settings tools (.still now)).1.cancellation = none ∧
      (run input rules settings tools (.still now)).1.untimed = comesTo input rules settings tools := by
  have hstill : (Surroundings.still now).SameAhead (.still now) := ⟨fun _ => rfl, fun _ => rfl⟩
  obtain ⟨w, hcheck, hw⟩ := cancellation_still hstill hdeadline
  rw [run_fst, hcheck]
  unfold comesTo started
  rcases opened input rules settings tools with e | _ | ⟨language, tree⟩
  · exact ⟨rfl, rfl⟩
  · exact ⟨rfl, rfl⟩
  · obtain ⟨hcancel, hevaluations⟩ := evaluateRules_still input.path tree language hw htimeout hdeadline hquiet 0 {}
    simp only [hparse, Bool.false_eq_true, if_false, hcancel, UnitResult.untimed, hevaluations, and_self]

/-- The texts that are hashed for the fingerprints of a rule on a tree. -/
def hashedBy (path : String) (tree : Tree) (maxSteps : Int) (rule : Rule) : List String :=
  match Clause.outcome tree rule.patterns maxSteps with
  | .error _ => []
  | .ok found => (Collector.findings rule found).map (·.identity path tree.source)

def hashed (input : SourceInput) (rules : List Rule) (settings : UnitSettings) (tools : UnitTools) : List String :=
  match opened input rules settings tools with
  | .ok (some (language, tree)) =>
    (rules.filter (·.languages.contains language)).flatMap (hashedBy input.path tree settings.maxSteps)
  | _ => []

end FileUnit

end RuleScan
