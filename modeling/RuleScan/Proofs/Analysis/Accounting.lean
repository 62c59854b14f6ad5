import Mathlib.Algebra.GroupWithZero.Nat
import RuleScan.Proofs.Analysis.Determinism

/-! Every input and every evaluation is accounted for. A file that is not cancelled is analyzed, with one
evaluation of each rule for its language, or fails once; so the numbers of a report, which are taken from
different lists, add up. -/
namespace RuleScan

def SeverityCounts.total (c : SeverityCounts) : Nat := c.error + c.warning + c.notice

theorem SeverityCounts.total_of (vs : List Violation) : (of vs).total = vs.length := by
  induction vs with
  | nil => rfl
  | cons v vs ih =>
    simp only [total, of, List.countP_cons, List.length_cons] at ih ⊢
    cases v.severity <;> simp <;> omega

namespace FileUnit

/-- The file was analyzed, with one evaluation of each rule for its language, in order; or it failed once, and
no rule was evaluated. -/
inductive Complete (input : SourceInput) (rules : List Rule) (tools : UnitTools) : UnitResult → Prop
  | analyzed {u : UnitResult} {language : Language} (analyzed : u.analyzed = true) (errors : u.errors = [])
      (known : languageOf? input tools = some language)
      (evaluations : u.evaluations.map (·.ruleId) = (rules.filter (·.languages.contains language)).map (·.id))
      (failures : ∀ e ∈ u.evaluations.filterMap (·.error), e.isFileFailure = false) :
      Complete input rules tools u
  | failed {u : UnitResult} {e : AnalysisError} (analyzed : u.analyzed = false) (errors : u.errors = [e])
      (failure : e.isFileFailure = true) (evaluations : u.evaluations = []) : Complete input rules tools u

section Rules

variable {path : String} {tree : Tree} {settings : UnitSettings} {interference : Interference}

theorem isFileFailure_evaluationError {ruleId : String} {kind : ErrorKind} {f : Fault}
    (h : kind = .timeout ∨ kind = .evaluation) : (evaluationError path ruleId kind f).isFileFailure = false := by
  rcases h with rfl | rfl <;> rfl

theorem kindOf_cases (e : EvalError) : kindOf e = .timeout ∨ kindOf e = .evaluation := by
  cases e
  case halted => exact .inl rfl
  all_goals exact .inr rfl

theorem isFileFailure_of_evaluateRule {rule : Rule} {c c' : Collector} {w w' : Surroundings} {e : RuleEvaluation}
    (h : evaluateRule path tree rule settings c w = (.ok e, c', w')) :
    ∀ err ∈ e.error, err.isFileFailure = false := by
  change ∀ err ∈ e.untimed.error, err.isFileFailure = false
  have hfailure : ∀ {kind : ErrorKind} (f : Fault), kind = .timeout ∨ kind = .evaluation →
      ∀ err ∈ (failure path rule.id kind f).error, err.isFileFailure = false := by
    rintro kind f hkind err ⟨⟩
    exact isFileFailure_evaluationError hkind
  rcases evaluateRule_cases h with ⟨elapsed, he, -⟩ | he
  · rw [he]
    exact hfailure _ (.inl rfl)
  rcases conclude_cases path tree settings.maxSteps rule c with
    ⟨err, -, hc⟩ | ⟨found, -, ⟨err, after, -, hc⟩ | ⟨vs, after, -, hc⟩⟩
  · rw [(Prod.mk.inj (he.trans hc)).1]
    exact hfailure _ (kindOf_cases err)
  · rw [(Prod.mk.inj (he.trans hc)).1]
    exact hfailure _ (.inr rfl)
  · rw [(Prod.mk.inj (he.trans hc)).1]
    exact nofun

/-- There is one evaluation for each rule, in order, and none that fails is a failure of the file. -/
theorem Evaluated.complete {rules : List Rule} {c : Collector} {es : List RuleEvaluation}
    (h : Evaluated path tree settings interference rules c es) :
    es.map (·.ruleId) = rules.map (·.id) ∧ ∀ e ∈ es.filterMap (·.error), e.isFileFailure = false := by
  induction h with
  | nil => exact ⟨rfl, fun e he => absurd he List.not_mem_nil⟩
  | @cons rule rules c c' w e es head tail ih =>
    obtain ⟨w₁, w₂, -, hrule⟩ := head
    obtain ⟨hids, hfailures⟩ := ih
    constructor
    · rw [List.map_cons, List.map_cons, hids, ruleId_of_evaluateRule hrule]
    · intro err herr
      obtain ⟨e', he', hsome⟩ := List.mem_filterMap.mp herr
      rcases List.mem_cons.mp he' with rfl | he'
      · exact isFileFailure_of_evaluateRule hrule err hsome
      · exact hfailures err (List.mem_filterMap.mpr ⟨e', he', hsome⟩)

end Rules

variable {input : SourceInput} {rules : List Rule} {settings : UnitSettings} {tools : UnitTools}

theorem isFileFailure_ofParseError (e : ParseError) : (AnalysisError.ofParseError e).isFileFailure = true := rfl

theorem isFileFailure_of_read {limit : Int} {disk : Disk} {e : AnalysisError}
    (h : input.read limit disk = .error e) : e.isFileFailure = true := by
  obtain ⟨_, rfl⟩ | rfl | ⟨_, rfl⟩ := input.error_of_read h <;> rfl

/-- A file cannot be opened; or it has a language without rules; or it has a language and a tree. -/
theorem opened_accounts (input : SourceInput) (rules : List Rule) (settings : UnitSettings) (tools : UnitTools) :
    (∃ e, opened input rules settings tools = .error e ∧ e.isFileFailure = true) ∨
      ∃ language, languageOf? input tools = some language ∧
        (opened input rules settings tools = .ok none ∧ rules.filter (·.languages.contains language) = [] ∨
          ∃ tree, opened input rules settings tools = .ok (some (language, tree))) := by
  unfold opened
  cases languageOf? input tools with
  | none => exact .inl ⟨_, rfl, rfl⟩
  | some language =>
    dsimp only
    cases hread : input.read settings.maxFileSizeBytes tools.disk with
    | error e => exact .inl ⟨e, rfl, isFileFailure_of_read hread⟩
    | ok source =>
      dsimp only
      split
      · cases tools.parsers.parse source language (some input.path) settings.syntaxErrors with
        | error e => exact .inl ⟨_, rfl, isFileFailure_ofParseError e⟩
        | ok tree => exact .inr ⟨language, rfl, .inr ⟨tree, rfl⟩⟩
      · next hnone =>
        refine .inr ⟨language, rfl, .inl ⟨rfl, ?_⟩⟩
        simpa using hnone

/-- A file that is not cancelled is analyzed or fails. -/
theorem complete_run {world : Surroundings} (h : (run input rules settings tools world).1.cancellation = none) :
    Complete input rules tools (run input rules settings tools world).1 := by
  obtain ⟨world', hstarted⟩ := exists_run_eq_started h
  rw [hstarted] at h ⊢
  unfold started at h ⊢
  rcases opened_accounts input rules settings tools with
    ⟨e, hopened, hfailure⟩ | ⟨language, hlanguage, ⟨hopened, hnone⟩ | ⟨tree, hopened⟩⟩
  · rw [hopened]
    exact .failed rfl rfl hfailure rfl
  · rw [hopened]
    refine .analyzed rfl rfl hlanguage ?_ nofun
    rw [hnone]
    rfl
  · rw [hopened] at h ⊢
    dsimp only at h ⊢
    obtain ⟨done, -, hall, hdone⟩ := evaluated_evaluateRules input.path tree settings tools.interference language
      rules 0 {}
      (if tools.interference.onParse input.path then world'.setStop true else world')
    obtain ⟨hids, hfailures⟩ := hdone.complete
    exact .analyzed rfl rfl hlanguage (by rw [hids, hall h]) hfailures

end FileUnit

namespace AnalysisRun

/-! Sums over the statistics of all rules. -/

section Statistics

variable {measure : RuleStatistics → Nat} {amount : RuleEvaluation → Nat}

theorem sum_addStatistics {e : RuleEvaluation} (hnone : measure { ruleId := e.ruleId } = 0)
    (hgrow : ∀ s, measure (addStatistics.grow e s) = measure s + amount e) (acc : List RuleStatistics) :
    ((addStatistics e acc).map measure).sum = (acc.map measure).sum + amount e := by
  induction acc with
  | nil => simp [addStatistics, hgrow, hnone]
  | cons s acc ih =>
    rw [addStatistics]
    split
    · simp only [List.map_cons, List.sum_cons, hgrow]
      omega
    · simp only [List.map_cons, List.sum_cons, ih]
      omega

variable (amount) in
/-- What every evaluation adds to the entry of its rule adds up over all entries. -/
theorem sum_statistics (hnone : ∀ id, measure { ruleId := id } = 0)
    (hgrow : ∀ e s, measure (addStatistics.grow e s) = measure s + amount e) (es : List RuleEvaluation) :
    ((statistics es).map measure).sum = (es.map amount).sum := by
  have hfold : ∀ acc : List RuleStatistics, ((es.foldl (fun acc e => addStatistics e acc) acc).map measure).sum =
      (acc.map measure).sum + (es.map amount).sum := by
    induction es with
    | nil => simp
    | cons e es ih =>
      intro acc
      rw [List.foldl_cons, ih, sum_addStatistics (hnone _) (hgrow e), List.map_cons, List.sum_cons]
      omega
  unfold statistics
  rw [((List.mergeSort_perm _ _).map measure).sum_nat, hfold]
  simp

end Statistics

theorem sum_files_statistics (es : List RuleEvaluation) : ((statistics es).map (·.files)).sum = es.length := by
  rw [sum_statistics (fun _ => 1) (fun _ => rfl) fun _ _ => rfl]
  simp

theorem sum_violations_statistics (es : List RuleEvaluation) :
    ((statistics es).map (·.violations)).sum = (es.flatMap (·.violations)).length := by
  rw [sum_statistics (fun e => e.violations.length) (fun _ => rfl) fun _ _ => rfl, List.length_flatMap]

theorem sum_failures_statistics (es : List RuleEvaluation) :
    ((statistics es).map fun s => s.errors + s.timeouts).sum = es.countP (·.error.isSome) := by
  have hgrow : ∀ (e : RuleEvaluation) (s : RuleStatistics),
      (addStatistics.grow e s).errors + (addStatistics.grow e s).timeouts =
        s.errors + s.timeouts + if e.error.isSome then 1 else 0 := by
    intro e s
    unfold addStatistics.grow
    cases e.error with
    | none => simp
    | some err =>
      by_cases htimeout : err.kind = .timeout <;> simp [htimeout] <;> omega
  rw [sum_statistics (fun e => if e.error.isSome then 1 else 0) (fun _ => rfl) hgrow]
  induction es with
  | nil => rfl
  | cons e es ih =>
    rw [List.map_cons, List.sum_cons, List.countP_cons, ih]
    omega

/-! The numbers of a report. -/

section Report

variable (options : RunOptions) (rulesLoaded : Nat) (loadErrors : List LoadFailure) (units : List UnitResult)
  (cancellation : Option CancelReason) (durationMs : Int)

theorem perm_errors_report :
    (report options rulesLoaded loadErrors units cancellation durationMs).errors.Perm (errorsOf units) := by
  unfold report errorsOf
  dsimp only
  split
  · exact List.mergeSort_perm _ _
  · exact List.Perm.refl _

theorem filesFailed_report :
    (report options rulesLoaded loadErrors units cancellation durationMs).summary.filesFailed =
      (errorsOf units).countP (·.isFileFailure) :=
  (perm_errors_report options rulesLoaded loadErrors units cancellation durationMs).countP_eq _

theorem errors_report :
    (report options rulesLoaded loadErrors units cancellation durationMs).summary.errors = (errorsOf units).length :=
  (perm_errors_report options rulesLoaded loadErrors units cancellation durationMs).length_eq

end Report

section Units

variable {rules : List Rule} {tools : UnitTools} {units : List UnitResult}
  (h : ∀ u ∈ units, ∃ input, FileUnit.Complete input rules tools u)

include h

theorem countP_analyzed_add_length : units.countP (·.analyzed) + (units.flatMap (·.errors)).length = units.length := by
  induction units with
  | nil => rfl
  | cons u units ih =>
    obtain ⟨⟨input, hu⟩, hunits⟩ := List.forall_mem_cons.mp h
    have hrest := ih hunits
    rw [List.countP_cons, List.flatMap_cons, List.length_append, List.length_cons]
    cases hu with
    | analyzed analyzed errors =>
      simp only [analyzed, errors, if_true, List.length_nil]
      omega
    | failed analyzed errors =>
      simp only [analyzed, errors, Bool.false_eq_true, if_false, List.length_singleton]
      omega

/-- Failures of files are those that files list themselves. -/
theorem countP_errorsOf : (errorsOf units).countP (·.isFileFailure) = (units.flatMap (·.errors)).length := by
  have hfiles : (units.flatMap (·.errors)).countP (·.isFileFailure) = (units.flatMap (·.errors)).length := by
    refine List.countP_eq_length.mpr fun e he => ?_
    obtain ⟨u, hu, he⟩ := List.mem_flatMap.mp he
    obtain ⟨input, hcomplete⟩ := h u hu
    cases hcomplete with
    | analyzed analyzed errors =>
      rw [errors] at he
      cases he
    | failed analyzed errors failure =>
      rw [errors, List.mem_singleton] at he
      rwa [he]
  have hevaluations : ((units.flatMap (·.evaluations)).filterMap (·.error)).countP (·.isFileFailure) = 0 := by
    refine List.countP_eq_zero.mpr fun err herr => ?_
    obtain ⟨e, he, hsome⟩ := List.mem_filterMap.mp herr
    obtain ⟨u, hu, he⟩ := List.mem_flatMap.mp he
    obtain ⟨input, hcomplete⟩ := h u hu
    cases hcomplete with
    | analyzed analyzed errors known evaluations failures =>
      rw [failures err (List.mem_filterMap.mpr ⟨e, he, hsome⟩)]
      exact Bool.false_ne_true
    | failed analyzed errors failure evaluations =>
      rw [evaluations] at he
      cases he
  rw [errorsOf, List.countP_append, hfiles, hevaluations, Nat.add_zero]

end Units

theorem length_errorsOf (units : List UnitResult) : (errorsOf units).length =
    (units.flatMap (·.errors)).length + (units.flatMap (·.evaluations)).countP (·.error.isSome) := by
  rw [errorsOf, List.length_append, List.length_filterMap_eq_countP]

theorem violations_add_suppressed (options : RunOptions) (rulesLoaded : Nat) (loadErrors : List LoadFailure)
    (units : List UnitResult) (cancellation : Option CancelReason) (durationMs : Int) :
    let r := report options rulesLoaded loadErrors units cancellation durationMs
    r.summary.violations + r.summary.suppressed = (violationsOf units).length := by
  intro r
  obtain ⟨listed, hperm, hsublist, -⟩ :=
    exists_listed_report options rulesLoaded loadErrors units cancellation durationMs
  have hle : r.violations.length ≤ (violationsOf units).length := hperm.length_eq ▸ hsublist.length_le
  have hfound : (if options.ordering = .deterministic then Violation.sort (violationsOf units)
      else violationsOf units).length = (violationsOf units).length := by
    split
    · exact (List.mergeSort_perm _ _).length_eq
    · rfl
  have hsuppressed : r.summary.suppressed = (if options.ordering = .deterministic then
      Violation.sort (violationsOf units) else violationsOf units).length - r.violations.length := by
    simp only [r, report, violationsOf]
  have hviolations : r.summary.violations = r.violations.length := rfl
  omega

/-- A run of which the caller has got what every file ended in. -/
structure Concluded (mode : ExecutionMode) (workers : Int) (inputs : List SourceInput) (rules : List Rule)
    (options : RunOptions) (tools : UnitTools) (startedAt : Int) (s : Stage)
    (ended : List (SettledTask SourceInput UnitResult)) : Prop where
  reached : Relation.ReflTransGen (Step mode (Rule.select options rules) (settingsAt options startedAt) tools)
    ⟨.forBatch workers inputs, none⟩ s
  results : (0, .results ended) ∈ s.pool.replies

section Runs

variable {workers startedAt : Int} {inputs : List SourceInput} {rules : List Rule} {options : RunOptions}
  {tools : UnitTools} {s : Stage} {ended : List (SettledTask SourceInput UnitResult)}

/-- Every task of the run has ended, and in some way that it can end in. -/
theorem Concluded.account {mode : ExecutionMode}
    (h : Concluded mode workers inputs rules options tools startedAt s ended) :
    (ended.map (·.task)).Perm (TaskPool.tasksOf inputs) ∧
      ∀ e ∈ ended,
        Accounted mode (Rule.select options rules) (settingsAt options startedAt) tools s.cancellation e := by
  obtain ⟨ended', hbatch, hended⟩ := exists_account h.reached
  obtain ⟨rfl, hperm⟩ := hbatch.results h.results
  exact ⟨hperm, hended⟩

/-- Every file of a run that is not cancelled was analyzed or failed. -/
theorem Concluded.complete (h : Concluded .inProcess workers inputs rules options tools startedAt s ended)
    (hcancelled : s.cancellation = none) {e : SettledTask SourceInput UnitResult} (he : e ∈ ended) :
    ∃ u, e.outcome = .completed u ∧ FileUnit.Complete e.task.input (Rule.select options rules) tools u := by
  have haccounted := h.account.2 e he
  unfold Accounted at haccounted
  rw [hcancelled] at haccounted
  split at haccounted
  · next u hu =>
    rcases haccounted with ⟨hends, hnone⟩ | ⟨hsome, -⟩
    · obtain ⟨world, hworld⟩ := hends.inProcess
      refine ⟨u, hu, ?_⟩
      rw [hworld] at hnone ⊢
      exact FileUnit.complete_run (hnone rfl)
    · cases hsome
  · cases haccounted
  · cases haccounted

theorem Concluded.length_unitsOf (h : Concluded .inProcess workers inputs rules options tools startedAt s ended)
    (hcancelled : s.cancellation = none) : (unitsOf ended).length = inputs.length := by
  have hresults : (unitsOf ended).length = ended.length := by
    rw [unitsOf_inProcess h.account.2, completedOf, List.length_filterMap_eq_countP]
    refine List.countP_eq_length.mpr fun e he => ?_
    obtain ⟨u, hu, -⟩ := h.complete hcancelled he
    simp [resultOf?, hu]
  have hended := h.account.1.length_eq
  have hinputs := congrArg List.length (TaskPool.tasksOf_input inputs)
  simp only [List.length_map] at hended hinputs
  omega

theorem Concluded.complete_unitsOf (h : Concluded .inProcess workers inputs rules options tools startedAt s ended)
    (hcancelled : s.cancellation = none) :
    ∀ u ∈ unitsOf ended, ∃ input, FileUnit.Complete input (Rule.select options rules) tools u := by
  rw [unitsOf_inProcess h.account.2]
  intro u hu
  obtain ⟨e, he, hresult⟩ := List.mem_filterMap.mp hu
  obtain ⟨u', hu', hcomplete⟩ := h.complete hcancelled he
  rw [outcome_of_resultOf? hresult] at hu'
  cases hu'
  exact ⟨e.task.input, hcomplete⟩

/-- Every input and every evaluation of an in-process run that is not cancelled is accounted for. Each input
ends once, analyzed with one evaluation of each selected rule for its language, in order, or with one failure
and no evaluation. In the report, files analyzed and failed are all inputs, errors are those of failed files and
failed evaluations, the severities add up to the violations listed, and the statistics to all evaluations, to
those that failed, and to the violations listed or suppressed. -/
theorem Concluded.accounted (h : Concluded .inProcess workers inputs rules options tools startedAt s ended)
    (loadErrors : List LoadFailure) (durationMs : Int) {r : Report}
    (hr : r = report options rules.length loadErrors (unitsOf ended) s.cancellation durationMs)
    (hcancelled : r.cancelled = false) :
    let evaluations := (unitsOf ended).flatMap (·.evaluations)
    ((ended.map (·.task)).Perm (TaskPool.tasksOf inputs) ∧
      ∀ e ∈ ended, ∃ u, e.outcome = .completed u ∧
        FileUnit.Complete e.task.input (Rule.select options rules) tools u) ∧
      r.summary.filesAnalyzed + r.summary.filesFailed = inputs.length ∧
      r.summary.errors = r.summary.filesFailed + evaluations.countP (·.error.isSome) ∧
      r.summary.bySeverity.total = r.summary.violations ∧ r.summary.violations = r.violations.length ∧
      ∀ statistics ∈ r.statistics,
        (statistics.map (·.files)).sum = evaluations.length ∧
        (statistics.map fun s => s.errors + s.timeouts).sum = evaluations.countP (·.error.isSome) ∧
        (statistics.map (·.violations)).sum = r.summary.violations + r.summary.suppressed := by
  intro evaluations
  have hnone : s.cancellation = none := by
    rw [hr] at hcancelled
    exact Option.isSome_eq_false_iff.mp hcancelled |> Option.isNone_iff_eq_none.mp
  have hunits := h.complete_unitsOf hnone
  have hfailed : r.summary.filesFailed = ((unitsOf ended).flatMap (·.errors)).length := by
    rw [hr, filesFailed_report, countP_errorsOf hunits]
  refine ⟨⟨h.account.1, fun e he => h.complete hnone he⟩, ?_, ?_, ?_, ?_, ?_⟩
  · have hanalyzed : r.summary.filesAnalyzed = (unitsOf ended).countP (·.analyzed) := by
      rw [hr]
      rfl
    rw [hanalyzed, hfailed, countP_analyzed_add_length hunits, h.length_unitsOf hnone]
  · rw [hfailed, hr, errors_report, length_errorsOf]
  · rw [hr]
    exact SeverityCounts.total_of _
  · rw [hr]
    rfl
  · intro stats hstats
    obtain rfl : statistics evaluations = stats := by
      rw [hr] at hstats
      unfold report at hstats
      dsimp only at hstats
      split at hstats
      · exact Option.some.inj hstats
      · cases hstats
    refine ⟨sum_files_statistics _, sum_failures_statistics _, ?_⟩
    rw [sum_violations_statistics, hr, violations_add_suppressed]
    rfl

end Runs

open OneNode in
/-- A file with an evaluation that fails and one that does not, and a file that no parser handles. -/
theorem Concluded.accounted_mixed :
    let r := (run [file "a.ts" .typescript, { path := "notes", content := some (.text "x") }] [fails, finds]
      { ordering := .arrival, collectStatistics := true } [] .inProcess tools (.still 0)).report
    r.summary.filesFailed = 1 ∧ r.summary.filesAnalyzed + r.summary.filesFailed = 2 ∧
      r.summary.bySeverity.total = r.summary.violations ∧
      ∀ statistics ∈ r.statistics,
        (statistics.map (·.violations)).sum = r.summary.violations + r.summary.suppressed := by
  intro r
  obtain ⟨startedAt, durationMs, s, ended, hreached, hresults, hr⟩ := reports_run .inProcess 1
    [file "a.ts" .typescript, { path := "notes", content := some (.text "x") }] [fails, finds]
    { ordering := .arrival, collectStatistics := true } [] tools (.still 0)
  obtain ⟨-, hfiles, -, hseverities, -, hstatistics⟩ :=
    Concluded.accounted ⟨hreached, hresults⟩ [] durationMs hr (by decide +kernel)
  exact ⟨by decide +kernel, hfiles, hseverities, fun st hst => (hstatistics st hst).2.2⟩

end AnalysisRun

end RuleScan
