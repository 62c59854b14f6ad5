import Mathlib.Logic.Relation
import RuleScan.Analysis.Progress
import RuleScan.Analysis.Run
import RuleScan.Proofs.Pool.Batches

/-! Runs with several workers. Files are analyzed side by side, each in surroundings of its own. They end in
any order that the pool allows, and the run can be cancelled at any time. -/
namespace RuleScan

namespace FileUnit

def terminated (path ruleId : String) (settings : UnitSettings) (elapsedMs : Int) : RuleEvaluation :=
  let limit := UnitSettings.hardTimeoutMs (Number.ofInt settings.ruleTimeoutMs)
  { ruleId, elapsedMs
    error := some
      { kind := .timeout, file := path, ruleId := some ruleId, code := "rule-timeout"
        message := "Evaluation did not return within " ++ limit.render ++ "ms; its worker thread was terminated" } }

/-- How the analysis of a file can end. On a thread a rule can be terminated; what the rules before it came to
is kept, and the analysis starts again with the rules after it or is given up. -/
inductive Ends (mode : ExecutionMode) (input : SourceInput) (settings : UnitSettings) (tools : UnitTools) :
    List Rule → UnitResult → Prop
  | once (rules : List Rule) (world : Surroundings) :
      Ends mode input settings tools rules (run input rules settings tools world).1
  | resumed {before rest : List Rule} {rule : Rule} {es : List RuleEvaluation} {later : UnitResult}
      (threads : mode = .workerThreads) (world : Surroundings) (elapsedMs : Int)
      (kept : (run input before settings tools world).1 =
        { path := input.path, analyzed := true, evaluations := es })
      (resume : Ends mode input settings tools rest later) :
      Ends mode input settings tools (before ++ rule :: rest)
        { later with
          analyzed := true
          evaluations := es ++ terminated input.path rule.id settings elapsedMs :: later.evaluations }
  | givenUp {before rest : List Rule} {rule : Rule} {es : List RuleEvaluation} (threads : mode = .workerThreads)
      (world : Surroundings) (elapsedMs : Int)
      (kept : (run input before settings tools world).1 =
        { path := input.path, analyzed := true, evaluations := es }) :
      Ends mode input settings tools (before ++ rule :: rest)
        { path := input.path, analyzed := true
          evaluations := es ++ [terminated input.path rule.id settings elapsedMs] }

end FileUnit

namespace AnalysisRun

/-- The limits of the files of a run that started at some time. -/
def settingsAt (options : RunOptions) (startedAt : Int) : UnitSettings :=
  { maxSteps := options.maxSteps, ruleTimeoutMs := options.ruleTimeoutMs
    maxFileSizeBytes := options.maxFileSizeBytes, syntaxErrors := options.syntaxErrors
    runDeadline := options.maxDurationMs.map (startedAt + ·) }

/-- A run in the midst of its files. -/
structure Stage where
  pool : TaskPool SourceInput UnitResult
  cancellation : Option CancelReason := none

section Steps

variable (mode : ExecutionMode) (rules : List Rule) (settings : UnitSettings) (tools : UnitTools)

/-- What can happen in a run: a file ends, and cancels the run if it was cancelled itself; a file is left alone
because the run is cancelled; the thread of a file fails; the run is found to be cancelled; a stop is asked for,
and no file starts any more. The first reason to cancel stays. -/
inductive Step : Stage → Stage → Prop
  | complete {s : Stage} {t : PoolTask SourceInput} {u : UnitResult} (running : t ∈ s.pool.active)
      (ends : FileUnit.Ends mode t.input settings tools rules u) :
      Step s ⟨s.pool.settle t.sequence (.completed u), s.cancellation.or u.cancellation⟩
  | leave {s : Stage} {t : PoolTask SourceInput} (running : t ∈ s.pool.active)
      (cancelled : s.cancellation.isSome) :
      Step s ⟨s.pool.settle t.sequence (.completed { path := t.input.path }), s.cancellation⟩
  | fail {s : Stage} {t : PoolTask SourceInput} (running : t ∈ s.pool.active) (threads : mode = .workerThreads)
      (message : String) : Step s ⟨s.pool.settle t.sequence (.failed message), s.cancellation⟩
  | cancel {s : Stage} (reason : CancelReason) : Step s ⟨s.pool, s.cancellation.or (some reason)⟩
  | abort {s : Stage} : Step s ⟨s.pool.cancelPending, s.cancellation.or (some .aborted)⟩

/-- What a task of a run, cancelled or not, can have ended in. -/
def Accounted (cancellation : Option CancelReason) (e : SettledTask SourceInput UnitResult) : Prop :=
  match e.outcome with
  | .completed u =>
    FileUnit.Ends mode e.task.input settings tools rules u ∧ (cancellation = none → u.cancellation = none) ∨
      cancellation.isSome ∧ u = { path := e.task.input.path }
  | .failed _ => mode = .workerThreads
  | .cancelled => cancellation.isSome

variable {mode rules settings tools}

theorem Accounted.or {cancellation : Option CancelReason} {e : SettledTask SourceInput UnitResult}
    (h : Accounted mode rules settings tools cancellation e) (reason : Option CancelReason) :
    Accounted mode rules settings tools (cancellation.or reason) e := by
  have hsome : cancellation.isSome → (cancellation.or reason).isSome := by
    intro hs
    simp [hs]
  unfold Accounted at h ⊢
  split at h
  · rcases h with ⟨hends, hu⟩ | ⟨hs, hu⟩
    · exact .inl ⟨hends, fun hnone => hu (Option.or_eq_none_iff.mp hnone).1⟩
    · exact .inr ⟨hsome hs, hu⟩
  · exact h
  · exact hsome h

/-- Every step keeps the account of the batch: the tasks that have ended, each with its outcome. -/
theorem Step.account {tasks : List (PoolTask SourceInput)} {s s' : Stage}
    {ended : List (SettledTask SourceInput UnitResult)} (h : Step mode rules settings tools s s')
    (htasks : (tasks.map (·.sequence)).Nodup) (hbatch : s.pool.Batch tasks ended)
    (hended : ∀ e ∈ ended, Accounted mode rules settings tools s.cancellation e) :
    ∃ ended', s'.pool.Batch tasks ended' ∧
      ∀ e ∈ ended', Accounted mode rules settings tools s'.cancellation e := by
  cases h with
  | complete running ends =>
    refine ⟨_, hbatch.settle htasks running _, List.forall_mem_append.mpr ⟨?_, ?_⟩⟩
    · exact fun e he => (hended e he).or _
    · rintro e he
      obtain rfl := List.mem_singleton.mp he
      exact .inl ⟨ends, fun hnone => (Option.or_eq_none_iff.mp hnone).2⟩
  | leave running cancelled =>
    refine ⟨_, hbatch.settle htasks running _, List.forall_mem_append.mpr ⟨hended, ?_⟩⟩
    rintro e he
    obtain rfl := List.mem_singleton.mp he
    exact .inr ⟨cancelled, rfl⟩
  | fail running threads message =>
    refine ⟨_, hbatch.settle htasks running _, List.forall_mem_append.mpr ⟨hended, ?_⟩⟩
    rintro e he
    obtain rfl := List.mem_singleton.mp he
    exact threads
  | cancel reason => exact ⟨ended, hbatch, fun e he => (hended e he).or _⟩
  | abort =>
    refine ⟨_, hbatch.cancelPending, List.forall_mem_append.mpr ⟨fun e he => (hended e he).or _, ?_⟩⟩
    intro e he
    obtain ⟨t, -, rfl⟩ := List.mem_map.mp he
    simp [Accounted]

theorem exists_account {workers : Int} {inputs : List SourceInput} {s : Stage}
    (h : Relation.ReflTransGen (Step mode rules settings tools) ⟨.forBatch workers inputs, none⟩ s) :
    ∃ ended, s.pool.Batch (TaskPool.tasksOf inputs) ended ∧
      ∀ e ∈ ended, Accounted mode rules settings tools s.cancellation e := by
  induction h with
  | refl => exact ⟨[], TaskPool.batch_forBatch workers inputs, nofun⟩
  | tail _ hstep ih =>
    obtain ⟨ended, hbatch, hended⟩ := ih
    exact hstep.account (TaskPool.nodup_tasksOf inputs) hbatch hended

end Steps

/-- The errors of the files whose threads failed, each as a result of its file. -/
def failuresOf (ended : List (SettledTask SourceInput UnitResult)) : List UnitResult :=
  ended.filterMap fun e =>
    match e.outcome with
    | .failed message =>
      some
        { path := e.task.input.path
          errors := [{ kind := .evaluation, file := e.task.input.path, code := "internal-error", message }] }
    | _ => none

def resultOf? (e : SettledTask SourceInput UnitResult) : Option UnitResult :=
  match e.outcome with
  | .completed u => some u
  | _ => none

theorem outcome_of_resultOf? {e : SettledTask SourceInput UnitResult} {u : UnitResult} (h : resultOf? e = some u) :
    e.outcome = .completed u := by
  unfold resultOf? at h
  split at h
  · next he =>
    cases h
    exact he
  · cases h

/-- The results of the files that were not cut short, in the order in which they ended. -/
def completedOf (ended : List (SettledTask SourceInput UnitResult)) : List UnitResult := ended.filterMap resultOf?

/-- What a report is made of: failures come first. -/
def unitsOf (ended : List (SettledTask SourceInput UnitResult)) : List UnitResult :=
  failuresOf ended ++ completedOf ended

theorem unitsOf_completed (unit : SourceInput → UnitResult) (ts : List (PoolTask SourceInput)) :
    unitsOf (ts.map fun t => ⟨t, .completed (unit t.input)⟩) = ts.map (unit ∘ (·.input)) := by
  simp only [unitsOf, failuresOf, completedOf, List.filterMap_map]
  exact (congrArg (· ++ _) (List.filterMap_eq_nil_iff.mpr fun _ _ => rfl)).trans (congrFun List.filterMap_eq_map _)

/-- The report is one that a run with this many workers can give: all files have ended in some way. -/
def Reports (mode : ExecutionMode) (workers : Int) (inputs : List SourceInput) (rules : List Rule)
    (options : RunOptions) (loadErrors : List LoadFailure) (tools : UnitTools) (r : Report) : Prop :=
  ∃ (startedAt durationMs : Int) (s : Stage) (ended : List (SettledTask SourceInput UnitResult)),
    Relation.ReflTransGen (Step mode (Rule.select options rules) (settingsAt options startedAt) tools)
      ⟨.forBatch workers inputs, none⟩ s ∧
    (0, .results ended) ∈ s.pool.replies ∧
    r = report options rules.length loadErrors (unitsOf ended) s.cancellation durationMs

/-- A report is made of what every input has ended in. -/
theorem Reports.exists_ended {mode : ExecutionMode} {workers : Int} {inputs : List SourceInput} {rules : List Rule}
    {options : RunOptions} {loadErrors : List LoadFailure} {tools : UnitTools} {r : Report}
    (h : Reports mode workers inputs rules options loadErrors tools r) :
    ∃ startedAt durationMs cancellation ended, (ended.map (·.task.input)).Perm inputs ∧
      (∀ e ∈ ended, Accounted mode (Rule.select options rules) (settingsAt options startedAt) tools cancellation e) ∧
      r = report options rules.length loadErrors (unitsOf ended) cancellation durationMs := by
  obtain ⟨startedAt, durationMs, s, settled, hrun, hreply, hr⟩ := h
  obtain ⟨ended, hbatch, hended⟩ := exists_account hrun
  obtain ⟨rfl, hperm⟩ := hbatch.results hreply
  refine ⟨startedAt, durationMs, s.cancellation, settled, ?_, hended, hr⟩
  have hinputs := hperm.map (·.input)
  rwa [List.map_map, TaskPool.tasksOf_input] at hinputs

section Chosen

variable {mode : ExecutionMode} {rules : List Rule} {settings : UnitSettings} {tools : UnitTools}

/-- The tasks that are left can end one by one, each as its file can, if one of them can end at a time. -/
theorem exists_reach_of_ends {I : TaskPool SourceInput UnitResult → List (PoolTask SourceInput) → Prop}
    (unit : SourceInput → UnitResult) {tasks rest : List (PoolTask SourceInput)} {g : Stage}
    {ended : List (SettledTask SourceInput UnitResult)} (htasks : (tasks.map (·.sequence)).Nodup)
    (hsettle : ∀ {p t rest ended} (outcome : TaskOutcome UnitResult), p.Batch tasks ended → I p (t :: rest) →
      t ∈ p.active ∧ I (p.settle t.sequence outcome) rest)
    (hbatch : g.pool.Batch tasks ended) (hrest : I g.pool rest)
    (hends : ∀ t ∈ rest, FileUnit.Ends mode t.input settings tools rules (unit t.input)) :
    ∃ g', Relation.ReflTransGen (Step mode rules settings tools) g g' ∧
      g'.pool.Batch tasks (ended ++ rest.map fun t => ⟨t, .completed (unit t.input)⟩) ∧ I g'.pool [] ∧
      ((∀ t ∈ rest, (unit t.input).cancellation = none) → g'.cancellation = g.cancellation) := by
  induction rest generalizing g ended with
  | nil =>
    rw [List.map_nil, List.append_nil]
    exact ⟨g, .refl, hbatch, hrest, fun _ => rfl⟩
  | cons t rest ih =>
    obtain ⟨ht, hothers⟩ := List.forall_mem_cons.mp hends
    obtain ⟨hactive, hnext⟩ := hsettle (.completed (unit t.input)) hbatch hrest
    have hstep : Step mode rules settings tools g
        ⟨g.pool.settle t.sequence (.completed (unit t.input)), g.cancellation.or (unit t.input).cancellation⟩ :=
      .complete hactive ht
    obtain ⟨g', hreach, hbatch', hnone, hcancel⟩ :=
      ih (g := ⟨_, _⟩) (hbatch.settle htasks hactive _) hnext hothers
    rw [List.append_assoc] at hbatch'
    refine ⟨g', .head hstep hreach, hbatch', hnone, fun hunits => ?_⟩
    obtain ⟨hunit, hunits⟩ := List.forall_mem_cons.mp hunits
    rw [hcancel hunits, hunit, Option.or_none]

theorem exists_reports (unit : SourceInput → UnitResult) (workers : Int) {inputs : List SourceInput}
    {options : RunOptions} {startedAt : Int}
    (hends : ∀ input ∈ inputs, FileUnit.Ends mode input (settingsAt options startedAt) tools
      (Rule.select options rules) (unit input)) (loadErrors : List LoadFailure) (durationMs : Int) :
    ∃ cancellation, Reports mode workers inputs rules options loadErrors tools
      (report options rules.length loadErrors (inputs.map unit) cancellation durationMs) := by
  have hinputs := TaskPool.tasksOf_input inputs
  have htasks := TaskPool.nodup_tasksOf inputs
  obtain ⟨g, hreach, hbatch, hnone, -⟩ := exists_reach_of_ends unit (g := ⟨.forBatch workers inputs, none⟩) htasks
    (fun outcome hbatch hrest => hrest.settle hbatch htasks outcome) (TaskPool.batch_forBatch workers inputs)
    (TaskPool.inOrder_forBatch workers inputs) fun t ht => hends t.input (hinputs ▸ List.mem_map_of_mem ht)
  refine ⟨g.cancellation, startedAt, durationMs, g, _, hreach, hbatch.replied hnone, ?_⟩
  have hunits := unitsOf_completed unit (TaskPool.tasksOf inputs)
  rw [← List.map_map, hinputs] at hunits
  rw [List.nil_append, hunits]

end Chosen
/-! The run that takes one file after another. -/

theorem State.cancel_units (s : State) (reason : CancelReason) : (s.cancel reason).units = s.units := by
  unfold cancel
  split <;> rfl

theorem State.cancel_cancellation (s : State) (reason : CancelReason) :
    (s.cancel reason).cancellation = s.cancellation.or (some reason) := by
  unfold cancel
  split
  · next hsome =>
    rw [hsome]
    rfl
  · next hnone =>
    rw [hnone]
    rfl

theorem State.check_cases (s : State) (settings : UnitSettings) :
    (s.check settings).units = s.units ∧
      ((s.check settings).cancellation = s.cancellation ∨
        ∃ reason world', FileUnit.cancellation settings s.world = (some reason, world') ∧
          (s.check settings).cancellation = s.cancellation.or (some reason)) := by
  unfold check
  split
  · exact ⟨rfl, .inl rfl⟩
  · split
    · next reason world hcheck => exact ⟨cancel_units _ _, .inr ⟨reason, world, hcheck, cancel_cancellation _ _⟩⟩
    · exact ⟨rfl, .inl rfl⟩

/-- The state of a run that takes one file after another is a stage of a run with any number of workers. -/
structure State.At (tasks rest : List (PoolTask SourceInput)) (s : State) (g : Stage)
    (ended : List (SettledTask SourceInput UnitResult)) : Prop where
  cancellation : g.cancellation = s.cancellation
  units : s.units = unitsOf ended
  batch : g.pool.Batch tasks ended
  inOrder : g.pool.InOrder rest

section Sequential

variable {σ : Type} {R : σ → σ → Prop} {stage : σ → Stage} {rules : List Rule} {settings : UnitSettings}
  {tools : UnitTools}

/-- What steps between states with a stage must allow to follow a run that takes one file after another: the
run is found to be cancelled, a file is left alone, and a file ends. -/
structure Follows (R : σ → σ → Prop) (stage : σ → Stage) (rules : List Rule) (settings : UnitSettings)
    (tools : UnitTools) : Prop where
  cancel {g : σ} {world world' : Surroundings} {reason : CancelReason}
    (found : FileUnit.cancellation settings world = (some reason, world')) :
    ∃ g', Relation.ReflTransGen R g g' ∧ stage g' = ⟨(stage g).pool, (stage g).cancellation.or (some reason)⟩
  leave {g : σ} {t : PoolTask SourceInput} (running : t ∈ (stage g).pool.active)
    (cancelled : (stage g).cancellation.isSome) :
    ∃ g', Relation.ReflTransGen R g g' ∧
      stage g' = ⟨(stage g).pool.settle t.sequence (.completed { path := t.input.path }), (stage g).cancellation⟩
  complete {g : σ} {t : PoolTask SourceInput} (running : t ∈ (stage g).pool.active) (world : Surroundings) :
    ∃ g', Relation.ReflTransGen R g g' ∧
      stage g' =
        ⟨(stage g).pool.settle t.sequence (.completed (FileUnit.run t.input rules settings tools world).1),
          (stage g).cancellation.or (FileUnit.run t.input rules settings tools world).1.cancellation⟩

variable {tasks rest : List (PoolTask SourceInput)} {g : σ} {ended : List (SettledTask SourceInput UnitResult)}

theorem Follows.check (hfollows : Follows R stage rules settings tools) {s : State}
    (h : s.At tasks rest (stage g) ended) :
    ∃ g', Relation.ReflTransGen R g g' ∧ (s.check settings).At tasks rest (stage g') ended := by
  obtain ⟨hunits, hsame | ⟨reason, world', hfound, hreason⟩⟩ := s.check_cases settings
  · exact ⟨g, .refl, h.cancellation.trans hsame.symm, hunits.trans h.units, h.batch, h.inOrder⟩
  · obtain ⟨g', hreach, hg'⟩ := hfollows.cancel (g := g) hfound
    refine ⟨g', hreach, ?_⟩
    rw [hg']
    exact ⟨by rw [hreason, h.cancellation], hunits.trans h.units, h.batch, h.inOrder⟩

theorem unitsOf_append_completed (u : UnitResult) (t : PoolTask SourceInput) :
    unitsOf (ended ++ [⟨t, .completed u⟩]) = unitsOf ended ++ [u] := by
  simp [unitsOf, failuresOf, completedOf, resultOf?]

/-- Taking the next file is a step, after another one if the run is found to be cancelled. -/
theorem Follows.step (hfollows : Follows R stage rules settings tools) {s : State} {t : PoolTask SourceInput}
    (h : s.At tasks (t :: rest) (stage g) ended) (htasks : (tasks.map (·.sequence)).Nodup) :
    ∃ g' ended', Relation.ReflTransGen R g g' ∧
      (s.step rules settings tools t.input).At tasks rest (stage g') ended' := by
  have htick : s.tick.At tasks (t :: rest) (stage g) ended := ⟨h.cancellation, h.units, h.batch, h.inOrder⟩
  obtain ⟨g₁, hreach, hcheck⟩ := hfollows.check htick
  unfold State.step
  dsimp only
  split
  · next reason hreason =>
    obtain ⟨hactive, hrest⟩ := hcheck.inOrder.settle hcheck.batch htasks
      (.completed { path := t.input.path })
    have hcancelled : (stage g₁).cancellation.isSome := by
      rw [hcheck.cancellation, hreason]
      rfl
    obtain ⟨g₂, hleave, hg₂⟩ := hfollows.leave hactive hcancelled
    refine ⟨g₂, ended ++ [⟨t, .completed { path := t.input.path }⟩], hreach.trans hleave, ?_⟩
    rw [hg₂]
    refine ⟨hcheck.cancellation, ?_, hcheck.batch.settle htasks hactive _, hrest⟩
    rw [unitsOf_append_completed, ← hcheck.units]
    rfl
  · next hnone =>
    let u := (FileUnit.run t.input rules settings tools (s.tick.check settings).world).1
    obtain ⟨hactive, hrest⟩ := hcheck.inOrder.settle hcheck.batch htasks (.completed u)
    obtain ⟨g₂, hcomplete, hg₂⟩ := hfollows.complete hactive (s.tick.check settings).world
    refine ⟨g₂, ended ++ [⟨t, .completed u⟩], hreach.trans hcomplete, ?_⟩
    rw [hg₂]
    refine ⟨?_, ?_, hcheck.batch.settle htasks hactive _, hrest⟩
    · rw [hcheck.cancellation]
      cases (FileUnit.run t.input rules settings tools (s.tick.check settings).world).1.cancellation with
      | none => exact Option.or_none
      | some reason => simp only [State.tick, State.cancel_cancellation]
    · rw [unitsOf_append_completed, ← hcheck.units]
      cases (FileUnit.run t.input rules settings tools (s.tick.check settings).world).1.cancellation with
      | none => rfl
      | some reason => exact State.cancel_units _ _

theorem Follows.foldl (hfollows : Follows R stage rules settings tools) {inputs : List SourceInput} {s : State}
    (h : s.At tasks rest (stage g) ended) (htasks : (tasks.map (·.sequence)).Nodup)
    (hinputs : rest.map (·.input) = inputs) :
    ∃ g' ended', Relation.ReflTransGen R g g' ∧
      (inputs.foldl (State.step rules settings tools) s).At tasks [] (stage g') ended' := by
  subst hinputs
  induction rest generalizing s g ended with
  | nil => exact ⟨g, ended, .refl, h⟩
  | cons t rest ih =>
    obtain ⟨g₁, ended₁, hreach, hstep⟩ := hfollows.step h htasks
    obtain ⟨g₂, ended₂, hreach', hrest⟩ := ih hstep
    exact ⟨g₂, ended₂, hreach.trans hreach', hrest⟩

/-- Steps that can follow the run that takes one file after another lead to its report. -/
theorem Follows.exists_run_eq {workers : Int} {inputs : List SourceInput} {rules : List Rule} {options : RunOptions}
    {world : Surroundings}
    (hfollows : Follows R stage (Rule.select options rules) (settingsAt options world.readClock.1) tools)
    (hg : stage g = ⟨.forBatch workers inputs, none⟩) (loadErrors : List LoadFailure) (mode : ExecutionMode) :
    ∃ durationMs g' ended, Relation.ReflTransGen R g g' ∧ (0, .results ended) ∈ (stage g').pool.replies ∧
      (run inputs rules options loadErrors mode tools world).report =
        report options rules.length loadErrors (unitsOf ended) (stage g').cancellation durationMs := by
  let s₀ : State :=
    { world := world.readClock.2
      log := [.info ("Analyzing " ++ toString inputs.length ++ " file(s) with " ++
        toString (Rule.select options rules).length ++ " rule(s) (" ++ mode.word ++ ")")] }
  have hstart : s₀.At (TaskPool.tasksOf inputs) (TaskPool.tasksOf inputs) (stage g) [] := by
    rw [hg]
    exact ⟨rfl, rfl, TaskPool.batch_forBatch workers inputs, TaskPool.inOrder_forBatch workers inputs⟩
  obtain ⟨g₁, ended, hreach, hall⟩ := hfollows.foldl hstart (TaskPool.nodup_tasksOf inputs)
    (TaskPool.tasksOf_input inputs)
  obtain ⟨g₂, hreach', hend⟩ := hfollows.check hall
  let s := (inputs.foldl (State.step (Rule.select options rules) (settingsAt options world.readClock.1) tools)
    s₀).check (settingsAt options world.readClock.1)
  refine ⟨s.world.readClock.1 - world.readClock.1, g₂, ended, hreach.trans hreach',
    hend.batch.replied hend.inOrder, ?_⟩
  rw [hend.cancellation, ← hend.units]
  rfl

end Sequential

theorem follows_step (mode : ExecutionMode) (rules : List Rule) (settings : UnitSettings) (tools : UnitTools) :
    Follows (Step mode rules settings tools) id rules settings tools where
  cancel _ := ⟨_, .single (.cancel _), rfl⟩
  leave running cancelled := ⟨_, .single (.leave running cancelled), rfl⟩
  complete running world := ⟨_, .single (.complete running (.once rules world)), rfl⟩

/-- The run that takes one file after another gives a report that a run with any number of workers can give. -/
theorem reports_run (mode : ExecutionMode) (workers : Int) (inputs : List SourceInput) (rules : List Rule)
    (options : RunOptions) (loadErrors : List LoadFailure) (tools : UnitTools) (world : Surroundings) :
    Reports mode workers inputs rules options loadErrors tools
      (run inputs rules options loadErrors mode tools world).report := by
  have hfollows := follows_step mode (Rule.select options rules) (settingsAt options world.readClock.1) tools
  obtain ⟨durationMs, g, ended, hreach, hreply, hreport⟩ :=
    hfollows.exists_run_eq (g := ⟨.forBatch workers inputs, none⟩) rfl loadErrors mode
  exact ⟨world.readClock.1, durationMs, g, ended, hreach, hreply, hreport⟩

end AnalysisRun

end RuleScan
