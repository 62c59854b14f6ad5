import Mathlib.Data.List.Flatten
import RuleScan.Proofs.Analysis.Courses
import RuleScan.Proofs.Analysis.FullRuns

/-! Interrupted runs. Whenever a run is cancelled, each file has got as far as some of its rules, in order, with
what they come to in a full run, so the report is a part of that of the full run. -/
namespace RuleScan

namespace FileUnit

theorem concludeAll_prefix (path : String) (tree : Tree) (maxSteps : Int) {rules rules' : List Rule}
    (h : rules <+: rules') (c : Collector) :
    concludeAll path tree maxSteps rules c <+: concludeAll path tree maxSteps rules' c := by
  induction rules generalizing rules' c with
  | nil => exact List.nil_prefix
  | cons rule rules ih =>
    obtain ⟨more, rfl⟩ := h
    exact List.cons_prefix_cons.mpr ⟨rfl, ih (List.prefix_append rules more) _⟩

section Files

variable {input : SourceInput} {rules : List Rule} {settings : UnitSettings} {tools : UnitTools}

/-- However the analysis of a file is stopped, its evaluations are the first ones of what the file comes to. -/
theorem prefix_comesTo {world : Surroundings}
    (htime : ∀ e ∈ (run input rules settings tools world).1.evaluations, ¬e.OutOfTime) :
    (run input rules settings tools world).1.evaluations.map (·.untimed) <+:
      (comesTo input rules settings tools).evaluations := by
  revert htime
  rw [run_fst]
  rcases cancellation settings world with ⟨_ | reason, world'⟩
  · unfold started comesTo
    rcases opened input rules settings tools with e | _ | ⟨language, tree⟩
    · exact fun _ => List.nil_prefix
    · exact fun _ => List.nil_prefix
    · intro htime
      obtain ⟨done, hfront, -, hdone⟩ := evaluated_evaluateRules input.path tree settings tools.interference
        language rules 0 {}
        (if tools.interference.onParse input.path then world'.setStop true else world')
      dsimp only at htime ⊢
      rw [hdone.map_untimed htime]
      exact concludeAll_prefix _ _ _ hfront _
  · exact fun _ => List.nil_prefix

theorem Located.untimed {u : UnitResult} (h : Located input u) : Located input u.untimed := by
  refine ⟨?_, ?_⟩
  · rw [UnitResult.untimed, List.flatMap_map]
    exact h.violations
  · rw [UnitResult.untimed, List.filterMap_map]
    exact h.errors

variable (input rules settings tools) in
/-- What a file comes to lists what names it. -/
theorem located_comesTo : Located input (comesTo input rules settings tools) := by
  -- neither time limits nor interference matter for what the file comes to
  let settings' : UnitSettings := { settings with ruleTimeoutMs := 0, runDeadline := none }
  let tools' : UnitTools := { tools with interference := {} }
  have hrun : (run input rules settings' tools' (.still 0)).1.untimed = comesTo input rules settings tools :=
    (run_still input rules settings' tools' le_rfl nofun rfl fun _ _ => rfl).2
  have hlocated := located_run input rules settings' tools' (.still 0)
  have huntimed := hlocated.untimed
  rw [hrun] at huntimed
  exact huntimed

end Files

end FileUnit

namespace AnalysisRun

/-! What is listed in the order of files. -/

section Order

variable {τ β : Type} {path : τ → String} {file : β → String} {f : τ → List β}

/-- What names a file comes from what is about that file. -/
theorem filter_flatMap_eq (hfile : ∀ t, ∀ b ∈ f t, file b = path t) {p : β → Bool} {name : String}
    (hp : ∀ b, p b = true → file b = name) (ts : List τ) :
    (ts.flatMap f).filter p = (ts.filter (path · = name)).flatMap fun t => (f t).filter p := by
  induction ts with
  | nil => rfl
  | cons t ts ih =>
    rw [List.flatMap_cons, List.filter_append, ih]
    by_cases hname : path t = name
    · rw [List.filter_cons_of_pos (by simpa using hname), List.flatMap_cons]
    · have hnone : (f t).filter p = [] :=
        List.filter_eq_nil_iff.mpr fun b hb hpb => hname ((hfile t b hb).symm.trans (hp b hpb))
      rw [List.filter_cons_of_neg (by simpa using hname), hnone, List.nil_append]

end Order

/-- The first tasks come in the order of the others. In a sorted report only those with the same path have to. -/
structure KeepsOrder (options : RunOptions) (ts ts' : List (PoolTask SourceInput)) : Prop where
  arrival : options.ordering = .arrival → ts.Sublist ts'
  deterministic : options.ordering = .deterministic →
    ∀ path, (ts.filter (·.input.path = path)).Sublist (ts'.filter (·.input.path = path))

namespace KeepsOrder

variable {options : RunOptions} {ts ts' : List (PoolTask SourceInput)}

theorem symm (h : KeepsOrder options ts ts') (hperm : ts.Perm ts') : KeepsOrder options ts' ts where
  arrival hordering := by rw [(h.arrival hordering).eq_of_length hperm.length_eq]
  deterministic hordering path := by
    rw [(h.deterministic hordering path).eq_of_length (hperm.filter _).length_eq]

/-- In a sorted report tasks with different paths need no order. -/
theorem of_paths (hordering : options.ordering = .deterministic) (h : ts.Subperm ts')
    (hpaths : (ts'.map (·.input.path)).Nodup) : KeepsOrder options ts ts' where
  arrival harrival := by
    rw [hordering] at harrival
    cases harrival
  deterministic _ path := by
    obtain ⟨us, hperm, hsub⟩ := h.filter (·.input.path = path)
    have hsame : ∀ t ∈ ts'.filter (·.input.path = path), t.input.path = path := fun t ht => by
      simpa using (List.mem_filter.mp ht).2
    have hshort : ((ts'.filter (·.input.path = path)).map (·.input.path)).Nodup :=
      hpaths.sublist (List.filter_sublist.map _)
    rw [List.map_eq_replicate_iff.mpr hsame, List.nodup_replicate] at hshort
    have hlength := hsub.length_le.trans hshort
    have heq : us = ts.filter (·.input.path = path) := by
      match us with
      | [] => exact hperm.nil_eq
      | [t] => exact List.singleton_perm.mp hperm
    exact heq ▸ hsub

variable {β : Type} {file : β → String} {f : PoolTask SourceInput → List β}

theorem filter_flatMap (h : KeepsOrder options ts ts') (hordering : options.ordering = .deterministic)
    (hfile : ∀ t, ∀ b ∈ f t, file b = t.input.path) {p : β → Bool} {name : String}
    (hp : ∀ b, p b = true → file b = name) : ((ts.flatMap f).filter p).Sublist ((ts'.flatMap f).filter p) := by
  rw [filter_flatMap_eq hfile hp, filter_flatMap_eq hfile hp]
  exact (h.deterministic hordering name).flatMap _

theorem listedViolations_sublist {f : PoolTask SourceInput → List Violation} (h : KeepsOrder options ts ts')
    (hfile : ∀ t, ∀ v ∈ f t, v.file = t.input.path) {units units' : List UnitResult}
    (hunits : (violationsOf units).Sublist (ts.flatMap f)) (hunits' : violationsOf units' = ts'.flatMap f) :
    (listedViolations options units).Sublist (listedViolations options units') := by
  rw [listedViolations_eq, listedViolations_eq, hunits']
  refine arrange_sublist (fun hordering => ?_) fun hordering v => ?_
  · exact hunits.trans ((h.arrival hordering).flatMap _)
  · have htie : ∀ w, decide (Violation.order v w = .eq) = true → w.file = v.file := fun w hw =>
      Violation.file_of_order (of_decide_eq_true hw)
    exact (hunits.filter _).trans (h.filter_flatMap hordering hfile htie)

theorem listedErrors_sublist {f g : PoolTask SourceInput → List AnalysisError} (h : KeepsOrder options ts ts')
    (hf : ∀ t, ∀ e ∈ f t, e.file = t.input.path) (hg : ∀ t, ∀ e ∈ g t, e.file = t.input.path)
    {units units' : List UnitResult} (hunits : errorsOf units = ts.flatMap f ++ ts.flatMap g)
    (hunits' : errorsOf units' = ts'.flatMap f ++ ts'.flatMap g) :
    (listedErrors options units).Sublist (listedErrors options units') := by
  rw [listedErrors_eq, listedErrors_eq, hunits, hunits']
  refine arrange_sublist (fun hordering => ?_) fun hordering e => ?_
  · exact ((h.arrival hordering).flatMap f).append ((h.arrival hordering).flatMap g)
  · have htie : ∀ e', decide (AnalysisError.order e e' = .eq) = true → e'.file = e.file := fun e' he' =>
      AnalysisError.file_of_order (of_decide_eq_true he')
    rw [List.filter_append, List.filter_append]
    exact (h.filter_flatMap hordering hf htie).append (h.filter_flatMap hordering hg htie)

end KeepsOrder

/-! What the files of a run have ended in, against what they come to. -/

/-- The tasks that ended with a result, in order. -/
def completedTasks (ended : List (SettledTask SourceInput UnitResult)) : List (PoolTask SourceInput) :=
  (ended.filter fun e => (resultOf? e).isSome).map (·.task)

theorem subperm_flatMap {α β : Type} {xs ys : List α} (h : xs.Subperm ys) (f : α → List β) :
    (xs.flatMap f).Subperm (ys.flatMap f) := by
  obtain ⟨zs, hperm, hsub⟩ := h
  exact ⟨zs.flatMap f, hperm.flatMap_right f, hsub.flatMap f⟩

theorem completedTasks_sublist (ended : List (SettledTask SourceInput UnitResult)) :
    (completedTasks ended).Sublist (ended.map (·.task)) :=
  List.filter_sublist.map _

theorem flatMap_completedOf_sublist {β : Type} {g : UnitResult → List β} {f : PoolTask SourceInput → List β}
    {ended : List (SettledTask SourceInput UnitResult)}
    (h : ∀ e ∈ ended, ∀ u, e.outcome = .completed u → (g u).Sublist (f e.task)) :
    ((completedOf ended).flatMap g).Sublist ((completedTasks ended).flatMap f) := by
  induction ended with
  | nil => exact List.nil_sublist _
  | cons e ended ih =>
    obtain ⟨he, hrest⟩ := List.forall_mem_cons.mp h
    obtain ⟨task, outcome⟩ := e
    cases outcome with
    | completed u => exact (he u rfl).append (ih hrest)
    | failed message => exact ih hrest
    | cancelled => exact ih hrest

section Runs

variable {workers startedAt : Int} {inputs : List SourceInput} {rules : List Rule} {options : RunOptions}
  {tools : UnitTools} {loadErrors : List LoadFailure} {s : Stage}
  {ended ended' : List (SettledTask SourceInput UnitResult)} {r r' : Report}

/-- However a file has ended, its evaluations are the first ones of its result in a full run. -/
theorem Concluded.prefix_fullResult (h : Concluded .inProcess workers inputs rules options tools startedAt s ended)
    (htime : ∀ e ∈ errorsOf (unitsOf ended), ¬e.OutOfTime) {e : SettledTask SourceInput UnitResult} (he : e ∈ ended)
    {u : UnitResult} (hu : e.outcome = .completed u) :
    u.evaluations.map (·.untimed) <+: (fullResult rules options tools e.task).evaluations := by
  have haccounted := h.account.2 e he
  unfold Accounted at haccounted
  rw [hu] at haccounted
  rcases haccounted with ⟨hends, -⟩ | ⟨-, rfl⟩
  · obtain ⟨world, rfl⟩ := hends.inProcess
    refine FileUnit.prefix_comesTo (not_outOfTime_of_errorsOf htime ?_)
    rw [unitsOf_inProcess h.account.2]
    exact List.mem_filterMap.mpr ⟨e, he, by simp [resultOf?, hu]⟩
  · exact List.nil_prefix

/-- The violations of a run are among those that its files come to. -/
theorem Concluded.violationsOf_sublist (h : Concluded .inProcess workers inputs rules options tools startedAt s ended)
    (htime : ∀ e ∈ errorsOf (unitsOf ended), ¬e.OutOfTime) :
    (violationsOf (unitsOf ended)).Sublist ((completedTasks ended).flatMap (foundBy rules options tools)) := by
  rw [violationsOf, List.flatMap_assoc, unitsOf_inProcess h.account.2]
  refine flatMap_completedOf_sublist fun e he u hu => ?_
  have hprefix := (h.prefix_fullResult htime he hu).sublist.flatMap (·.violations)
  rwa [List.flatMap_map] at hprefix

theorem located_fullResult (rules : List Rule) (options : RunOptions) (tools : UnitTools) (t : PoolTask SourceInput) :
    FileUnit.Located t.input (fullResult rules options tools t) :=
  FileUnit.located_comesTo t.input (Rule.select options rules) (settingsAt options 0) tools

/-- Full runs in which the files end in the same order have the same report, apart from times. -/
theorem Full.report_eq (h : Full inputs rules options tools loadErrors ended r)
    (h' : Full inputs rules options tools loadErrors ended' r')
    (horder : KeepsOrder options (ended.map (·.task)) (ended'.map (·.task))) : r.untimed = r'.untimed := by
  have hperm := h.ended_perm.trans h'.ended_perm.symm
  have horder' := horder.symm hperm
  have hlocated := located_fullResult rules options tools
  have herrors (t : PoolTask SourceInput) : ∀ e ∈ (fullResult rules options tools t).errors, e.file = t.input.path :=
    fun e he => (hlocated t).errors e (List.mem_append_left _ he)
  have hfailures (t : PoolTask SourceInput) :
      ∀ e ∈ (fullResult rules options tools t).evaluations.filterMap (·.error), e.file = t.input.path :=
    fun e he => (hlocated t).errors e (List.mem_append_right _ he)
  have hunits := hperm.map (fullResult rules options tools)
  rw [← h.map_untimed, ← h'.map_untimed] at hunits
  obtain ⟨durationMs, rfl⟩ := h.exists_report_eq
  obtain ⟨durationMs', rfl⟩ := h'.exists_report_eq
  refine report_untimed_eq ?_ ?_ ?_ ?_
  · have hcount := hunits.countP_eq (·.analyzed)
    rwa [List.countP_map, List.countP_map] at hcount
  · have hevaluations := hunits.flatMap_right (·.evaluations)
    rw [List.flatMap_map, List.flatMap_map] at hevaluations
    rw [List.map_flatMap, List.map_flatMap]
    exact hevaluations
  · exact (horder.listedErrors_sublist herrors hfailures h.errorsOf_eq h'.errorsOf_eq).antisymm
      (horder'.listedErrors_sublist herrors hfailures h'.errorsOf_eq h.errorsOf_eq)
  · have hviolations (t : PoolTask SourceInput) : ∀ v ∈ foundBy rules options tools t, v.file = t.input.path :=
      (hlocated t).violations
    refine (horder.listedViolations_sublist hviolations ?_ h'.violationsOf_eq).antisymm
      (horder'.listedViolations_sublist hviolations ?_ h.violationsOf_eq)
    · rw [h.violationsOf_eq]
    · rw [h'.violationsOf_eq]

theorem Full.completedTasks_eq (h : Full inputs rules options tools loadErrors ended r) :
    completedTasks ended = ended.map (·.task) := by
  refine congrArg _ (List.filter_eq_self.mpr fun e he => ?_)
  obtain ⟨u, hu, -⟩ := h.exists_fullResult he
  simp [resultOf?, hu]

theorem Concluded.completedTasks_subperm
    (h : Concluded .inProcess workers inputs rules options tools startedAt s ended)
    (hfull : Full inputs rules options tools loadErrors ended' r') :
    (completedTasks ended).Subperm (ended'.map (·.task)) :=
  (completedTasks_sublist ended).subperm.trans (h.account.1.trans hfull.ended_perm.symm).subperm

/-- Each file has evaluations that it begins with in a full run. -/
theorem Concluded.exists_prefix (h : Concluded .inProcess workers inputs rules options tools startedAt s ended)
    (htime : ∀ e ∈ errorsOf (unitsOf ended), ¬e.OutOfTime)
    (hfull : Full inputs rules options tools loadErrors ended' r') {e : SettledTask SourceInput UnitResult}
    (he : e ∈ ended) {u : UnitResult} (hu : e.outcome = .completed u) :
    ∃ e' ∈ ended', e'.task = e.task ∧ ∃ u', e'.outcome = .completed u' ∧
      u.evaluations.map (·.untimed) <+: u'.evaluations.map (·.untimed) := by
  have hsame := h.account.1.trans hfull.ended_perm.symm
  obtain ⟨e', he', htask⟩ := List.mem_map.mp (hsame.mem_iff.mp (List.mem_map_of_mem he))
  obtain ⟨u', hu', huntimed⟩ := hfull.exists_fullResult he'
  refine ⟨e', he', htask, u', hu', ?_⟩
  have hprefix := h.prefix_fullResult htime he hu
  rw [← htask, ← huntimed] at hprefix
  exact hprefix

theorem Concluded.violationsOf_subperm (h : Concluded .inProcess workers inputs rules options tools startedAt s ended)
    (htime : ∀ e ∈ errorsOf (unitsOf ended), ¬e.OutOfTime)
    (hfull : Full inputs rules options tools loadErrors ended' r') :
    (violationsOf (unitsOf ended)).Subperm (violationsOf (unitsOf ended')) := by
  refine (h.violationsOf_sublist htime).subperm.trans ?_
  rw [hfull.violationsOf_eq]
  exact subperm_flatMap (h.completedTasks_subperm hfull) _

/-- If paths are distinct, a sorted report has the order of each full run. -/
theorem Concluded.keepsOrder (h : Concluded .inProcess workers inputs rules options tools startedAt s ended)
    (hfull : Full inputs rules options tools loadErrors ended' r') (hordering : options.ordering = .deterministic)
    (hpaths : (inputs.map (·.path)).Nodup) : KeepsOrder options (completedTasks ended) (ended'.map (·.task)) := by
  refine .of_paths hordering (h.completedTasks_subperm hfull) ?_
  rw [← TaskPool.tasksOf_input inputs, List.map_map] at hpaths
  exact (hfull.ended_perm.map (·.input.path)).nodup_iff.mpr hpaths

/-- The files that are not done can end after those that are. -/
theorem Concluded.exists_keepsOrder (h : Concluded .inProcess workers inputs rules options tools startedAt s ended)
    (loadErrors : List LoadFailure) (htimeout : 0 ≤ options.ruleTimeoutMs) :
    ∃ ended' r', Full inputs rules options tools loadErrors ended' r' ∧
      KeepsOrder options (completedTasks ended) (ended'.map (·.task)) := by
  obtain ⟨rest, hrest⟩ := (completedTasks_sublist ended).exists_perm_append
  obtain ⟨ended', r', hfull, hended⟩ :=
    exists_full inputs rules tools loadErrors htimeout (hrest.symm.trans h.account.1)
  have hfirst := List.sublist_append_left (completedTasks ended) rest
  refine ⟨ended', r', hfull, ?_⟩
  rw [hended]
  exact ⟨fun _ => hfirst, fun _ path => hfirst.filter _⟩

end Runs

/-- A run in one process that may be told to stop at any time, and of which the caller has got what every file
ended in. -/
structure Interrupted (workers : Int) (inputs : List SourceInput) (rules : List Rule) (options : RunOptions)
    (tools : UnitTools) (startedAt : Int) (g : Course) (ended : List (SettledTask SourceInput UnitResult)) :
    Prop where
  reached : Relation.ReflTransGen (Course.Step (Rule.select options rules) (settingsAt options startedAt) tools)
    ⟨⟨.forBatch workers inputs, none⟩, [], []⟩ g
  results : (0, .results ended) ∈ g.stage.pool.replies

section Interruption

variable {workers startedAt : Int} {inputs : List SourceInput} {rules : List Rule}
  {options : RunOptions} {tools : UnitTools} {g : Course} {ended : List (SettledTask SourceInput UnitResult)}

theorem Interrupted.concluded (h : Interrupted workers inputs rules options tools startedAt g ended) :
    Concluded .inProcess workers inputs rules options tools startedAt g.stage ended :=
  ⟨Course.reach_stage h.reached, h.results⟩

theorem Interrupted.truthful (h : Interrupted workers inputs rules options tools startedAt g ended) : g.Truthful :=
  Course.truthful_of_reach h.reached ⟨rfl, nofun⟩

/-- The run that takes one file after another is one that may be told to stop. -/
theorem exists_interrupted (workers : Int) (inputs : List SourceInput) (rules : List Rule) (options : RunOptions)
    (loadErrors : List LoadFailure) (tools : UnitTools) (world : Surroundings) :
    ∃ g ended durationMs, Interrupted workers inputs rules options tools world.readClock.1 g ended ∧
      (run inputs rules options loadErrors .inProcess tools world).report =
        report options rules.length loadErrors (unitsOf ended) g.stage.cancellation durationMs := by
  have hfollows := Course.follows_step (Rule.select options rules) (settingsAt options world.readClock.1) tools
  obtain ⟨durationMs, g, ended, hreach, hreply, hreport⟩ :=
    hfollows.exists_run_eq (g := ⟨⟨.forBatch workers inputs, none⟩, [], []⟩) rfl loadErrors .inProcess
  exact ⟨g, ended, durationMs, ⟨hreach, hreply⟩, hreport⟩

/-- The report of a run that is told to stop, at any time and for any reasons, is a truthful part of that of a full
run. Each file has evaluations that it begins with in a full run. The report lists violations of the full run, in
the same order if files end in the same order, which a sorted report only asks of files with the same path; there
is such a full run if rules have time. A report that does not say that the run was cancelled is that of the full
run. There is a reason exactly if the run was cancelled: the first one recorded, which has come up. -/
theorem Interrupted.part_of_full (h : Interrupted workers inputs rules options tools startedAt g ended)
    (loadErrors : List LoadFailure) (durationMs : Int) {r : Report}
    (hr : r = report options rules.length loadErrors (unitsOf ended) g.stage.cancellation durationMs)
    (htime : ∀ e ∈ r.errors, ¬e.OutOfTime) :
    (∀ ended' r', Full inputs rules options tools loadErrors ended' r' →
      (∀ e ∈ ended, ∀ u, e.outcome = .completed u →
        ∃ e' ∈ ended', e'.task = e.task ∧ ∃ u', e'.outcome = .completed u' ∧
          u.evaluations.map (·.untimed) <+: u'.evaluations.map (·.untimed)) ∧
      r.violations.Subperm r'.violations ∧
      (KeepsOrder options (completedTasks ended) (ended'.map (·.task)) ∨
          options.ordering = .deterministic ∧ (inputs.map (·.path)).Nodup →
        r.violations.Sublist r'.violations ∧ (r.cancelled = false → r.untimed = r'.untimed))) ∧
    (0 ≤ options.ruleTimeoutMs → ∃ ended' r', Full inputs rules options tools loadErrors ended' r' ∧
      KeepsOrder options (completedTasks ended) (ended'.map (·.task))) ∧
    r.cancelled = r.reason.isSome ∧ r.reason = g.recorded.head? ∧ ∀ reason ∈ r.reason, reason ∈ g.arisen := by
  have hconcluded := h.concluded
  have hinTime : ∀ e ∈ errorsOf (unitsOf ended), ¬e.OutOfTime := by
    intro e he
    refine htime e ?_
    rw [hr]
    exact (perm_errors_report _ _ _ _ _ _).mem_iff.mpr he
  refine ⟨fun ended' r' hfull => ⟨fun e he u hu => hconcluded.exists_prefix hinTime hfull he hu, ?_, ?_⟩,
    hconcluded.exists_keepsOrder loadErrors, ?_⟩
  · obtain ⟨durationMs', hr'⟩ := hfull.exists_report_eq
    rw [hr, hr']
    exact violations_report_subperm (hconcluded.violationsOf_subperm hinTime hfull)
  · intro horder
    have hkeeps : KeepsOrder options (completedTasks ended) (ended'.map (·.task)) :=
      horder.elim id fun ⟨hordering, hpaths⟩ => hconcluded.keepsOrder hfull hordering hpaths
    refine ⟨?_, fun hcancelled => ?_⟩
    · obtain ⟨durationMs', hr'⟩ := hfull.exists_report_eq
      rw [hr, hr']
      refine violations_report_sublist
        (hkeeps.listedViolations_sublist ?_ (hconcluded.violationsOf_sublist hinTime) hfull.violationsOf_eq)
      exact fun t => (located_fullResult rules options tools t).violations
    · -- a run that was not cancelled is a full run itself
      have hself : Full inputs rules options tools loadErrors ended r :=
        ⟨⟨workers, options.maxDurationMs, tools.interference, startedAt, durationMs, g.stage, hconcluded, hr⟩,
          hcancelled, htime⟩
      rw [hself.completedTasks_eq] at hkeeps
      exact hself.report_eq hfull hkeeps
  · rw [hr]
    exact ⟨rfl, h.truthful.first, h.truthful.arisen⟩

end Interruption

open OneNode in
/-- Two files, of which time lets the first be analyzed. -/
theorem Interrupted.part_of_full_files :
    let r := (run files rules { maxDurationMs := some 10 } [] .inProcess tools (.ticking 0 1)).report
    let r' := (run files rules {} [] .inProcess tools (.still 0)).report
    r.reason = some .budgetExceeded ∧ r.summary.violations = 1 ∧ r.summary.filesAnalyzed = 1 ∧
      r'.summary.filesAnalyzed = 2 ∧ r.violations.Sublist r'.violations := by
  intro r r'
  have hnone : ∀ r : Report, r.errors.length = 0 → ∀ e ∈ r.errors, ¬e.OutOfTime := by
    intro r hr e he
    rw [List.length_eq_zero_iff.mp hr] at he
    cases he
  obtain ⟨g, ended, durationMs, h, hr⟩ :=
    exists_interrupted 1 files rules { maxDurationMs := some 10 } [] tools (.ticking 0 1)
  obtain ⟨startedAt', durationMs', s', ended', hreached', hresults', hr'⟩ :=
    reports_run .inProcess 2 files rules {} [] tools (.still 0)
  have hfull : Full files rules { maxDurationMs := some 10 } tools [] ended' r' :=
    ⟨⟨2, none, {}, startedAt', durationMs', s', ⟨hreached', hresults'⟩, hr'⟩, by decide +kernel,
      hnone _ (by decide +kernel)⟩
  obtain ⟨hparts, -⟩ := Interrupted.part_of_full h [] durationMs hr (hnone _ (by decide +kernel))
  obtain ⟨-, -, hordered⟩ := hparts ended' r' hfull
  exact ⟨by decide +kernel, by decide +kernel, by decide +kernel, by decide +kernel,
    (hordered (.inr ⟨rfl, by decide⟩)).1⟩
end AnalysisRun

end RuleScan
