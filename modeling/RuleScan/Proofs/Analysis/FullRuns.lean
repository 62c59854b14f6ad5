import Mathlib.Data.List.Flatten
import RuleScan.Proofs.Analysis.Accounting

/-! Full runs: nothing stops them and no time limit is reached. Each file comes to what is fixed by it and the
rules, and there is such a run for every order in which the files can end. -/
namespace RuleScan

open Counted

/-- What nothing but steps can halt is halted by nothing else. -/
theorem Clause.inner_of_outcome {tree : Tree} {clauses : List Clause} {maxSteps : Int} {halt : Halt}
    (h : outcome tree clauses maxSteps = .error (.halted halt)) : ¬halt.Outer := by
  have hcalm : (Tracker.start { maxSteps } (.still 0)).Calm 0 := ⟨⟨fun _ => rfl, fun _ => rfl⟩, nofun, nofun⟩
  have hinner := (undisturbed_evaluateAll tree clauses hcalm).inner
  unfold outcome at h
  split at h
  · cases h
  · next t hrun =>
    cases h
    exact hinner halt t hrun

theorem Text.head?_append_append {start : String} {c : Char} (h : start.toList.head? = some c) (a b : String) :
    (start ++ a ++ b).toList.head? = some c := by
  rw [String.toList_append, String.toList_append, List.append_assoc, List.head?_append, h]
  rfl

theorem Halt.message_ne_timeLimit {halt : Halt} (h : ¬halt.Outer) (elapsed : Int) :
    halt.message ≠ (Halt.timeLimit 0 elapsed).message := by
  cases halt with
  | stepLimit limit steps elapsed' =>
    intro he
    have hsteps : "Step budget of ".toList.head? = some 'S' := by decide
    have htime : "Evaluation exceeded its time limit after ".toList.head? = some 'E' := by decide
    have hfirst : (Halt.stepLimit limit steps elapsed').message.toList.head? = some 'S' :=
      Text.head?_append_append hsteps _ _
    have hother : (Halt.timeLimit 0 elapsed).message.toList.head? = some 'E' := Text.head?_append_append htime _ _
    rw [he, hother] at hfirst
    exact absurd hfirst (by decide)
  | timeLimit steps elapsed' => exact absurd trivial h
  | cancelled reason => exact absurd trivial h

namespace FileUnit

theorem not_outOfTime_failure {path ruleId : String} {e : EvalError} (h : ∀ halt, e = .halted halt → ¬halt.Outer) :
    ¬(failure path ruleId (kindOf e) e.fault).OutOfTime := by
  rintro ⟨_, ⟨⟩, hkind, elapsed, hmessage⟩
  cases e with
  | halted halt =>
    have hinner := h halt rfl
    refine Halt.message_ne_timeLimit hinner elapsed ?_
    cases halt with
    | stepLimit limit steps elapsed' => exact hmessage
    | timeLimit steps elapsed' => exact absurd trivial hinner
    | cancelled reason => exact absurd trivial hinner
  | query _ | regex _ | misplaced _ | noPositive | noNode _ | readOnly _ => cases hkind

theorem not_outOfTime_conclude (path : String) (tree : Tree) (maxSteps : Int) (rule : Rule) (c : Collector) :
    ¬(conclude path tree maxSteps rule c).1.OutOfTime := by
  rcases conclude_cases path tree maxSteps rule c with
    ⟨err, hout, hc⟩ | ⟨found, -, ⟨err, after, -, hc⟩ | ⟨vs, after, -, hc⟩⟩
  · rw [hc]
    refine not_outOfTime_failure fun halt he => ?_
    rw [he] at hout
    exact Clause.inner_of_outcome hout
  · rw [hc]
    rintro ⟨_, ⟨⟩, hkind, -⟩
    cases hkind
  · rw [hc]
    rintro ⟨_, ⟨⟩, -⟩

theorem not_outOfTime_concludeAll (path : String) (tree : Tree) (maxSteps : Int) (rules : List Rule) (c : Collector) :
    ∀ e ∈ concludeAll path tree maxSteps rules c, ¬e.OutOfTime := by
  induction rules generalizing c with
  | nil => exact nofun
  | cons rule rules ih => exact List.forall_mem_cons.mpr ⟨not_outOfTime_conclude path tree maxSteps rule c, ih _⟩

theorem not_outOfTime_comesTo (input : SourceInput) (rules : List Rule) (settings : UnitSettings) (tools : UnitTools) :
    ∀ e ∈ (comesTo input rules settings tools).errors ++
        (comesTo input rules settings tools).evaluations.filterMap (·.error), ¬e.OutOfTime := by
  unfold comesTo
  rcases opened_accounts input rules settings tools with
    ⟨err, hopened, hfailure⟩ | ⟨language, -, ⟨hopened, -⟩ | ⟨tree, hopened⟩⟩
  · rw [hopened]
    rintro e he ⟨hkind, -⟩
    obtain rfl : e = err := by simpa using he
    unfold AnalysisError.isFileFailure at hfailure
    simp [hkind] at hfailure
  · rw [hopened]
    exact nofun
  · rw [hopened]
    rintro e he hlimit
    obtain ⟨evaluation, hmem, herror⟩ := List.mem_filterMap.mp he
    exact not_outOfTime_concludeAll _ _ _ _ _ evaluation hmem ⟨e, herror, hlimit⟩

end FileUnit

namespace AnalysisRun

/-- A run in one process that nothing stops and in which no time limit is reached. It may have another number of
workers, other limits of time and others around it. -/
structure Full (inputs : List SourceInput) (rules : List Rule) (options : RunOptions) (tools : UnitTools)
    (loadErrors : List LoadFailure) (ended : List (SettledTask SourceInput UnitResult)) (r : Report) : Prop where
  concluded : ∃ (workers : Int) (limit : Option Int) (interference : Interference) (startedAt durationMs : Int)
    (s : Stage), Concluded .inProcess workers inputs rules { options with maxDurationMs := limit }
      { tools with interference } startedAt s ended ∧
    r = report { options with maxDurationMs := limit } rules.length loadErrors (unitsOf ended) s.cancellation durationMs
  uncancelled : r.cancelled = false
  inTime : ∀ e ∈ r.errors, ¬e.OutOfTime

/-- What the file of a task comes to in a full run. -/
def fullResult (rules : List Rule) (options : RunOptions) (tools : UnitTools) (t : PoolTask SourceInput) : UnitResult :=
  FileUnit.comesTo t.input (Rule.select options rules) (settingsAt options 0) tools

section Runs

variable {workers startedAt : Int} {inputs : List SourceInput} {rules : List Rule} {options : RunOptions}
  {tools : UnitTools} {loadErrors : List LoadFailure} {s : Stage} {r : Report}
  {ended : List (SettledTask SourceInput UnitResult)}

theorem Concluded.exists_fullResult (h : Concluded .inProcess workers inputs rules options tools startedAt s ended)
    (hcancelled : s.cancellation = none) (htime : ∀ e ∈ errorsOf (unitsOf ended), ¬e.OutOfTime)
    {e : SettledTask SourceInput UnitResult} (he : e ∈ ended) :
    ∃ u, e.outcome = .completed u ∧ u.untimed = fullResult rules options tools e.task := by
  obtain ⟨u, hu, -⟩ := h.complete hcancelled he
  have haccounted := h.account.2 e he
  unfold Accounted at haccounted
  rw [hu, hcancelled] at haccounted
  rcases haccounted with ⟨hends, hnone⟩ | ⟨hsome, -⟩
  · obtain ⟨world, rfl⟩ := hends.inProcess
    refine ⟨_, hu, FileUnit.untimed_run (hnone rfl) (not_outOfTime_of_errorsOf htime ?_)⟩
    rw [unitsOf_inProcess h.account.2]
    exact List.mem_filterMap.mpr ⟨e, he, by simp [resultOf?, hu]⟩
  · cases hsome

theorem Full.ended_perm (h : Full inputs rules options tools loadErrors ended r) :
    (ended.map (·.task)).Perm (TaskPool.tasksOf inputs) := by
  obtain ⟨workers, limit, interference, startedAt, durationMs, s, hconcluded, -⟩ := h.concluded
  exact hconcluded.account.1

theorem cancellation_of_uncancelled {rulesLoaded : Nat} {units : List UnitResult}
    {cancellation : Option CancelReason} {durationMs : Int}
    (h : (report options rulesLoaded loadErrors units cancellation durationMs).cancelled = false) :
    cancellation = none :=
  Option.isNone_iff_eq_none.mp (Option.isSome_eq_false_iff.mp h)

theorem Full.exists_report_eq (h : Full inputs rules options tools loadErrors ended r) :
    ∃ durationMs, r = report options rules.length loadErrors (unitsOf ended) none durationMs := by
  obtain ⟨workers, limit, interference, startedAt, durationMs, s, -, hr⟩ := h.concluded
  have hfull := h.uncancelled
  rw [hr] at hfull
  rw [cancellation_of_uncancelled hfull] at hr
  exact ⟨durationMs, hr⟩

/-- In a full run every file comes to its result. -/
theorem Full.exists_fullResult (h : Full inputs rules options tools loadErrors ended r)
    {e : SettledTask SourceInput UnitResult} (he : e ∈ ended) :
    ∃ u, e.outcome = .completed u ∧ u.untimed = fullResult rules options tools e.task := by
  obtain ⟨workers, limit, interference, startedAt, durationMs, s, hconcluded, hr⟩ := h.concluded
  have hfull := h.uncancelled
  rw [hr] at hfull
  refine hconcluded.exists_fullResult (cancellation_of_uncancelled hfull) (fun e he => h.inTime e ?_) he
  rw [hr]
  exact (perm_errors_report _ _ _ _ _ _).mem_iff.mpr he

theorem Full.map_untimed (h : Full inputs rules options tools loadErrors ended r) :
    (unitsOf ended).map (·.untimed) = (ended.map (·.task)).map (fullResult rules options tools) := by
  obtain ⟨workers, limit, interference, startedAt, durationMs, s, hconcluded, hr⟩ := h.concluded
  rw [unitsOf_inProcess hconcluded.account.2, completedOf, List.map_filterMap, List.map_map, ← List.filterMap_eq_map]
  refine List.filterMap_congr fun e he => ?_
  obtain ⟨u, hu, huntimed⟩ := h.exists_fullResult he
  simp [resultOf?, hu, huntimed]

def foundBy (rules : List Rule) (options : RunOptions) (tools : UnitTools) (t : PoolTask SourceInput) :
    List Violation :=
  (fullResult rules options tools t).evaluations.flatMap (·.violations)

theorem Full.violationsOf_eq (h : Full inputs rules options tools loadErrors ended r) :
    violationsOf (unitsOf ended) = (ended.map (·.task)).flatMap (foundBy rules options tools) := by
  have hunits : violationsOf (unitsOf ended) = violationsOf ((unitsOf ended).map (·.untimed)) := by
    simp only [violationsOf, UnitResult.untimed, List.flatMap_assoc, List.flatMap_map]
    rfl
  rw [hunits, h.map_untimed, violationsOf, List.flatMap_assoc, List.flatMap_map]
  rfl

theorem Full.errorsOf_eq (h : Full inputs rules options tools loadErrors ended r) :
    errorsOf (unitsOf ended) =
      ((ended.map (·.task)).flatMap fun t => (fullResult rules options tools t).errors) ++
        (ended.map (·.task)).flatMap fun t => (fullResult rules options tools t).evaluations.filterMap (·.error) := by
  have hunits : errorsOf (unitsOf ended) = errorsOf ((unitsOf ended).map (·.untimed)) := by
    simp only [errorsOf, UnitResult.untimed, List.filterMap_flatMap, List.flatMap_map, List.filterMap_map]
    rfl
  rw [hunits, h.map_untimed]
  simp only [errorsOf, List.filterMap_flatMap, List.flatMap_map]

variable (inputs rules tools loadErrors) in
/-- With time for each rule there is a full run in which the files end in any order. -/
theorem exists_full (htimeout : 0 ≤ options.ruleTimeoutMs) {order : List (PoolTask SourceInput)}
    (horder : order.Perm (TaskPool.tasksOf inputs)) :
    ∃ ended r, Full inputs rules options tools loadErrors ended r ∧ ended.map (·.task) = order := by
  let options' : RunOptions := { options with maxDurationMs := none }
  let tools' : UnitTools := { tools with interference := {} }
  let unit (input : SourceInput) : UnitResult :=
    (FileUnit.run input (Rule.select options rules) (settingsAt options' 0) tools' (.still 0)).1
  have hunit (input : SourceInput) : (unit input).cancellation = none ∧
      (unit input).untimed = FileUnit.comesTo input (Rule.select options rules) (settingsAt options' 0) tools' :=
    FileUnit.run_still input _ _ tools' htimeout nofun rfl fun _ _ => rfl
  have hends (t : PoolTask SourceInput) :
      FileUnit.Ends .inProcess t.input (settingsAt options' 0) tools' (Rule.select options rules) (unit t.input) :=
    .once _ (.still 0)
  have hall := TaskPool.allRunning_forBatch (β := UnitResult) inputs
  have hrunning : (TaskPool.forBatch inputs.length inputs : TaskPool SourceInput UnitResult).AllRunning order :=
    ⟨hall.queue, hall.active.trans horder.symm⟩
  have htasks := TaskPool.nodup_tasksOf inputs
  obtain ⟨g, hreach, hbatch, hnone, hcancel⟩ := exists_reach_of_ends unit (g := ⟨.forBatch inputs.length inputs, none⟩)
    htasks (fun outcome hbatch hrest => TaskPool.AllRunning.settle hbatch htasks hrest outcome)
    (TaskPool.batch_forBatch inputs.length inputs) hrunning fun t _ => hends t
  rw [List.nil_append] at hbatch
  have hg := hcancel fun t _ => (hunit t.input).1
  refine ⟨_, _, ⟨⟨inputs.length, none, {}, 0, 0, g, ⟨hreach, hbatch.replied hnone.inOrder⟩, rfl⟩, ?_, ?_⟩, ?_⟩
  · rw [hg]
    rfl
  · intro e he
    obtain ⟨u, hu, hlisted⟩ := mem_errorsOf.mp ((perm_errors_report _ _ _ _ _ _).mem_iff.mp he)
    rw [unitsOf_completed unit] at hu
    obtain ⟨t, -, rfl⟩ := List.mem_map.mp hu
    refine FileUnit.not_outOfTime_comesTo t.input (Rule.select options rules) (settingsAt options' 0) tools' e ?_
    rw [← (hunit t.input).2, UnitResult.untimed, List.filterMap_map]
    exact hlisted
  · rw [List.map_map]
    exact List.map_id' _

end Runs

end AnalysisRun

end RuleScan
