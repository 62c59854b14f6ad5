import RuleScan.Proofs.Analysis.Listings
import RuleScan.Proofs.Analysis.Uniqueness

/-! Reports do not depend on order. What a file comes to is fixed as long as nothing is cancelled and no time
limit is reached, and a report sorts and counts what its files came to. -/
namespace RuleScan

/-- The same result with the evaluations in another order. -/
structure UnitResult.Reordered (u v : UnitResult) : Prop where
  analyzed : u.analyzed = v.analyzed
  errors : u.errors = v.errors
  evaluations : u.evaluations.Perm v.evaluations

theorem UnitResult.Reordered.refl (u : UnitResult) : u.Reordered u := ⟨rfl, rfl, List.Perm.refl _⟩

namespace FileUnit

section Rules

variable {path : String} {tree : Tree} {settings : UnitSettings} {interference : Interference}

theorem file_of_evaluateRule {rule : Rule} {c c' : Collector} {w w' : Surroundings} {e : RuleEvaluation}
    (h : evaluateRule path tree rule settings c w = (.ok e, c', w')) : ∀ v ∈ e.violations, v.file = path := by
  intro v hv
  obtain ⟨found, m, -, -, hmatch⟩ := exists_ofMatch_of_evaluateRule h hv
  obtain ⟨message, fix, -, rfl⟩ := Violation.exists_of_ofMatch hmatch
  rfl

theorem error_of_evaluateRule {rule : Rule} {c c' : Collector} {w w' : Surroundings} {e : RuleEvaluation}
    (h : evaluateRule path tree rule settings c w = (.ok e, c', w')) :
    ∀ err ∈ e.error, err.file = path ∧ err.ruleId = some rule.id := by
  change ∀ err ∈ e.untimed.error, err.file = path ∧ err.ruleId = some rule.id
  rcases evaluateRule_cases h with ⟨elapsed, he, -⟩ | he
  · rw [he]
    rintro _ ⟨⟩
    exact ⟨rfl, rfl⟩
  rcases conclude_cases path tree settings.maxSteps rule c with
    ⟨err, -, hc⟩ | ⟨found, -, ⟨err, after, -, hc⟩ | ⟨vs, after, hcollect, hc⟩⟩
  · rw [(Prod.mk.inj (he.trans hc)).1]
    rintro _ ⟨⟩
    exact ⟨rfl, rfl⟩
  · rw [(Prod.mk.inj (he.trans hc)).1]
    rintro _ ⟨⟩
    exact ⟨rfl, rfl⟩
  · rw [(Prod.mk.inj (he.trans hc)).1]
    exact nofun

/-- The error keys of evaluations are the ids of the rules that failed. -/
theorem Evaluated.errors {rules : List Rule} {c : Collector} {es : List RuleEvaluation}
    (h : Evaluated path tree settings interference rules c es) :
    (∀ err ∈ es.filterMap (·.error), err.file = path) ∧
      ((es.filterMap (·.error)).map (·.ruleId.getD "")).Sublist (rules.map (·.id)) := by
  induction h with
  | nil => exact ⟨fun err hr => absurd hr List.not_mem_nil, List.Sublist.slnil⟩
  | @cons rule rules c c' w e es head tail ih =>
    obtain ⟨w₁, w₂, -, hrule⟩ := head
    have herror := error_of_evaluateRule hrule
    cases he : e.error with
    | none =>
      rw [List.filterMap_cons_none he]
      exact ⟨ih.1, ih.2.cons _⟩
    | some err =>
      obtain ⟨hfile, hid⟩ := herror err he
      rw [List.filterMap_cons_some he, List.map_cons, hid]
      exact ⟨List.forall_mem_cons.mpr ⟨hfile, ih.1⟩, ih.2.cons_cons _⟩

theorem Evaluated.file {rules : List Rule} {c : Collector} {es : List RuleEvaluation}
    (h : Evaluated path tree settings interference rules c es) : ∀ v ∈ es.flatMap (·.violations), v.file = path := by
  induction h with
  | nil => exact fun v hv => absurd hv List.not_mem_nil
  | cons head tail ih =>
    obtain ⟨w₁, w₂, -, hrule⟩ := head
    exact List.forall_mem_append.mpr ⟨file_of_evaluateRule hrule, ih⟩

end Rules

variable {input : SourceInput} {rules : List Rule} {settings : UnitSettings} {tools : UnitTools}

theorem file_of_read {limit : Int} {disk : Disk} {e : AnalysisError} (h : input.read limit disk = .error e) :
    e.file = input.path := by
  obtain ⟨_, rfl⟩ | rfl | ⟨_, rfl⟩ := input.error_of_read h <;> rfl

theorem path_of_parse {parsers : ParserRegistry} {source path : String} {language : Language}
    {policy : SyntaxPolicy} {e : ParseError} (h : parsers.parse source language (some path) policy = .error e) :
    e.path = path := by
  unfold ParserRegistry.parse at h
  split at h
  · cases h
    rfl
  · unfold Parser.parse at h
    dsimp only [Option.getD_some] at h
    split at h
    · cases h
      rfl
    split at h
    · cases h
      rfl
    split at h
    · cases h
      rfl
    · split at h
      · cases h
        rfl
      · cases h

theorem file_of_opened {e : AnalysisError} (h : opened input rules settings tools = .error e) :
    e.file = input.path := by
  unfold opened at h
  split at h
  · cases h
    rfl
  split at h
  · next hread =>
    cases h
    exact file_of_read hread
  split at h
  · split at h
    · next hparse =>
      cases h
      exact path_of_parse hparse
    · cases h
  · cases h

/-- What a file lists names it. -/
structure Located (input : SourceInput) (u : UnitResult) : Prop where
  violations : ∀ v ∈ u.evaluations.flatMap (·.violations), v.file = input.path
  errors : ∀ e ∈ u.errors ++ u.evaluations.filterMap (·.error), e.file = input.path

/-- The file has one error at most, or one for each rule that failed. -/
structure Listed (input : SourceInput) (u : UnitResult) : Prop extends Located input u where
  distinct : ((u.errors ++ u.evaluations.filterMap (·.error)).map (·.ruleId.getD "")).Nodup

variable (input rules settings tools) in
theorem located_run (world : Surroundings) : Located input (run input rules settings tools world).1 := by
  rw [run_fst]
  rcases cancellation settings world with ⟨_ | reason, world'⟩
  · unfold started
    rcases hopened : opened input rules settings tools with e | _ | ⟨language, tree⟩
    · constructor <;> simp [file_of_opened hopened]
    · constructor <;> simp
    · obtain ⟨done, -, -, hdone⟩ := evaluated_evaluateRules input.path tree settings tools.interference
        language rules 0 {}
        (if tools.interference.onParse input.path then world'.setStop true else world')
      exact ⟨hdone.file, hdone.errors.1⟩
  · constructor <;> simp

theorem listed_run (hids : (rules.map (·.id)).Nodup) (world : Surroundings) :
    Listed input (run input rules settings tools world).1 := by
  refine ⟨located_run input rules settings tools world, ?_⟩
  rw [run_fst]
  rcases cancellation settings world with ⟨_ | reason, world'⟩
  · unfold started
    rcases hopened : opened input rules settings tools with e | _ | ⟨language, tree⟩
    · simp
    · exact List.nodup_nil
    · obtain ⟨done, hfront, -, hdone⟩ := evaluated_evaluateRules input.path tree settings tools.interference
        language rules 0 {}
        (if tools.interference.onParse input.path then world'.setStop true else world')
      refine hids.sublist (hdone.errors.2.trans ?_)
      exact (hfront.sublist.trans List.filter_sublist).map _
  · exact List.nodup_nil

/-- A file is opened for the same rules in another order as before. -/
theorem opened_eq_of_perm {rules' : List Rule} (h : rules.Perm rules') :
    opened input rules settings tools = opened input rules' settings tools := by
  unfold opened
  simp only [List.any_eq, h.mem_iff]

/-- Rules with different ids come to the same as alone. -/
theorem concludeAll_eq_map {path : String} {tree : Tree} {maxSteps : Int} {c : Collector}
    (hids : (rules.map (·.id)).Nodup)
    (hdigest : Sha256.CollisionFree {s | s ∈ rules.flatMap (hashedBy path tree maxSteps)})
    (hunseen : Unseen path tree maxSteps rules c) :
    concludeAll path tree maxSteps rules c = rules.map fun rule => (conclude path tree maxSteps rule {}).1 := by
  induction rules generalizing c with
  | nil => rfl
  | cons rule rules ih =>
    rw [concludeAll, List.map_cons, conclude_of_unseen (hunseen rule List.mem_cons_self)]
    congr 1
    refine ih hids.of_cons (hdigest.mono ?_) ?_
    · exact fun s hs => List.mem_append_right _ hs
    · exact hunseen.tail hids hdigest fun p hp => mem_seenIn_of_conclude hp

theorem reordered_comesTo {rules' : List Rule} (h : rules.Perm rules') (hids : (rules.map (·.id)).Nodup)
    (hdigest : Sha256.CollisionFree {s | s ∈ hashed input rules settings tools}) :
    (comesTo input rules settings tools).Reordered (comesTo input rules' settings tools) := by
  unfold comesTo
  unfold hashed at hdigest
  rw [← opened_eq_of_perm h]
  rcases hopened : opened input rules settings tools with e | _ | ⟨language, tree⟩
  · exact .refl _
  · exact .refl _
  · rw [hopened] at hdigest
    have hfilter := h.filter (·.languages.contains language)
    have hids' : ((rules.filter (·.languages.contains language)).map (·.id)).Nodup :=
      hids.sublist (List.filter_sublist.map _)
    have htexts := hfilter.flatMap_right (hashedBy input.path tree settings.maxSteps)
    refine ⟨rfl, rfl, ?_⟩
    dsimp only
    rw [concludeAll_eq_map hids' hdigest (unseen_empty _ _),
      concludeAll_eq_map ((hfilter.map _).nodup_iff.mp hids') (hdigest.mono fun s hs => htexts.mem_iff.mpr hs)
        (unseen_empty _ _)]
    exact hfilter.map _

theorem Ends.inProcess {u : UnitResult} (h : Ends .inProcess input settings tools rules u) :
    ∃ world, u = (run input rules settings tools world).1 := by
  cases h with
  | once _ world => exact ⟨world, rfl⟩
  | resumed threads => cases threads
  | givenUp threads => cases threads

end FileUnit

namespace AnalysisRun

section Runs

variable {workers workers' : Int} {inputs inputs' : List SourceInput} {rules rules' : List Rule}
  {options : RunOptions} {loadErrors : List LoadFailure} {tools : UnitTools} {r r' : Report}

theorem unitsOf_inProcess {settings : UnitSettings} {cancellation : Option CancelReason}
    {ended : List (SettledTask SourceInput UnitResult)}
    (h : ∀ e ∈ ended, Accounted .inProcess rules settings tools cancellation e) :
    unitsOf ended = completedOf ended := by
  have hnone : failuresOf ended = [] := by
    refine List.filterMap_eq_nil_iff.mpr fun e he => ?_
    have haccounted := h e he
    unfold Accounted at haccounted
    split
    · next hfailed =>
      rw [hfailed] at haccounted
      cases haccounted
    · rfl
  rw [unitsOf, hnone, List.nil_append]

theorem exists_runs_of_accounted {settings : UnitSettings} {ended : List (SettledTask SourceInput UnitResult)}
    (h : ∀ e ∈ ended, Accounted .inProcess rules settings tools none e) :
    ∃ runs : List (SourceInput × Surroundings), runs.map (·.1) = ended.map (·.task.input) ∧
      (∀ x ∈ runs, (FileUnit.run x.1 rules settings tools x.2).1.cancellation = none) ∧
      completedOf ended = runs.map fun x => (FileUnit.run x.1 rules settings tools x.2).1 := by
  induction ended with
  | nil => exact ⟨[], rfl, fun x hx => absurd hx List.not_mem_nil, rfl⟩
  | cons e ended ih =>
    obtain ⟨he, hrest⟩ := List.forall_mem_cons.mp h
    obtain ⟨runs, hinputs, hcancel, hunits⟩ := ih hrest
    obtain ⟨task, outcome⟩ := e
    cases outcome with
    | failed message => cases he
    | cancelled => cases he
    | completed u =>
      rcases he with ⟨hends, hu⟩ | ⟨hsome, -⟩
      · obtain ⟨world, hworld⟩ := hends.inProcess
        dsimp only at hworld
        refine ⟨(task.input, world) :: runs, ?_, List.forall_mem_cons.mpr ⟨?_, hcancel⟩, ?_⟩
        · rw [List.map_cons, List.map_cons, hinputs]
        · rw [← hworld]
          exact hu rfl
        · rw [List.map_cons, ← hunits, ← hworld]
          rfl
      · cases hsome

/-- An in-process run that is not cancelled analyzes every input once, each in surroundings of its own, in
some order. -/
theorem Reports.exists_runs (h : Reports .inProcess workers inputs rules options loadErrors tools r)
    (hcancelled : r.cancelled = false) :
    ∃ (startedAt durationMs : Int) (runs : List (SourceInput × Surroundings)), (runs.map (·.1)).Perm inputs ∧
      (∀ x ∈ runs, (FileUnit.run x.1 (Rule.select options rules) (settingsAt options startedAt) tools
        x.2).1.cancellation = none) ∧
      r = report options rules.length loadErrors
        (runs.map fun x => (FileUnit.run x.1 (Rule.select options rules) (settingsAt options startedAt) tools x.2).1)
        none durationMs := by
  obtain ⟨startedAt, durationMs, cancellation, ended, hperm, hended, rfl⟩ := h.exists_ended
  obtain rfl : cancellation = none := by
    cases cancellation with
    | none => rfl
    | some reason => cases hcancelled
  obtain ⟨runs, hinputs, hcancel, hunits⟩ := exists_runs_of_accounted hended
  exact ⟨startedAt, durationMs, runs, hinputs ▸ hperm, hcancel, by rw [unitsOf_inProcess hended, hunits]⟩

/-- Lists that are kept apart by their paths, and each of which is told apart by a key, make a list that is
told apart by path and key. -/
theorem nodup_flatMap_of_paths {α β : Type} {xs : List α} {path : α → String} {f : α → List β} {file key : β → String}
    (hpaths : (xs.map path).Nodup) (hfiles : ∀ x ∈ xs, ∀ b ∈ f x, file b = path x)
    (hkeys : ∀ x ∈ xs, ((f x).map key).Nodup) : ((xs.flatMap f).map fun b => (file b, key b)).Nodup := by
  rw [List.map_flatMap]
  refine List.nodup_flatMap.mpr ⟨fun x hx => ?_, ?_⟩
  · refine .of_map Prod.snd ?_
    rw [List.map_map]
    exact hkeys x hx
  · refine (List.pairwise_map.mp hpaths).imp_of_mem fun hx hy hne => ?_
    intro k hk hk'
    obtain ⟨b, hb, rfl⟩ := List.mem_map.mp hk
    obtain ⟨b', hb', he⟩ := List.mem_map.mp hk'
    rw [Prod.mk.injEq, hfiles _ hx b hb, hfiles _ hy b' hb'] at he
    exact hne he.1.symm

variable (tools) in
/-- The files of a run with different paths and rules with different ids list nothing twice. -/
theorem nodup_listed (settings : UnitSettings) {runs : List (SourceInput × Surroundings)}
    (hpaths : (runs.map (·.1.path)).Nodup) (hids : (rules.map (·.id)).Nodup) :
    ((errorsOf (runs.map fun x => (FileUnit.run x.1 rules settings tools x.2).1)).map
        fun e => (e.file, e.ruleId.getD "")).Nodup ∧
      ((violationsOf (runs.map fun x => (FileUnit.run x.1 rules settings tools x.2).1)).map
        fun v => (v.file, v.fingerprint)).Nodup := by
  have hlisted : ∀ x : SourceInput × Surroundings, FileUnit.Listed x.1 (FileUnit.run x.1 rules settings tools x.2).1 :=
    fun x => FileUnit.listed_run hids x.2
  constructor
  · unfold errorsOf
    rw [List.filterMap_flatMap, List.flatMap_map, List.flatMap_map]
    refine ((List.flatMap_append_perm runs _ _).map _).nodup_iff.mpr ?_
    exact nodup_flatMap_of_paths hpaths (fun x _ => (hlisted x).errors) fun x _ => (hlisted x).distinct
  · unfold violationsOf
    rw [List.flatMap_assoc, List.flatMap_map]
    refine nodup_flatMap_of_paths hpaths (fun x _ => (hlisted x).violations) fun x _ => ?_
    rw [List.map_flatMap]
    exact (FileUnit.prints_run ..).1

theorem not_outOfTime_of_errorsOf {units : List UnitResult} (h : ∀ e ∈ errorsOf units, ¬e.OutOfTime) {u : UnitResult}
    (hu : u ∈ units) : ∀ e ∈ u.evaluations, ¬e.OutOfTime := by
  rintro e he ⟨err, herr, hlimit⟩
  refine h err (mem_errorsOf.mpr ⟨u, hu, List.mem_append_right _ ?_⟩) hlimit
  exact List.mem_filterMap.mpr ⟨e, he, herr⟩

/-- Runs that are neither cancelled nor out of time come to what is fixed by the files and the rules. -/
theorem perm_comesTo {settings : UnitSettings} {runs : List (SourceInput × Surroundings)}
    (hperm : (runs.map (·.1)).Perm inputs)
    (hcancel : ∀ x ∈ runs, (FileUnit.run x.1 rules settings tools x.2).1.cancellation = none)
    (htime : ∀ e ∈ errorsOf (runs.map fun x => (FileUnit.run x.1 rules settings tools x.2).1), ¬e.OutOfTime) :
    ((runs.map fun x => (FileUnit.run x.1 rules settings tools x.2).1).map (·.untimed)).Perm
      (inputs.map (FileUnit.comesTo · rules settings tools)) := by
  have hfixed : (runs.map fun x => (FileUnit.run x.1 rules settings tools x.2).1).map (·.untimed) =
      (runs.map (·.1)).map (FileUnit.comesTo · rules settings tools) := by
    rw [List.map_map, List.map_map]
    refine List.map_congr_left fun x hx => FileUnit.untimed_run (hcancel x hx) ?_
    exact not_outOfTime_of_errorsOf htime (List.mem_map_of_mem hx)
  rw [hfixed]
  exact hperm.map _

/-- Files that come to the same, up to the order of files and evaluations and times, have the same report,
apart from times. -/
theorem report_untimed_eq_of_reordered {units units' : List UnitResult} {unit unit' : SourceInput → UnitResult}
    {rulesLoaded : Nat} {durationMs durationMs' : Int} (hordering : options.ordering = .deterministic)
    (hunits : (units.map (·.untimed)).Perm (inputs.map unit))
    (hunits' : (units'.map (·.untimed)).Perm (inputs.map unit'))
    (hreordered : ∀ input ∈ inputs, (unit input).Reordered (unit' input))
    (hlistedErrors : ((errorsOf units).map fun e => (e.file, e.ruleId.getD "")).Nodup)
    (hlisted : ((violationsOf units).map fun v => (v.file, v.fingerprint)).Nodup) :
    (report options rulesLoaded loadErrors units none durationMs).untimed =
      (report options rulesLoaded loadErrors units' none durationMs').untimed := by
  refine report_untimed_eq_of_perm hordering ?_ ?_ ?_ hlistedErrors hlisted
  · have hcount := hunits.countP_eq (·.analyzed)
    have hcount' := hunits'.countP_eq (·.analyzed)
    rw [List.countP_map, List.countP_map] at hcount hcount'
    refine hcount.trans (Eq.trans ?_ hcount'.symm)
    refine List.countP_congr fun input hinput => ?_
    simp [(hreordered input hinput).analyzed]
  · have herrors := hunits.flatMap_right (·.errors)
    have herrors' := hunits'.flatMap_right (·.errors)
    rw [List.flatMap_map, List.flatMap_map] at herrors herrors'
    refine herrors.trans (List.Perm.trans ?_ herrors'.symm)
    exact List.Perm.flatMap_left _ fun input hinput => (hreordered input hinput).errors ▸ List.Perm.refl _
  · have hevaluations := hunits.flatMap_right (·.evaluations)
    have hevaluations' := hunits'.flatMap_right (·.evaluations)
    rw [List.flatMap_map, List.flatMap_map] at hevaluations hevaluations'
    rw [List.map_flatMap, List.map_flatMap]
    refine hevaluations.trans (List.Perm.trans ?_ hevaluations'.symm)
    exact List.Perm.flatMap_left _ fun input hinput => (hreordered input hinput).evaluations

/-- Reports do not depend on order. Two in-process runs over the same inputs and rules in any order, with any
number of workers and with files that end in any order, give the same report apart from times, if inputs have
different paths and rules different ids, nothing is cancelled and no time limit is reached. Digests matter
only if the order of the rules differs. -/
theorem Reports.untimed_eq (h : Reports .inProcess workers inputs rules options loadErrors tools r)
    (h' : Reports .inProcess workers' inputs' rules' options loadErrors tools r')
    (hinputs : inputs.Perm inputs') (hrules : rules.Perm rules') (hpaths : (inputs.map (·.path)).Nodup)
    (hids : (rules.map (·.id)).Nodup) (hordering : options.ordering = .deterministic)
    (hcancelled : r.cancelled = false) (hcancelled' : r'.cancelled = false)
    (htime : ∀ e ∈ r.errors, ¬e.OutOfTime) (htime' : ∀ e ∈ r'.errors, ¬e.OutOfTime)
    (hdigest : rules = rules' ∨ Sha256.CollisionFree {s | s ∈ hashed inputs rules options tools}) :
    r.untimed = r'.untimed := by
  obtain ⟨startedAt, durationMs, runs, hperm, hcancel, rfl⟩ := h.exists_runs hcancelled
  obtain ⟨startedAt', durationMs', runs', hperm', hcancel', rfl⟩ := h'.exists_runs hcancelled'
  have hselected : (Rule.select options rules).Perm (Rule.select options rules') := hrules.filter _
  have hselectedIds : ((Rule.select options rules).map (·.id)).Nodup := hids.sublist (List.filter_sublist.map _)
  have herrors : ∀ {rules : List Rule} {units : List UnitResult} {durationMs : Int},
      (report options rules.length loadErrors units none durationMs).errors = AnalysisError.sort (errorsOf units) := by
    intro rules units durationMs
    unfold report errorsOf
    simp only [hordering, if_true]
  have hunits := perm_comesTo hperm hcancel fun e he => htime e (by
    rw [herrors]
    exact List.mem_mergeSort.mpr he)
  have hunits' := perm_comesTo (hperm'.trans hinputs.symm) hcancel' fun e he => htime' e (by
    rw [herrors]
    exact List.mem_mergeSort.mpr he)
  have hrunPaths : (runs.map (·.1.path)).Nodup := by
    have hmapped := (hperm.map (·.path)).nodup_iff.mpr hpaths
    rwa [List.map_map] at hmapped
  obtain ⟨hlistedErrors, hlisted⟩ := nodup_listed tools (settingsAt options startedAt) hrunPaths hselectedIds
  -- rules in another order make each file list its evaluations in that order, and nothing else
  rw [← hrules.length_eq]
  refine report_untimed_eq_of_reordered hordering hunits hunits' (fun input hinput => ?_) hlistedErrors hlisted
  rcases hdigest with rfl | hdigest
  · exact .refl _
  · refine FileUnit.reordered_comesTo hselected hselectedIds (hdigest.mono fun s hs => ?_)
    exact List.mem_flatMap.mpr ⟨input, hinput, hs⟩

end Runs

open OneNode in
/-- Two files and two rules, in both orders and at different times. -/
theorem Reports.untimed_eq_files :
    (run files rules { collectStatistics := true } [] .inProcess tools (.still 0)).report.untimed =
      (run files.reverse rules.reverse { collectStatistics := true } [] .inProcess tools
        (.still 7)).report.untimed := by
  have hnone : ∀ r : Report, r.errors.length = 0 → ∀ e ∈ r.errors, ¬e.OutOfTime := by
    intro r hr e he
    rw [List.length_eq_zero_iff.mp hr] at he
    cases he
  exact Reports.untimed_eq (reports_run .inProcess 1 ..) (reports_run .inProcess 2 ..)
    (List.reverse_perm _).symm (List.reverse_perm _).symm (by decide) (by decide) rfl (by decide +kernel)
    (by decide +kernel) (hnone _ (by decide +kernel)) (hnone _ (by decide +kernel)) (.inr collisionFree_files)

end AnalysisRun

end RuleScan
