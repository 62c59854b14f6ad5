import RuleScan.Proofs.Analysis.Isolation
import RuleScan.Proofs.Analysis.Listings
import RuleScan.Proofs.Analysis.Schedules

/-! Fingerprints in a report. The collector of a file drops what it has seen, so one file never repeats a
fingerprint. Two files can: nothing is shared between them, and what names rule and file in a fingerprint
can be the same for both. -/
namespace RuleScan

namespace Collector

variable {path : String} {language : Language} {content : Units}

theorem map_fingerprint_eq {vs : List Violation} {fs : List Finding}
    (h : vs.map .ok = fs.map (·.violation path language content)) :
    vs.map (·.fingerprint) = fs.map (·.fingerprint path content) := by
  induction fs generalizing vs with
  | nil =>
    rw [List.map_eq_nil_iff.mp h]
    rfl
  | cons f fs ih =>
    cases vs with
    | nil => cases h
    | cons v vs =>
      obtain ⟨hv, hvs⟩ := List.cons.inj h
      simp only [List.map_cons, ih hvs, Finding.fingerprint_of_violation hv.symm]

theorem collected_of_collect {rule : Rule} {ms : List Match} {c c' : Collector} {vs : List Violation}
    (h : collect path language content rule ms c = (.ok vs, c')) :
    Collected path language content (findings rule ms) c vs c' := by
  have hall : ∀ f ∈ findings rule ms, f.Reportable path language content := by
    by_contra hsome
    obtain ⟨e, c'', herror, -⟩ := exists_collect_eq_error hsome c
    rw [h] at herror
    cases herror
  obtain ⟨vs', c'', hok, hcollected⟩ := exists_collect_eq_ok hall c
  rw [h] at hok
  cases hok
  exact hcollected

/-- A call that returns gives violations whose fingerprints are new and different, and remembers them. -/
theorem fingerprints_of_collect {rule : Rule} {ms : List Match} {c c' : Collector} {vs : List Violation}
    (h : collect path language content rule ms c = (.ok vs, c')) :
    (vs.map (·.fingerprint)).Nodup ∧ ∀ p ∈ vs.map (·.fingerprint), p ∉ c.seenIn path ∧ p ∈ c'.seenIn path ∧
      p ∈ (findings rule ms).map (·.fingerprint path content) := by
  have hcollected := collected_of_collect h
  rw [map_fingerprint_eq hcollected.violations]
  refine ⟨(nodup_map_firstOfEach _).sublist (List.filter_sublist.map _), fun p hp => ?_⟩
  obtain ⟨f, hf, rfl⟩ := List.mem_map.mp hp
  obtain ⟨hfirst, hnew⟩ := List.mem_filter.mp hf
  have hmem := List.mem_map_of_mem (f := (·.fingerprint path content)) (mem_of_mem_firstOfEach hfirst)
  exact ⟨of_decide_eq_true hnew, (hcollected.seen _).mpr (.inr hmem), hmem⟩

end Collector

def RuleEvaluation.prints (e : RuleEvaluation) : List String := e.violations.map (·.fingerprint)

def UnitResult.prints (u : UnitResult) : List String := u.evaluations.flatMap (·.prints)

namespace FileUnit

section Rules

variable {path : String} {tree : Tree} {settings : UnitSettings} {interference : Interference}

theorem exists_ofMatch_of_evaluateRule {rule : Rule} {c c' : Collector} {w w' : Surroundings} {e : RuleEvaluation}
    (h : evaluateRule path tree rule settings c w = (.ok e, c', w')) {v : Violation} (hv : v ∈ e.violations) :
    ∃ found m, Clause.outcome tree rule.patterns settings.maxSteps = .ok found ∧ m ∈ found ∧
      Violation.ofMatch path tree.language tree.source rule m = .ok v := by
  change v ∈ e.untimed.violations at hv
  rcases evaluateRule_cases h with ⟨elapsed, he, -⟩ | he
  · rw [he] at hv
    cases hv
  rcases conclude_cases path tree settings.maxSteps rule c with
    ⟨err, -, hc⟩ | ⟨found, hfound, ⟨err, after, -, hc⟩ | ⟨vs, after, hcollect, hc⟩⟩
  · rw [(Prod.mk.inj (he.trans hc)).1] at hv
    cases hv
  · rw [(Prod.mk.inj (he.trans hc)).1] at hv
    cases hv
  · rw [(Prod.mk.inj (he.trans hc)).1] at hv
    have hok := List.mem_map_of_mem (f := Except.ok (ε := NoNode)) hv
    rw [(Collector.collected_of_collect hcollect).violations] at hok
    obtain ⟨f, hf, hviolation⟩ := List.mem_map.mp hok
    obtain ⟨m, hm, rfl⟩ := List.mem_map.mp (mem_of_mem_firstOfEach (List.mem_filter.mp hf).1)
    exact ⟨found, m, hfound, hm, hviolation⟩

theorem mem_seenIn_evaluateRule {rule : Rule} {c c' : Collector} {w w' : Surroundings} {e : RuleEvaluation}
    (h : evaluateRule path tree rule settings c w = (.ok e, c', w')) {p : String} (hp : p ∈ c.seenIn path) :
    p ∈ c'.seenIn path := by
  rcases evaluateRule_cases h with ⟨-, -, rfl⟩ | he
  · exact hp
  rcases conclude_cases path tree settings.maxSteps rule c with
    ⟨err, -, hc⟩ | ⟨found, -, ⟨err, after, hcollect, hc⟩ | ⟨vs, after, hcollect, hc⟩⟩
  · rwa [(Prod.mk.inj (he.trans hc)).2]
  all_goals
    have hseen := Collector.mem_seenIn_collect tree.language tree.source rule found hp
    rw [hcollect] at hseen
    rwa [(Prod.mk.inj (he.trans hc)).2]

/-- An evaluation reports different fingerprints, none of them seen before, and remembers them. -/
theorem prints_of_evaluateRule {rule : Rule} {c c' : Collector} {w w' : Surroundings} {e : RuleEvaluation}
    (h : evaluateRule path tree rule settings c w = (.ok e, c', w')) :
    e.prints.Nodup ∧ ∀ p ∈ e.prints, p ∉ c.seenIn path ∧ p ∈ c'.seenIn path ∧
      p ∈ (hashedBy path tree settings.maxSteps rule).map Sha256.hex := by
  change e.untimed.prints.Nodup ∧ ∀ p ∈ e.untimed.prints, _
  rcases evaluateRule_cases h with ⟨elapsed, he, -⟩ | he
  · rw [he]
    exact ⟨List.nodup_nil, nofun⟩
  rcases conclude_cases path tree settings.maxSteps rule c with
    ⟨err, -, hc⟩ | ⟨found, hfound, ⟨err, after, hcollect, hc⟩ | ⟨vs, after, hcollect, hc⟩⟩
  · rw [(Prod.mk.inj (he.trans hc)).1]
    exact ⟨List.nodup_nil, nofun⟩
  · rw [(Prod.mk.inj (he.trans hc)).1]
    exact ⟨List.nodup_nil, nofun⟩
  · obtain ⟨heval, rfl⟩ := Prod.mk.inj (he.trans hc)
    rw [heval, hashedBy, hfound, List.map_map]
    exact Collector.fingerprints_of_collect hcollect

/-- Rules that share a collector report no fingerprint twice. -/
theorem Evaluated.prints {rules : List Rule} {c : Collector} {es : List RuleEvaluation}
    (h : Evaluated path tree settings interference rules c es) :
    (es.flatMap (·.prints)).Nodup ∧ ∀ p ∈ es.flatMap (·.prints), p ∉ c.seenIn path ∧
      p ∈ (rules.flatMap (hashedBy path tree settings.maxSteps)).map Sha256.hex := by
  induction h with
  | nil => exact ⟨List.nodup_nil, nofun⟩
  | @cons rule rules c c' w e es head tail ih =>
    obtain ⟨w₁, w₂, -, hrule⟩ := head
    obtain ⟨hnodup, hprints⟩ := prints_of_evaluateRule hrule
    obtain ⟨hnodups, hrest⟩ := ih
    simp only [List.flatMap_cons, List.map_append]
    refine ⟨List.nodup_append.mpr ⟨hnodup, hnodups, ?_⟩, List.forall_mem_append.mpr ⟨?_, ?_⟩⟩
    · rintro p hp q hq rfl
      exact (hrest p hq).1 (hprints p hp).2.1
    · intro p hp
      exact ⟨(hprints p hp).1, List.mem_append_left _ (hprints p hp).2.2⟩
    · intro p hp
      exact ⟨fun hseen => (hrest p hp).1 (mem_seenIn_evaluateRule hrule hseen),
        List.mem_append_right _ (hrest p hp).2⟩

end Rules

variable {input : SourceInput} {rules : List Rule} {settings : UnitSettings} {tools : UnitTools}

variable (input rules settings tools) in
/-- One collector reports no fingerprint of a file twice. -/
theorem prints_run (world : Surroundings) :
    (run input rules settings tools world).1.prints.Nodup ∧
      ∀ p ∈ (run input rules settings tools world).1.prints,
        p ∈ (hashed input rules settings tools).map Sha256.hex := by
  rw [run_fst]
  rcases cancellation settings world with ⟨_ | reason, world'⟩
  · unfold started hashed
    rcases opened input rules settings tools with e | _ | ⟨language, tree⟩
    · exact ⟨List.nodup_nil, nofun⟩
    · exact ⟨List.nodup_nil, nofun⟩
    · obtain ⟨done, hfront, -, hdone⟩ := evaluated_evaluateRules input.path tree settings tools.interference
        language rules 0 {}
        (if tools.interference.onParse input.path then world'.setStop true else world')
      obtain ⟨hnodup, hprints⟩ := hdone.prints
      refine ⟨hnodup, fun p hp => ?_⟩
      obtain ⟨s, hs, rfl⟩ := List.mem_map.mp (hprints p hp).2
      obtain ⟨rule, hrule, hs⟩ := List.mem_flatMap.mp hs
      exact List.mem_map_of_mem (List.mem_flatMap.mpr ⟨rule, hfront.subset hrule, hs⟩)
  · exact ⟨List.nodup_nil, nofun⟩

theorem exists_identity_of_mem_hashed {s : String} (h : s ∈ hashed input rules settings tools) :
    ∃ rule ∈ rules, ∃ location text, s = Violation.identity rule.id input.path location text := by
  unfold hashed at h
  split at h
  · obtain ⟨rule, hrule, hs⟩ := List.mem_flatMap.mp h
    refine ⟨rule, (List.mem_filter.mp hrule).1, ?_⟩
    unfold hashedBy at hs
    split at hs
    · cases hs
    · obtain ⟨f, hf, rfl⟩ := List.mem_map.mp hs
      obtain ⟨m, -, rfl⟩ := List.mem_map.mp hf
      exact ⟨_, _, rfl⟩
  · cases h

theorem hashed_subset {rules' : List Rule} (h : rules' ⊆ rules) :
    hashed input rules' settings tools ⊆ hashed input rules settings tools := by
  intro s hs
  unfold hashed at hs ⊢
  split at hs
  · next language tree hopened =>
    have hsame : opened input rules settings tools = .ok (some (language, tree)) := by
      unfold opened at hopened ⊢
      split at hopened
      · cases hopened
      split at hopened
      · cases hopened
      split at hopened
      · next hany =>
        obtain ⟨rule, hrule, happlies⟩ := List.any_eq_true.mp hany
        have hany' : rules.any (·.languages.contains _) = true := List.any_eq_true.mpr ⟨rule, h hrule, happlies⟩
        rw [if_pos hany']
        exact hopened
      · cases hopened
    rw [hsame]
    obtain ⟨rule, hrule, hs⟩ := List.mem_flatMap.mp hs
    obtain ⟨hmem, happlies⟩ := List.mem_filter.mp hrule
    exact List.mem_flatMap.mpr ⟨rule, List.mem_filter.mpr ⟨h hmem, happlies⟩, hs⟩
  · cases hs

/-- Fingerprints for rules and files that are named differently differ. -/
theorem disjoint_of_hashed {input' : SourceInput} {rules' : List Rule} {settings' : UnitSettings}
    {texts ps ps' : List String} (hdigest : Sha256.CollisionFree {s | s ∈ texts})
    (hlabels : ∀ rule ∈ rules, ∀ rule' ∈ rules',
      Violation.label rule.id input.path ≠ Violation.label rule'.id input'.path)
    (htexts : hashed input rules settings tools ⊆ texts) (htexts' : hashed input' rules' settings' tools ⊆ texts)
    (hps : ∀ p ∈ ps, p ∈ (hashed input rules settings tools).map Sha256.hex)
    (hps' : ∀ p ∈ ps', p ∈ (hashed input' rules' settings' tools).map Sha256.hex) : ps.Disjoint ps' := by
  intro p hp hp'
  obtain ⟨s, hs, rfl⟩ := List.mem_map.mp (hps p hp)
  obtain ⟨s', hs', he⟩ := List.mem_map.mp (hps' _ hp')
  have hsame : s = s' := hdigest (htexts hs) (htexts' hs') he.symm
  obtain ⟨rule, hrule, location, text, rfl⟩ := exists_identity_of_mem_hashed hs
  obtain ⟨rule', hrule', location', text', rfl⟩ := exists_identity_of_mem_hashed hs'
  exact hlabels rule hrule rule' hrule' (Violation.identity_inj hsame).1

theorem prints_terminated (path ruleId : String) (elapsedMs : Int) :
    (terminated path ruleId settings elapsedMs).prints = [] := rfl

/-- A file reports no fingerprint twice, however its analysis ends; where a thread can be terminated, the
rules must have different ids. -/
theorem Ends.prints {mode : ExecutionMode} {u : UnitResult} (h : Ends mode input settings tools rules u)
    (hthreads : mode = .workerThreads → (rules.map (·.id)).Nodup)
    (hdigest : Sha256.CollisionFree {s | s ∈ hashed input rules settings tools}) :
    u.prints.Nodup ∧ ∀ p ∈ u.prints, p ∈ (hashed input rules settings tools).map Sha256.hex := by
  induction h with
  | once rules world => exact prints_run input rules settings tools world
  | @resumed before rest rule es later threads world elapsedMs kept resume ih =>
    have hids := hthreads threads
    have hbefore : before ⊆ before ++ rule :: rest := List.subset_append_left _ _
    have hrest : rest ⊆ before ++ rule :: rest :=
      fun _ hr => List.mem_append_right _ (List.mem_cons_of_mem rule hr)
    obtain ⟨hnodup, hprints⟩ := prints_run input before settings tools world
    rw [kept] at hnodup hprints
    rw [List.map_append, List.map_cons, List.nodup_append, List.nodup_cons] at hids
    obtain ⟨hnodup', hprints'⟩ := ih (fun _ => hids.2.1.2) (hdigest.mono (hashed_subset hrest))
    -- the rules after the terminated one have a new collector, which only their ids keep from repeating
    have hlabels : ∀ r ∈ before, ∀ r' ∈ rest, Violation.label r.id input.path ≠ Violation.label r'.id input.path := by
      intro r hr r' hr' he
      exact hids.2.2 _ (List.mem_map_of_mem hr) _ (List.mem_cons_of_mem _ (List.mem_map_of_mem hr'))
        (Violation.label_inj_left he)
    simp only [UnitResult.prints, List.flatMap_append, List.flatMap_cons, prints_terminated, List.nil_append]
    refine ⟨hnodup.append hnodup' ?_, List.forall_mem_append.mpr ⟨?_, ?_⟩⟩
    · exact disjoint_of_hashed hdigest hlabels (hashed_subset hbefore) (hashed_subset hrest) hprints hprints'
    · exact fun p hp => List.map_subset _ (hashed_subset hbefore) (hprints p hp)
    · exact fun p hp => List.map_subset _ (hashed_subset hrest) (hprints' p hp)
  | @givenUp before rest rule es threads world elapsedMs kept =>
    have hbefore : before ⊆ before ++ rule :: rest := List.subset_append_left _ _
    obtain ⟨hnodup, hprints⟩ := prints_run input before settings tools world
    rw [kept] at hnodup hprints
    simp only [UnitResult.prints, List.flatMap_append, List.flatMap_singleton, prints_terminated, List.append_nil]
    exact ⟨hnodup, fun p hp => List.map_subset _ (hashed_subset hbefore) (hprints p hp)⟩

end FileUnit

namespace AnalysisRun

/-- The texts that are hashed for the fingerprints of a run. -/
def hashed (inputs : List SourceInput) (rules : List Rule) (options : RunOptions) (tools : UnitTools) : List String :=
  inputs.flatMap fun input => FileUnit.hashed input (Rule.select options rules) (settingsAt options 0) tools

theorem map_fingerprint_violationsOf (units : List UnitResult) :
    (violationsOf units).map (·.fingerprint) = units.flatMap (·.prints) := by
  simp only [violationsOf, List.map_flatMap, List.flatMap_assoc]
  rfl

theorem nodup_fingerprints_report {options : RunOptions} {rulesLoaded : Nat} {loadErrors : List LoadFailure}
    {units : List UnitResult} {cancellation : Option CancelReason} {durationMs : Int}
    (h : (units.flatMap (·.prints)).Nodup) :
    ((report options rulesLoaded loadErrors units cancellation durationMs).violations.map (·.fingerprint)).Nodup := by
  obtain ⟨listed, hperm, hsublist, -⟩ :=
    exists_listed_report options rulesLoaded loadErrors units cancellation durationMs
  rw [← map_fingerprint_violationsOf] at h
  exact ((hperm.map _).nodup_iff.mpr h).sublist (hsublist.map _)

theorem prints_unitsOf (ended : List (SettledTask SourceInput UnitResult)) :
    (unitsOf ended).flatMap (·.prints) = (completedOf ended).flatMap (·.prints) := by
  have hfailed : (failuresOf ended).flatMap (·.prints) = [] := by
    refine List.flatMap_eq_nil_iff.mpr fun u hu => ?_
    obtain ⟨e, -, he⟩ := List.mem_filterMap.mp hu
    split at he
    · cases he
      rfl
    · cases he
  rw [unitsOf, List.flatMap_append, hfailed, List.nil_append]

/-- Rule and file are named differently for files at different places of the list. -/
def Labelled (ids paths : List String) : Prop :=
  paths.Pairwise fun p q => ∀ a ∈ ids, ∀ b ∈ ids, Violation.label a p ≠ Violation.label b q

theorem Labelled.of_perm {ids paths paths' : List String} (h : Labelled ids paths) (hperm : paths'.Perm paths) :
    Labelled ids paths' := by
  refine (hperm.pairwise_iff fun hne a ha b hb => ?_).mpr h
  exact (hne b hb a ha).symm

theorem Accounted.prints {mode : ExecutionMode} {rules : List Rule} {settings : UnitSettings} {tools : UnitTools}
    {cancellation : Option CancelReason} {e : SettledTask SourceInput UnitResult} {u : UnitResult}
    (h : Accounted mode rules settings tools cancellation e) (hu : e.outcome = .completed u)
    (hthreads : mode = .workerThreads → (rules.map (·.id)).Nodup)
    (hdigest : Sha256.CollisionFree {s | s ∈ FileUnit.hashed e.task.input rules settings tools}) :
    u.prints.Nodup ∧ ∀ p ∈ u.prints, p ∈ (FileUnit.hashed e.task.input rules settings tools).map Sha256.hex := by
  unfold Accounted at h
  rw [hu] at h
  rcases h with ⟨hends, -⟩ | ⟨-, rfl⟩
  · exact hends.prints hthreads hdigest
  · exact ⟨List.nodup_nil, nofun⟩

/-- No report repeats a fingerprint, whatever the order, the baseline and the number of workers are and
whether or not the run was cancelled, if rule and file are named differently for different files and, where
threads can be terminated, the rules have different ids. -/
theorem Reports.nodup_of_labelled {mode : ExecutionMode} {workers : Int} {inputs : List SourceInput}
    {rules : List Rule} {options : RunOptions} {loadErrors : List LoadFailure} {tools : UnitTools} {r : Report}
    (h : Reports mode workers inputs rules options loadErrors tools r)
    (hlabels : Labelled ((Rule.select options rules).map (·.id)) (inputs.map (·.path)))
    (hthreads : mode = .workerThreads → ((Rule.select options rules).map (·.id)).Nodup)
    (hdigest : Sha256.CollisionFree {s | s ∈ hashed inputs rules options tools}) :
    (r.violations.map (·.fingerprint)).Nodup := by
  obtain ⟨startedAt, durationMs, cancellation, ended, hperm, hended, rfl⟩ := h.exists_ended
  refine nodup_fingerprints_report ?_
  rw [prints_unitsOf]
  have htexts : ∀ e ∈ ended, FileUnit.hashed e.task.input (Rule.select options rules) (settingsAt options startedAt)
      tools ⊆ hashed inputs rules options tools := by
    intro e he s hs
    refine List.mem_flatMap.mpr ⟨e.task.input, ?_, hs⟩
    exact hperm.mem_iff.mp (List.mem_map_of_mem (f := (·.task.input)) he)
  have hprints : ∀ e ∈ ended, ∀ u, resultOf? e = some u → u.prints.Nodup ∧ ∀ p ∈ u.prints,
      p ∈ (FileUnit.hashed e.task.input (Rule.select options rules) (settingsAt options startedAt) tools).map
        Sha256.hex := by
    intro e he u hu
    exact (hended e he).prints (outcome_of_resultOf? hu) hthreads (hdigest.mono (htexts e he))
  have hpairs : ended.Pairwise fun e e' => ∀ rule ∈ Rule.select options rules, ∀ rule' ∈ Rule.select options rules,
      Violation.label rule.id e.task.input.path ≠ Violation.label rule'.id e'.task.input.path := by
    have hended := hlabels.of_perm (hperm.map (·.path))
    simpa only [Labelled, List.pairwise_map, List.forall_mem_map] using hended
  -- within a file its collector sees to it, between files the labels do
  refine List.nodup_flatMap.mpr ⟨?_, ?_⟩
  · intro u hu
    obtain ⟨e, he, hresult⟩ := List.mem_filterMap.mp hu
    exact (hprints e he u hresult).1
  · refine List.pairwise_filterMap.mpr (hpairs.imp_of_mem ?_)
    intro e e' he he' hne u hu u' hu'
    exact FileUnit.disjoint_of_hashed hdigest hne (htexts e he) (htexts e' he') (hprints e he u hu).2
      (hprints e' he' u' hu').2

end AnalysisRun

namespace OneNode

/-- Two files, in each of which a rule finds a node and another none. -/
def files : List SourceInput := [file "a.ts" .typescript, file "b.ts" .typescript]

def rules : List Rule := [finds, misses]

theorem collisionFree_files : Sha256.CollisionFree {s | s ∈ AnalysisRun.hashed files rules {} tools} := by
  have hnodup : ((AnalysisRun.hashed files rules {} tools).map Sha256.hex).Nodup := by decide +kernel
  exact fun s hs t ht he => List.inj_on_of_nodup_map hnodup hs ht he

end OneNode

end RuleScan
