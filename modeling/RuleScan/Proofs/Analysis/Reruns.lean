import RuleScan.Proofs.Analysis.Baselines
import RuleScan.Proofs.Analysis.Interruption

/-! Runs that are repeated with another baseline. What a run reports is what it finds without the violations
that the baseline holds, so a baseline of what was reported leaves what the baseline before it held back. -/
namespace RuleScan

namespace FileUnit

variable {input : SourceInput} {rules : List Rule} {settings : UnitSettings} {tools : UnitTools} {disk : Disk}

/-- A file is analyzed alike on a disk from which it reads alike. -/
theorem run_eq_of_read (h : input.read settings.maxFileSizeBytes disk = input.read settings.maxFileSizeBytes tools.disk)
    (world : Surroundings) :
    run input rules settings { tools with disk } world = run input rules settings tools world := by
  unfold run
  simp only [h]

end FileUnit

/-- The same options with another baseline. -/
def RunOptions.holding (options : RunOptions) (baseline : Option (List String)) : RunOptions :=
  { options with baseline }

namespace AnalysisRun

variable {inputs : List SourceInput} {rules : List Rule} {options : RunOptions} {loadErrors : List LoadFailure}
  {mode : ExecutionMode} {tools : UnitTools} {world world' : Surroundings}

/-- A run is the same on a disk from which its files read alike. -/
theorem run_eq_of_read {disk : Disk}
    (h : ∀ input ∈ inputs, ∀ limit, input.read limit disk = input.read limit tools.disk) :
    run inputs rules options loadErrors mode { tools with disk } world =
      run inputs rules options loadErrors mode tools world := by
  have hstep : ∀ settings s, ∀ input ∈ inputs,
      State.step (Rule.select options rules) settings { tools with disk } s input =
        State.step (Rule.select options rules) settings tools s input := by
    intro settings s input hinput
    unfold State.step
    simp only [FileUnit.run_eq_of_read (h input hinput _)]
  unfold run
  simp only [List.foldl_ext _ _ _ fun s input hinput => hstep _ s input hinput]

/-- The report of a run that holds nothing back. -/
def fullReport (inputs : List SourceInput) (rules : List Rule) (options : RunOptions) (loadErrors : List LoadFailure)
    (mode : ExecutionMode) (tools : UnitTools) (world : Surroundings) : Report :=
  (run inputs rules (options.holding none) loadErrors mode tools world).report

/-- A baseline holds back violations and changes nothing else of a run. -/
theorem report_run_baseline (baseline : Option (List String)) :
    (run inputs rules (options.holding baseline) loadErrors mode tools world).report =
      let all := fullReport inputs rules options loadErrors mode tools world
      let violations := all.violations.filter (!(baseline.getD []).contains ·.fingerprint)
      { all with
        violations
        summary :=
          { all.summary with
            violations := violations.length, bySeverity := SeverityCounts.of violations
            suppressed := all.violations.length - violations.length } } := by
  cases baseline with
  | none =>
    simp only [Option.getD_none, List.contains_nil, Bool.not_false, List.filter_true, Nat.sub_self]
    change fullReport inputs rules options loadErrors mode tools world = _
    have hself : (fullReport inputs rules options loadErrors mode tools world).summary.suppressed = 0 := Nat.sub_self _
    rw [← hself]
    rfl
  | some known => rfl

theorem mem_ofViolations {vs : List Violation} {fingerprint : String} :
    fingerprint ∈ Baseline.ofViolations vs ↔ ∃ v ∈ vs, v.fingerprint = fingerprint := by
  rw [Baseline.ofViolations, Baseline.distinct, Text.sort, List.mem_mergeSort, List.mem_eraseDups, List.mem_map]

/-- A baseline of what was reported lets through what the baseline before it held back. -/
theorem filter_ofViolations (all : List Violation) (known : List String) :
    all.filter (fun v =>
        !(Baseline.ofViolations (all.filter (!known.contains ·.fingerprint))).contains v.fingerprint) =
      all.filter (known.contains ·.fingerprint) := by
  refine List.filter_congr fun v hv => ?_
  rw [Bool.eq_iff_iff, Bool.not_eq_true', ← Bool.not_eq_true, List.contains_iff_mem, mem_ofViolations,
    List.contains_iff_mem]
  constructor
  · intro hnew
    by_contra hunknown
    exact hnew ⟨v, List.mem_filter.2 ⟨hv, by simpa using hunknown⟩, rfl⟩
  · rintro hknown ⟨u, hu, hfingerprint⟩
    have hunknown := (List.mem_filter.1 hu).2
    rw [hfingerprint] at hunknown
    simp [hknown] at hunknown

/-- A run has come to an end with what its report is made of. -/
theorem exists_concluded_run (inputs : List SourceInput) (rules : List Rule) (options : RunOptions)
    (loadErrors : List LoadFailure) (mode : ExecutionMode) (tools : UnitTools) (world : Surroundings) :
    ∃ s ended durationMs, Concluded .inProcess 1 inputs rules options tools world.readClock.1 s ended ∧
      (run inputs rules options loadErrors mode tools world).report =
        report options rules.length loadErrors (unitsOf ended) s.cancellation durationMs := by
  have hfollows := follows_step .inProcess (Rule.select options rules) (settingsAt options world.readClock.1) tools
  obtain ⟨durationMs, g, ended, hreach, hreply, hreport⟩ :=
    hfollows.exists_run_eq (g := ⟨.forBatch 1 inputs, none⟩) rfl loadErrors mode
  exact ⟨g, ended, durationMs, ⟨hreach, hreply⟩, hreport⟩

/-- A run finds no more than one that nothing stops, wherever it runs, if no time limit is reached. -/
theorem violations_run_subperm
    (hcancelled : (run inputs rules options loadErrors mode tools world).report.cancelled = false)
    (htime : ∀ e ∈ (run inputs rules options loadErrors mode tools world).report.errors, ¬e.OutOfTime)
    (htime' : ∀ e ∈ (run inputs rules options loadErrors mode tools world').report.errors, ¬e.OutOfTime) :
    (run inputs rules options loadErrors mode tools world').report.violations.Subperm
      (run inputs rules options loadErrors mode tools world).report.violations := by
  obtain ⟨s, ended, durationMs, hconcluded, hr⟩ :=
    exists_concluded_run inputs rules options loadErrors mode tools world
  obtain ⟨s', ended', durationMs', hconcluded', hr'⟩ :=
    exists_concluded_run inputs rules options loadErrors mode tools world'
  have hfull : Full inputs rules options tools loadErrors ended
      (run inputs rules options loadErrors mode tools world).report :=
    ⟨⟨1, options.maxDurationMs, tools.interference, _, durationMs, s, hconcluded, hr⟩, hcancelled, htime⟩
  have hinTime : ∀ e ∈ errorsOf (unitsOf ended'), ¬e.OutOfTime := by
    intro e he
    refine htime' e ?_
    rw [hr']
    exact (perm_errors_report _ _ _ _ _ _).mem_iff.mpr he
  rw [hr, hr']
  exact violations_report_subperm (hconcluded'.violationsOf_subperm hinTime hfull)

theorem violations_run_perm
    (hcancelled : (run inputs rules options loadErrors mode tools world).report.cancelled = false)
    (hcancelled' : (run inputs rules options loadErrors mode tools world').report.cancelled = false)
    (htime : ∀ e ∈ (run inputs rules options loadErrors mode tools world).report.errors, ¬e.OutOfTime)
    (htime' : ∀ e ∈ (run inputs rules options loadErrors mode tools world').report.errors, ¬e.OutOfTime) :
    (run inputs rules options loadErrors mode tools world').report.violations.Perm
      (run inputs rules options loadErrors mode tools world).report.violations :=
  (violations_run_subperm hcancelled htime htime').antisymm (violations_run_subperm hcancelled' htime' htime)

end AnalysisRun

/-- The second report lists what the first one found and its baseline held back. Nothing of that is missing
if the second run was not cut short. -/
structure Report.Uncovered (known : List String) (r r' : Report) (whole : Prop) (found : List Violation) : Prop where
  reported : r.violations = found.filter (!known.contains ·.fingerprint)
  suppressed : r.summary.suppressed = (found.filter (known.contains ·.fingerprint)).length
  some : r'.violations.Subperm (found.filter (known.contains ·.fingerprint))
  all : whole → r'.violations.Perm (found.filter (known.contains ·.fingerprint))

/-- Nothing happens in two runs that depends on time: they have the same surroundings, or the first is not
cancelled and neither reaches a time limit. -/
def Report.Timeless (r r' : Report) (same : Prop) : Prop :=
  same ∨ r.cancelled = false ∧ (∀ e ∈ r.errors, ¬e.OutOfTime) ∧ ∀ e ∈ r'.errors, ¬e.OutOfTime

namespace AnalysisRun

variable {inputs : List SourceInput} {rules : List Rule} {options : RunOptions} {loadErrors : List LoadFailure}
  {mode : ExecutionMode} {tools : UnitTools} {world world' : Surroundings}

theorem summary_suppressed_run (baseline : Option (List String)) :
    (run inputs rules (options.holding baseline) loadErrors mode tools world).report.summary.suppressed =
      ((fullReport inputs rules options loadErrors mode tools world).violations.filter
        ((baseline.getD []).contains ·.fingerprint)).length := by
  have hlength := (fullReport inputs rules options loadErrors mode tools world).violations.length_eq_length_filter_add
    fun v => (baseline.getD []).contains v.fingerprint
  rw [report_run_baseline]
  dsimp only
  omega

/-- A run whose baseline is what another run reported. -/
theorem uncovered_run (baseline : Option (List String)) {r r' : Report}
    (hr : r = (run inputs rules (options.holding baseline) loadErrors mode tools world).report)
    (hr' : r' = (run inputs rules (options.holding (some (Baseline.ofViolations r.violations))) loadErrors mode
      tools world').report) (htimeless : r.Timeless r' (world' = world)) :
    r.Uncovered (baseline.getD []) r' (world' = world ∨ r'.cancelled = false)
      (fullReport inputs rules options loadErrors mode tools world).violations := by
  let all := fullReport inputs rules options loadErrors mode tools world
  let all' := fullReport inputs rules options loadErrors mode tools world'
  have hviolations : r.violations = all.violations.filter (!(baseline.getD []).contains ·.fingerprint) := by
    rw [hr, report_run_baseline]
  have hviolations' : r'.violations =
      all'.violations.filter (!(Baseline.ofViolations r.violations).contains ·.fingerprint) := by
    rw [hr', report_run_baseline]
    rfl
  have hheld : all.violations.filter (!(Baseline.ofViolations r.violations).contains ·.fingerprint) =
      all.violations.filter ((baseline.getD []).contains ·.fingerprint) := by
    rw [hviolations]
    exact filter_ofViolations all.violations (baseline.getD [])
  have hrest : r.cancelled = all.cancelled ∧ r.errors = all.errors := by
    rw [hr, report_run_baseline]
    exact ⟨rfl, rfl⟩
  have hrest' : r'.cancelled = all'.cancelled ∧ r'.errors = all'.errors := by
    rw [hr', report_run_baseline]
    exact ⟨rfl, rfl⟩
  have hsame : world' = world → all' = all := by
    rintro rfl
    rfl
  refine ⟨hviolations, hr ▸ summary_suppressed_run baseline, ?_, ?_⟩
  · rw [hviolations', ← hheld]
    refine List.Subperm.filter _ ?_
    rcases htimeless with heq | ⟨hcancelled, htime, htime'⟩
    · rw [hsame heq]
    · rw [hrest.1] at hcancelled
      rw [hrest.2] at htime
      rw [hrest'.2] at htime'
      exact violations_run_subperm hcancelled htime htime'
  · intro hwhole
    rw [hviolations', ← hheld]
    refine List.Perm.filter _ ?_
    rcases htimeless with heq | ⟨hcancelled, htime, htime'⟩
    · rw [hsame heq]
    · rcases hwhole with heq | hcancelled'
      · rw [hsame heq]
      · rw [hrest.1] at hcancelled
        rw [hrest'.1] at hcancelled'
        rw [hrest.2] at htime
        rw [hrest'.2] at htime'
        exact violations_run_perm hcancelled hcancelled' htime htime'

end AnalysisRun

end RuleScan
