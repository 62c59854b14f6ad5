import RuleScan.Command.Execution
import RuleScan.Proofs.Analysis.Reruns

/-! Commands that are run again with the baseline that they wrote. -/
namespace RuleScan

namespace Workspace

variable {root : String} {sources : List RulesetSource} {options : WorkspaceOptions} {tools : Tools}
  {world : Surroundings} {r : Report}

def loadedRules (root : String) (sources : List RulesetSource) (registry : Option Registry) (disk : Disk)
    (network : Network) : LoadedRules :=
  LoadedRules.load { disk, base := root, registry, network } sources

/-- The files found in a workspace, as a run takes them. -/
def inputsOf (root : String) (files : List String) : List SourceInput :=
  files.map fun path => { path, absolutePath := some (Path.join root path) }

/-- When an analysis gives a report, and which. -/
theorem result_analyze_eq_ok_iff :
    (analyze root none sources options tools world).result = .ok r ↔
      checkRoot tools.disk root = .ok () ∧
        ∃ files mode, filesOf root none options tools = .ok files ∧
          AnalysisRun.executionFor options.execution tools.ownParsers = .ok mode ∧
          let loaded := loadedRules root sources options.registry tools.disk tools.network
          Rule.select options.toRunOptions loaded.rules ≠ [] ∧
            r = (AnalysisRun.run (inputsOf root files) loaded.rules options.toRunOptions loaded.errors mode
              tools.toUnitTools world).report := by
  unfold analyze loadedRules
  constructor
  · intro h
    split at h
    · cases h
    · next hroot =>
      dsimp only at h
      split at h
      · cases h
      · next hselected =>
        split at h
        · cases h
        · next files hfiles =>
          split at h
          · cases h
          · next mode hmode =>
            exact ⟨hroot, files, mode, hfiles, hmode, by simpa using hselected, (Except.ok.inj h).symm⟩
  · rintro ⟨hroot, files, mode, hfiles, hmode, hselected, rfl⟩
    have hselected' : ¬(Rule.select options.toRunOptions (LoadedRules.load
        { disk := tools.disk, base := root, registry := options.registry, network := tools.network }
        sources).rules).isEmpty = true := by
      simpa using hselected
    simp only [hroot, if_neg hselected', hfiles, hmode]
    rfl

end Workspace

def WorkspaceOptions.holding (options : WorkspaceOptions) (baseline : Option (List String)) : WorkspaceOptions :=
  { options with baseline }

namespace Session

def sourcesOf (a : AnalyzeCommand) (c : Context) : List String := c.config.sourcesOr (a.rules.getD [])

def toolsOf (station : Station) : Workspace.Tools :=
  { parsers := station.parsers, disk := station.disk, network := station.network }

/-- A command comes to a report, with the workspace and the options that it is about. -/
structure Analyzed [UrlReader] (station : Station) (a : AnalyzeCommand) (c : Context) (options : WorkspaceOptions)
    (r : Report) : Prop where
  context_eq : context station a.directory a.debug = .ok c
  sources_ne : sourcesOf a c ≠ []
  options_eq : a.workspaceOptions c.config station.disk c.root = .ok options
  result_eq : (Workspace.analyze c.root none ((sourcesOf a c).map RulesetSource.ofText) options (toolsOf station)
    station.world).result = .ok r

/-- What the run of a command finds: the report that it comes to if no baseline holds anything back. -/
def fullResult (station : Station) (a : AnalyzeCommand) (c : Context) (options : WorkspaceOptions) :
    Except WorkspaceError Report :=
  (Workspace.analyze c.root none ((sourcesOf a c).map RulesetSource.ofText) (options.holding none) (toolsOf station)
    station.world).result

/-- The report that a command comes to, with the workspace and the options that it is about. -/
def outcome? [UrlReader] (station : Station) (a : AnalyzeCommand) : Option (Context × WorkspaceOptions × Report) :=
  (context station a.directory a.debug).toOption.bind fun c =>
    if sourcesOf a c = [] then none
    else
      (a.workspaceOptions c.config station.disk c.root).toOption.bind fun options =>
        (Workspace.analyze c.root none ((sourcesOf a c).map RulesetSource.ofText) options (toolsOf station)
          station.world).result.toOption.map fun r => (c, options, r)

theorem analyzed_of_outcome? [UrlReader] {station : Station} {a : AnalyzeCommand} {c : Context}
    {options : WorkspaceOptions} {r : Report} (h : outcome? station a = some (c, options, r)) :
    Analyzed station a c options r := by
  have hok : ∀ {ε α : Type} {x : Except ε α} {y : α}, x.toOption = some y → x = .ok y := by
    rintro ε α (e | x) y hy
    · cases hy
    · exact congrArg Except.ok (Option.some.inj hy)
  obtain ⟨c', hcontext, h⟩ := Option.bind_eq_some_iff.1 h
  split at h
  · cases h
  · next hsources =>
    obtain ⟨options', hoptions, h⟩ := Option.bind_eq_some_iff.1 h
    obtain ⟨r', hresult, h⟩ := Option.map_eq_some_iff.1 h
    cases h
    exact ⟨hok hcontext, hsources, hok hoptions, hok hresult⟩

theorem logAll_frame (s : Session) (level : LogLevel) (lines : List LogLine) :
    (s.logAll level lines).disk = s.disk ∧ (s.logAll level lines).written = s.written := by
  unfold logAll
  induction LogLine.passing level lines generalizing s with
  | nil => exact ⟨rfl, rfl⟩
  | cons line lines ih => exact ih (s.note (line.render LogLine.defaultLead))

/-- A command that comes to a report finishes with it, and has changed nothing before. -/
theorem Analyzed.exists_analyze_eq [UrlReader] {station : Station} {a : AnalyzeCommand} {c : Context}
    {options : WorkspaceOptions} {r : Report} (h : Analyzed station a c options r) :
    ∃ s : Session, s.disk = station.disk ∧ s.written = [] ∧ analyze station a = s.finish station a c.root r := by
  have hsources : ¬(c.config.sourcesOr (a.rules.getD [])).isEmpty = true := by
    simpa [sourcesOf] using h.sources_ne
  have hresult := h.result_eq
  unfold toolsOf sourcesOf at hresult
  unfold analyze
  simp only [h.context_eq, if_neg hsources, h.options_eq, hresult]
  refine ⟨_, ?_, ?_, rfl⟩
  · split <;> simp only [success, note, logAll_frame]
  · split <;> simp only [success, note, logAll_frame]

end Session

def AnalyzeCommand.against (a : AnalyzeCommand) (file : String) : AnalyzeCommand := { a with baseline := some file }

def AnalyzeCommand.targets (a : AnalyzeCommand) (directory root : String) : List String :=
  (a.output.filter (· ≠ "")).toList.map (Path.resolve directory) ++
    (a.writeBaseline.filter (· ≠ "")).toList.map (Path.resolve root)

namespace Session

theorem written_writeReport {s s' : Session} {station : Station} {a : AnalyzeCommand} {r : Report}
    (h : s.writeReport station a r = .ok s') :
    s'.written = s.written ++ (a.output.filter (· ≠ "")).toList.map (Path.resolve station.directory) := by
  unfold writeReport at h
  split at h
  · next hnone =>
    cases h
    rw [hnone]
    exact (List.append_nil _).symm
  · next file hsome =>
    obtain ⟨s₁, hwrite, h⟩ := Query.bind_eq_ok.mp h
    obtain ⟨made, -, hwrite⟩ := Query.bind_eq_ok.mp hwrite
    obtain ⟨disk, -, hwrite⟩ := Query.bind_eq_ok.mp hwrite
    cases hwrite
    cases h
    rw [hsome]
    rfl

theorem written_noteCancellation (s : Session) (r : Report) : (s.noteCancellation r).written = s.written := by
  unfold noteCancellation
  split <;> rfl

/-- A command that wrote all its files wrote the baseline last. -/
theorem exists_write_of_finish {s : Session} {station : Station} {a : AnalyzeCommand} {root file : String} {r : Report}
    (hfile : a.writeBaseline.filter (· ≠ "") = some file)
    (hwritten : (s.finish station a root r).written = s.written ++ a.targets station.directory root) :
    ∃ disk, Baseline.write disk (Path.resolve root file) (Baseline.ofViolations r.violations) =
      .ok (s.finish station a root r).disk := by
  have hlength : (s.finish station a root r).written.length =
      s.written.length + ((a.output.filter (· ≠ "")).toList.length + 1) := by
    rw [hwritten, AnalyzeCommand.targets, hfile]
    simp only [List.length_append, List.length_map, Option.toList_some, List.length_singleton]
  unfold finish at hlength ⊢
  split at hlength
  · next e he =>
    have hcrash : s.written.length = s.written.length + ((a.output.filter (· ≠ "")).toList.length + 1) := hlength
    omega
  · next s' hs' =>
    have hbefore := congrArg List.length (written_writeReport hs')
    rw [List.length_append, List.length_map, ← written_noteCancellation s' r] at hbefore
    unfold writeBaseline at hlength ⊢
    simp only [hfile] at hlength ⊢
    split at hlength
    · next e he =>
      have hcrash : (s'.noteCancellation r).written.length =
          s.written.length + ((a.output.filter (· ≠ "")).toList.length + 1) := hlength
      omega
    · next disk hdisk => exact ⟨_, hdisk⟩

/-- A command that came to a report and wrote all its files wrote a baseline of the report. -/
theorem Analyzed.exists_write [UrlReader] {station : Station} {a : AnalyzeCommand} {c : Context}
    {options : WorkspaceOptions} {r : Report} {file : String} (h : Analyzed station a c options r)
    (hfile : a.writeBaseline.filter (· ≠ "") = some file)
    (hwritten : (analyze station a).written = a.targets station.directory c.root) :
    ∃ disk, Baseline.write disk (Path.resolve c.root file) (Baseline.ofViolations r.violations) =
      .ok (analyze station a).disk := by
  obtain ⟨s, -, hs, hanalyze⟩ := h.exists_analyze_eq
  rw [hanalyze] at hwritten ⊢
  exact exists_write_of_finish hfile (by rw [hwritten, hs, List.nil_append])

/-- On another disk, the workspace of a command is the same: its configuration and rules, the files found in it
and what they hold. -/
structure Unchanged [UrlReader] (station : Station) (a : AnalyzeCommand) (c : Context) (disk : Disk) : Prop where
  config : Config.load disk c.root station.environment = Config.load station.disk c.root station.environment
  root : Workspace.checkRoot disk c.root = Workspace.checkRoot station.disk c.root
  rules : ∀ registry, Workspace.loadedRules c.root ((sourcesOf a c).map RulesetSource.ofText) registry disk
      station.network =
    Workspace.loadedRules c.root ((sourcesOf a c).map RulesetSource.ofText) registry station.disk station.network
  files : Workspace.filesOf c.root none (a.optionsFor c.config) { toolsOf station with disk } =
    Workspace.filesOf c.root none (a.optionsFor c.config) (toolsOf station)
  contents : ∀ files, Workspace.filesOf c.root none (a.optionsFor c.config) (toolsOf station) = .ok files →
    ∀ path ∈ files, disk.stat (Path.join c.root path) = station.disk.stat (Path.join c.root path)

theorem exists_workspaceOptions_eq {a : AnalyzeCommand} {c : Config} {disk : Disk} {root : String}
    {options : WorkspaceOptions} (h : a.workspaceOptions c disk root = .ok options) :
    ∃ baseline, options = (a.optionsFor c).holding baseline ∧ (a.baselineFile? c = none → baseline = none) := by
  unfold AnalyzeCommand.workspaceOptions at h
  split at h
  · next hnone =>
    cases h
    exact ⟨none, rfl, fun _ => rfl⟩
  · next file hsome =>
    obtain ⟨prints, -, h⟩ := Query.bind_eq_ok.mp h
    cases h
    exact ⟨some prints, rfl, fun hnone => absurd (hsome.symm.trans hnone) (by simp)⟩

theorem read_inputsOf {root : String} {files : List String} {disk disk' : Disk}
    (h : ∀ path ∈ files, disk.stat (Path.join root path) = disk'.stat (Path.join root path)) :
    ∀ input ∈ Workspace.inputsOf root files, ∀ limit, input.read limit disk = input.read limit disk' := by
  intro input hinput limit
  obtain ⟨path, hpath, rfl⟩ := List.mem_map.1 hinput
  simp only [SourceInput.read, Option.getD_some, h path hpath]

/-- A command that wrote a baseline, run again with that baseline on a workspace that is the same, reports the
violations that the first run found and its baseline held back, and no others. -/
theorem Analyzed.rerun [UrlReader] {station : Station} {a : AnalyzeCommand} {c : Context}
    {options : WorkspaceOptions} {r : Report} {file : String} {f : File} {disk : Disk} (world : Surroundings)
    (h : Analyzed station a c options r)
    (hfile : a.writeBaseline.filter (· ≠ "") = some file)
    (hwritten : (analyze station a).written = a.targets station.directory c.root)
    (hf : (analyze station a).disk.read (Path.resolve c.root file) = .ok f)
    (hkept : disk.read (Path.resolve c.root file) = .ok f) (hunchanged : Unchanged station a c disk) :
    ∃ full options' r', fullResult station a c options = .ok full ∧
      Analyzed { station with disk, world } (a.against file) c options' r' ∧
      (r.Timeless r' (world = station.world) →
        r.Uncovered (options.baseline.getD []) r' (world = station.world ∨ r'.cancelled = false) full.violations ∧
        (r.summary.suppressed = 0 → r'.violations = []) ∧
        (a.baselineFile? c.config = none → r'.violations = [])) := by
  obtain ⟨baseline, rfl, hnone⟩ := exists_workspaceOptions_eq h.options_eq
  obtain ⟨hroot, files, mode, hfiles, hmode, hselected, hr⟩ := Workspace.result_analyze_eq_ok_iff.1 h.result_eq
  obtain ⟨before, hwrite⟩ := h.exists_write hfile hwritten
  have hread : Baseline.read disk (Path.resolve c.root file) = .ok (Baseline.ofViolations r.violations) :=
    Baseline.read_of_write hwrite hf hkept
  let options' := (a.optionsFor c.config).holding (some (Baseline.ofViolations r.violations))
  let loaded := Workspace.loadedRules c.root ((sourcesOf a c).map RulesetSource.ofText)
    (a.optionsFor c.config).registry station.disk station.network
  let r' := (AnalysisRun.run (Workspace.inputsOf c.root files) loaded.rules options'.toRunOptions loaded.errors mode
    (toolsOf station).toUnitTools world).report
  have hfull : fullResult station a c ((a.optionsFor c.config).holding baseline) = .ok (AnalysisRun.fullReport
      (Workspace.inputsOf c.root files) loaded.rules (a.optionsFor c.config).toRunOptions loaded.errors mode
      (toolsOf station).toUnitTools station.world) :=
    Workspace.result_analyze_eq_ok_iff.2 ⟨hroot, files, mode, hfiles, hmode, hselected, rfl⟩
  refine ⟨_, options', r', hfull, ⟨?_, h.sources_ne, ?_, ?_⟩, fun htimeless => ?_⟩
  · -- the configuration is read before anything else, from the same place
    have hcontext := h.context_eq
    obtain ⟨config, hload, hc⟩ := Query.bind_eq_ok.mp hcontext
    cases hc
    exact Query.bind_eq_ok.mpr ⟨config, hunchanged.config.trans hload, rfl⟩
  · have hbaseline : (a.against file).baselineFile? c.config = some file := by
      have hne := Option.filter_eq_some_iff.1 hfile
      simp only [AnalyzeCommand.baselineFile?, AnalyzeCommand.against, Option.some_or, Option.filter_some, hne.2,
        if_true]
    unfold AnalyzeCommand.workspaceOptions
    simp only [hbaseline, hread]
    rfl
  · refine Workspace.result_analyze_eq_ok_iff.2 ⟨hunchanged.root.trans hroot, files, mode,
      hunchanged.files.trans hfiles, hmode, ?_⟩
    have hrules : Workspace.loadedRules c.root ((sourcesOf a c).map RulesetSource.ofText)
        (a.optionsFor c.config).registry disk station.network = loaded := hunchanged.rules _
    have hreads : ∀ input ∈ Workspace.inputsOf c.root files, ∀ limit,
        input.read limit disk = input.read limit (toolsOf station).toUnitTools.disk :=
      read_inputsOf (hunchanged.contents files hfiles)
    have hrun : r' = (AnalysisRun.run (Workspace.inputsOf c.root files) loaded.rules options'.toRunOptions
        loaded.errors mode { (toolsOf station).toUnitTools with disk } world).report := by
      rw [AnalysisRun.run_eq_of_read hreads]
    rw [← hrules] at hrun
    exact ⟨hrules ▸ hselected, hrun⟩
  · have huncovered : r.Uncovered (baseline.getD []) r' (world = station.world ∨ r'.cancelled = false) _ :=
      AnalysisRun.uncovered_run baseline hr rfl htimeless
    refine ⟨huncovered, fun hzero => ?_, fun hno => ?_⟩
    · have hheld := List.eq_nil_of_length_eq_zero (huncovered.suppressed.symm.trans hzero)
      exact List.subperm_nil.1 (hheld ▸ huncovered.some)
    · have hsome := huncovered.some
      rw [hnone hno] at hsome
      simpa using hsome

end Session

/-! A workspace whose only violation is in the baseline that the command is given. -/

namespace Accepted

def ruleset : String :=
  "[\x7b\"id\":\"finds\",\"languages\":[\"typescript\"],\"severity\":\"error\",\"message\":\"an A\"," ++
    "\"patterns\":[\x7b\"type\":\"structural\",\"query\":\"(A)\"\x7d]\x7d]"

def fingerprint : String := "9f7668d2899b93c2d68a25695a1a7596756381d636b82cbf9a1e667484733a58"

def disk : Disk :=
  { root := "/"
    tree := .directory [("w", .directory [("a.ts", .file { content := .text "x" })]),
      ("rules.json", .file { content := .text ruleset }), ("known.json", .file (Baseline.file [fingerprint])),
      ("next.json", .file (Baseline.file []))] }

def station : Station :=
  { directory := "/w", disk, parsers := [{ OneNode.parser .typescript with extensions := [".ts"] }], world := .still 0 }

def command : AnalyzeCommand :=
  { rules := some ["/rules.json"], baseline := some "/known.json", writeBaseline := some "/next.json", format := .json }

theorem resolve_next : Path.resolve "/w" "/next.json" = "/next.json" := by decide +kernel

/-- What the command comes to and what it leaves; the run is evaluated once for both. -/
theorem evaluates : (Session.outcome? station command).map (fun (c, options, r) =>
      (c.root, options.baseline, r.cancelled, r.violations.length)) = some ("/w", some [fingerprint], false, 0) ∧
    (Session.analyze station command).written = command.targets "/w" "/w" ∧
    ((Session.analyze station command).disk.read "/next.json").isOk = true := by
  decide +kernel

/-- The command holds its only violation back. -/
theorem exists_analyzed : ∃ c options r, Session.Analyzed station command c options r ∧ c.root = "/w" ∧
    options.baseline = some [fingerprint] ∧ r.cancelled = false ∧ r.violations = [] := by
  obtain ⟨⟨c, options, r⟩, hresult, hfacts⟩ := Option.map_eq_some_iff.1 evaluates.1
  simp only [Prod.mk.injEq, List.length_eq_zero_iff] at hfacts
  exact ⟨c, options, r, Session.analyzed_of_outcome? hresult, hfacts⟩

theorem written_analyze : (Session.analyze station command).written = command.targets "/w" "/w" := evaluates.2.1

theorem read_analyze : (Session.analyze station command).disk.read "/next.json" = .ok (Baseline.file []) := by
  obtain ⟨c, options, r, h, hroot, -, -, hnone⟩ := exists_analyzed
  obtain ⟨before, hwrite⟩ := h.exists_write rfl (by rw [hroot]; exact written_analyze)
  rw [hroot, resolve_next, hnone] at hwrite
  cases hread : (Session.analyze station command).disk.read "/next.json" with
  | error e =>
    have hok := evaluates.2.2
    rw [hread] at hok
    cases hok
  | ok f =>
    rw [Baseline.eq_file_of_write hwrite hread, Baseline.ofViolations, List.map_nil, Baseline.distinct,
      List.eraseDups_nil, Text.sort, List.mergeSort_nil]

theorem read_next : station.disk.read "/next.json" = .ok (Baseline.file []) := by
  have hbelow : station.disk.below? "/next.json" = some ["next.json"] := by decide +kernel
  have hslash : "/next.json".endsWith "/" = false := by decide +kernel
  simp only [Disk.read, Disk.find, hbelow, hslash]
  rfl

end Accepted

namespace Session

open Accepted

/-- Run again, the command reports what it held back. -/
theorem Analyzed.rerun_accepted : ∃ c options r full options' r',
    Analyzed station command c options r ∧ fullResult station command c options = .ok full ∧
      Analyzed station (command.against "/next.json") c options' r' ∧
      r.Uncovered [fingerprint] r' True full.violations := by
  obtain ⟨c, options, r, h, hroot, hbaseline, -⟩ := exists_analyzed
  have htarget : Path.resolve c.root "/next.json" = "/next.json" := hroot ▸ resolve_next
  obtain ⟨full, options', r', hfull, h', hrest⟩ := h.rerun (.still 0) rfl (by rw [hroot]; exact written_analyze)
    (by rw [htarget]; exact read_analyze) (by rw [htarget]; exact read_next)
    ⟨rfl, rfl, fun _ => rfl, rfl, fun _ _ _ _ => rfl⟩
  obtain ⟨huncovered, -⟩ := hrest (.inl rfl)
  rw [hbaseline] at huncovered
  exact ⟨c, options, r, full, options', r', h, hfull, h', { huncovered with all := fun _ => huncovered.all (.inl rfl) }⟩

/-- A baseline that a command has just written need not cover the violations that are there: those that the
baseline before it held back are not in it. -/
theorem Analyzed.rerun_accepted_reports : ∃ c options r options' r',
    Analyzed station command c options r ∧ r.cancelled = false ∧
      (analyze station command).written = command.targets "/w" c.root ∧
      (analyze station command).disk.read "/next.json" = station.disk.read "/next.json" ∧
      Unchanged station command c station.disk ∧
      Analyzed station (command.against "/next.json") c options' r' ∧ r'.violations ≠ [] := by
  obtain ⟨c, options, r, h, hroot, -, hcancelled, -⟩ := exists_analyzed
  have hagain : (outcome? station (command.against "/next.json")).map (fun (_, _, r') => r'.violations.length) =
      some 1 := by
    decide +kernel
  obtain ⟨⟨c', options', r'⟩, hresult, hone⟩ := Option.map_eq_some_iff.1 hagain
  have h' := analyzed_of_outcome? hresult
  -- the configuration that the second run reads is that of the first
  obtain rfl : c' = c := Except.ok.inj (h'.context_eq.symm.trans h.context_eq)
  refine ⟨c', options, r, options', r', h, hcancelled, by rw [hroot]; exact written_analyze,
    read_analyze.trans read_next.symm, ⟨rfl, rfl, fun _ => rfl, rfl, fun _ _ _ _ => rfl⟩, h', ?_⟩
  intro hnone
  simp [hnone] at hone

end Session

end RuleScan
