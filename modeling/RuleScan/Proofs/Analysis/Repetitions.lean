import RuleScan.Proofs.Analysis.Uniqueness

/-! Which reports can repeat a fingerprint. Where two files of a run can be named the same together with
their rules, there are contents and rules for which a report lists one fingerprint twice, so the condition
under which reports repeat none cannot be weakened. -/
namespace RuleScan

/-- The hashed text depends on rule and file through their label only. -/
theorem Violation.identity_eq_of_label {ruleId ruleId' file file' : String}
    (h : label ruleId file = label ruleId' file') (location : Location) (text : String) :
    identity ruleId file location text = identity ruleId' file' location text := by
  refine String.toList_injective ?_
  rw [toList_identity, toList_identity, h]

theorem UnitResult.prints_untimed (u : UnitResult) : u.untimed.prints = u.prints :=
  List.flatMap_map ..

namespace OneNode

def place : Location := { line := 1, column := 1, endLine := 1, endColumn := 2, startOffset := 0, endOffset := 1 }

def onlyMatch? : Except EvalError (List Match) → Option Match
  | .ok [m] => some m
  | _ => none

theorem eq_of_onlyMatch? {r : Except EvalError (List Match)} {m : Match} (h : onlyMatch? r = some m) : r = .ok [m] := by
  unfold onlyMatch? at h
  split at h
  · cases h
    rfl
  · cases h

theorem exists_outcome_finder (language : Language) (id : String) (languages : List Language) :
    ∃ m, Clause.outcome (tree language) (finder id languages).patterns 2000000 = .ok [m] ∧
      Location.ofSpan m.span = place ∧ m.span.start = 0 ∧ m.span.stop = 1 := by
  have hspan : (onlyMatch? (Clause.outcome (tree language) [.structural "(A)" none none] 2000000)).map (·.span) =
      some ((LineIndex.ofText (tree language).source).span 0 1) := by
    cases language <;> decide +kernel
  obtain ⟨m, hm, hplace⟩ := Option.map_eq_some_iff.mp hspan
  refine ⟨m, eq_of_onlyMatch? hm, ?_⟩
  rw [hplace]
  cases language <;> exact ⟨by decide +kernel, rfl, rfl⟩

section File

variable {path id : String} {language : Language} {rules : List Rule}

theorem hashedBy_finder (path id : String) (language : Language) (languages : List Language) :
    FileUnit.hashedBy path (tree language) 2000000 (finder id languages) = [Violation.identity id path place "x"] := by
  obtain ⟨m, hm, hplace, hstart, hstop⟩ := exists_outcome_finder language id languages
  unfold FileUnit.hashedBy
  rw [hm]
  simp only [Collector.findings, List.map_cons, List.map_nil, Finding.identity, hplace, hstart, hstop]
  rfl

theorem reportable_finder (path id : String) (language : Language) (content : Units) (languages : List Language)
    (m : Match) : Finding.Reportable path language content ⟨finder id languages, m⟩ := by
  have hpieces : Template.pieces "an A" = "an A".toList.map .char := by cbv
  have hmessage : ∀ text, Template.render "an A" m.bindings content text m.base = .ok "an A" := by
    intro text
    rw [Template.render, hpieces]
    rfl
  unfold Finding.Reportable Finding.violation Violation.ofMatch
  simp only [finder, rule, hmessage]
  exact ⟨_, rfl⟩

theorem prints_conclude_finder (path id : String) (language : Language) (languages : List Language) :
    (FileUnit.conclude path (tree language) 2000000 (finder id languages) {}).1.prints =
      [Sha256.hex (Violation.identity id path place "x")] := by
  obtain ⟨m, hm, hplace, hstart, hstop⟩ := exists_outcome_finder language id languages
  have hreportable : ∀ f ∈ Collector.findings (finder id languages) [m],
      f.Reportable path (tree language).language (tree language).source := by
    intro f hf
    obtain rfl := List.mem_singleton.mp hf
    exact reportable_finder ..
  obtain ⟨vs, c, hcollect, hcollected⟩ := Collector.exists_collect_eq_ok hreportable {}
  unfold FileUnit.conclude
  rw [hm]
  dsimp only
  rw [hcollect]
  change vs.map (·.fingerprint) = _
  have hall : ∀ fs : List Finding, fs.filter
      (fun f => f.fingerprint path (tree language).source ∉ Collector.seenIn {} path) = fs := by
    intro fs
    exact List.filter_eq_self.mpr fun f _ => decide_eq_true List.not_mem_nil
  have htext : ((tree language).source.slice 0 1).toText = "x" := rfl
  rw [Collector.map_fingerprint_eq hcollected.violations, hall]
  simp only [Collector.findings, List.map_cons, List.map_nil, firstOfEach_cons, firstOfEach_nil, List.filter_nil,
    Finding.fingerprint, Finding.identity, hplace, hstart, hstop, htext]
  rfl

theorem opened_file (path : String) (language : Language) (rules : List Rule) :
    FileUnit.opened (file path language) rules (AnalysisRun.settingsAt {} 0) tools =
      if rules.any (·.languages.contains language) then
        match tools.parsers.parse "x" language (some path) .tolerate with
        | .error e => .error (.ofParseError e)
        | .ok tree => .ok (some (language, tree))
      else .ok none := rfl

theorem hashed_file_of_none (h : rules.any (·.languages.contains language) = false) :
    FileUnit.hashed (file path language) rules (AnalysisRun.settingsAt {} 0) tools = [] := by
  rw [FileUnit.hashed, opened_file, h]
  rfl

theorem opened_file_eq (hlanguage : language = .typescript ∨ language = .javascript)
    (hany : rules.any (·.languages.contains language) = true) :
    FileUnit.opened (file path language) rules (AnalysisRun.settingsAt {} 0) tools =
      .ok (some (language, tree language)) := by
  rw [opened_file, hany]
  rcases hlanguage with rfl | rfl
  · rfl
  · rfl

variable (hlanguage : language = .typescript ∨ language = .javascript)
  (hrules : ∀ rule ∈ rules, rule.languages.contains language = true → ∃ languages, rule = finder id languages)

include hlanguage hrules

theorem eq_of_mem_hashed_file {s : String}
    (h : s ∈ FileUnit.hashed (file path language) rules (AnalysisRun.settingsAt {} 0) tools) :
    s = Violation.identity id path place "x" := by
  cases hany : rules.any (·.languages.contains language) with
  | false =>
    rw [hashed_file_of_none hany] at h
    cases h
  | true =>
    rw [FileUnit.hashed, opened_file_eq hlanguage hany] at h
    obtain ⟨rule, hrule, hs⟩ := List.mem_flatMap.mp h
    obtain ⟨hmem, happlies⟩ := List.mem_filter.mp hrule
    obtain ⟨languages, rfl⟩ := hrules rule hmem happlies
    exact List.mem_singleton.mp (hashedBy_finder path id language languages ▸ hs)

theorem mem_prints_file (hany : rules.any (·.languages.contains language) = true) :
    Sha256.hex (Violation.identity id path place "x") ∈
      (FileUnit.run (file path language) rules (AnalysisRun.settingsAt {} 0) tools (.still 0)).1.prints := by
  obtain ⟨-, hrun⟩ := FileUnit.run_still (file path language) rules (AnalysisRun.settingsAt {} 0) tools (by decide)
    (fun d hd => absurd hd (Option.not_mem_none d)) rfl fun _ _ => rfl
  rw [← UnitResult.prints_untimed, hrun, FileUnit.comesTo, opened_file_eq hlanguage hany]
  obtain ⟨rule, hmem, happlies⟩ := List.any_eq_true.mp hany
  cases hfilter : rules.filter (·.languages.contains language) with
  | nil => exact absurd happlies (List.filter_eq_nil_iff.mp hfilter rule hmem)
  | cons first rest =>
    obtain ⟨hfirst, hfirstApplies⟩ := List.mem_filter.mp (hfilter ▸ List.mem_cons_self)
    obtain ⟨languages, rfl⟩ := hrules first hfirst hfirstApplies
    dsimp only [UnitResult.prints]
    rw [hfilter, FileUnit.concludeAll, List.flatMap_cons]
    refine List.mem_append_left _ ?_
    change _ ∈ (FileUnit.conclude path (tree language) 2000000 (finder id languages) {}).1.prints
    rw [prints_conclude_finder]
    exact List.mem_singleton_self _

end File

/-- A file of a language if it is the one at this path, and else of a language without rules. -/
def fileFor (language : Language) (path other : String) : SourceInput :=
  file other (if other = path then language else .python)

section Files

variable {path id : String} {language : Language} {rules : List Rule}
  (hlanguage : language = .typescript ∨ language = .javascript)
  (hrules : ∀ rule ∈ rules, rule.languages.contains language = true → ∃ languages, rule = finder id languages)

include hlanguage hrules

theorem eq_of_mem_hashed_fileFor (hnone : rules.any (·.languages.contains .python) = false) {s other : String}
    (h : s ∈ FileUnit.hashed (fileFor language path other) rules (AnalysisRun.settingsAt {} 0) tools) :
    s = Violation.identity id path place "x" := by
  unfold fileFor at h
  split at h
  · next heq =>
    rw [heq] at h
    exact eq_of_mem_hashed_file hlanguage hrules h
  · rw [hashed_file_of_none hnone] at h
    cases h

theorem mem_prints_fileFor (path : String) (hany : rules.any (·.languages.contains language) = true)
    {paths : List String} (hpath : path ∈ paths) :
    Sha256.hex (Violation.identity id path place "x") ∈ ((paths.map (fileFor language path)).map fun input =>
      (FileUnit.run input rules (AnalysisRun.settingsAt {} 0) tools (.still 0)).1).flatMap (·.prints) := by
  refine List.mem_flatMap.mpr ⟨_, List.mem_map_of_mem (List.mem_map_of_mem hpath), ?_⟩
  simp only [fileFor, if_true]
  exact mem_prints_file hlanguage hrules hany

end Files

/-- A rule that finds the node in one language if it has the first id, and in another if it has the second. -/
def findsFor (a b id : String) : Rule :=
  finder id ((if id = a then [.typescript] else []) ++ if id = b then [.javascript] else [])

theorem contains_findsFor (a b id : String) (language : Language) :
    (findsFor a b id).languages.contains language = true ↔
      language = .typescript ∧ id = a ∨ language = .javascript ∧ id = b := by
  simp only [findsFor, finder, rule, List.contains_iff_mem, List.mem_append, List.mem_ite_nil_right,
    List.mem_singleton, and_comm]

theorem exists_finder {a b id : String} {language : Language}
    (h : ∀ id', (findsFor a b id').languages.contains language = true → id' = id) (ids : List String) :
    ∀ rule ∈ ids.map (findsFor a b), rule.languages.contains language = true →
      ∃ languages, rule = finder id languages := by
  intro rule hrule happlies
  obtain ⟨id', -, rfl⟩ := List.mem_map.mp hrule
  obtain rfl := h id' happlies
  exact ⟨_, rfl⟩

theorem any_findsFor (a b : String) (ids : List String) (language : Language) :
    (ids.map (findsFor a b)).any (·.languages.contains language) = true ↔
      language = .typescript ∧ a ∈ ids ∨ language = .javascript ∧ b ∈ ids := by
  simp only [List.any_map, List.any_eq_true, Function.comp_apply, contains_findsFor]
  constructor
  · rintro ⟨id, hid, ⟨hl, rfl⟩ | ⟨hl, rfl⟩⟩
    · exact .inl ⟨hl, hid⟩
    · exact .inr ⟨hl, hid⟩
  · rintro (⟨hl, ha⟩ | ⟨hl, hb⟩)
    · exact ⟨a, ha, .inl ⟨hl, rfl⟩⟩
    · exact ⟨b, hb, .inr ⟨hl, rfl⟩⟩

end OneNode

namespace AnalysisRun

section Report

variable {options : RunOptions} {rulesLoaded : Nat} {loadErrors : List LoadFailure} {units : List UnitResult}
  {cancellation : Option CancelReason} {durationMs : Int}

theorem perm_violations_report (hbaseline : options.baseline = none) :
    (report options rulesLoaded loadErrors units cancellation durationMs).violations.Perm (violationsOf units) := by
  obtain ⟨listed, hperm, -, hall⟩ := exists_listed_report options rulesLoaded loadErrors units cancellation durationMs
  rwa [hall hbaseline]

theorem nodup_prints_of_report (hbaseline : options.baseline = none)
    (h : ((report options rulesLoaded loadErrors units cancellation durationMs).violations.map
      (·.fingerprint)).Nodup) : (units.flatMap (·.prints)).Nodup := by
  rw [← map_fingerprint_violationsOf]
  exact ((perm_violations_report hbaseline).map _).nodup_iff.mp h

end Report

open OneNode

/-- Where labels are not different, a report can list a fingerprint twice. -/
theorem exists_repeating {ids paths : List String} (h : ¬Labelled ids paths) (mode : ExecutionMode) (workers : Int) :
    ∃ inputs rules r, inputs.map (·.path) = paths ∧ (Rule.select {} rules).map (·.id) = ids ∧
      Sha256.CollisionFree {s | s ∈ hashed inputs rules {} tools} ∧ Reports mode workers inputs rules {} [] tools r ∧
      ¬(r.violations.map (·.fingerprint)).Nodup := by
  unfold Labelled at h
  rw [List.pairwise_iff_forall_sublist] at h
  push Not at h
  obtain ⟨p, q, hsublist, a, ha, b, hb, hlabel⟩ := h
  obtain ⟨before, after, rfl, hp, hq⟩ := List.cons_sublist_iff.mp hsublist
  rw [List.singleton_sublist] at hq
  -- all other files have a language without rules, so that only texts with this label are hashed
  let rules := ids.map (findsFor a b)
  let inputs := before.map (fileFor .typescript p) ++ after.map (fileFor .javascript q)
  have hselect : Rule.select {} rules = rules := List.filter_eq_self.mpr fun _ _ => rfl
  have hfirst : ∀ rule ∈ rules, rule.languages.contains .typescript = true →
      ∃ languages, rule = finder a languages := by
    refine exists_finder (fun id happlies => ?_) ids
    simpa using (contains_findsFor a b id _).mp happlies
  have hsecond : ∀ rule ∈ rules, rule.languages.contains .javascript = true →
      ∃ languages, rule = finder b languages := by
    refine exists_finder (fun id happlies => ?_) ids
    simpa using (contains_findsFor a b id _).mp happlies
  have hnone : rules.any (·.languages.contains .python) = false := by
    rw [Bool.eq_false_iff, ne_eq, any_findsFor]
    simp
  have hsame := Violation.identity_eq_of_label hlabel place "x"
  have htext : ∀ s ∈ hashed inputs rules {} tools, s = Violation.identity a p place "x" := by
    intro s hs
    obtain ⟨input, hinput, hs⟩ := List.mem_flatMap.mp hs
    rw [hselect] at hs
    rcases List.mem_append.mp hinput with hinput | hinput
    · obtain ⟨path, -, rfl⟩ := List.mem_map.mp hinput
      exact eq_of_mem_hashed_fileFor (.inl rfl) hfirst hnone hs
    · obtain ⟨path, -, rfl⟩ := List.mem_map.mp hinput
      exact (eq_of_mem_hashed_fileFor (.inr rfl) hsecond hnone hs).trans hsame.symm
  let unit (input : SourceInput) := (FileUnit.run input rules (settingsAt {} 0) tools (.still 0)).1
  have hends : ∀ input ∈ inputs,
      FileUnit.Ends mode input (settingsAt {} 0) tools (Rule.select {} rules) (unit input) := by
    intro input _
    rw [hselect]
    exact .once rules (.still 0)
  obtain ⟨cancellation, hreports⟩ := exists_reports unit workers hends [] 0
  refine ⟨inputs, rules, _, ?_, ?_, ?_, hreports, fun hnodup => ?_⟩
  · rw [List.map_append, List.map_map, List.map_map]
    exact congrArg₂ _ (List.map_id _) (List.map_id _)
  · rw [hselect, List.map_map]
    exact List.map_id _
  · exact fun s hs t ht _ => (htext s hs).trans (htext t ht).symm
  · have hprints := nodup_prints_of_report rfl hnodup
    rw [List.map_append, List.flatMap_append] at hprints
    have hp' := mem_prints_fileFor (.inl rfl) hfirst p ((any_findsFor ..).mpr (.inl ⟨rfl, ha⟩)) hp
    have hq' := mem_prints_fileFor (.inr rfl) hsecond q ((any_findsFor ..).mpr (.inr ⟨rfl, hb⟩)) hq
    rw [← hsame] at hq'
    exact List.disjoint_of_nodup_append hprints hp' hq'

/-- Different paths are enough for rules whose ids have no NUL. -/
theorem labelled_of_nodup {ids paths : List String} (hpaths : paths.Nodup) (hids : ∀ id ∈ ids, '\x00' ∉ id.toList) :
    Labelled ids paths := by
  refine hpaths.imp fun {p q} hne a ha b hb he => hne ?_
  have hchars := congrArg String.toList he
  simp only [Violation.label, String.toList_append, List.append_assoc] at hchars
  exact String.toList_injective (append_cons_inj_left (hids a ha) (hids b hb) hchars).2

/-- No report over files at these paths and selected rules of these ids repeats a fingerprint exactly if rule
and file are always named differently for different files. Where threads can be terminated, the ids must be
different besides. -/
theorem fingerprints_nodup_iff (ids paths : List String) :
    (∀ mode workers inputs rules options loadErrors tools r, inputs.map (·.path) = paths →
        (Rule.select options rules).map (·.id) = ids → (mode = .workerThreads → ids.Nodup) →
          Sha256.CollisionFree {s | s ∈ hashed inputs rules options tools} →
            Reports mode workers inputs rules options loadErrors tools r →
              (r.violations.map (·.fingerprint)).Nodup) ↔
      Labelled ids paths := by
  constructor
  · intro hall
    by_contra hlabels
    obtain ⟨inputs, rules, r, hpaths, hids, hdigest, hreports, hrepeats⟩ := exists_repeating hlabels .inProcess 1
    exact hrepeats (hall .inProcess 1 _ _ _ _ _ _ hpaths hids nofun hdigest hreports)
  · rintro hlabels mode workers inputs rules options loadErrors tools r rfl rfl hthreads hdigest hreports
    exact hreports.nodup_of_labelled hlabels hthreads hdigest

/-- A violation in each of two files. -/
theorem fingerprints_nodup_files :
    (run files rules {} [] .inProcess tools (.still 0)).report.violations.length = 2 ∧
      ((run files rules {} [] .inProcess tools (.still 0)).report.violations.map (·.fingerprint)).Nodup := by
  have hlabels : Labelled ["finds", "misses"] ["a.ts", "b.ts"] := labelled_of_nodup (by decide) (by decide)
  constructor
  · refine (perm_violations_report rfl).length_eq.trans ?_
    decide +kernel
  · exact (fingerprints_nodup_iff _ _).mpr hlabels .inProcess 1 files rules {} [] tools _ rfl rfl nofun
      collisionFree_files (reports_run ..)

/-- A file that is listed twice is reported twice. -/
theorem run_twice_repeats :
    Sha256.CollisionFree {s | s ∈ hashed [file "a.ts" .typescript, file "a.ts" .typescript] [finds] {} tools} ∧
      ¬((run [file "a.ts" .typescript, file "a.ts" .typescript] [finds] {} [] .inProcess tools
        (.still 0)).report.violations.map (·.fingerprint)).Nodup := by
  constructor
  · have hone : ∀ s ∈ hashed [file "a.ts" .typescript, file "a.ts" .typescript] [finds] {} tools,
        s = Violation.identity "finds" "a.ts" place "x" := by
      intro s hs
      obtain ⟨input, hinput, hs⟩ := List.mem_flatMap.mp hs
      obtain rfl : input = file "a.ts" .typescript := by simpa using hinput
      refine eq_of_mem_hashed_file (.inl rfl) (fun rule hrule _ => ⟨[.typescript], ?_⟩) hs
      exact List.mem_singleton.mp hrule
    exact fun s hs t ht _ => (hone s hs).trans (hone t ht).symm
  · intro hnodup
    have hprints := nodup_prints_of_report rfl hnodup
    revert hprints
    decide +kernel

end AnalysisRun

end RuleScan
