import RuleScan.Proofs.Config.Faults
import RuleScan.Proofs.Config.Overrides

/-! The environment laid over a configuration that is not valid. What is wrong with the file is reported all the same,
in the order of the file alone, apart from the fields that the environment sets. And a section that is no object is
replaced as a whole by the fields the environment sets in it, so that nothing is left there to be reported. -/
namespace RuleScan

namespace Config

def setFields (env : Environment) : List String :=
  (counts env).keys.map ("analysis." ++ ·) ++ (addresses env).keys.map ("registry." ++ ·) ++
    if (level? (env.lookup "CODEPROBE_LOG_LEVEL")).isSome then ["logLevel"] else []

def setSections (env : Environment) : List String :=
  (if (counts env).isEmpty then [] else ["analysis"]) ++ if (addresses env).isEmpty then [] else ["registry"]

def reported : Except LoadError Loaded → List ConfigIssue
  | .error (.invalid issues) => issues
  | _ => []

def apart (paths : List String) (issues : List ConfigIssue) : List ConfigIssue := issues.filter (·.path ∉ paths)

section Apart

variable {paths : List String} {issues others : List ConfigIssue}

theorem apart_append : apart paths (issues ++ others) = apart paths issues ++ apart paths others :=
  List.filter_append ..

theorem mem_apart_iff {issue : ConfigIssue} : issue ∈ apart paths issues ↔ issue ∈ issues ∧ issue.path ∉ paths := by
  rw [apart, List.mem_filter, decide_eq_true_iff]

theorem apart_eq_nil (h : ∀ issue ∈ issues, issue.path ∈ paths) : apart paths issues = [] :=
  List.filter_eq_nil_iff.mpr fun issue hmem => by simpa using h issue hmem

/-- Apart from its own path, a check reports the same whatever is laid over its field. -/
theorem FieldCheck.apart_or {α : Type} {check : Option Value → Checked α} {path : String} {Fits : Value → Prop}
    {write : α → Value} {usual : α} (h : FieldCheck check path Fits write usual) {laid : Option Value}
    (hlaid : laid.isSome → path ∈ paths) (old : Option Value) :
    apart paths (check (laid.or old)).issues = apart paths (check old).issues := by
  cases laid with
  | none => rw [Option.none_or]
  | some v =>
    have hpath : path ∈ paths := hlaid rfl
    rw [Option.some_or, apart_eq_nil fun _ hmem => h.path_eq hmem ▸ hpath,
      apart_eq_nil fun _ hmem => h.path_eq hmem ▸ hpath]

/-- Apart from its own path, a section reports the same whatever its value is laid over. -/
theorem apart_section {α : Type} {check : Option Value → Checked α} (part : String) {laid : Members}
    (hlaid : laid.Flat) (hnone : check none = check (some (.obj []))) (hclean : (check none).issues = [])
    (hother : ∀ v, v.isObj = false → ∀ issue ∈ (check (some v)).issues, issue.path = part)
    (hobj : ∀ m m' : Members, (∀ field, m'.get? field = (laid.get? field).or (m.get? field)) →
      apart paths (check (some (.obj m'))).issues = apart paths (check (some (.obj m))).issues)
    (hpart : laid ≠ [] → part ∈ paths) (old : Option Value) :
    apart paths (check (Value.mergeAt old (asObject laid))).issues = apart paths (check old).issues := by
  by_cases hempty : laid = []
  · subst hempty
    rfl
  have hobject : asObject laid = some (.obj laid) := if_neg (mt List.isEmpty_iff.mp hempty)
  rw [hobject, Value.mergeAt]
  -- the members alone are laid over none, and nothing is wrong with none
  have halone : apart paths (check (some (.obj laid))).issues = [] := by
    rw [hobj [] laid fun field => (Option.or_none ..).symm, ← hnone, hclean]
    rfl
  rcases old with _ | v
  · rw [Value.mergeValue, halone, hclean]
    · rfl
    · rintro _ _ he
      cases he
  · cases v with
    | obj m => exact hobj m _ (Value.get?_mergeMembers_of_flat hlaid m)
    | _ => exact halone.trans (apart_eq_nil fun issue hmem => hother _ rfl issue hmem ▸ hpart hempty).symm

end Apart

section Under

variable {env : Environment} {paths : List String} {m : Members}

theorem mem_setFields_of_counts {field : String} (h : ((counts env).get? field).isSome) :
    "analysis." ++ field ∈ setFields env :=
  List.mem_append_left _ (List.mem_append_left _ (List.mem_map_of_mem (Members.mem_keys_iff.mpr h)))

theorem mem_setFields_of_addresses {field : String} (h : ((addresses env).get? field).isSome) :
    "registry." ++ field ∈ setFields env :=
  List.mem_append_left _ (List.mem_append_right _ (List.mem_map_of_mem (Members.mem_keys_iff.mpr h)))

theorem mem_setSections_iff {part : String} : part ∈ setSections env ↔
    (part = "analysis" ∧ counts env ≠ []) ∨ (part = "registry" ∧ addresses env ≠ []) := by
  rw [setSections, List.mem_append]
  cases counts env <;> cases addresses env <;> simp

/-- A section that the environment sets fields of has an object laid over it. -/
theorem exists_layer_of_mem_setSections [UrlReader] {part : String} (h : part ∈ setSections env) :
    ∃ fields laid, (part, fields) ∈ sections ∧ (part, asObject laid) ∈ layers env ∧ laid ≠ [] := by
  rcases mem_setSections_iff.mp h with ⟨rfl, hlaid⟩ | ⟨rfl, hlaid⟩
  · exact ⟨_, _, .head _, .head _, hlaid⟩
  · exact ⟨_, _, .tail _ (.head _), .tail _ (.head _), hlaid⟩

theorem apart_checkAnalysis (hpaths : ∀ p ∈ setFields env ++ setSections env, p ∈ paths) (old : Option Value) :
    apart paths (checkAnalysis (Value.mergeAt old (asObject (counts env)))).issues =
      apart paths (checkAnalysis old).issues := by
  have hset : ∀ field, ((counts env).get? field).isSome → "analysis." ++ field ∈ paths := fun field hfield =>
    hpaths _ (List.mem_append_left _ (mem_setFields_of_counts hfield))
  refine apart_section "analysis" (flat_counts env) rfl rfl ?_ ?_ ?_ old
  · intro v hv issue hmem
    cases v with
    | obj m => cases hv
    | _ => rw [List.mem_singleton.mp hmem]
  · intro m m' hget
    have hpolicy := fieldCheck_policy.apart_or (hset "syntaxErrors") (m.get? "syntaxErrors")
    have hworkers := (fieldCheck_limit _).apart_or (hset "maxWorkers") (m.get? "maxWorkers")
    have htimeout := (fieldCheck_positive _ 5000 (by decide)).apart_or (hset "ruleTimeoutMs")
      (m.get? "ruleTimeoutMs")
    have hsteps := (fieldCheck_positive _ 2000000 (by decide)).apart_or (hset "maxSteps")
      (m.get? "maxSteps")
    have hduration := (fieldCheck_limit _).apart_or (hset "maxDurationMs") (m.get? "maxDurationMs")
    have hsize := (fieldCheck_positive _ 1048576 (by decide)).apart_or (hset "maxFileSizeBytes")
      (m.get? "maxFileSizeBytes")
    simp only [String.reduceAppend] at hworkers htimeout hsteps hduration hsize
    simp only [checkAnalysis, apart_append, hget]
    rw [hpolicy, hworkers, htimeout, hsteps, hduration, hsize]
  · exact fun hsome => hpaths _ (List.mem_append_right _ (mem_setSections_iff.mpr (.inl ⟨rfl, hsome⟩)))

theorem apart_checkRegistry [UrlReader] (hpaths : ∀ p ∈ setFields env ++ setSections env, p ∈ paths)
    (old : Option Value) :
    apart paths (checkRegistry (Value.mergeAt old (asObject (addresses env)))).issues =
      apart paths (checkRegistry old).issues := by
  have hset : ∀ field, ((addresses env).get? field).isSome → "registry." ++ field ∈ paths := fun field hfield =>
    hpaths _ (List.mem_append_left _ (mem_setFields_of_addresses hfield))
  refine apart_section "registry" (flat_addresses env) rfl rfl ?_ ?_ ?_ old
  · intro v hv issue hmem
    cases v with
    | obj m => cases hv
    | _ => rw [List.mem_singleton.mp hmem]
  · intro m m' hget
    have hurl := fieldCheck_address.apart_or (hset "url") (m.get? "url")
    have htimeout := (fieldCheck_positive _ 10000 (by decide)).apart_or (hset "timeoutMs")
      (m.get? "timeoutMs")
    simp only [String.reduceAppend] at htimeout
    simp only [checkRegistry, apart_append, hget]
    rw [hurl, htimeout]
  · exact fun hsome => hpaths _ (List.mem_append_right _ (mem_setSections_iff.mpr (.inr ⟨rfl, hsome⟩)))

theorem apart_checkLogLevel (hpaths : ∀ p ∈ setFields env ++ setSections env, p ∈ paths) (m : Members) :
    apart paths (checkLogLevel ((Value.mergeMembers m (overrides env)).get? "logLevel")).issues =
      apart paths (checkLogLevel (m.get? "logLevel")).issues := by
  rw [get?_merged_logLevel]
  refine fieldCheck_level.apart_or (fun hset => ?_) _
  refine hpaths _ (List.mem_append_left _ (List.mem_append_right _ ?_))
  rw [Option.isSome_map] at hset
  rw [if_pos hset]
  exact List.mem_singleton_self _

/-- What is reported of a file with the environment laid over it, apart from what the environment sets. -/
theorem apart_checkMembers [UrlReader] (hpaths : ∀ p ∈ setFields env ++ setSections env, p ∈ paths) (m : Members) :
    apart paths (checkMembers (Value.mergeMembers m (overrides env))).issues = apart paths (checkMembers m).issues := by
  have hlevel := apart_checkLogLevel hpaths m
  have hanalysis := apart_checkAnalysis hpaths (m.get? "analysis")
  have hregistry := apart_checkRegistry hpaths (m.get? "registry")
  have hother := fun key => @get?_merged_of_not_mem env m key
  simp only [checkMembers, apart_append]
  rw [unknownKeys_merged, hlevel, get?_merged (.head _), hanalysis, get?_merged (.tail _ (.head _)), hregistry,
    hother "baseline" (by decide), hother "rulesets" (by decide), hother "include" (by decide),
    hother "ignore" (by decide), hother "disabledRules" (by decide)]

theorem exists_mergeAt_asObject {laid : Members} (h : laid ≠ []) (old : Option Value) :
    ∃ inner, Value.mergeAt old (asObject laid) = some (.obj inner) := by
  rw [asObject, if_neg (mt List.isEmpty_iff.mp h), Value.mergeAt]
  rcases old with _ | _ | _ | _ | _ | _ | outer <;> exact ⟨_, rfl⟩

/-- Nothing is reported of a section as a whole that the environment sets a field of. -/
theorem path_ne_of_mem_setSections [UrlReader] {part : String} (hpart : part ∈ setSections env) {issue : ConfigIssue}
    (hmem : issue ∈ (checkMembers (Value.mergeMembers m (overrides env))).issues) : issue.path ≠ part := by
  rintro rfl
  obtain ⟨inner, laid, hsection, hlayer, hlaid⟩ := exists_layer_of_mem_setSections hpart
  have hplain : ∀ name ∈ sections.map (·.1), '[' ∉ name.toList ∧ '.' ∉ name.toList ∧ name ≠ "" := by
    simp [sections]
  obtain ⟨hbracket, hdot, hname⟩ := hplain _ (List.mem_map_of_mem hsection)
  -- only the section itself has this path, and what stands there is an object
  obtain ⟨p, hill, hpath⟩ := (covers_checkMembers _).exists_place hmem
  obtain rfl := Place.eq_field_of_path hbracket hdot hname hpath
  obtain ⟨w, hw, hshape⟩ := isObj_eq_false_of_ill hsection hill
  obtain ⟨merged, hobject⟩ := exists_mergeAt_asObject hlaid (m.get? issue.path)
  rw [get?_merged hlayer, hobject] at hw
  cases hw
  cases hshape

end Under

section Loading

variable {disk : Disk} {workspace : String} {issues : List ConfigIssue}

theorem reported_of_readFile [UrlReader] {found : Option Members} (h : readFile disk (fileOf workspace) = .ok found)
    {env : Environment} (htext : textless (some (.obj (Value.mergeMembers (found.getD []) (overrides env)))) = false) :
    reported (load disk workspace env) =
      (checkMembers (Value.mergeMembers (found.getD []) (overrides env))).issues := by
  rw [load_of_readFile h, htext, if_neg Bool.false_ne_true]
  split
  · next hnone => exact hnone.symm
  · rfl

theorem readFile_ne_invalid (path : String) : readFile disk path ≠ .error (.invalid issues) := by
  intro h
  rw [readFile] at h
  split at h
  · cases h
  · cases h
  · split at h <;> cases h

theorem exists_of_load_nil_error [UrlReader] (h : load disk workspace [] = .error (.invalid issues)) :
    ∃ found, readFile disk (fileOf workspace) = .ok found ∧ textless (some (.obj (found.getD []))) = false ∧
      (checkMembers (found.getD [])).issues = issues := by
  cases hread : readFile disk (fileOf workspace) with
  | error e =>
    unfold load at h
    dsimp only at h
    rw [hread] at h
    obtain rfl : e = .invalid issues := Except.error.inj h
    exact absurd hread (readFile_ne_invalid _)
  | ok found =>
    have hlaid : Value.mergeMembers (found.getD []) (overrides []) = found.getD [] := rfl
    rw [load_of_readFile hread, hlaid] at h
    split_ifs at h with htext hissues
    · cases h
    · exact ⟨found, rfl, Bool.eq_false_iff.mpr htext, LoadError.invalid.inj (Except.error.inj h)⟩

/-- What is wrong with a file is reported as well with the environment laid over it, apart from the fields that the
environment sets, unless it is wrong with a section as a whole that the environment sets a field of. What is reported
elsewhere is the same in the same order. -/
theorem reported_under [UrlReader] (h : load disk workspace [] = .error (.invalid issues)) (env : Environment) :
    (∀ issue ∈ issues, issue.path ∉ setFields env →
      (issue ∈ reported (load disk workspace env) ↔ issue.path ∉ setSections env)) ∧
      apart (setFields env ++ setSections env) (reported (load disk workspace env)) =
        apart (setFields env ++ setSections env) issues := by
  obtain ⟨found, hread, htext, rfl⟩ := exists_of_load_nil_error h
  rw [reported_of_readFile hread (textless_merged htext env)]
  have hapart := @apart_checkMembers env _ _ (fun p hp => hp) (found.getD [])
  refine ⟨fun issue hmem hfield => ⟨fun hreported hsection => ?_, fun hsection => ?_⟩, hapart⟩
  · exact path_ne_of_mem_setSections hsection hreported rfl
  · have hkept : issue.path ∉ setFields env ++ setSections env := fun hpath =>
      (List.mem_append.mp hpath).elim hfield hsection
    exact (mem_apart_iff.mp (hapart.symm ▸ mem_apart_iff.mpr ⟨hmem, hkept⟩)).1

end Loading

theorem eq_invalid_of_reported {result : Except LoadError Loaded} (h : reported result ≠ []) :
    result = .error (.invalid (reported result)) := by
  unfold reported at h ⊢
  split at h
  · rfl
  · exact absurd rfl h

/-- A workspace whose configuration file has this text. -/
def holding (text : String) : Disk :=
  { root := "/"
    tree := .directory [("w", .directory [(".codeprobe",
      .directory [("config.json", .file { content := .text text })])])] }

/-- A file with four faults, one of them in a field of the environment. -/
def faulty : Disk :=
  holding "\x7b\"analysis\": \x7b\"maxSteps\": 0, \"maxWorkers\": 0\x7d, \"logLevel\": \"loud\", \"extra\": 1\x7d"

/-- One limit, as the environment sets it. -/
def limited : Environment := [("CODEPROBE_MAX_STEPS", "5")]

theorem reported_under_limited : ∃ issues, load faulty "/w" [] = .error (.invalid issues) ∧
    issues.map (·.path) = ["extra", "logLevel", "analysis.maxWorkers", "analysis.maxSteps"] ∧
    ∀ issue ∈ issues, issue.path ≠ "analysis.maxSteps" → issue ∈ reported (load faulty "/w" limited) := by
  have hpaths : (reported (load faulty "/w" [])).map (·.path) =
      ["extra", "logLevel", "analysis.maxWorkers", "analysis.maxSteps"] := by decide +kernel
  have hload := eq_invalid_of_reported (List.map_eq_nil_iff.not.mp (hpaths ▸ List.cons_ne_nil _ _))
  have hfields : setFields limited = ["analysis.maxSteps"] := by decide +kernel
  have hsections : setSections limited = ["analysis"] := by decide
  refine ⟨_, hload, hpaths, fun issue hmem hpath => ?_⟩
  have hiff := (reported_under hload limited).1 issue hmem
  rw [hfields, hsections, List.mem_singleton, List.mem_singleton] at hiff
  refine (hiff hpath).mpr fun hsection => ?_
  have hin : "analysis" ∈ (reported (load faulty "/w" [])).map (·.path) := hsection ▸ List.mem_map_of_mem hmem
  exact absurd (hpaths ▸ hin) (by decide)

/-- A section that is no object is refused by itself, and is replaced by the limit that the environment sets. -/
theorem section_replaced :
    (∃ issues, load (holding "\x7b\"analysis\": \"x\"\x7d") "/w" [] = .error (.invalid issues) ∧
      issues.map (·.path) = ["analysis"]) ∧
    "analysis" ∉ setFields limited ∧
    ∃ loaded, load (holding "\x7b\"analysis\": \"x\"\x7d") "/w" limited = .ok loaded := by
  have hpaths : (reported (load (holding "\x7b\"analysis\": \"x\"\x7d") "/w" [])).map (·.path) = ["analysis"] := by
    decide +kernel
  have hload := eq_invalid_of_reported (List.map_eq_nil_iff.not.mp (hpaths ▸ List.cons_ne_nil _ _))
  have hconfig : (load (holding "\x7b\"analysis\": \"x\"\x7d") "/w" limited).toOption.map (·.config) =
      some { analysis := { maxSteps := 5 } } := by decide +kernel
  obtain ⟨loaded, hloaded, -⟩ := exists_of_config_eq hconfig
  exact ⟨⟨_, hload, hpaths⟩, by decide +kernel, loaded, hloaded⟩

end Config

end RuleScan
