import RuleScan.Proofs.Config.Faults
import RuleScan.Proofs.Value.Layering

/-! A configuration that passes is the normal form of the value it stands for: written as a value again it has what the
value has, and what is usual where the value has nothing, and it stands for itself. A value that does not pass is
reported place by place, unless a level or a policy in it has no form in a text. -/
namespace RuleScan

namespace Value

theorem get?_object_of_mem {pairs : List (String × Value)} (h : (pairs.map (·.1)).Nodup) {key : String} {v : Value}
    (hmem : (key, v) ∈ pairs) : (object pairs).get? key = some v := by
  rw [get?_object, ← Members.get?_perm (List.reverse_perm pairs).symm h]
  exact (Members.get?_eq_some_iff h).mpr hmem

end Value

namespace Config

/-- What does not fit in a decoded value. -/
def Faulty [UrlReader] : Value → Place → Prop
  | .obj m, p => Ill m p
  | _, p => p = .whole

/-- The paths of the values of a configuration. -/
def settings [UrlReader] : List (List String) :=
  simpleFields.map (fun field => [field.1]) ++ listFields.map (fun field => [field]) ++
    sections.flatMap fun part => part.2.map fun field => [part.1, field.1]

/-- The configuration of a workspace without one, as a value. -/
def usual : Value := ({} : Config).toValue

/-- A check that gives back what it passes: written as a value it is what was checked, or what is usual. And what is
usual counts for what is missing. -/
structure Normalizes {α : Type} (check : Option Value → Checked α) (write : α → Value) (usual : Value) : Prop where
  written : ∀ v, (check v).issues = [] → some (write (check v).value) = v.or (some usual)
  filled : ∀ v, check (v.or (some usual)) = check v

theorem FieldCheck.normalizes {α : Type} {check : Option Value → Checked α} {path : String} {Fits : Value → Prop}
    {write : α → Value} {usual : α} (h : FieldCheck check path Fits write usual) :
    Normalizes check write (write usual) where
  written v hnone := by
    rw [h.write_value hnone]
    cases v <;> rfl
  filled v := by
    cases v with
    | none => rw [Option.none_or, h.usual, h.missing]
    | some v => rw [Option.some_or]

/-! Lists. -/

theorem exists_texts {items : List Value} (h : ∀ v ∈ items, IsEntry v) :
    ∃ texts : List String, (∀ s ∈ texts, s ≠ "") ∧ items = texts.map .str := by
  induction items with
  | nil => exact ⟨[], fun _ hs => absurd hs List.not_mem_nil, rfl⟩
  | cons v rest ih =>
    obtain ⟨⟨s, hs, rfl⟩, hrest⟩ := List.forall_mem_cons.mp h
    obtain ⟨texts, htexts, rfl⟩ := ih hrest
    exact ⟨s :: texts, List.forall_mem_cons.mpr ⟨hs, htexts⟩, rfl⟩

theorem checkTexts_strings (name : String) {texts : List String} (h : ∀ s ∈ texts, s ≠ "") :
    checkTexts name (some (Value.strings texts)) = ⟨[], texts⟩ := by
  have hissues : entryIssues name 0 (texts.map .str) = [] := by
    refine (covers_entryIssues name 0 _).eq_nil_iff.mpr ?_
    rintro p ⟨index, v, hv, hbad, -⟩
    obtain ⟨s, hs, rfl⟩ := List.mem_map.mp (List.mem_of_getElem? hv)
    exact hbad ⟨s, h s hs, rfl⟩
  have hread : (texts.map Value.str).filterMap Value.str? = texts := by
    rw [List.filterMap_map]
    exact List.filterMap_some
  rw [Value.strings, checkTexts, hissues, hread, List.filter_eq_self.mpr]
  simpa using h

theorem checkTexts_cases {name : String} {v : Option Value} (h : (checkTexts name v).issues = []) :
    v = none ∨ ∃ texts : List String, (∀ s ∈ texts, s ≠ "") ∧ v = some (Value.strings texts) := by
  have hfits := (covers_checkTexts name v).eq_nil_iff.mp h
  cases v with
  | none => exact .inl rfl
  | some v =>
    cases v with
    | arr items =>
      have hentries : ∀ w ∈ items, IsEntry w := by
        intro w hw
        by_contra hbad
        obtain ⟨index, hindex⟩ := List.mem_iff_getElem?.mp hw
        exact hfits _ (.inr ⟨items, index, w, rfl, hindex, hbad, rfl⟩)
      obtain ⟨texts, htexts, rfl⟩ := exists_texts hentries
      exact .inr ⟨texts, htexts, rfl⟩
    | _ => exact absurd (.inl ⟨rfl, _, rfl, rfl⟩) (hfits (.field name))

theorem normalizes_checkTexts (name : String) : Normalizes (checkTexts name) Value.strings (Value.strings []) where
  written v hnone := by
    rcases checkTexts_cases hnone with rfl | ⟨texts, htexts, rfl⟩
    · rfl
    · rw [checkTexts_strings name htexts, Option.some_or]
  filled v := by cases v <;> rfl

/-! Sections. -/

/-- A section that passes is an object, or is missing and counts as one without members. -/
theorem exists_inner {α : Type} {check : Option Value → Checked α} (hnone : check none = check (some (.obj [])))
    (hobj : ∀ v, (check (some v)).issues = [] → v.isObj = true) {v : Option Value} (h : (check v).issues = []) :
    ∃ inner : Members, check v = check (some (.obj inner)) ∧ ∀ field, v.bind (·.get? field) = inner.get? field := by
  cases v with
  | none => exact ⟨[], hnone, fun _ => rfl⟩
  | some v =>
    cases v with
    | obj inner => exact ⟨inner, rfl, fun _ => rfl⟩
    | _ => cases hobj _ h

/-- The fields of the limits as they are written. -/
def analysisPairs (a : AnalysisSettings) : List (String × Value) :=
  [("syntaxErrors", .str a.syntaxErrors.word), ("maxWorkers", .ofNat? a.maxWorkers),
    ("ruleTimeoutMs", Value.ofNat a.ruleTimeoutMs), ("maxSteps", Value.ofNat a.maxSteps),
    ("maxDurationMs", .ofNat? a.maxDurationMs), ("maxFileSizeBytes", Value.ofNat a.maxFileSizeBytes)]

theorem get?_analysis {a : AnalysisSettings} {field : String} {v : Value} (h : (field, v) ∈ analysisPairs a) :
    a.toValue.get? field = some v := by
  refine Value.get?_object_of_mem ?_ ?_
  · change ["maxWorkers", "ruleTimeoutMs", "maxSteps", "maxDurationMs", "maxFileSizeBytes", "syntaxErrors"].Nodup
    decide
  · simp only [analysisPairs, List.mem_cons] at h ⊢
    tauto

theorem written_checkAnalysis {v : Option Value} (h : (checkAnalysis v).issues = []) {field : String} {u : Value}
    (hu : (field, u) ∈ analysisPairs {}) :
    (checkAnalysis v).value.toValue.get? field = (v.bind (·.get? field)).or (some u) := by
  obtain ⟨inner, hv, hinner⟩ := exists_inner rfl (fun _ => isObj_of_checkAnalysis) h
  rw [hv] at h ⊢
  rw [hinner]
  simp only [checkAnalysis, List.append_eq_nil_iff] at h
  obtain ⟨⟨⟨⟨⟨hpolicy, hworkers⟩, htimeout⟩, hsteps⟩, hduration⟩, hsize⟩ := h
  simp only [analysisPairs, List.mem_cons, List.not_mem_nil, or_false, Prod.mk.injEq] at hu
  rcases hu with ⟨rfl, rfl⟩ | ⟨rfl, rfl⟩ | ⟨rfl, rfl⟩ | ⟨rfl, rfl⟩ | ⟨rfl, rfl⟩ | ⟨rfl, rfl⟩
  · rw [get?_analysis (.head _)]
    exact fieldCheck_policy.normalizes.written _ hpolicy
  · rw [get?_analysis (.tail _ (.head _))]
    exact (fieldCheck_limit _).normalizes.written _ hworkers
  · rw [get?_analysis (.tail _ (.tail _ (.head _)))]
    exact (fieldCheck_positive _ _ (by decide)).normalizes.written _ htimeout
  · rw [get?_analysis (.tail _ (.tail _ (.tail _ (.head _))))]
    exact (fieldCheck_positive _ _ (by decide)).normalizes.written _ hsteps
  · rw [get?_analysis (.tail _ (.tail _ (.tail _ (.tail _ (.head _)))))]
    exact (fieldCheck_limit _).normalizes.written _ hduration
  · rw [get?_analysis (.tail _ (.tail _ (.tail _ (.tail _ (.tail _ (.head _))))))]
    exact (fieldCheck_positive _ _ (by decide)).normalizes.written _ hsize

theorem checkAnalysis_again {v : Option Value} (h : (checkAnalysis v).issues = []) :
    checkAnalysis (some (checkAnalysis v).value.toValue) = checkAnalysis v := by
  obtain ⟨inner, hv, hinner⟩ := exists_inner rfl (fun _ => isObj_of_checkAnalysis) h
  obtain ⟨m, hm, hget⟩ : ∃ m : Members, (checkAnalysis v).value.toValue = .obj m ∧
      ∀ field u, (field, u) ∈ analysisPairs {} → m.get? field = (inner.get? field).or (some u) :=
    ⟨_, rfl, fun field u hu => hinner field ▸ written_checkAnalysis h hu⟩
  rw [hm, hv]
  simp only [checkAnalysis]
  rw [hget _ _ (.head _), hget _ _ (.tail _ (.head _)), hget _ _ (.tail _ (.tail _ (.head _))),
    hget _ _ (.tail _ (.tail _ (.tail _ (.head _)))), hget _ _ (.tail _ (.tail _ (.tail _ (.tail _ (.head _))))),
    hget _ _ (.tail _ (.tail _ (.tail _ (.tail _ (.tail _ (.head _))))))]
  rw [fieldCheck_policy.normalizes.filled, (fieldCheck_limit _).normalizes.filled,
    (fieldCheck_positive _ _ (by decide)).normalizes.filled, (fieldCheck_positive _ _ (by decide)).normalizes.filled,
    (fieldCheck_limit _).normalizes.filled, (fieldCheck_positive _ _ (by decide)).normalizes.filled]

def registryPairs (r : RegistrySettings) : List (String × Value) :=
  [("url", .ofText? r.url), ("timeoutMs", Value.ofNat r.timeoutMs)]

theorem get?_registry {r : RegistrySettings} {field : String} {v : Value} (h : (field, v) ∈ registryPairs r) :
    r.toValue.get? field = some v := by
  refine Value.get?_object_of_mem ?_ h
  change ["url", "timeoutMs"].Nodup
  decide

theorem written_checkRegistry [UrlReader] {v : Option Value} (h : (checkRegistry v).issues = [])
    {field : String} {u : Value}
    (hu : (field, u) ∈ registryPairs {}) :
    (checkRegistry v).value.toValue.get? field = (v.bind (·.get? field)).or (some u) := by
  obtain ⟨inner, hv, hinner⟩ := exists_inner rfl (fun _ => isObj_of_checkRegistry) h
  rw [hv] at h ⊢
  rw [hinner]
  simp only [checkRegistry, List.append_eq_nil_iff] at h
  obtain ⟨hurl, htimeout⟩ := h
  simp only [registryPairs, List.mem_cons, List.not_mem_nil, or_false, Prod.mk.injEq] at hu
  rcases hu with ⟨rfl, rfl⟩ | ⟨rfl, rfl⟩
  · rw [get?_registry (.head _)]
    exact fieldCheck_address.normalizes.written _ hurl
  · rw [get?_registry (.tail _ (.head _))]
    exact (fieldCheck_positive _ _ (by decide)).normalizes.written _ htimeout

theorem checkRegistry_again [UrlReader] {v : Option Value} (h : (checkRegistry v).issues = []) :
    checkRegistry (some (checkRegistry v).value.toValue) = checkRegistry v := by
  obtain ⟨inner, hv, hinner⟩ := exists_inner rfl (fun _ => isObj_of_checkRegistry) h
  obtain ⟨m, hm, hget⟩ : ∃ m : Members, (checkRegistry v).value.toValue = .obj m ∧
      ∀ field u, (field, u) ∈ registryPairs {} → m.get? field = (inner.get? field).or (some u) :=
    ⟨_, rfl, fun field u hu => hinner field ▸ written_checkRegistry h hu⟩
  rw [hm, hv]
  simp only [checkRegistry]
  rw [hget _ _ (.head _), hget _ _ (.tail _ (.head _)), fieldCheck_address.normalizes.filled,
    (fieldCheck_positive _ _ (by decide)).normalizes.filled]

/-! The whole. -/

/-- The fields that hold no object as they are written. -/
def plainPairs (c : Config) : List (String × Value) :=
  [("baseline", .ofText? c.baseline), ("logLevel", .str c.logLevel.word), ("rulesets", Value.strings c.rulesets),
    ("include", Value.strings c.included), ("ignore", Value.strings c.ignore),
    ("disabledRules", Value.strings c.disabledRules)]

theorem settings_eq [UrlReader] : settings = (plainPairs {}).map (fun p => [p.1]) ++
    (analysisPairs {}).map (fun p => ["analysis", p.1]) ++ (registryPairs {}).map fun p => ["registry", p.1] := rfl

theorem get?_config {c : Config} {field : String} {v : Value}
    (h : (field, v) ∈ plainPairs c ++ [("analysis", c.analysis.toValue), ("registry", c.registry.toValue)]) :
    c.toValue.get? field = some v := by
  refine Value.get?_object_of_mem ?_ ?_
  · change ["rulesets", "include", "ignore", "disabledRules", "analysis", "registry", "baseline", "logLevel"].Nodup
    decide
  · simp only [plainPairs, List.cons_append, List.nil_append, List.mem_cons] at h ⊢
    tauto

/-- A configuration is written with members for its fields. -/
theorem exists_members (c : Config) : ∃ m : Members, c.toValue = .obj m ∧
    (∀ field, m.get? field = c.toValue.get? field) ∧ unknownKeys m = [] := by
  refine ⟨_, rfl, fun _ => rfl, unknownKeys_eq_nil_iff.mpr fun key hkey => ?_⟩
  obtain ⟨p, hp, rfl⟩ := List.mem_map.mp hkey
  exact List.mem_map_of_mem (f := (·.1)) (Value.mem_of_mem_ofPairs hp)

theorem written_checkMembers [UrlReader] {m : Members} (h : (checkMembers m).issues = []) {field : String} {u : Value}
    (hu : (field, u) ∈ plainPairs {}) : (checkMembers m).value.toValue.get? field = (m.get? field).or (some u) := by
  simp only [checkMembers, List.append_eq_nil_iff] at h
  obtain ⟨⟨⟨⟨⟨⟨⟨⟨-, hbaseline⟩, hlevel⟩, hrulesets⟩, hincluded⟩, hignored⟩, hdisabled⟩, -⟩, -⟩ := h
  simp only [plainPairs, List.mem_cons, List.not_mem_nil, or_false, Prod.mk.injEq] at hu
  rcases hu with ⟨rfl, rfl⟩ | ⟨rfl, rfl⟩ | ⟨rfl, rfl⟩ | ⟨rfl, rfl⟩ | ⟨rfl, rfl⟩ | ⟨rfl, rfl⟩
  · rw [get?_config (.head _)]
    exact fieldCheck_file.normalizes.written _ hbaseline
  · rw [get?_config (.tail _ (.head _))]
    exact fieldCheck_level.normalizes.written _ hlevel
  · rw [get?_config (.tail _ (.tail _ (.head _)))]
    exact (normalizes_checkTexts _).written _ hrulesets
  · rw [get?_config (.tail _ (.tail _ (.tail _ (.head _))))]
    exact (normalizes_checkTexts _).written _ hincluded
  · rw [get?_config (.tail _ (.tail _ (.tail _ (.tail _ (.head _)))))]
    exact (normalizes_checkTexts _).written _ hignored
  · rw [get?_config (.tail _ (.tail _ (.tail _ (.tail _ (.tail _ (.head _))))))]
    exact (normalizes_checkTexts _).written _ hdisabled

theorem at?_singleton (v : Value) (key : String) : v.at? [key] = v.get? key := Option.bind_fun_some _

theorem at?_pair (v : Value) (key field : String) : v.at? [key, field] = (v.get? key).bind (·.get? field) :=
  congrArg (v.get? key).bind (funext fun inner => at?_singleton inner field)

theorem at?_checkMembers [UrlReader] {m : Members} (h : (checkMembers m).issues = []) {path : List String}
    (hpath : path ∈ settings) :
    (checkMembers m).value.toValue.at? path = ((Value.obj m).at? path).or (usual.at? path) := by
  have hanalysis : ∀ c : Config, c.toValue.get? "analysis" = some c.analysis.toValue := fun _ =>
    get?_config (List.mem_append_right _ (.head _))
  have hregistry : ∀ c : Config, c.toValue.get? "registry" = some c.registry.toValue := fun _ =>
    get?_config (List.mem_append_right _ (.tail _ (.head _)))
  rw [settings_eq, List.mem_append, List.mem_append, List.mem_map, List.mem_map, List.mem_map] at hpath
  rcases hpath with (⟨⟨field, u⟩, hu, rfl⟩ | ⟨⟨field, u⟩, hu, rfl⟩) | ⟨⟨field, u⟩, hu, rfl⟩
  · rw [at?_singleton, at?_singleton, at?_singleton, usual, get?_config (List.mem_append_left _ hu)]
    exact written_checkMembers h hu
  · have hissues : (checkAnalysis (m.get? "analysis")).issues = [] := by
      simp only [checkMembers, List.append_eq_nil_iff] at h
      exact h.1.2
    rw [at?_pair, at?_pair, at?_pair, usual, hanalysis, hanalysis, Option.bind_some, Option.bind_some,
      get?_analysis hu]
    exact written_checkAnalysis hissues hu
  · have hissues : (checkRegistry (m.get? "registry")).issues = [] := by
      simp only [checkMembers, List.append_eq_nil_iff] at h
      exact h.2
    rw [at?_pair, at?_pair, at?_pair, usual, hregistry, hregistry, Option.bind_some, Option.bind_some,
      get?_registry hu]
    exact written_checkRegistry hissues hu

/-- What passes passes again as it is written, and comes to the same. -/
theorem check_again [UrlReader] {m : Members} (h : (checkMembers m).issues = []) :
    check (some (checkMembers m).value.toValue) = checkMembers m := by
  obtain ⟨m', hm', hget, hkeys⟩ := exists_members (checkMembers m).value
  have hplain : ∀ field u, (field, u) ∈ plainPairs {} → m'.get? field = (m.get? field).or (some u) := by
    intro field u hu
    rw [hget, written_checkMembers h hu]
  have hanalysis : m'.get? "analysis" = some (checkMembers m).value.analysis.toValue := by
    rw [hget, get?_config (List.mem_append_right _ (.head _))]
  have hregistry : m'.get? "registry" = some (checkMembers m).value.registry.toValue := by
    rw [hget, get?_config (List.mem_append_right _ (.tail _ (.head _)))]
  have hsections := h
  simp only [checkMembers, List.append_eq_nil_iff] at hsections
  obtain ⟨⟨⟨⟨⟨⟨⟨⟨hunknown, -⟩, -⟩, -⟩, -⟩, -⟩, -⟩, hanalysisIssues⟩, hregistryIssues⟩ := hsections
  rw [hm', check]
  simp only [checkMembers] at hanalysis hregistry ⊢
  rw [hkeys, hunknown, hanalysis, hregistry, checkAnalysis_again hanalysisIssues, checkRegistry_again hregistryIssues,
    hplain _ _ (.head _), hplain _ _ (.tail _ (.head _)), hplain _ _ (.tail _ (.tail _ (.head _))),
    hplain _ _ (.tail _ (.tail _ (.tail _ (.head _)))),
    hplain _ _ (.tail _ (.tail _ (.tail _ (.tail _ (.head _))))),
    hplain _ _ (.tail _ (.tail _ (.tail _ (.tail _ (.tail _ (.head _))))))]
  have htexts := fun name v => (normalizes_checkTexts name).filled v
  rw [fieldCheck_file.normalizes.filled, fieldCheck_level.normalizes.filled, htexts, htexts, htexts, htexts]

/-! Refusals. -/

theorem covers_check [UrlReader] (raw : Value) : Covers (check (some raw)).issues (Faulty raw) := by
  cases raw with
  | obj m => exact covers_checkMembers m
  | _ => exact .one .whole rfl fun p => Iff.rfl

/-- A level and a policy that fit have a form in a text. -/
theorem textless_eq_false [UrlReader] {raw : Value} (h : ∀ p, ¬Faulty raw p) : textless (some raw) = false := by
  cases raw with
  | obj m =>
    refine (textless_obj_iff m).mpr ⟨fun v hv => ?_, fun inner hinner v hv => ?_⟩
    · have hlevel : IsLevel v := by
        by_contra hbad
        exact h (.field "logLevel") (.inr (.inl ⟨_, _, .tail _ (.head _), rfl, v, hv, hbad⟩))
      obtain ⟨level, rfl⟩ := hlevel
      rfl
    · have hpolicy : IsPolicy v := by
        by_contra hbad
        exact h (.inner "analysis" "syntaxErrors")
          (.inr (.inr (.inr ⟨_, _, .head _, .inr ⟨inner, hinner, _, _, v, .head _, hv, hbad, rfl⟩⟩)))
      obtain ⟨policy, rfl⟩ := hpolicy
      rfl
  | _ => rfl

theorem validate_eq_ok_iff [UrlReader] {v : Option Value} {c : Config} :
    validate v = .ok c ↔ textless v = false ∧ (check v).issues = [] ∧ (check v).value = c := by
  rw [validate]
  cases textless v with
  | true => simp
  | false => by_cases hissues : (check v).issues = [] <;> simp [hissues]

theorem validate_eq_invalid_iff [UrlReader] {v : Option Value} {issues : List ConfigIssue} :
    validate v = .error (.invalid issues) ↔ textless v = false ∧ (check v).issues ≠ [] ∧ (check v).issues = issues := by
  rw [validate]
  cases textless v with
  | true => simp
  | false => by_cases hissues : (check v).issues = [] <;> simp [hissues]

/-- A value stands for a configuration if nothing in it is faulty. The configuration has what the value has, and what is
usual elsewhere, and written as a value it stands for itself. If something is faulty, all that is faulty is reported,
unless a level or a policy is that has no form in a text. -/
theorem validate_normal_form [UrlReader] (raw : Value) :
    ((∃ c, validate (some raw) = .ok c) ↔ ∀ p, ¬Faulty raw p) ∧
      ((∃ issues, validate (some raw) = .error (.invalid issues)) ↔
        (∃ p, Faulty raw p) ∧ textless (some raw) = false) ∧
      (∀ issues, validate (some raw) = .error (.invalid issues) → Covers issues (Faulty raw)) ∧
      ∀ c, validate (some raw) = .ok c →
        (∀ path ∈ settings, c.toValue.at? path = (raw.at? path).or (usual.at? path)) ∧
          validate (some c.toValue) = .ok c := by
  have hcovers := covers_check raw
  refine ⟨⟨?_, fun h => ?_⟩, ⟨?_, ?_⟩, ?_, ?_⟩
  · rintro ⟨c, hc⟩
    exact hcovers.eq_nil_iff.mp (validate_eq_ok_iff.mp hc).2.1
  · exact ⟨_, validate_eq_ok_iff.mpr ⟨textless_eq_false h, hcovers.eq_nil_iff.mpr h, rfl⟩⟩
  · rintro ⟨issues, hissues⟩
    obtain ⟨htext, hsome, -⟩ := validate_eq_invalid_iff.mp hissues
    exact ⟨by simpa using mt hcovers.eq_nil_iff.mpr hsome, htext⟩
  · rintro ⟨⟨p, hp⟩, htext⟩
    exact ⟨_, validate_eq_invalid_iff.mpr ⟨htext, fun hnone => hcovers.eq_nil_iff.mp hnone p hp, rfl⟩⟩
  · intro issues hissues
    obtain ⟨-, -, rfl⟩ := validate_eq_invalid_iff.mp hissues
    exact hcovers
  · intro c hc
    obtain ⟨-, hissues, rfl⟩ := validate_eq_ok_iff.mp hc
    cases raw with
    | obj m =>
      have hagain := check_again hissues
      have hfits : ∀ p, ¬Faulty (checkMembers m).value.toValue p :=
        (covers_check _).eq_nil_iff.mp ((congrArg Checked.issues hagain).trans hissues)
      exact ⟨fun path hpath => at?_checkMembers hissues hpath, validate_eq_ok_iff.mpr
        ⟨textless_eq_false hfits, (congrArg Checked.issues hagain).trans hissues, congrArg Checked.value hagain⟩⟩
    | _ => cases hissues

def sparse : Value :=
  .obj [("analysis", .obj [("maxWorkers", .null), ("maxSteps", Value.ofNat 7)]), ("ignore", Value.strings ["dist/"])]

theorem validate_normal_form_sparse : ∃ c, validate (some sparse) = .ok c ∧ validate (some c.toValue) = .ok c ∧
    c.toValue.at? ["analysis", "maxSteps"] = some (Value.ofNat 7) ∧
    c.toValue.at? ["registry", "timeoutMs"] = usual.at? ["registry", "timeoutMs"] := by
  have hread : (validate (some sparse)).toOption =
      some { ignore := ["dist/"], analysis := { maxSteps := 7 } } := by decide
  obtain ⟨-, -, -, hok⟩ := validate_normal_form sparse
  cases hvalid : validate (some sparse) with
  | error _ =>
    rw [hvalid] at hread
    cases hread
  | ok c =>
    obtain ⟨hat, hagain⟩ := hok c hvalid
    exact ⟨c, rfl, hagain, hat _ (by decide), hat _ (by decide)⟩

/-- A level that is an object with a member in place of what gives it a text is faulty, and is not reported. -/
theorem level_without_text : Faulty (.obj [("logLevel", .obj [("toString", Value.ofNat 1)])]) (.field "logLevel") ∧
    (∀ c, validate (some (.obj [("logLevel", .obj [("toString", Value.ofNat 1)])])) ≠ .ok c) ∧
    ∀ issues, validate (some (.obj [("logLevel", .obj [("toString", Value.ofNat 1)])])) ≠ .error (.invalid issues) := by
  have htextless : textless (some (.obj [("logLevel", .obj [("toString", Value.ofNat 1)])])) = true := by decide
  refine ⟨.inr (.inl ⟨_, _, .tail _ (.head _), rfl, _, rfl, ?_⟩), fun c hc => ?_, fun issues hissues => ?_⟩
  · rintro ⟨level, he⟩
    cases he
  · rw [validate, htextless] at hc
    cases hc
  · rw [validate, htextless] at hissues
    cases hissues

end Config

end RuleScan
