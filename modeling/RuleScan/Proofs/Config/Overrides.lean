import RuleScan.Proofs.Config.Checks
import RuleScan.Proofs.Value.Merging

/-! The environment laid over a configuration that is valid by itself. A variable that cannot be used is to be ignored
and any other sets one field. Two kinds of unusable values are not ignored: a count too large to be finite, and a text
for the registry that is no address. Each of them is laid over the configuration and refused with it. -/
namespace RuleScan

namespace Config

/-! What the variables stand for. -/

/-- The count that a text stands for, rounded as numbers are. -/
def count? (text : Option String) : Option Nat :=
  ((text.bind Number.decimal?).filter fun n => 0 < n && n < Number.leastInfinite).map Number.rounded

/-- Whether a text stands for a count that is too large to be finite. -/
def overflows (text : Option String) : Bool := (text.bind Number.decimal?).any (Number.leastInfinite ≤ ·)

/-- The field of a count that is spoiled by a text, if it is. -/
def spoiledCount (field : String) (text : Option String) : List String := if overflows text then [field] else []

def address? [UrlReader] (text : Option String) : Option String := text.filter UrlReader.isHttp

def misleads [UrlReader] (text : Option String) : Bool := text.any fun s => s ≠ "" && !UrlReader.isHttp s

def spoiledAddress [UrlReader] (text : Option String) : List String := if misleads text then ["registry.url"] else []

/-- The level that a text stands for, in any case. -/
def level? (text : Option String) : Option LogLevel := text.bind fun s => LogLevel.ofWord? s.toLower

end Config

def AnalysisSettings.under (env : Environment) (a : AnalysisSettings) : AnalysisSettings :=
  { a with
    maxWorkers := (Config.count? (env.lookup "CODEPROBE_MAX_WORKERS")).or a.maxWorkers
    ruleTimeoutMs := (Config.count? (env.lookup "CODEPROBE_RULE_TIMEOUT_MS")).getD a.ruleTimeoutMs
    maxSteps := (Config.count? (env.lookup "CODEPROBE_MAX_STEPS")).getD a.maxSteps
    maxDurationMs := (Config.count? (env.lookup "CODEPROBE_MAX_DURATION_MS")).or a.maxDurationMs }

def RegistrySettings.under [UrlReader] (env : Environment) (r : RegistrySettings) : RegistrySettings :=
  { r with url := (Config.address? (env.lookup "CODEPROBE_REGISTRY_URL")).or r.url }

namespace Config

/-- The configuration as the environment changes it: each variable that can be used sets its own field. -/
def under [UrlReader] (env : Environment) (c : Config) : Config :=
  { c with
    analysis := c.analysis.under env
    registry := c.registry.under env
    logLevel := (level? (env.lookup "CODEPROBE_LOG_LEVEL")).getD c.logLevel }

def spoiledLimits (env : Environment) : List String :=
  numberVariables.flatMap fun (name, field) => spoiledCount ("analysis." ++ field) (env.lookup name)

def spoiled [UrlReader] (env : Environment) : List String :=
  spoiledLimits env ++ spoiledAddress (env.lookup "CODEPROBE_REGISTRY_URL")

/-! Checks. -/

/-- How a check comes out when a variable is laid over what it passed: the fields that are refused now, and what
becomes of the outcome if there are none. -/
structure Checked.Becomes {α : Type} (before after : Checked α) (paths : List String) (change : α → α) : Prop where
  refused : after.issues.map (·.path) = paths
  value : paths = [] → after.value = change before.value

theorem Checked.Becomes.self {α : Type} {c : Checked α} (h : c.issues = []) : c.Becomes c [] id :=
  ⟨congrArg (List.map _) h, fun _ => rfl⟩

/-- A count is missing, set, or too large. -/
theorem count_cases (text : Option String) :
    (text.bind Number.positiveDecimal? = none ∧ count? text = none ∧ overflows text = false) ∨
      (∃ n, 1 ≤ n ∧ text.bind Number.positiveDecimal? = some (Number.ofNat n) ∧ count? text = some n ∧
        overflows text = false) ∨
      (text.bind Number.positiveDecimal? = some (.infinite false) ∧ overflows text = true) := by
  have hread : text.bind Number.positiveDecimal? = ((text.bind Number.decimal?).filter (0 < ·)).map fun n =>
      if Number.leastInfinite ≤ n then .infinite false else Number.ofNat (Number.rounded n) := by
    cases text with
    | none => rfl
    | some s => rw [Option.bind_some, Option.bind_some, Number.positiveDecimal?_eq]
  rw [hread, count?, overflows]
  cases text.bind Number.decimal? with
  | none => exact .inl ⟨rfl, rfl, rfl⟩
  | some n =>
    rcases Nat.eq_zero_or_pos n with rfl | hpos
    · have hsmall : 0 < Number.leastInfinite := Number.lt_leastInfinite_of_lt (Nat.two_pow_pos 0) (Nat.zero_le _)
      exact .inl (by simp [hsmall.ne'])
    · by_cases hlimit : Number.leastInfinite ≤ n
      · exact .inr (.inr (by simp [hpos, hlimit]))
      · have hround : 1 ≤ Number.rounded n := Number.rounded_pos hpos.ne'
        exact .inr (.inl ⟨_, hround, by simp [hpos, hlimit], by simp [hpos, Nat.lt_of_not_le hlimit], by simp [hlimit]⟩)

/-- A check that passes counts and refuses infinite ones, after a variable with a count was laid over its field. -/
theorem becomes_count {α : Type} {check : Option Value → Checked α} {set : Nat → α} {path : String}
    (hset : ∀ n v, Value.positive? v = some n → check (some v) = ⟨[], set n⟩)
    (hlarge : (check (some (.num (.infinite false)))).issues.map (·.path) = [path])
    {old : Option Value} (h : (check old).issues = []) (text : Option String) :
    (check old).Becomes (check (((text.bind Number.positiveDecimal?).map Value.num).or old))
      (spoiledCount path text) ((count? text).map set).getD := by
  rcases count_cases text with ⟨hread, hcount, hover⟩ | ⟨n, hn, hread, hcount, hover⟩ | ⟨hread, hover⟩
  · rw [spoiledCount, hread, hcount, hover]
    exact .self h
  · rw [spoiledCount, hread, hcount, hover, Option.map_some, Option.some_or, hset n _ (positive?_ofNat hn)]
    exact ⟨rfl, fun _ => rfl⟩
  · rw [spoiledCount, hread, hover]
    exact ⟨hlarge, fun hnone => absurd hnone (List.cons_ne_nil _ _)⟩

theorem becomes_checkPositive {path : String} {fallback : Nat} {old : Option Value}
    (h : (checkPositive path fallback old).issues = []) (text : Option String) :
    (checkPositive path fallback old).Becomes
      (checkPositive path fallback (((text.bind Number.positiveDecimal?).map Value.num).or old))
      (spoiledCount path text) (count? text).getD := by
  have hset : ∀ n v, Value.positive? v = some n → checkPositive path fallback (some v) = ⟨[], n⟩ := by
    intro n v hv
    rw [checkPositive, hv]
  have hbecomes := becomes_count hset rfl h text
  rwa [Option.map_id'] at hbecomes

theorem becomes_checkLimit {path : String} {fallback : Option Nat} {old : Option Value}
    (h : (checkLimit path fallback old).issues = []) (text : Option String) :
    (checkLimit path fallback old).Becomes
      (checkLimit path fallback (((text.bind Number.positiveDecimal?).map Value.num).or old))
      (spoiledCount path text) (count? text).or := by
  have hset : ∀ n v, Value.positive? v = some n → checkLimit path fallback (some v) = ⟨[], some n⟩ := by
    intro n v hv
    cases v with
    | null => cases hv
    | _ => simp only [checkLimit, hv]
  have hor : ((count? text).map some).getD = (count? text).or := by
    funext n
    cases count? text <;> rfl
  exact hor ▸ becomes_count hset rfl h text

/-- An address is missing, set, or misleading. -/
theorem address_cases [UrlReader] (text : Option String) :
    (text.filter (· ≠ "") = none ∧ address? text = none ∧ misleads text = false) ∨
      (∃ s, UrlReader.isHttp s = true ∧ text.filter (· ≠ "") = some s ∧ address? text = some s ∧ misleads text = false) ∨
      (∃ s, UrlReader.isHttp s = false ∧ text.filter (· ≠ "") = some s ∧ misleads text = true) := by
  cases text with
  | none => exact .inl ⟨rfl, rfl, rfl⟩
  | some s =>
    have hempty : UrlReader.isHttp "" = false := UrlReader.isHttp_empty
    by_cases hs : s = ""
    · subst hs
      exact .inl ⟨rfl, by rw [address?, Option.filter_some, hempty]; rfl, rfl⟩
    · have hfilter : (some s).filter (· ≠ "") = some s := by simp [hs]
      cases hhttp : UrlReader.isHttp s with
      | true => exact .inr (.inl ⟨s, hhttp, hfilter, by simp [address?, hhttp], by simp [misleads, hhttp]⟩)
      | false => exact .inr (.inr ⟨s, hhttp, hfilter, by simp [misleads, hs, hhttp]⟩)

theorem becomes_checkUrl [UrlReader] {fallback : Option String} {old : Option Value}
    (h : (checkUrl fallback old).issues = [])
    (text : Option String) : (checkUrl fallback old).Becomes
      (checkUrl fallback (((text.filter (· ≠ "")).map Value.str).or old))
      (spoiledAddress text) (address? text).or := by
  rcases address_cases text with ⟨hread, hurl, hmiss⟩ | ⟨s, hs, hread, hurl, hmiss⟩ | ⟨s, hs, hread, hmiss⟩
  · rw [spoiledAddress, hread, hurl, hmiss]
    exact .self h
  · rw [spoiledAddress, hread, hurl, hmiss]
    simp only [Option.map_some, Option.some_or, checkUrl, Value.str?, Option.filter_some, hs]
    exact ⟨rfl, fun _ => rfl⟩
  · rw [spoiledAddress, hread, hmiss]
    simp only [Option.map_some, Option.some_or, checkUrl, Value.str?, Option.filter_some, hs]
    exact ⟨rfl, fun hnone => absurd hnone (List.cons_ne_nil _ _)⟩

theorem becomes_checkLogLevel {old : Option Value} (h : (checkLogLevel old).issues = []) (text : Option String) :
    (checkLogLevel old).Becomes (checkLogLevel (((level? text).map fun l => Value.str l.word).or old)) []
      (level? text).getD := by
  cases level? text with
  | none => exact .self h
  | some l =>
    rw [Option.map_some, Option.some_or, checkLogLevel, Value.str?, Option.bind_some, LogLevel.ofWord?_word]
    exact ⟨rfl, fun _ => rfl⟩

/-! Objects. -/

/-- The counts that are laid over the limits. -/
def counts (env : Environment) : Members :=
  numberVariables.filterMap fun v =>
    (((env.lookup v.1).bind Number.positiveDecimal?).map Value.num).map fun n => (v.2, n)

/-- The address that is laid over the registry. -/
def addresses (env : Environment) : Members :=
  ((env.lookup "CODEPROBE_REGISTRY_URL").filter (· ≠ "")).toList.map fun url => ("url", Value.str url)

/-- The object with these members, if there are any. -/
def asObject (m : Members) : Option Value := if m.isEmpty then none else some (.obj m)

theorem nodup_fields : (numberVariables.map (·.2)).Nodup := by decide

theorem get?_counts {env : Environment} {v : String × String} (h : v ∈ numberVariables) :
    (counts env).get? v.2 = ((env.lookup v.1).bind Number.positiveDecimal?).map Value.num :=
  Members.get?_filterMap nodup_fields h

theorem keys_counts_sublist (env : Environment) : (counts env).keys.Sublist (numberVariables.map (·.2)) :=
  Members.keys_filterMap_sublist ..

theorem get?_counts_of_not_mem {env : Environment} {field : String} (h : field ∉ numberVariables.map (·.2)) :
    (counts env).get? field = none :=
  Members.get?_eq_none_iff.mpr fun hmem => h ((keys_counts_sublist env).subset hmem)

theorem flat_counts (env : Environment) : (counts env).Flat where
  nodup := nodup_fields.sublist (keys_counts_sublist env)
  no_prototype hmem := absurd ((keys_counts_sublist env).subset hmem) (by decide)
  no_object p hmem := by
    obtain ⟨v, -, hv⟩ := List.mem_filterMap.mp hmem
    simp only [Option.map_map, Option.map_eq_some_iff] at hv
    obtain ⟨n, -, rfl⟩ := hv
    rfl

theorem get?_addresses (env : Environment) : (addresses env).get? "url" =
    ((env.lookup "CODEPROBE_REGISTRY_URL").filter (· ≠ "")).map Value.str := by
  unfold addresses
  cases (env.lookup "CODEPROBE_REGISTRY_URL").filter (· ≠ "") <;> rfl

theorem get?_addresses_of_ne {env : Environment} {field : String} (h : field ≠ "url") :
    (addresses env).get? field = none := by
  unfold addresses
  cases (env.lookup "CODEPROBE_REGISTRY_URL").filter (· ≠ "") with
  | none => rfl
  | some url => exact if_neg h.symm

theorem flat_addresses (env : Environment) : (addresses env).Flat := by
  unfold addresses
  cases (env.lookup "CODEPROBE_REGISTRY_URL").filter (· ≠ "") with
  | none => exact ⟨List.nodup_nil, List.not_mem_nil, fun _ h => absurd h List.not_mem_nil⟩
  | some url => exact ⟨List.nodup_singleton _, by simp [Members.keys, Overlay.prototypeKey], by simp [Value.isObj]⟩

/-- What a check of an object reads after members were laid over one that it passed. -/
theorem exists_laid {α : Type} {check : Option Value → Checked α} (hnone : check none = check (some (.obj [])))
    (hobj : ∀ v, (check (some v)).issues = [] → v.isObj = true) {old : Option Value} (h : (check old).issues = [])
    {laid : Members} (hlaid : laid.Flat) :
    ∃ m m' : Members, check old = check (some (.obj m)) ∧
      check (Value.mergeAt old (asObject laid)) = check (some (.obj m')) ∧
      ∀ field, m'.get? field = (laid.get? field).or (m.get? field) := by
  cases old with
  | none =>
    -- a missing object reads as one without members, and the members laid over it are all there is
    refine ⟨[], laid, hnone, ?_, fun field => (Option.or_none ..).symm⟩
    cases laid with
    | nil => exact hnone
    | cons p rest => rfl
  | some v =>
    cases v with
    | obj m =>
      refine ⟨m, Value.mergeMembers m laid, rfl, ?_, Value.get?_mergeMembers_of_flat hlaid m⟩
      cases laid with
      | nil => rfl
      | cons p rest => rfl
    | _ => cases hobj _ h

theorem spoiledLimits_eq (env : Environment) : spoiledLimits env =
    spoiledCount "analysis.maxWorkers" (env.lookup "CODEPROBE_MAX_WORKERS") ++
      spoiledCount "analysis.ruleTimeoutMs" (env.lookup "CODEPROBE_RULE_TIMEOUT_MS") ++
      spoiledCount "analysis.maxSteps" (env.lookup "CODEPROBE_MAX_STEPS") ++
      spoiledCount "analysis.maxDurationMs" (env.lookup "CODEPROBE_MAX_DURATION_MS") := by
  simp only [spoiledLimits, numberVariables, List.flatMap_cons, List.flatMap_nil, List.append_nil, List.append_assoc,
    String.reduceAppend]

theorem becomes_checkAnalysis {old : Option Value} (h : (checkAnalysis old).issues = []) (env : Environment) :
    (checkAnalysis old).Becomes (checkAnalysis (Value.mergeAt old (asObject (counts env))))
      (spoiledLimits env) (AnalysisSettings.under env) := by
  obtain ⟨m, m', hold, hnew, hget⟩ := exists_laid rfl (fun _ => isObj_of_checkAnalysis) h (flat_counts env)
  have hcount : ∀ v ∈ numberVariables, m'.get? v.2 =
      (((env.lookup v.1).bind Number.positiveDecimal?).map Value.num).or (m.get? v.2) := by
    intro v hv
    rw [hget, get?_counts hv]
  have hother : ∀ field ∉ numberVariables.map (·.2), m'.get? field = m.get? field := by
    intro field hfield
    rw [hget, get?_counts_of_not_mem hfield, Option.none_or]
  rw [hold] at h ⊢
  rw [hnew]
  simp only [checkAnalysis, List.append_eq_nil_iff] at h
  obtain ⟨⟨⟨⟨⟨hpolicy, hworkers⟩, htimeout⟩, hsteps⟩, hduration⟩, hsize⟩ := h
  have workers := becomes_checkLimit hworkers (env.lookup "CODEPROBE_MAX_WORKERS")
  have timeout := becomes_checkPositive htimeout (env.lookup "CODEPROBE_RULE_TIMEOUT_MS")
  have steps := becomes_checkPositive hsteps (env.lookup "CODEPROBE_MAX_STEPS")
  have duration := becomes_checkLimit hduration (env.lookup "CODEPROBE_MAX_DURATION_MS")
  simp only [checkAnalysis]
  -- four of the six fields have a variable
  rw [hcount ("CODEPROBE_MAX_WORKERS", "maxWorkers") (by decide),
    hcount ("CODEPROBE_RULE_TIMEOUT_MS", "ruleTimeoutMs") (by decide),
    hcount ("CODEPROBE_MAX_STEPS", "maxSteps") (by decide),
    hcount ("CODEPROBE_MAX_DURATION_MS", "maxDurationMs") (by decide),
    hother "syntaxErrors" (by decide), hother "maxFileSizeBytes" (by decide)]
  rw [spoiledLimits_eq]
  constructor
  · simp only [List.map_append, hpolicy, workers.refused, timeout.refused, steps.refused, duration.refused, hsize,
      List.nil_append, List.append_nil]
  · intro hnone
    simp only [List.append_eq_nil_iff] at hnone
    obtain ⟨⟨⟨hworkers, htimeout⟩, hsteps⟩, hduration⟩ := hnone
    rw [workers.value hworkers, timeout.value htimeout, steps.value hsteps, duration.value hduration]
    rfl

theorem becomes_checkRegistry [UrlReader] {old : Option Value} (h : (checkRegistry old).issues = []) (env : Environment) :
    (checkRegistry old).Becomes (checkRegistry (Value.mergeAt old (asObject (addresses env))))
      (spoiledAddress (env.lookup "CODEPROBE_REGISTRY_URL")) (RegistrySettings.under env) := by
  obtain ⟨m, m', hold, hnew, hget⟩ := exists_laid rfl (fun _ => isObj_of_checkRegistry) h (flat_addresses env)
  rw [hold] at h ⊢
  rw [hnew]
  simp only [checkRegistry, List.append_eq_nil_iff] at h
  have url := becomes_checkUrl h.1 (env.lookup "CODEPROBE_REGISTRY_URL")
  simp only [checkRegistry]
  rw [hget, hget, get?_addresses, get?_addresses_of_ne (by decide), Option.none_or]
  constructor
  · rw [List.map_append, url.refused, h.2, List.map_nil, List.append_nil]
  · intro hnone
    rw [url.value hnone]
    rfl

/-- What the environment lays over a configuration. -/
def layers (env : Environment) : List (String × Option Value) :=
  [("analysis", asObject (counts env)), ("registry", asObject (addresses env)),
    ("logLevel", (level? (env.lookup "CODEPROBE_LOG_LEVEL")).map fun l => .str l.word)]

theorem overrides_eq (env : Environment) : overrides env = (layers env).filterMap fun p => p.2.map (p.1, ·) := by
  have hcounts : (numberVariables.filterMap fun (name, field) =>
      ((env.lookup name).bind Number.positiveDecimal?).map fun n => (field, Value.num n)) = counts env := by
    simp only [counts, Option.map_map]
    rfl
  unfold overrides
  rw [hcounts]
  unfold layers asObject addresses level?
  cases (env.lookup "CODEPROBE_REGISTRY_URL").filter (· ≠ "") <;>
    cases (env.lookup "CODEPROBE_LOG_LEVEL").bind fun s => LogLevel.ofWord? s.toLower <;>
    cases counts env <;> rfl

theorem nodup_layers (env : Environment) : ((layers env).map (·.1)).Nodup := by
  change ["analysis", "registry", "logLevel"].Nodup
  decide

theorem keys_overrides_sublist (env : Environment) :
    (overrides env).keys.Sublist ["analysis", "registry", "logLevel"] := by
  rw [overrides_eq]
  exact Members.keys_filterMap_sublist ..

theorem nodup_keys_overrides (env : Environment) : (overrides env).keys.Nodup :=
  (nodup_layers env).sublist (keys_overrides_sublist env)

theorem no_prototype_overrides (env : Environment) : Overlay.prototypeKey ∉ (overrides env).keys := fun hmem =>
  absurd ((keys_overrides_sublist env).subset hmem) (by decide)

theorem get?_mergeMembers_overrides (env : Environment) (m : Members) (key : String) :
    (Value.mergeMembers m (overrides env)).get? key = Value.mergeAt (m.get? key) ((overrides env).get? key) :=
  Value.get?_mergeMembers (nodup_keys_overrides env) (fun hmem => absurd hmem (no_prototype_overrides env)) key

theorem get?_merged {env : Environment} {m : Members} {key : String} {value : Option Value}
    (hmem : (key, value) ∈ layers env) :
    (Value.mergeMembers m (overrides env)).get? key = Value.mergeAt (m.get? key) value := by
  have hlayer : (overrides env).get? key = value := by
    rw [overrides_eq]
    exact Members.get?_filterMap (nodup_layers env) hmem
  rw [get?_mergeMembers_overrides, hlayer]

theorem get?_merged_of_not_mem {env : Environment} {m : Members} {key : String}
    (h : key ∉ ["analysis", "registry", "logLevel"]) :
    (Value.mergeMembers m (overrides env)).get? key = m.get? key := by
  have hlayer : (overrides env).get? key = none :=
    Members.get?_eq_none_iff.mpr fun hmem => h ((keys_overrides_sublist env).subset hmem)
  rw [get?_mergeMembers_overrides, hlayer]
  rfl

theorem get?_merged_logLevel (env : Environment) (m : Members) :
    (Value.mergeMembers m (overrides env)).get? "logLevel" =
      ((level? (env.lookup "CODEPROBE_LOG_LEVEL")).map fun l => Value.str l.word).or (m.get? "logLevel") := by
  rw [get?_merged (.tail _ (.tail _ (.head _)))]
  cases level? (env.lookup "CODEPROBE_LOG_LEVEL") with
  | none => rfl
  | some l => exact congrArg some (Value.mergeValue_of_not_isObj _ rfl)

/-- The keys that are no fields stay as they are: the environment sets fields only. -/
theorem unknownKeys_merged (env : Environment) (m : Members) :
    unknownKeys (Value.mergeMembers m (overrides env)) = unknownKeys m := by
  have hfields : ∀ key ∈ ["analysis", "registry", "logLevel"], (!fields.contains key) = false := by decide
  rw [unknownKeys, Value.filter_keys_mergeMembers fun key hkey =>
    hfields key ((keys_overrides_sublist env).subset hkey), ← unknownKeys]

/-- Laid over members that pass, the environment changes the fields of its variables, or is refused with those it
spoils. -/
theorem becomes_checkMembers [UrlReader] {m : Members} (h : (checkMembers m).issues = []) (env : Environment) :
    (checkMembers m).Becomes (checkMembers (Value.mergeMembers m (overrides env))) (spoiled env)
      (Config.under env) := by
  simp only [checkMembers, List.append_eq_nil_iff] at h
  obtain ⟨⟨⟨⟨⟨⟨⟨⟨hkeys, hbaseline⟩, hlevel⟩, hrulesets⟩, hincluded⟩, hignored⟩, hdisabled⟩, hanalysis⟩, hregistry⟩ := h
  have level := becomes_checkLogLevel hlevel (env.lookup "CODEPROBE_LOG_LEVEL")
  have analysis := becomes_checkAnalysis hanalysis env
  have registry := becomes_checkRegistry hregistry env
  have hlimits : ("analysis", asObject (counts env)) ∈ layers env := .head _
  have haddress : ("registry", asObject (addresses env)) ∈ layers env := .tail _ (.head _)
  have hother := fun key => @get?_merged_of_not_mem env m key
  simp only [checkMembers]
  rw [unknownKeys_merged, hkeys, get?_merged_logLevel, get?_merged hlimits, get?_merged haddress,
    hother "baseline" (by decide), hother "rulesets" (by decide), hother "include" (by decide),
    hother "ignore" (by decide), hother "disabledRules" (by decide)]
  constructor
  · simp only [List.map_append, hbaseline, level.refused, hrulesets, hincluded, hignored, hdisabled, analysis.refused,
      registry.refused, List.nil_append, List.append_nil, spoiled]
  · intro hnone
    obtain ⟨hnolimit, hnoaddress⟩ := List.append_eq_nil_iff.mp hnone
    rw [level.value rfl, analysis.value hnolimit, registry.value hnoaddress]
    rfl

/-! Texts. -/

/-- Everything that the environment sets has a text. -/
theorem textless_merged {m : Members} (h : textless (some (.obj m)) = false) (env : Environment) :
    textless (some (.obj (Value.mergeMembers m (overrides env)))) = false := by
  rw [textless_obj_iff] at h ⊢
  obtain ⟨hlevel, hpolicy⟩ := h
  have hnone : (counts env).get? "syntaxErrors" = none := get?_counts_of_not_mem (by decide)
  constructor
  · intro v hv
    rw [get?_merged_logLevel] at hv
    rcases Option.or_eq_some_iff.mp hv with hset | ⟨-, hkept⟩
    · obtain ⟨l, -, rfl⟩ := Option.map_eq_some_iff.mp hset
      rfl
    · exact hlevel v hkept
  · intro inner hinner v hv
    rw [get?_merged (.head _), asObject] at hinner
    split at hinner
    · exact hpolicy inner hinner v hv
    · -- the counts are laid over an object, or they are all there is
      rcases hold : m.get? "analysis" with _ | _ | _ | _ | _ | _ | outer
      case some.obj =>
        rw [hold] at hinner
        cases hinner
        rw [Value.get?_mergeMembers_of_flat (flat_counts env), hnone, Option.none_or] at hv
        exact hpolicy outer hold v hv
      all_goals
        rw [hold] at hinner
        cases hinner
        rw [hnone] at hv
        cases hv

/-! Loading. -/

section Loading

variable {disk : Disk} {workspace : String}

theorem exists_readFile_of_load [UrlReader] {env : Environment} {loaded : Loaded}
    (h : load disk workspace env = .ok loaded) :
    ∃ found, readFile disk (fileOf workspace) = .ok found := by
  unfold load at h
  dsimp only at h
  cases hread : readFile disk (fileOf workspace) with
  | error e =>
    rw [hread] at h
    cases h
  | ok found => exact ⟨found, rfl⟩

/-- What the file holds is checked with the environment laid over it. -/
theorem load_of_readFile [UrlReader] {found : Option Members} (h : readFile disk (fileOf workspace) = .ok found)
    (env : Environment) : load disk workspace env =
      if textless (some (.obj (Value.mergeMembers (found.getD []) (overrides env)))) then .error .textless
      else if (checkMembers (Value.mergeMembers (found.getD []) (overrides env))).issues = [] then
        .ok { config := (checkMembers (Value.mergeMembers (found.getD []) (overrides env))).value
              file := found.map fun _ => fileOf workspace, overridden := !(overrides env).isEmpty }
      else .error (.invalid (checkMembers (Value.mergeMembers (found.getD []) (overrides env))).issues) := by
  -- laying nothing over the members changes none of them
  have hmembers : (if (overrides env).isEmpty then found.getD [] else
      Value.mergeMembers (found.getD []) (overrides env)) = Value.mergeMembers (found.getD []) (overrides env) := by
    cases overrides env <;> rfl
  unfold load
  dsimp only
  rw [h]
  simp only [bind, Except.bind]
  rw [hmembers]
  simp only [validate, check, List.isEmpty_iff]
  cases textless (some (.obj (Value.mergeMembers (found.getD []) (overrides env)))) with
  | true => rfl
  | false =>
    simp only [Bool.false_eq_true, if_false]
    by_cases hissues : (checkMembers (Value.mergeMembers (found.getD []) (overrides env))).issues = []
    · rw [if_pos hissues, if_pos hissues]
    · rw [if_neg hissues, if_neg hissues]
      rfl

theorem exists_of_load_nil [UrlReader] {base : Loaded} (h : load disk workspace [] = .ok base) :
    ∃ found, readFile disk (fileOf workspace) = .ok found ∧ textless (some (.obj (found.getD []))) = false ∧
      (checkMembers (found.getD [])).issues = [] ∧
      base = { config := (checkMembers (found.getD [])).value, file := found.map fun _ => fileOf workspace,
               overridden := false } := by
  obtain ⟨found, hread⟩ := exists_readFile_of_load h
  have hlaid : Value.mergeMembers (found.getD []) (overrides []) = found.getD [] := rfl
  rw [load_of_readFile hread, hlaid] at h
  split_ifs at h with htext hissues
  exact ⟨found, hread, Bool.eq_false_iff.mpr htext, hissues, (Except.ok.inj h).symm⟩

theorem load_of_spoiled_eq_nil [UrlReader] {base : Loaded} (h : load disk workspace [] = .ok base) {env : Environment}
    (hnone : spoiled env = []) : load disk workspace env =
      .ok { base with config := base.config.under env, overridden := !(overrides env).isEmpty } := by
  obtain ⟨found, hread, htext, hissues, rfl⟩ := exists_of_load_nil h
  obtain ⟨hrefused, hvalue⟩ := becomes_checkMembers hissues env
  rw [load_of_readFile hread env, textless_merged htext env, if_neg Bool.false_ne_true,
    if_pos (List.map_eq_nil_iff.mp (hrefused.trans hnone)), hvalue hnone]

theorem load_of_spoiled_ne_nil [UrlReader] {base : Loaded} (h : load disk workspace [] = .ok base) {env : Environment}
    (hsome : spoiled env ≠ []) :
    ∃ issues, load disk workspace env = .error (.invalid issues) ∧ issues.map (·.path) = spoiled env := by
  obtain ⟨found, hread, htext, hissues, -⟩ := exists_of_load_nil h
  have hrefused := (becomes_checkMembers hissues env).refused
  refine ⟨_, ?_, hrefused⟩
  rw [load_of_readFile hread env, textless_merged htext env, if_neg Bool.false_ne_true, if_neg]
  intro hnone
  exact hsome (hrefused.symm.trans (List.map_eq_nil_iff.mpr hnone))

theorem exists_of_config_eq [UrlReader] {env : Environment} {config : Config}
    (h : (load disk workspace env).toOption.map (·.config) = some config) :
    ∃ loaded, load disk workspace env = .ok loaded ∧ loaded.config = config := by
  cases hload : load disk workspace env with
  | error e =>
    rw [hload] at h
    cases h
  | ok loaded =>
    rw [hload] at h
    exact ⟨loaded, rfl, Option.some.inj h⟩

/-- Over a configuration that loads by itself, the environment loads unless it spoils a field; then each variable that
can be used has set its own field, and nothing else has changed. Else the fields it spoils are reported. -/
theorem loads_under_iff [UrlReader] {base : Loaded} (h : load disk workspace [] = .ok base) (env : Environment) :
    ((∃ loaded, load disk workspace env = .ok loaded) ↔ spoiled env = []) ∧
      (∀ loaded, load disk workspace env = .ok loaded →
        loaded = { base with config := base.config.under env, overridden := !(overrides env).isEmpty }) ∧
      ∀ e, load disk workspace env = .error e →
        ∃ issues, e = .invalid issues ∧ issues.map (·.path) = spoiled env := by
  by_cases hspoiled : spoiled env = []
  · rw [load_of_spoiled_eq_nil h hspoiled]
    refine ⟨iff_of_true ⟨_, rfl⟩ hspoiled, ?_, fun e he => nomatch he⟩
    exact fun loaded hloaded => (Except.ok.inj hloaded).symm
  · obtain ⟨issues, hload, hpaths⟩ := load_of_spoiled_ne_nil h hspoiled
    rw [hload]
    refine ⟨iff_of_false ?_ hspoiled, ?_, fun e he => ⟨issues, (Except.error.inj he).symm, hpaths⟩⟩
    · rintro ⟨loaded, hloaded⟩
      cases hloaded
    · intro loaded hloaded
      cases hloaded

end Loading

def configured : Disk :=
  { root := "/"
    tree := .directory [("w", .directory [(".codeprobe", .directory [("config.json", .file { content := .text (
      "\x7b\"analysis\": \x7b\"maxSteps\": 7, \"maxWorkers\": 2\x7d, " ++
        "\"registry\": \x7b\"timeoutMs\": 50\x7d, \"logLevel\": \"warn\"\x7d") })])])] }

/-- Two variables that can be used, and two that cannot. -/
def mixed : Environment :=
  [("CODEPROBE_MAX_WORKERS", "0"), ("CODEPROBE_MAX_STEPS", " 90 "),
    ("CODEPROBE_REGISTRY_URL", "https://rules.example.com"), ("CODEPROBE_LOG_LEVEL", "loud")]

theorem loads_under_mixed : ∃ loaded, load configured "/w" mixed = .ok loaded ∧ loaded.config =
    { analysis := { maxWorkers := some 2, maxSteps := 90 }
      registry := { url := some "https://rules.example.com", timeoutMs := 50 }, logLevel := .warn } := by
  have hbefore : (load configured "/w" []).toOption.map (·.config) = some
      { analysis := { maxWorkers := some 2, maxSteps := 7 }, registry := { timeoutMs := 50 }, logLevel := .warn } := by
    decide +kernel
  obtain ⟨base, hbase, hconfig⟩ := exists_of_config_eq hbefore
  have hspoiled : spoiled mixed = [] := by decide +kernel
  obtain ⟨hiff, hvalue, -⟩ := loads_under_iff hbase mixed
  obtain ⟨loaded, hloaded⟩ := hiff.mpr hspoiled
  refine ⟨loaded, hloaded, ?_⟩
  rw [hvalue loaded hloaded]
  dsimp only
  rw [hconfig]
  decide +kernel

theorem overflows_ofList {cs : List Char} (hne : cs ≠ []) (h : ∀ c ∈ cs, c.isDigit = true)
    (hlarge : Number.leastInfinite ≤ cs.foldl (fun n c => n * 10 + (c.toNat - 48)) 0) :
    overflows (some (String.ofList cs)) = true := by
  rw [overflows, Option.bind_some, Number.decimal?_ofList hne h, Option.any_some]
  exact decide_eq_true hlarge

def manyDigits : String := String.ofList (List.replicate 400 '9')

theorem overflows_manyDigits : overflows (some manyDigits) = true := by
  have hdigits : ∀ c ∈ List.replicate 400 '9', c.isDigit = true := by
    intro c hc
    rw [List.eq_of_mem_replicate hc]
    rfl
  exact overflows_ofList (List.cons_ne_nil _ _) hdigits (by decide +kernel)

theorem lookup_singleton_of_ne {name other text : String} (h : other ≠ name) :
    List.lookup other [(name, text)] = none := by
  rw [List.lookup_cons, beq_false_of_ne h]
  rfl

theorem spoiled_maxSteps {text : String} (h : overflows (some text) = true) :
    spoiled [("CODEPROBE_MAX_STEPS", text)] = ["analysis.maxSteps"] := by
  have hcount : spoiledCount "analysis.maxSteps" (some text) = ["analysis.maxSteps"] := if_pos h
  have hnone : ∀ field, spoiledCount field none = [] := fun _ => rfl
  rw [spoiled, spoiledLimits_eq, List.lookup_cons_self, hcount, lookup_singleton_of_ne (by decide),
    lookup_singleton_of_ne (by decide), lookup_singleton_of_ne (by decide), lookup_singleton_of_ne (by decide), hnone,
    hnone, hnone]
  rfl

/-- A workspace without a configuration file loads by itself, but neither with a text for the registry that is no
address nor with a count that is not finite. -/
theorem unusable_variables_refused : ∃ base, load { root := "/" } "/" [] = .ok base ∧
    (∃ issues, load { root := "/" } "/" [("CODEPROBE_REGISTRY_URL", "ftp://x")] = .error (.invalid issues) ∧
      issues.map (·.path) = ["registry.url"]) ∧
    ∃ issues, load { root := "/" } "/" [("CODEPROBE_MAX_STEPS", manyDigits)] = .error (.invalid issues) ∧
      issues.map (·.path) = ["analysis.maxSteps"] := by
  have hconfig : (load { root := "/" } "/" []).toOption.map (·.config) = some {} := by decide +kernel
  obtain ⟨base, hbase, -⟩ := exists_of_config_eq hconfig
  have haddress : spoiled [("CODEPROBE_REGISTRY_URL", "ftp://x")] = ["registry.url"] := by decide
  have hcount := spoiled_maxSteps overflows_manyDigits
  refine ⟨base, hbase, ?_, ?_⟩
  · rw [← haddress]
    exact load_of_spoiled_ne_nil hbase (by rw [haddress]; exact List.cons_ne_nil _ _)
  · rw [← hcount]
    exact load_of_spoiled_ne_nil hbase (by rw [hcount]; exact List.cons_ne_nil _ _)

end Config

end RuleScan
