import RuleScan.Proofs.Number.Decimals
import RuleScan.Proofs.Rule.Validity

/-! What the checks of a configuration's fields have in common: a missing field has its usual value, a value that fits
stands for something that is written like it, and any other value is reported at the field and nowhere else. -/
namespace RuleScan

namespace Config

/-! The values that fit. -/

def IsCount (v : Value) : Prop := ∃ n, 1 ≤ n ∧ v = Value.ofNat n

def IsLimit (v : Value) : Prop := v = .null ∨ IsCount v

def IsPolicy (v : Value) : Prop := ∃ policy : SyntaxPolicy, v = .str policy.word

def IsLevel (v : Value) : Prop := ∃ level : LogLevel, v = .str level.word

def IsAddress [UrlReader] (v : Value) : Prop := v = .null ∨ ∃ url, UrlReader.isHttp url = true ∧ v = .str url

def IsFile (v : Value) : Prop := v = .null ∨ ∃ path, path ≠ "" ∧ v = .str path

def IsEntry (v : Value) : Prop := ∃ s, s ≠ "" ∧ v = .str s

structure FieldCheck {α : Type} (check : Option Value → Checked α) (path : String) (Fits : Value → Prop)
    (write : α → Value) (usual : α) : Prop where
  missing : check none = ⟨[], usual⟩
  accepts : ∀ v, Fits v → ∃ a, check (some v) = ⟨[], a⟩ ∧ write a = v
  refuses : ∀ v, ¬Fits v → ∃ issue, (check (some v)).issues = [issue] ∧ issue.path = path
  usual : check (some (write usual)) = ⟨[], usual⟩

namespace FieldCheck

variable {α : Type} {check : Option Value → Checked α} {path : String} {Fits : Value → Prop} {write : α → Value}
  {usual : α}

theorem issues_eq_nil_iff (h : FieldCheck check path Fits write usual) {v : Value} :
    (check (some v)).issues = [] ↔ Fits v := by
  constructor
  · intro hnone
    by_contra hbad
    obtain ⟨issue, hissue, -⟩ := h.refuses v hbad
    exact List.cons_ne_nil _ _ (hissue.symm.trans hnone)
  · intro hfits
    obtain ⟨a, ha, -⟩ := h.accepts v hfits
    rw [ha]

theorem path_eq (h : FieldCheck check path Fits write usual) {v : Option Value} {issue : ConfigIssue}
    (hmem : issue ∈ (check v).issues) : issue.path = path := by
  cases v with
  | none =>
    rw [h.missing] at hmem
    cases hmem
  | some v =>
    have hbad : ¬Fits v := fun hfits => List.ne_nil_of_mem hmem (h.issues_eq_nil_iff.mpr hfits)
    obtain ⟨issue', hissue, hpath⟩ := h.refuses v hbad
    rw [hissue] at hmem
    rw [List.mem_singleton.mp hmem, hpath]

/-- What passes is written like the field, or like the usual value if the field is missing. -/
theorem write_value (h : FieldCheck check path Fits write usual) {v : Option Value} (hnone : (check v).issues = []) :
    write (check v).value = v.getD (write usual) := by
  cases v with
  | none => rw [h.missing, Option.getD_none]
  | some v =>
    obtain ⟨a, ha, hwrite⟩ := h.accepts v (h.issues_eq_nil_iff.mp hnone)
    rw [ha, hwrite, Option.getD_some]

end FieldCheck

/-! The checks. -/

theorem positive?_ofNat {n : Nat} (h : 1 ≤ n) : (Value.num (Number.ofNat n)).positive? = some n := by
  simp [Value.positive?, Number.toNat?_ofNat, h]

theorem isCount_iff {v : Value} : IsCount v ↔ ∃ n, v.positive? = some n ∧ v = Value.ofNat n := by
  constructor
  · rintro ⟨n, hn, rfl⟩
    exact ⟨n, positive?_ofNat hn, rfl⟩
  · rintro ⟨n, hread, hv⟩
    refine ⟨n, ?_, hv⟩
    subst hv
    simpa [Value.ofNat, Value.positive?, Number.toNat?_ofNat] using hread

theorem positive?_eq_none {v : Value} (h : ¬IsCount v) : v.positive? = none := by
  cases hread : v.positive? with
  | none => rfl
  | some n =>
    refine absurd (isCount_iff.mpr ⟨n, hread, ?_⟩) h
    cases v with
    | num x =>
      obtain ⟨hx, -⟩ := Option.filter_eq_some_iff.mp hread
      exact congrArg Value.num (Number.eq_ofNat_of_toNat? hx)
    | _ => cases hread

theorem fieldCheck_positive (path : String) (fallback : Nat) (h : 1 ≤ fallback) :
    FieldCheck (checkPositive path fallback) path IsCount Value.ofNat fallback where
  missing := rfl
  accepts v hfits := by
    obtain ⟨n, hread, rfl⟩ := isCount_iff.mp hfits
    exact ⟨n, by rw [checkPositive, hread], rfl⟩
  refuses v hbad := by
    rw [checkPositive, positive?_eq_none hbad]
    exact ⟨_, rfl, rfl⟩
  usual := by rw [checkPositive, Value.ofNat, positive?_ofNat h]

theorem fieldCheck_limit (path : String) : FieldCheck (checkLimit path none) path IsLimit Value.ofNat? none where
  missing := rfl
  accepts v hfits := by
    rcases hfits with rfl | hcount
    · exact ⟨none, rfl, rfl⟩
    · obtain ⟨n, hread, rfl⟩ := isCount_iff.mp hcount
      exact ⟨some n, by simp only [checkLimit, Value.ofNat] at hread ⊢; rw [hread], rfl⟩
  refuses v hbad := by
    obtain ⟨hnull, hcount⟩ := not_or.mp hbad
    have hread := positive?_eq_none hcount
    cases v with
    | null => exact absurd rfl hnull
    | _ =>
      simp only [checkLimit, hread]
      exact ⟨_, rfl, rfl⟩
  usual := rfl

section Words

variable {α : Type} {word : α → String} {ofWord? : String → Option α}

theorem reads_iff (h : ∀ s a, ofWord? s = some a ↔ s = word a) {v : Value} {a : α} :
    v.str?.bind ofWord? = some a ↔ v = .str (word a) := by
  simp only [Option.bind_eq_some_iff, Validation.str?_eq_some_iff, Value.IsText, h]
  constructor
  · rintro ⟨_, rfl, rfl⟩
    rfl
  · exact fun hv => ⟨_, hv, rfl⟩

theorem reads_eq_none (h : ∀ s a, ofWord? s = some a ↔ s = word a) {v : Value} (hbad : ¬∃ a, v = .str (word a)) :
    v.str?.bind ofWord? = none := by
  rw [Option.eq_none_iff_forall_ne_some]
  exact fun a ha => hbad ⟨a, (reads_iff h).mp ha⟩

end Words

theorem policy_ofWord?_iff (s : String) (policy : SyntaxPolicy) :
    SyntaxPolicy.ofWord? s = some policy ↔ s = policy.word := by
  have hmem : policy ∈ SyntaxPolicy.all := by cases policy <;> decide
  rw [SyntaxPolicy.ofWord?, Validation.find?_word_eq_some_iff (by decide)]
  simp [hmem]

theorem level_ofWord?_iff (s : String) (level : LogLevel) : LogLevel.ofWord? s = some level ↔ s = level.word := by
  have hmem : level ∈ LogLevel.all := by cases level <;> decide
  rw [LogLevel.ofWord?, Validation.find?_word_eq_some_iff (by decide)]
  simp [hmem]

theorem fieldCheck_policy : FieldCheck (checkPolicy .tolerate) "analysis.syntaxErrors" IsPolicy
    (fun policy => .str policy.word) .tolerate where
  missing := rfl
  accepts v hfits := by
    obtain ⟨policy, rfl⟩ := hfits
    exact ⟨policy, by rw [checkPolicy, (reads_iff policy_ofWord?_iff).mpr rfl], rfl⟩
  refuses v hbad := by
    rw [checkPolicy, reads_eq_none policy_ofWord?_iff hbad]
    exact ⟨_, rfl, rfl⟩
  usual := by rw [checkPolicy, (reads_iff policy_ofWord?_iff).mpr rfl]

theorem fieldCheck_level : FieldCheck checkLogLevel "logLevel" IsLevel (fun level => .str level.word) .info where
  missing := rfl
  accepts v hfits := by
    obtain ⟨level, rfl⟩ := hfits
    exact ⟨level, by rw [checkLogLevel, (reads_iff level_ofWord?_iff).mpr rfl], rfl⟩
  refuses v hbad := by
    rw [checkLogLevel, reads_eq_none level_ofWord?_iff hbad]
    exact ⟨_, rfl, rfl⟩
  usual := by rw [checkLogLevel, (reads_iff level_ofWord?_iff).mpr rfl]

theorem fieldCheck_address [UrlReader] : FieldCheck (checkUrl none) "registry.url" IsAddress Value.ofText? none where
  missing := rfl
  accepts v hfits := by
    rcases hfits with rfl | ⟨url, hurl, rfl⟩
    · exact ⟨none, rfl, rfl⟩
    · have hread : (Value.str url).str?.filter UrlReader.isHttp = some url := by simp [Value.str?, hurl]
      exact ⟨some url, by simp only [checkUrl, hread], rfl⟩
  refuses v hbad := by
    obtain ⟨hnull, hurl⟩ := not_or.mp hbad
    cases v with
    | null => exact absurd rfl hnull
    | str url =>
      have hnot : UrlReader.isHttp url = false := by
        by_contra htrue
        exact hurl ⟨url, by simpa using htrue, rfl⟩
      simp only [checkUrl, Value.str?, Option.filter_some, hnot]
      exact ⟨_, rfl, rfl⟩
    | _ => exact ⟨_, rfl, rfl⟩
  usual := rfl

theorem fieldCheck_file : FieldCheck checkBaseline "baseline" IsFile Value.ofText? none where
  missing := rfl
  accepts v hfits := by
    rcases hfits with rfl | ⟨path, hpath, rfl⟩
    · exact ⟨none, rfl, rfl⟩
    · have hread : (Value.str path).str?.filter (· ≠ "") = some path := by simp [Value.str?, hpath]
      exact ⟨some path, by simp only [checkBaseline, hread], rfl⟩
  refuses v hbad := by
    obtain ⟨hnull, hpath⟩ := not_or.mp hbad
    cases v with
    | null => exact absurd rfl hnull
    | str path =>
      obtain rfl : path = "" := by
        by_contra hne
        exact hpath ⟨path, hne, rfl⟩
      exact ⟨_, rfl, rfl⟩
    | _ => exact ⟨_, rfl, rfl⟩
  usual := rfl

theorem unknownKeys_eq_nil_iff {m : Members} : unknownKeys m = [] ↔ ∀ key ∈ m.keys, key ∈ fields := by
  simp [unknownKeys, List.filter_eq_nil_iff]

theorem isObj_of_checkAnalysis {v : Value} (h : (checkAnalysis (some v)).issues = []) : v.isObj = true := by
  cases v <;> first | rfl | cases h

theorem isObj_of_checkRegistry [UrlReader] {v : Value} (h : (checkRegistry (some v)).issues = []) : v.isObj = true := by
  cases v <;> first | rfl | cases h

theorem textless_obj_iff (m : Members) : textless (some (.obj m)) = false ↔
    (∀ v, m.get? "logLevel" = some v → v.hasText = true) ∧
      ∀ inner : Members, m.get? "analysis" = some (.obj inner) →
        ∀ v, inner.get? "syntaxErrors" = some v → v.hasText = true := by
  have hlevel : (some (Value.obj m)).bind (·.get? "logLevel") = m.get? "logLevel" := rfl
  have hanalysis : (some (Value.obj m)).bind (·.get? "analysis") = m.get? "analysis" := rfl
  simp only [textless, hlevel, hanalysis, Bool.or_eq_false_iff]
  refine and_congr ?_ ?_
  · cases m.get? "logLevel" <;> simp
  · rcases m.get? "analysis" with _ | _ | _ | _ | _ | _ | inner
    case some.obj =>
      have hget : (Value.obj inner).get? "syntaxErrors" = Members.get? inner "syntaxErrors" := rfl
      simp only [Option.bind_some, hget, Option.some.injEq, Value.obj.injEq, forall_eq']
      cases Members.get? inner "syntaxErrors" <;> simp
    all_goals simp [Value.get?]

end Config

end RuleScan
