import RuleScan.Proofs.Config.Checks

/-! What is reported of a configuration: the places at which something does not fit, one by one, each of them for itself
whatever stands at the others. -/
namespace RuleScan

namespace Config

inductive Place where
  | whole
  | field (name : String)
  | entry (list : String) (index : Nat)
  | inner (part name : String)

def Place.path : Place → String
  | .whole => ""
  | .field name => name
  | .entry list index => list ++ "[" ++ toString index ++ "]"
  | .inner part name => part ++ "." ++ name

/-- The path of a field tells it from the entries of lists and the fields of sections. -/
theorem Place.eq_field_of_path {p : Place} {name : String} (hbracket : '[' ∉ name.toList) (hdot : '.' ∉ name.toList)
    (hname : name ≠ "") (h : p.path = name) : p = .field name := by
  cases p with
  | whole => exact absurd h.symm hname
  | field _ => exact congrArg _ h
  | entry list index => simp [← h, Place.path] at hbracket
  | inner part field => simp [← h, Place.path] at hdot

/-- The fields that hold one value, with what fits. -/
def simpleFields : List (String × (Value → Prop)) := [("baseline", IsFile), ("logLevel", IsLevel)]

def listFields : List String := ["rulesets", "include", "ignore", "disabledRules"]

def analysisFields : List (String × (Value → Prop)) :=
  [("syntaxErrors", IsPolicy), ("maxWorkers", IsLimit), ("ruleTimeoutMs", IsCount), ("maxSteps", IsCount),
    ("maxDurationMs", IsLimit), ("maxFileSizeBytes", IsCount)]

def registryFields [UrlReader] : List (String × (Value → Prop)) := [("url", IsAddress), ("timeoutMs", IsCount)]

/-- The fields that hold an object, with the fields of it. -/
def sections [UrlReader] : List (String × List (String × (Value → Prop))) :=
  [("analysis", analysisFields), ("registry", registryFields)]

/-- What does not fit in a list of texts: a value that is no list, or an entry that is no text or empty. -/
def IllList (name : String) (v : Option Value) (p : Place) : Prop :=
  (p = .field name ∧ ∃ w, v = some w ∧ w.arr? = none) ∨
    ∃ items index w, v = some (.arr items) ∧ items[index]? = some w ∧ ¬IsEntry w ∧ p = .entry name index

/-- What does not fit among some fields of an object in a section. -/
def IllAmong (part : String) (fields : List (String × (Value → Prop))) (inner : Members) (p : Place) : Prop :=
  ∃ name Fits w, (name, Fits) ∈ fields ∧ inner.get? name = some w ∧ ¬Fits w ∧ p = .inner part name

/-- What does not fit in a section: a value that is no object, or that of a field. -/
def IllSection (part : String) (fields : List (String × (Value → Prop))) (v : Option Value) (p : Place) : Prop :=
  (p = .field part ∧ ∃ w, v = some w ∧ w.isObj = false) ∨ ∃ inner, v = some (.obj inner) ∧ IllAmong part fields inner p

/-- What does not fit: a key that is no field, and whatever does not fit in a field. -/
def Ill [UrlReader] (m : Members) (p : Place) : Prop :=
  (∃ key ∈ m.keys, key ∉ fields ∧ p = .field key) ∨
    (∃ name Fits, (name, Fits) ∈ simpleFields ∧ p = .field name ∧ ∃ w, m.get? name = some w ∧ ¬Fits w) ∨
    (∃ name ∈ listFields, IllList name (m.get? name) p) ∨
    ∃ name fields, (name, fields) ∈ sections ∧ IllSection name fields (m.get? name) p

/-- A section does not fit as a whole if it is no object. -/
theorem isObj_eq_false_of_ill [UrlReader] {m : Members} {part : String} {inner : List (String × (Value → Prop))}
    (hpart : (part, inner) ∈ sections) (h : Ill m (.field part)) : ∃ w, m.get? part = some w ∧ w.isObj = false := by
  have hparts : ∀ name ∈ sections.map (·.1), name ∈ fields ∧ name ∉ simpleFields.map (·.1) ∧ name ∉ listFields := by
    simp [sections, simpleFields, listFields, fields]
  obtain ⟨hfield, hsimple, hlist⟩ := hparts part (List.mem_map_of_mem hpart)
  rcases h with ⟨key, -, hkey, he⟩ | ⟨name, Fits, hmem, he, -⟩ | ⟨name, hmem, hill⟩ | ⟨name, inner', hmem, hill⟩
  · cases he
    exact absurd hfield hkey
  · cases he
    exact absurd (List.mem_map_of_mem hmem) hsimple
  · rcases hill with ⟨he, -⟩ | ⟨_, _, _, -, -, -, he⟩
    · cases he
      exact absurd hmem hlist
    · cases he
  · rcases hill with ⟨he, hw⟩ | ⟨_, -, _, _, _, -, -, -, he⟩
    · cases he
      exact hw
    · cases he

/-- Issues that stand one by one for the places with a property. -/
def Covers (issues : List ConfigIssue) (P : Place → Prop) : Prop :=
  ∃ places : List Place, (∀ p, p ∈ places ↔ P p) ∧ issues.map (·.path) = places.map Place.path

namespace Covers

variable {issues others : List ConfigIssue} {P Q : Place → Prop}

theorem nil (h : ∀ p, ¬P p) : Covers [] P := ⟨[], fun p => iff_of_false List.not_mem_nil (h p), rfl⟩

theorem one {issue : ConfigIssue} (place : Place) (hpath : issue.path = place.path) (h : ∀ p, P p ↔ p = place) :
    Covers [issue] P :=
  ⟨[place], fun p => by rw [List.mem_singleton, h], congrArg (fun path => [path]) hpath⟩

theorem congr (hissues : Covers issues P) (h : ∀ p, P p ↔ Q p) : Covers issues Q := by
  obtain ⟨places, hplaces, hpaths⟩ := hissues
  exact ⟨places, fun p => (hplaces p).trans (h p), hpaths⟩

theorem append (hissues : Covers issues P) (hothers : Covers others Q) :
    Covers (issues ++ others) fun p => P p ∨ Q p := by
  obtain ⟨places, hplaces, hpaths⟩ := hissues
  obtain ⟨more, hmore, hmorePaths⟩ := hothers
  refine ⟨places ++ more, fun p => ?_, ?_⟩
  · rw [List.mem_append, hplaces, hmore]
  · rw [List.map_append, List.map_append, hpaths, hmorePaths]

theorem eq_nil_iff (h : Covers issues P) : issues = [] ↔ ∀ p, ¬P p := by
  obtain ⟨places, hplaces, hpaths⟩ := h
  rw [← List.map_eq_nil_iff (f := (·.path)), hpaths, List.map_eq_nil_iff, List.eq_nil_iff_forall_not_mem]
  exact forall_congr' fun p => not_congr (hplaces p)

theorem exists_place (h : Covers issues P) {issue : ConfigIssue} (hmem : issue ∈ issues) :
    ∃ p, P p ∧ p.path = issue.path := by
  obtain ⟨places, hplaces, hpaths⟩ := h
  have hpath : issue.path ∈ places.map Place.path := hpaths ▸ List.mem_map_of_mem hmem
  obtain ⟨p, hp, he⟩ := List.mem_map.mp hpath
  exact ⟨p, (hplaces p).mp hp, he⟩

end Covers

/-! The parts. -/

theorem FieldCheck.covers {α : Type} {check : Option Value → Checked α} {path : String} {Fits : Value → Prop}
    {write : α → Value} {usual : α} (h : FieldCheck check path Fits write usual) (place : Place)
    (hpath : place.path = path) (v : Option Value) :
    Covers (check v).issues fun p => p = place ∧ ∃ w, v = some w ∧ ¬Fits w := by
  cases v with
  | none =>
    rw [h.missing]
    exact .nil fun p hp => by simp at hp
  | some w =>
    by_cases hfits : Fits w
    · rw [h.issues_eq_nil_iff.mpr hfits]
      exact .nil fun p hp => by simp [hfits] at hp
    · obtain ⟨issue, hissue, hplace⟩ := h.refuses w hfits
      rw [hissue]
      exact .one place (hplace.trans hpath.symm) fun p => by simp [hfits]

theorem covers_entryIssues (name : String) (start : Nat) (items : List Value) :
    Covers (entryIssues name start items) fun p =>
      ∃ index v, items[index]? = some v ∧ ¬IsEntry v ∧ p = Place.entry name (start + index) := by
  induction items generalizing start with
  | nil => exact .nil fun p hp => by simp at hp
  | cons v rest ih =>
    have hsplit : ∀ p : Place,
        ((¬IsEntry v ∧ p = .entry name start) ∨
          ∃ index w, rest[index]? = some w ∧ ¬IsEntry w ∧ p = .entry name (start + 1 + index)) ↔
        ∃ index w, (v :: rest)[index]? = some w ∧ ¬IsEntry w ∧ p = .entry name (start + index) := by
      intro p
      constructor
      · rintro (⟨hbad, rfl⟩ | ⟨index, w, hw, hbad, rfl⟩)
        · exact ⟨0, v, rfl, hbad, rfl⟩
        · exact ⟨index + 1, w, hw, hbad, by rw [Nat.add_assoc, Nat.add_comm 1]⟩
      · rintro ⟨index, w, hw, hbad, rfl⟩
        cases index with
        | zero =>
          cases hw
          exact .inl ⟨hbad, rfl⟩
        | succ index => exact .inr ⟨index, w, hw, hbad, by rw [Nat.add_assoc, Nat.add_comm 1]⟩
    -- an entry that fits leaves no trace, and any other the issue of its place
    have hhead : IsEntry v ∧ entryIssues name start (v :: rest) = entryIssues name (start + 1) rest ∨
        ¬IsEntry v ∧ entryIssues name start (v :: rest) =
          [entryIssues.issue name start v] ++ entryIssues name (start + 1) rest := by
      cases v with
      | str s =>
        by_cases hs : s = ""
        · subst hs
          exact .inr ⟨by simp [IsEntry], by simp [entryIssues]⟩
        · exact .inl ⟨⟨s, hs, rfl⟩, by simp [entryIssues, hs]⟩
      | _ => exact .inr ⟨by simp [IsEntry], rfl⟩
    rcases hhead with ⟨hentry, hissues⟩ | ⟨hbad, hissues⟩
    · rw [hissues]
      exact (ih (start + 1)).congr fun p => by rw [← hsplit]; simp [hentry]
    · rw [hissues]
      have hone : Covers [entryIssues.issue name start v] fun p => ¬IsEntry v ∧ p = .entry name start :=
        .one (.entry name start) rfl fun p => by simp [hbad]
      exact (hone.append (ih (start + 1))).congr hsplit

theorem covers_checkTexts (name : String) (v : Option Value) :
    Covers (checkTexts name v).issues (IllList name v) := by
  rcases v with _ | _ | _ | _ | _ | items | _
  case none => exact .nil fun p hp => by simp [IllList] at hp
  case some.arr =>
    rw [checkTexts]
    exact (covers_entryIssues name 0 items).congr fun p => by simp [IllList, Value.arr?]
  all_goals exact .one (.field name) rfl fun p => by simp [IllList, Value.arr?]

theorem illAmong_nil {part : String} {inner : Members} {p : Place} : ¬IllAmong part [] inner p := by
  rintro ⟨_, _, _, hmem, -⟩
  cases hmem

theorem illAmong_cons {part name : String} {Fits : Value → Prop} {fields : List (String × (Value → Prop))}
    {inner : Members} {p : Place} : IllAmong part ((name, Fits) :: fields) inner p ↔
      (p = .inner part name ∧ ∃ w, inner.get? name = some w ∧ ¬Fits w) ∨ IllAmong part fields inner p := by
  constructor
  · rintro ⟨name', Fits', w, hmem, hget, hbad, rfl⟩
    rcases List.mem_cons.mp hmem with he | hrest
    · cases he
      exact .inl ⟨rfl, w, hget, hbad⟩
    · exact .inr ⟨name', Fits', w, hrest, hget, hbad, rfl⟩
  · rintro (⟨rfl, w, hget, hbad⟩ | ⟨name', Fits', w, hmem, hget, hbad, rfl⟩)
    · exact ⟨name, Fits, w, List.mem_cons_self, hget, hbad, rfl⟩
    · exact ⟨name', Fits', w, List.mem_cons_of_mem _ hmem, hget, hbad, rfl⟩

theorem illSection_obj {part : String} {fields : List (String × (Value → Prop))} {inner : Members} {p : Place} :
    IllSection part fields (some (.obj inner)) p ↔ IllAmong part fields inner p := by
  simp [IllSection, Value.isObj]

theorem covers_checkAnalysis (v : Option Value) :
    Covers (checkAnalysis v).issues (IllSection "analysis" analysisFields v) := by
  rcases v with _ | _ | _ | _ | _ | _ | m
  case none => exact .nil fun p hp => by simp [IllSection] at hp
  case some.obj =>
    have hpolicy := fieldCheck_policy.covers (.inner "analysis" "syntaxErrors") (by decide)
      (Members.get? m "syntaxErrors")
    have hworkers := (fieldCheck_limit "analysis.maxWorkers").covers (.inner "analysis" "maxWorkers")
      (by decide) (Members.get? m "maxWorkers")
    have htimeout := (fieldCheck_positive "analysis.ruleTimeoutMs" 5000 (by decide)).covers
      (.inner "analysis" "ruleTimeoutMs") (by decide) (Members.get? m "ruleTimeoutMs")
    have hsteps := (fieldCheck_positive "analysis.maxSteps" 2000000 (by decide)).covers
      (.inner "analysis" "maxSteps") (by decide) (Members.get? m "maxSteps")
    have hduration := (fieldCheck_limit "analysis.maxDurationMs").covers
      (.inner "analysis" "maxDurationMs") (by decide) (Members.get? m "maxDurationMs")
    have hsize := (fieldCheck_positive "analysis.maxFileSizeBytes" 1048576 (by decide)).covers
      (.inner "analysis" "maxFileSizeBytes") (by decide) (Members.get? m "maxFileSizeBytes")
    refine (((((hpolicy.append hworkers).append htimeout).append hsteps).append hduration).append hsize).congr ?_
    intro p
    simp only [illSection_obj, analysisFields, illAmong_cons, illAmong_nil, or_false, or_assoc]
  all_goals exact .one (.field "analysis") rfl fun p => by simp [IllSection, Value.isObj]

theorem covers_checkRegistry [UrlReader] (v : Option Value) :
    Covers (checkRegistry v).issues (IllSection "registry" registryFields v) := by
  rcases v with _ | _ | _ | _ | _ | _ | m
  case none => exact .nil fun p hp => by simp [IllSection] at hp
  case some.obj =>
    have hurl := fieldCheck_address.covers (.inner "registry" "url") (by decide) (Members.get? m "url")
    have htimeout := (fieldCheck_positive "registry.timeoutMs" 10000 (by decide)).covers
      (.inner "registry" "timeoutMs") (by decide) (Members.get? m "timeoutMs")
    refine (hurl.append htimeout).congr fun p => ?_
    simp only [illSection_obj, registryFields, illAmong_cons, illAmong_nil, or_false]
  all_goals exact .one (.field "registry") rfl fun p => by simp [IllSection, Value.isObj]

theorem covers_unknownKeys (m : Members) :
    Covers (unknownKeys m) fun p => ∃ key ∈ m.keys, key ∉ fields ∧ p = .field key := by
  refine ⟨(m.keys.filter (!fields.contains ·)).map .field, fun p => ?_, ?_⟩
  · simp only [List.mem_map, List.mem_filter, Bool.not_eq_true', List.contains_eq_mem, decide_eq_false_iff_not,
      and_assoc]
    constructor
    · rintro ⟨key, hmem, hkey, rfl⟩
      exact ⟨key, hmem, hkey, rfl⟩
    · rintro ⟨key, hmem, hkey, rfl⟩
      exact ⟨key, hmem, hkey, rfl⟩
  · rw [unknownKeys, List.map_map, List.map_map]
    rfl

/-- The places where something does not fit are reported one by one. Whether a place is one of them depends on what
stands there and on nothing else. -/
theorem covers_checkMembers [UrlReader] (m : Members) : Covers (checkMembers m).issues (Ill m) := by
  have hfile := fieldCheck_file.covers (.field "baseline") rfl (m.get? "baseline")
  have hlevel := fieldCheck_level.covers (.field "logLevel") rfl (m.get? "logLevel")
  have hlist := fun name => covers_checkTexts name (m.get? name)
  have hall := ((((((((covers_unknownKeys m).append hfile).append hlevel).append (hlist "rulesets")).append
    (hlist "include")).append (hlist "ignore")).append (hlist "disabledRules")).append
    (covers_checkAnalysis (m.get? "analysis"))).append (covers_checkRegistry (m.get? "registry"))
  refine hall.congr fun p => ?_
  simp only [Ill, simpleFields, listFields, sections, List.mem_cons, List.not_mem_nil, or_false, Prod.mk.injEq,
    or_and_right, exists_or, and_assoc, exists_and_left, exists_eq_left, or_assoc]

end Config

end RuleScan
