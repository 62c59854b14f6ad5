import RuleScan.Proofs.Rule.ClauseChecks

/-! Validation accepts exactly the values that stand for a rule, and nothing is dropped on the way: the lists of an
accepted rule are those of the value, item by item. -/
namespace RuleScan

namespace Validation

theorem checkTemplate_eq_nil_iff (path : String) (names : List String) (template : String) :
    checkTemplate path names template = [] ↔ Template.Within names template := by
  unfold checkTemplate Template.Within
  simp [List.filterMap_eq_nil_iff, or_iff_not_imp_left]

theorem str?_eq_some_iff {v : Value} {s : String} : v.str? = some s ↔ v.IsText s := by
  cases v <;> simp [Value.str?, Value.IsText]

theorem find?_word_eq_some_iff {α : Type} {word : α → String} {all : List α} (h : (all.map word).Nodup) {s : String}
    {a : α} : all.find? (word · == s) = some a ↔ a ∈ all ∧ s = word a := by
  constructor
  · intro hfind
    have hword := List.find?_some hfind
    exact ⟨List.mem_of_find?_eq_some hfind, (beq_iff_eq.mp hword).symm⟩
  · rintro ⟨hmem, rfl⟩
    cases hfind : all.find? (word · == word a) with
    | none => exact absurd (beq_self_eq_true _) (List.find?_eq_none.mp hfind a hmem)
    | some b =>
      have hword := List.find?_some hfind
      rw [List.inj_on_of_nodup_map h (List.mem_of_find?_eq_some hfind) hmem (beq_iff_eq.mp hword)]

theorem language_ofName?_iff {s : String} {l : Language} : Language.ofName? s = some l ↔ s = l.name := by
  have hmem : l ∈ Language.all := by cases l <;> decide
  rw [Language.ofName?, find?_word_eq_some_iff (by decide)]
  simp [hmem]

theorem severity_ofWord?_iff {s : String} {l : Severity} : Severity.ofWord? s = some l ↔ s = l.word := by
  have hmem : l ∈ Severity.all := by cases l <;> decide
  rw [Severity.ofWord?, find?_word_eq_some_iff (by decide)]
  simp [hmem]

theorem gives_checkLanguage (raw : Value) (index : Nat) (o : Option Language) :
    (checkLanguage raw index).Gives o ↔ ∃ l, o = some l ∧ raw.IsText l.name := by
  have hread : ∀ l, raw.str?.bind Language.ofName? = some l ↔ raw.IsText l.name := by
    intro l
    simp [Option.bind_eq_some_iff, str?_eq_some_iff, language_ofName?_iff]
  unfold checkLanguage
  split
  · next l hl =>
    simp only [gives_of_nil, ← hread, hl, Option.some.injEq]
    constructor
    · rintro rfl
      exact ⟨l, rfl, rfl⟩
    · rintro ⟨_, rfl, rfl⟩
      rfl
  · next hnone => simp [← hread, hnone]

theorem distinctLanguages_eq (named : List Language) : distinctLanguages named = named.eraseDups := by
  change distinctLanguages named = firstOfEach (fun l => l) named
  induction named using List.reverseRecOn with
  | nil => rfl
  | append_singleton named l ih =>
    have hstep : distinctLanguages (named ++ [l]) =
        if (distinctLanguages named).contains l then distinctLanguages named else distinctLanguages named ++ [l] := by
      rw [distinctLanguages, List.foldl_append]
      rfl
    have hmem : (firstOfEach (fun l => l) named).contains l = true ↔ l ∈ named.map fun l => l := by
      rw [← mem_map_firstOfEach]
      simp
    rw [hstep, ih, firstOfEach_concat]
    by_cases hl : l ∈ named.map fun l => l
    · rw [if_pos (hmem.mpr hl), if_pos hl]
    · rw [if_neg (mt hmem.mp hl), if_neg hl]

theorem gives_checkLanguages (raw : Option Value) (languages : List Language) :
    (checkLanguages raw).Gives languages ↔
      ∃ w named, raw = some w ∧ w.IsList (fun w (l : Language) => w.IsText l.name) named ∧ named ≠ [] ∧
        languages = named.eraseDups := by
  unfold checkLanguages
  split
  · next first rest =>
    have hnamed := gives_each gives_checkLanguage (first :: rest)
    constructor
    · rintro ⟨hissues, rfl⟩
      have hlist := (hnamed _).mp ⟨hissues, rfl⟩
      refine ⟨_, _, rfl, ⟨_, rfl, hlist⟩, ?_, distinctLanguages_eq _⟩
      exact List.ne_nil_of_length_pos (hlist.length_eq ▸ Nat.succ_pos _)
    · rintro ⟨_, named, ⟨⟩, ⟨_, ⟨⟩, hlist⟩, -, rfl⟩
      obtain ⟨hissues, rfl⟩ := (hnamed named).mpr hlist
      exact ⟨hissues, distinctLanguages_eq _⟩
  · next hne =>
    simp only [not_gives_of_cons, false_iff]
    rintro ⟨_, named, rfl, ⟨items, rfl, hitems⟩, hnamed, -⟩
    cases hitems with
    | nil => exact hnamed rfl
    | cons => exact hne _ _ rfl

theorem gives_checkEdit (names : List String) (raw : Value) (index : Nat) (o : Option EditTemplate) :
    (checkEdit names raw index).Gives o ↔ ∃ e, o = some e ∧ EditTemplate.Reads names raw e := by
  have hkind : ∀ kind, ((raw.get? "type").bind (·.str?)).bind EditKind.ofWord? = some kind ↔
      kind ∈ EditKind.all ∧ raw.get? "type" = some (.str kind.word) := by
    intro kind
    simp only [Option.bind_eq_some_iff, str?_eq_some_iff, Value.IsText, EditKind.ofWord?,
      find?_word_eq_some_iff (show (EditKind.all.map EditKind.word).Nodup by decide)]
    constructor
    · rintro ⟨_, ⟨_, hget, rfl⟩, hmem, rfl⟩
      exact ⟨hmem, hget⟩
    · rintro ⟨hmem, hget⟩
      exact ⟨_, ⟨_, hget, rfl⟩, hmem, rfl⟩
  have htarget := choice_iff (raw.get? "target") names
  unfold checkEdit
  dsimp only
  split
  · next hnone =>
    simp only [not_gives_of_cons, false_iff]
    rintro ⟨e, rfl, he, -⟩
    rw [(hkind e.kind).mpr he] at hnone
    cases hnone
  next kind hsome =>
  have htype := (hkind kind).mp hsome
  have heq : ∀ {e}, EditTemplate.Reads names raw e → kind = e.kind := by
    intro e he
    rw [(hkind e.kind).mpr he.kind] at hsome
    exact (Option.some.inj hsome).symm
  split
  · next hremove =>
    simp only [Checked.Gives, ite_eq_right_iff, reduceCtorEq, imp_false, Bool.not_eq_true]
    constructor
    · rintro ⟨hissues, rfl⟩
      exact ⟨_, rfl, htype, (htarget _).mp ⟨hissues, rfl⟩, (if_pos hremove).mpr rfl⟩
    · rintro ⟨e, rfl, he⟩
      obtain ⟨hissues, hresult⟩ := (htarget e.target).mpr he.target
      have hcontent := he.content
      rw [← heq he, if_pos hremove] at hcontent
      exact ⟨hissues, by rw [hresult, heq he, ← hcontent]⟩
  next hremove =>
  split
  · next content hcontent =>
    simp only [Checked.Gives, List.append_eq_nil_iff, ite_eq_right_iff, reduceCtorEq, imp_false, Bool.not_eq_true,
      checkTemplate_eq_nil_iff]
    constructor
    · rintro ⟨⟨hissues, hwithin⟩, rfl⟩
      exact ⟨_, rfl, htype, (htarget _).mp ⟨hissues, rfl⟩,
        (if_neg hremove).mpr ⟨_, content, hcontent, rfl, rfl, hwithin⟩⟩
    · rintro ⟨e, rfl, he⟩
      obtain ⟨hissues, hresult⟩ := (htarget e.target).mpr he.target
      have hread := he.content
      rw [← heq he, if_neg hremove] at hread
      obtain ⟨_, text, hget, htext, rfl, hwithin⟩ := hread
      obtain rfl : content = text := by simpa using hcontent.symm.trans hget
      exact ⟨⟨hissues, hwithin⟩, by rw [hresult, heq he, ← htext]⟩
  · next hnone =>
    simp only [Checked.Gives, List.append_eq_nil_iff, reduceCtorEq, and_false, false_and, false_iff]
    rintro ⟨e, rfl, he⟩
    have hread := he.content
    rw [← heq he, if_neg hremove] at hread
    obtain ⟨_, text, hget, -, rfl, -⟩ := hread
    exact hnone text hget

theorem gives_description (names : List String) (raw : Option Value) (o : Option String) :
    Checked.Gives
      (match raw with
      | none => ⟨none, []⟩
      | some (.str d) => ⟨some d, checkTemplate "fix.description" names d⟩
      | d =>
        ⟨none, [{ path := "fix.description", code := .invalidFix, message := "description must be a string"
                  actual := describe d }]⟩) o ↔ Option.Rel (Value.IsTemplate names) raw o := by
  split
  · simp [eq_comm]
  · next d =>
    simp only [Checked.Gives, checkTemplate_eq_nil_iff, rel_some_iff]
    constructor
    · rintro ⟨hwithin, rfl⟩
      exact ⟨d, rfl, rfl, hwithin⟩
    · rintro ⟨_, rfl, ⟨⟩, hwithin⟩
      exact ⟨hwithin, rfl⟩
  · next hnone htext =>
    simp only [not_gives_of_cons, false_iff]
    exact not_rel_of_isText (fun _ _ => And.left) hnone htext

theorem gives_checkFix (names : List String) (raw : Option Value) (o : Option FixTemplate) :
    (checkFix names raw).Gives o ↔ Option.Rel (FixTemplate.Reads names) raw o := by
  unfold checkFix
  split
  · simp [eq_comm]
  next v =>
  rw [rel_some_iff]
  dsimp only
  split
  · next first rest hedits =>
    have heach := gives_each (gives_checkEdit names) (first :: rest)
    constructor
    · rintro ⟨hissues, rfl⟩
      obtain ⟨hd, he⟩ := List.append_eq_nil_iff.mp hissues
      have hlist := (heach _).mp ⟨he, rfl⟩
      refine ⟨_, rfl, (gives_description names _ _).mp ⟨hd, rfl⟩, ⟨_, hedits, _, rfl, hlist⟩, ?_⟩
      exact List.ne_nil_of_length_pos (hlist.length_eq ▸ Nat.succ_pos _)
    · rintro ⟨f, rfl, hf⟩
      obtain ⟨hd, hdr⟩ := (gives_description names _ _).mpr hf.description
      obtain ⟨⟨_, hget, items, rfl, hlist⟩, -⟩ := hf.edits
      obtain rfl : first :: rest = items := by simpa using hedits.symm.trans hget
      obtain ⟨he, her⟩ := (heach _).mpr hlist
      exact ⟨List.append_eq_nil_iff.mpr ⟨hd, he⟩, congrArg some (congrArg₂ FixTemplate.mk hdr her)⟩
  · next hnone =>
    simp only [not_gives_of_cons, false_iff]
    rintro ⟨f, rfl, -, ⟨_, hget, items, rfl, hlist⟩, hne⟩
    cases items with
    | nil => exact hne (List.forall₂_nil_left_iff.mp hlist)
    | cons => exact hnone _ _ hget

theorem gives_checkCount (path key : String) (raw : Option Value) (o : Option Nat) :
    (checkCount path key raw).Gives o ↔ Option.Rel Value.IsCount raw o := by
  unfold checkCount
  split
  · simp [eq_comm]
  · next v n hn =>
    have hcount : ∀ m, v.IsCount m ↔ m = n := by
      intro m
      have hiff : count? (some v) = some m ↔ _ := count?_eq_some_iff
      rw [hn] at hiff
      simpa [eq_comm] using hiff.symm
    simp [hcount, eq_comm]
  · next v hn =>
    simp only [not_gives_of_cons, rel_some_iff, false_iff]
    rintro ⟨n, rfl, hv⟩
    rw [count?_eq_some_iff.mpr ⟨v, rfl, hv⟩] at hn
    cases hn

theorem gives_checkExpected (path : String) (raw : Value) (index : Nat) (o : Option Expected) :
    (checkExpected path raw index).Gives o ↔ ∃ e, o = some e ∧ Expected.Reads raw e := by
  unfold checkExpected
  dsimp only
  split
  · next hnone =>
    simp only [not_gives_of_cons, false_iff]
    rintro ⟨e, rfl, hline, -⟩
    rw [count?_eq_some_iff.mpr hline] at hnone
    cases hnone
  · next line hsome =>
    have hline := count?_eq_some_iff.mp hsome
    simp only [Checked.Gives, List.append_eq_nil_iff]
    constructor
    · rintro ⟨⟨⟨hc, hl⟩, he⟩, rfl⟩
      exact ⟨_, rfl, hline, (gives_checkCount _ _ _ _).mp ⟨hc, rfl⟩, (gives_checkCount _ _ _ _).mp ⟨hl, rfl⟩,
        (gives_checkCount _ _ _ _).mp ⟨he, rfl⟩, rfl⟩
    · rintro ⟨e, rfl, he⟩
      obtain rfl : line = e.line := by
        rw [count?_eq_some_iff.mpr he.line] at hsome
        exact (Option.some.inj hsome).symm
      obtain ⟨hc, hcr⟩ := (gives_checkCount (entry (path ++ ".expected") index) "column" _ _).mpr he.column
      obtain ⟨hl, hlr⟩ := (gives_checkCount (entry (path ++ ".expected") index) "endLine" _ _).mpr he.endLine
      obtain ⟨hd, hdr⟩ := (gives_checkCount (entry (path ++ ".expected") index) "endColumn" _ _).mpr he.endColumn
      exact ⟨⟨⟨hc, hl⟩, hd⟩, by rw [hcr, hlr, hdr, ← he.ruleId]⟩

theorem gives_checkFixture (raw : Value) (index : Nat) (o : Option Fixture) :
    (checkFixture raw index).Gives o ↔ ∃ f, o = some f ∧ Fixture.Reads raw f := by
  unfold checkFixture
  dsimp only
  split
  · next code items hcode hitems =>
    have hexpected := gives_each (gives_checkExpected (entry "tests" index)) items
    constructor
    · rintro ⟨hissues, rfl⟩
      exact ⟨_, rfl, hcode, ⟨_, hitems, _, rfl, (hexpected _).mp ⟨hissues, rfl⟩⟩, rfl, rfl⟩
    · rintro ⟨f, rfl, hf⟩
      obtain rfl : code = f.code := by simpa using hcode.symm.trans hf.code
      obtain ⟨_, hget, items', rfl, hlist⟩ := hf.expected
      obtain rfl : items = items' := by simpa using hitems.symm.trans hget
      obtain ⟨hissues, hresult⟩ := (hexpected _).mpr hlist
      exact ⟨hissues, by rw [hresult, ← hf.name, ← hf.filename]⟩
  · next hne =>
    simp only [not_gives_of_cons, false_iff]
    rintro ⟨f, rfl, hcode, ⟨_, hget, items, rfl, -⟩, -⟩
    exact hne _ _ hcode hget

theorem gives_checkTests (raw : Option Value) (o : Option (List Fixture)) :
    (checkTests raw).Gives o ↔ Option.Rel (Value.IsList Fixture.Reads) raw o := by
  unfold checkTests Value.IsList
  split
  · simp [eq_comm]
  · simp [gives_each gives_checkFixture]
  · next v hne =>
    simp only [not_gives_of_cons, rel_some_iff, false_iff]
    rintro ⟨cs, rfl, items, rfl, -⟩
    exact absurd rfl (hne items)

theorem gives_checkTags (raw : Option Value) (o : Option (List String)) :
    (checkTags raw).Gives o ↔ Option.Rel (Value.IsList Value.IsText) raw o := by
  unfold checkTags
  split
  · simp [eq_comm]
  · next v =>
    dsimp only
    split
    · next items =>
      have hfull := filterMap_eq_and_length_iff Value.str? items
      simp only [str?_eq_some_iff] at hfull
      simp only [Checked.Gives, ite_eq_left_iff, reduceCtorEq, imp_false, not_not, rel_some_iff]
      constructor
      · rintro ⟨hlength, rfl⟩
        exact ⟨_, rfl, items, rfl, (hfull _).mp ⟨rfl, hlength⟩⟩
      · rintro ⟨tags, rfl, _, ⟨⟩, htags⟩
        obtain ⟨rfl, hlength⟩ := (hfull tags).mpr htags
        exact ⟨hlength, rfl⟩
    · next hne =>
      simp only [not_gives_of_cons, rel_some_iff, false_iff]
      rintro ⟨tags, rfl, items, rfl, -⟩
      exact hne items rfl

theorem gives_checkOptionalText (raw : Value) (key : String) (o : Option String) :
    (checkOptionalText raw key).Gives o ↔ Option.Rel Value.IsText (raw.get? key) o := by
  unfold checkOptionalText
  split
  · next hnone => simp [hnone, eq_comm]
  · next s hs => simp [hs, Value.IsText, eq_comm]
  · next hnone hne =>
    simp only [not_gives_of_cons, false_iff]
    exact not_rel_of_isText (fun _ _ => id) hnone hne

theorem checkChecksum_eq_nil_iff (patterns : List Clause) (checksum : Option String) :
    checkChecksum patterns checksum = [] ↔ ∀ sum ∈ checksum, sum.toLower = Clause.checksum patterns := by
  unfold checkChecksum
  split
  · simp
  · simp

theorem decides_pattern (v : Value) (index : Nat) :
    (checkClause Clause.maxDepth (some v) (entry "patterns" index) .top).Decides
      (Clause.Reads Clause.maxDepth .top v) :=
  (decides_checkClause _ _ _ _).congr fun c => by simp

theorem patternChecks_iff (raw : Option Value) (cs : List Clause) :
    ((patternChecks raw).flatMap (·.issues) = [] ∧ (patternChecks raw).filterMap (·.clause) = cs) ↔
      (∃ w, raw = some w ∧ w.IsList (Clause.Reads Clause.maxDepth .top) cs) ∧ cs ≠ [] := by
  unfold patternChecks
  split
  · next first rest =>
    rw [clauses_iff decides_pattern]
    constructor
    · intro hlist
      exact ⟨⟨_, rfl, _, rfl, hlist⟩, List.ne_nil_of_length_pos (hlist.length_eq ▸ Nat.succ_pos _)⟩
    · rintro ⟨⟨_, ⟨⟩, _, ⟨⟩, hlist⟩, -⟩
      exact hlist
  · next hnone =>
    refine ⟨nofun, ?_⟩
    rintro ⟨⟨_, rfl, items, rfl, hlist⟩, hne⟩
    cases items with
    | nil => exact absurd (List.forall₂_nil_left_iff.mp hlist) hne
    | cons first rest => exact absurd rfl (hnone first rest)

theorem captures_patternChecks {raw : Option Value} {cs : List Clause}
    (h : (∃ w, raw = some w ∧ w.IsList (Clause.Reads Clause.maxDepth .top) cs) ∧ cs ≠ []) :
    (patternChecks raw).flatMap (·.captures) = Clause.bindableEach cs := by
  obtain ⟨⟨_, rfl, items, rfl, hlist⟩, hne⟩ := h
  cases items with
  | nil => exact absurd (List.forall₂_nil_left_iff.mp hlist) hne
  | cons first rest => exact captures_of_forall₂ decides_pattern hlist

/-- Every check of a value passes, with the parts of this rule as results. -/
structure Passes (v : Value) (rule : Rule) : Prop where
  id : (text? (v.get? "id")).map Text.trim = some rule.id
  languages : (checkLanguages (v.get? "languages")).Gives rule.languages
  severity : ((v.get? "severity").bind (·.str?)).bind Severity.ofWord? = some rule.severity
  message : text? (v.get? "message") = some rule.message
  patterns : (patternChecks (v.get? "patterns")).flatMap (·.issues) = [] ∧
    (patternChecks (v.get? "patterns")).filterMap (·.clause) = rule.patterns
  template : checkTemplate "message" ((patternChecks (v.get? "patterns")).flatMap (·.captures)) rule.message = []
  fix : (checkFix ((patternChecks (v.get? "patterns")).flatMap (·.captures)) (v.get? "fix")).Gives rule.fix
  tests : (checkTests (v.get? "tests")).Gives rule.tests
  tags : (checkTags (v.get? "tags")).Gives rule.tags
  name : (checkOptionalText v "name").Gives rule.name
  description : (checkOptionalText v "description").Gives rule.description
  category : (checkOptionalText v "category").Gives rule.category
  checksum : (checkOptionalText v "checksum").Gives rule.checksum
  checksum_eq : checkChecksum rule.patterns rule.checksum = []

variable {v : Value} {rule : Rule}

theorem severity_iff (raw : Option Value) (severity : Severity) :
    (raw.bind (·.str?)).bind Severity.ofWord? = some severity ↔ raw = some (.str severity.word) := by
  simp [Option.bind_eq_some_iff, str?_eq_some_iff, severity_ofWord?_iff, Value.IsText]

theorem passes_iff_reads : Passes v rule ↔ Rule.Reads v rule := by
  constructor
  · intro h
    have hpatterns := (patternChecks_iff _ _).mp h.patterns
    have hcaptures := captures_patternChecks hpatterns
    have htemplate := h.template
    have hfix := h.fix
    rw [hcaptures, checkTemplate_eq_nil_iff] at htemplate
    rw [hcaptures, gives_checkFix] at hfix
    obtain ⟨id, hid, htrim⟩ := Option.map_eq_some_iff.mp h.id
    obtain ⟨hmessage, hfull⟩ := text?_eq_some_iff.mp h.message
    exact
      { id := ⟨id, (text?_eq_some_iff.mp hid).1, (text?_eq_some_iff.mp hid).2, htrim.symm⟩
        languages := (gives_checkLanguages _ _).mp h.languages
        severity := (severity_iff _ _).mp h.severity
        message := ⟨⟨_, hmessage, rfl, htemplate⟩, hfull⟩
        patterns := hpatterns
        fix := hfix
        tests := (gives_checkTests _ _).mp h.tests
        tags := (gives_checkTags _ _).mp h.tags
        name := (gives_checkOptionalText _ _ _).mp h.name
        description := (gives_checkOptionalText _ _ _).mp h.description
        category := (gives_checkOptionalText _ _ _).mp h.category
        checksum := (gives_checkOptionalText _ _ _).mp h.checksum
        checksum_eq := (checkChecksum_eq_nil_iff _ _).mp h.checksum_eq }
  · intro h
    have hcaptures := captures_patternChecks h.patterns
    obtain ⟨id, hid, hnonblank, htrim⟩ := h.id
    obtain ⟨⟨_, hmessage, rfl, htemplate⟩, hfull⟩ := h.message
    exact
      { id := by rw [text?_eq_some_iff.mpr ⟨hid, hnonblank⟩, htrim]; rfl
        languages := (gives_checkLanguages _ _).mpr h.languages
        severity := (severity_iff _ _).mpr h.severity
        message := text?_eq_some_iff.mpr ⟨hmessage, hfull⟩
        patterns := (patternChecks_iff _ _).mpr h.patterns
        template := by rw [hcaptures, checkTemplate_eq_nil_iff]; exact htemplate
        fix := by rw [hcaptures, gives_checkFix]; exact h.fix
        tests := (gives_checkTests _ _).mpr h.tests
        tags := (gives_checkTags _ _).mpr h.tags
        name := (gives_checkOptionalText _ _ _).mpr h.name
        description := (gives_checkOptionalText _ _ _).mpr h.description
        category := (gives_checkOptionalText _ _ _).mpr h.category
        checksum := (gives_checkOptionalText _ _ _).mpr h.checksum
        checksum_eq := (checkChecksum_eq_nil_iff _ _).mpr h.checksum_eq }

theorem exists_of_ite_isSome {α β : Type} {o : Option α} {b : β} (h : (if o.isSome then [] else [b]) = []) :
    ∃ a, o = some a := by
  cases o with
  | none => cases h
  | some a => exact ⟨a, rfl⟩

theorem isObj_of_get? {key : String} {w : Value} (h : v.get? key = some w) : v.isObj = true := by
  cases v with
  | obj members => rfl
  | _ => cases h

/-- A value that passes gives the rule and no issues. -/
theorem checkRule_of_passes (h : Passes v rule) :
    checkRule (some v) = { rule := some rule, ruleId := some rule.id } := by
  obtain ⟨hmessage, -⟩ := text?_eq_some_iff.mp h.message
  have hsum := h.checksum_eq
  rw [← h.patterns.2, ← h.checksum.2] at hsum
  unfold checkRule
  dsimp only [Value.orNull, Option.getD_some]
  rw [if_neg (by simp [isObj_of_get? hmessage])]
  split
  · next id severity message hissues hid hseverity hget =>
    cases hid.symm.trans h.id
    cases hseverity.symm.trans h.severity
    cases hget.symm.trans hmessage
    obtain ⟨⟩ := rule
    cases h.name.2
    cases h.description.2
    cases h.languages.2
    cases h.category.2
    cases h.patterns.2
    cases h.fix.2
    cases h.tests.2
    cases h.tags.2
    cases h.checksum.2
    rfl
  · next hne =>
    refine absurd ?_ (hne rule.id rule.severity rule.message · h.id h.severity hmessage)
    rw [ite_isEmpty_eq_nil_iff]
    refine ⟨?_, hsum⟩
    simp only [List.append_eq_nil_iff]
    refine ⟨⟨⟨⟨⟨⟨⟨⟨⟨⟨⟨⟨?_, h.languages.1⟩, ?_⟩, ?_⟩, h.patterns.1⟩, ?_⟩, h.fix.1⟩, h.tests.1⟩, h.tags.1⟩, h.name.1⟩,
      h.description.1⟩, h.category.1⟩, h.checksum.1⟩
    · rw [h.id]
      rfl
    · rw [h.severity]
      rfl
    · rw [h.message]
      rfl
    · rw [hmessage]
      exact h.template

/-- Without issues, or with a rule, the value passes. -/
theorem exists_passes (h : (checkRule (some v)).rule.isSome = true ∨ (checkRule (some v)).issues = []) :
    ∃ rule, Passes v rule := by
  unfold checkRule at h
  dsimp only [Value.orNull, Option.getD_some] at h
  split at h
  · simp at h
  split at h
  · next id severity message hissues hid hseverity hget =>
    obtain ⟨hall, hsum⟩ := ite_isEmpty_eq_nil_iff.mp hissues
    simp only [List.append_eq_nil_iff] at hall
    obtain ⟨⟨⟨⟨⟨⟨⟨⟨⟨⟨⟨⟨-, hl⟩, -⟩, hm⟩, hp⟩, ht⟩, hf⟩, hts⟩, htg⟩, hn⟩, hd⟩, hc⟩, hk⟩ := hall
    obtain ⟨text, htext⟩ := exists_of_ite_isSome hm
    cases (text?_eq_some_iff.mp htext).1.symm.trans hget
    rw [hget] at ht
    let rule : Rule :=
      { id, name := (checkOptionalText v "name").result, description := (checkOptionalText v "description").result
        languages := (checkLanguages (v.get? "languages")).result, severity
        category := (checkOptionalText v "category").result, message
        patterns := (patternChecks (v.get? "patterns")).filterMap (·.clause)
        fix := (checkFix ((patternChecks (v.get? "patterns")).flatMap (·.captures)) (v.get? "fix")).result
        tests := (checkTests (v.get? "tests")).result, tags := (checkTags (v.get? "tags")).result
        checksum := (checkOptionalText v "checksum").result }
    exact ⟨rule, hid, ⟨hl, rfl⟩, hseverity, htext, ⟨hp, rfl⟩, ht, ⟨hf, rfl⟩, ⟨hts, rfl⟩, ⟨htg, rfl⟩, ⟨hn, rfl⟩,
      ⟨hd, rfl⟩, ⟨hc, rfl⟩, ⟨hk, rfl⟩, hsum⟩
  · next hne =>
    obtain h | hissues := h
    · cases h
    dsimp only at hissues
    obtain ⟨hall, hsum⟩ := ite_isEmpty_eq_nil_iff.mp hissues
    simp only [List.append_eq_nil_iff] at hall
    obtain ⟨⟨⟨⟨⟨⟨⟨⟨⟨⟨⟨⟨hi, -⟩, hs⟩, hm⟩, -⟩, -⟩, -⟩, -⟩, -⟩, -⟩, -⟩, -⟩, -⟩ := hall
    obtain ⟨id, hid⟩ := exists_of_ite_isSome hi
    obtain ⟨severity, hseverity⟩ := exists_of_ite_isSome hs
    obtain ⟨text, htext⟩ := exists_of_ite_isSome hm
    exact (hne id severity text hissues hid hseverity (text?_eq_some_iff.mp htext).1).elim

/-- Validation accepts exactly the values that stand for a rule: it gives a rule exactly if it finds no issue, and
this rule exactly if the value stands for it. -/
theorem checkRule_eq_some_iff (raw : Option Value) :
    ((checkRule raw).rule.isSome = true ↔ (checkRule raw).issues = []) ∧
      ∀ rule, (checkRule raw).rule = some rule ↔ ∃ v, raw = some v ∧ Rule.Reads v rule := by
  cases raw with
  | none => exact ⟨by simp [checkRule, Value.orNull, Value.isObj], fun rule => ⟨nofun, nofun⟩⟩
  | some v =>
    have hpasses : ∀ rule, Passes v rule ↔ ∃ w, some v = some w ∧ Rule.Reads w rule := by
      intro rule
      simp [passes_iff_reads]
    refine ⟨⟨fun h => ?_, fun h => ?_⟩, fun rule => ?_⟩
    · obtain ⟨rule, hrule⟩ := exists_passes (.inl h)
      rw [checkRule_of_passes hrule]
    · obtain ⟨rule, hrule⟩ := exists_passes (.inr h)
      rw [checkRule_of_passes hrule]
      rfl
    · rw [← hpasses]
      constructor
      · intro h
        obtain ⟨rule', hrule⟩ := exists_passes (.inl (by rw [h]; rfl))
        rw [checkRule_of_passes hrule] at h
        cases h
        exact hrule
      · intro h
        rw [checkRule_of_passes h]

/-- A rule for Python with these clauses and other members. -/
def ruleOf (patterns : List Value) (more : List (String × Value)) : Value :=
  .obj
    ([("id", .str "r"), ("languages", .arr [.str "python"]), ("severity", .str "error"), ("message", .str "found"),
      ("patterns", .arr patterns)] ++ more)

/-- The rule removes what it finds, and its edit has a content that names nothing. -/
def removal : Value :=
  ruleOf [.obj [("type", .str "structural"), ("query", .str "(A)")]]
    [("fix", .obj [("edits", .arr [.obj [("type", .str "remove"), ("content", .str "\x7b\x7bnope\x7d\x7d")]])])]

def blankFinder : Value := ruleOf [.obj [("type", .str "textual"), ("regex", .str " ")]] []

theorem flags_none : Textual.flags none = "dg" := by
  have hsort : ['g', 'd'].mergeSort (fun a b => Text.le a.toString b.toString) = ['d', 'g'] := by
    have hle : Text.le "g" "d" = false := by decide
    simp [List.mergeSort, List.MergeSort.Internal.splitInTwo, hle]
  exact congrArg String.ofList hsort

/-- Placeholders of a removal are not looked at, and a blank expression is refused though it compiles. -/
theorem checkRule_removal_blank :
    (Template.placeholders "\x7b\x7bnope\x7d\x7d" = ["nope"] ∧ (checkRule (some removal)).issues = [] ∧
      (checkRule (some removal)).rule.map Rule.bindable = some []) ∧
    ((Regex.compile " " (Textual.flags none)).toOption.isSome = true ∧ (checkRule (some blankFinder)).rule.isNone ∧
      (checkRule (some blankFinder)).issues.map (·.path) = ["patterns[0].regex"]) := by
  refine ⟨by decide +kernel, ?_, by decide +kernel⟩
  rw [flags_none]
  decide

end Validation

end RuleScan
