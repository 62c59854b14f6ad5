import Mathlib.Data.List.DropRight
import RuleScan.Proofs.Number.Texts
import RuleScan.Proofs.Rule.Validity
import RuleScan.Proofs.Value.Members

/-! Validating an accepted rule again. Whatever a part of a rule was read from, writing the part out gives a value that
is read as the same part. Main statement: an accepted rule, written out as a value, is accepted without issues and is
the same rule. -/
namespace RuleScan

namespace Text

theorem toList_trim (s : String) : (trim s).toList = (s.toList.dropWhile isBlank).rdropWhile isBlank := by
  rw [trim, String.toList_ofList, List.rdropWhile]

/-- The white space at the two ends is gone after trimming once. -/
theorem trim_trim (s : String) : trim (trim s) = trim s := by
  have hfront : (trim s).toList.dropWhile isBlank = (trim s).toList := by
    obtain ⟨rest, hrest⟩ := List.rdropWhile_prefix isBlank (s.toList.dropWhile isBlank)
    rw [← toList_trim] at hrest
    cases hchars : (trim s).toList with
    | nil => rfl
    | cons c cs =>
      have hnot := List.head?_dropWhile_not isBlank s.toList
      rw [← hrest, hchars, List.cons_append, List.head?_cons] at hnot
      exact List.dropWhile_cons_of_neg (by simpa using hnot)
  apply String.toList_injective
  rw [toList_trim (trim s), hfront, toList_trim, List.rdropWhile_idempotent]

theorem nonBlank_trim {s : String} (h : NonBlank s) : NonBlank (trim s) := by
  by_contra hblank
  have hempty := (trim_isEmpty_iff (trim s)).mpr hblank
  rw [trim_trim] at hempty
  exact (trim_isEmpty_iff s).mp hempty h

end Text

/-- What is read from some value is read again from what is written for it. -/
def Rereads {α : Type} (reads : Value → α → Prop) (write : α → Value) : Prop := ∀ v a, reads v a → reads (write a) a

namespace Rereads

variable {α : Type} {reads : Value → α → Prop} {write : α → Value}

theorem option (h : Rereads reads write) {raw : Option Value} {o : Option α} (ho : Option.Rel reads raw o) :
    Option.Rel reads (o.map write) o := by
  cases ho with
  | none => exact .none
  | some hv => exact .some (h _ _ hv)

/-- A member that may be missing, wherever it was read from. -/
theorem member (h : Rereads reads write) {v : Value} {key : String} {raw : Option Value} {o : Option α}
    (hget : v.get? key = o.map write) (ho : Option.Rel reads raw o) : Option.Rel reads (v.get? key) o :=
  hget ▸ h.option ho

theorem list (h : Rereads reads write) : Rereads (Value.IsList reads) fun as => .arr (as.map write) := by
  rintro _ as ⟨items, rfl, hitems⟩
  refine ⟨_, rfl, ?_⟩
  induction hitems with
  | nil => exact .nil
  | cons hv _ ih => exact .cons (h _ _ hv) ih

theorem and (h : Rereads reads write) (p : α → Prop) : Rereads (fun v a => reads v a ∧ p a) write :=
  fun v a ha => ⟨h v a ha.1, ha.2⟩

end Rereads

section Parts

theorem rereads_isText : Rereads Value.IsText .str := fun _ _ _ => rfl

theorem rereads_isExpression : Rereads Value.IsExpression .str := rereads_isText.and _

theorem rereads_isName (names : List String) : Rereads (Value.IsName names) .str := rereads_isText.and _

theorem rereads_isTemplate (names : List String) : Rereads (Value.IsTemplate names) .str := rereads_isText.and _

theorem rereads_isCount : Rereads Value.IsCount Value.ofNat := by
  rintro _ n ⟨_, rfl, -, hpos⟩
  exact ⟨_, rfl, Number.toNat?_ofNat n, hpos⟩

theorem bind_str?_optionalText (s : Option String) : (optionalText s).bind Value.str? = s := by
  cases s <;> rfl

theorem rereads_constraint (declared : List String) : Rereads (Constraint.Reads declared) Constraint.toValue := by
  intro v c h
  have hget {key : String} {value : Option Value} (hmem : (key, value) ∈ _) : c.toValue.get? key = value :=
    Value.get?_record (by simp) hmem
  obtain ⟨w, -, hname⟩ := h.capture
  exact
    { capture := ⟨_, hget (by simp), rereads_isName declared _ _ hname⟩
      mustMatch := rereads_isExpression.member (hget (by simp [optionalText])) h.mustMatch
      mustNotMatch := rereads_isExpression.member (hget (by simp [optionalText])) h.mustNotMatch
      equals := rereads_isText.member (hget (by simp [optionalText])) h.equals
      notEquals := rereads_isText.member (hget (by simp [optionalText])) h.notEquals
      kinds := ((rereads_isText.and _).list.and _).member (hget (by simp; rfl)) h.kinds }

theorem toValues_eq_map (cs : List Clause) : Clause.toValues cs = cs.map Clause.toValue := by
  induction cs with
  | nil => rw [Clause.toValues, List.map_nil]
  | cons c cs ih => rw [Clause.toValues, List.map_cons, ih]

/-- Clauses, by the levels of nesting that are left. -/
theorem rereads_clause (room : Nat) (place : Validation.Place) : Rereads (Clause.Reads room place) Clause.toValue := by
  induction room generalizing place with
  | zero => exact fun _ _ h => h.elim
  | succ room ih =>
    intro v c h
    cases c with
    | structural query focus constraints =>
      obtain ⟨-, -, q, hq, hfocus, hwhere⟩ := h
      rw [Clause.toValue]
      exact ⟨Value.get?_record (by simp) (by simp), Value.get?_record (by simp) (by simp), q, hq,
        (rereads_isName _).member (Value.get?_record (by simp) (by simp [optionalText])) hfocus,
        (rereads_constraint _).list.member (Value.get?_record (by simp) (by simp [constraintsValue])) hwhere⟩
    | textual regex flags constraints =>
      obtain ⟨-, -, hfull, hflags, hcompiles, hwhere⟩ := h
      rw [Clause.toValue]
      exact ⟨Value.get?_record (by simp) (by simp), Value.get?_record (by simp) (by simp), hfull,
        rereads_isText.member (Value.get?_record (by simp) (by simp [optionalText])) hflags, hcompiles,
        (rereads_constraint _).list.member (Value.get?_record (by simp) (by simp [constraintsValue])) hwhere⟩
    | all clauses =>
      obtain ⟨-, ⟨w, -, hlist⟩, hpositive⟩ := h
      rw [Clause.toValue, toValues_eq_map]
      exact ⟨by simp [Value.get?_object, Members.get?],
        ⟨_, by simp [Value.get?_object, Members.get?], (ih .inAll).list _ _ hlist⟩, hpositive⟩
    | any clauses =>
      obtain ⟨-, ⟨w, -, hlist⟩, hne⟩ := h
      rw [Clause.toValue, toValues_eq_map]
      exact ⟨by simp [Value.get?_object, Members.get?],
        ⟨_, by simp [Value.get?_object, Members.get?], (ih .elsewhere).list _ _ hlist⟩, hne⟩
    | guard kind clause =>
      obtain ⟨-, hplace, w, -, hinner⟩ := h
      rw [Clause.toValue]
      exact ⟨by simp [Value.get?_object, Members.get?], hplace, _, by simp [Value.get?_object, Members.get?],
        ih .elsewhere _ _ hinner⟩
    | shared | other => exact h.elim

theorem rereads_edit (names : List String) : Rereads (EditTemplate.Reads names) EditTemplate.toValue := by
  intro v e h
  have hget {key : String} {value : Option Value} (hmem : (key, value) ∈ _) : e.toValue.get? key = value :=
    Value.get?_record (by simp) hmem
  refine ⟨⟨h.kind.1, hget (by simp)⟩, (rereads_isName names).member (hget (by simp [optionalText])) h.target, ?_⟩
  have hcontent := h.content
  split_ifs at hcontent ⊢
  · exact hcontent
  · obtain ⟨w, text, -, htext, hwithin⟩ := hcontent
    exact ⟨.str text, text, hget (by simp [optionalText, htext]), htext, rereads_isTemplate names _ _ hwithin⟩

theorem rereads_fix (names : List String) : Rereads (FixTemplate.Reads names) FixTemplate.toValue := by
  intro v f h
  have hget {key : String} {value : Option Value} (hmem : (key, value) ∈ _) : f.toValue.get? key = value :=
    Value.get?_record (by simp) hmem
  obtain ⟨⟨w, -, hedits⟩, hne⟩ := h.edits
  exact ⟨(rereads_isTemplate names).member (hget (by simp [optionalText])) h.description,
    ⟨_, hget (by simp), (rereads_edit names).list _ _ hedits⟩, hne⟩

theorem rereads_expected : Rereads Expected.Reads Expected.toValue := by
  intro v e h
  have hget {key : String} {value : Option Value} (hmem : (key, value) ∈ _) : e.toValue.get? key = value :=
    Value.get?_record (by simp) hmem
  obtain ⟨w, -, hline⟩ := h.line
  exact
    { line := ⟨_, hget (by simp), rereads_isCount _ _ hline⟩
      column := rereads_isCount.member (hget (by simp [optionalCount])) h.column
      endLine := rereads_isCount.member (hget (by simp [optionalCount])) h.endLine
      endColumn := rereads_isCount.member (hget (by simp [optionalCount])) h.endColumn
      ruleId := by rw [hget (show ("ruleId", optionalText e.ruleId) ∈ _ by simp), bind_str?_optionalText] }

theorem rereads_fixture : Rereads Fixture.Reads Fixture.toValue := by
  intro v f h
  have hget {key : String} {value : Option Value} (hmem : (key, value) ∈ _) : f.toValue.get? key = value :=
    Value.get?_record (by simp) hmem
  obtain ⟨w, -, hexpected⟩ := h.expected
  exact
    { code := hget (by simp)
      expected := ⟨_, hget (by simp), rereads_expected.list _ _ hexpected⟩
      name := by rw [hget (show ("name", optionalText f.name) ∈ _ by simp), bind_str?_optionalText]
      filename := by
        rw [hget (show ("filename", optionalText f.filename) ∈ _ by simp), bind_str?_optionalText] }

end Parts

theorem eraseDups_eraseDups {α : Type} [DecidableEq α] (xs : List α) :
    xs.eraseDups.eraseDups = xs.eraseDups := by
  have hnodup : ((firstOfEach (fun x => x) xs).map fun x => x).Nodup := nodup_map_firstOfEach xs
  exact firstOfEach_eq_self hnodup

theorem rereads_rule : Rereads Rule.Reads Rule.toValue := by
  intro v rule h
  have hget {key : String} {value : Option Value} (hmem : (key, value) ∈ _) : rule.toValue.get? key = value :=
    Value.get?_record (by simp) hmem
  obtain ⟨id, -, hid, htrim⟩ := h.id
  obtain ⟨_, named, -, -, hne, hlanguages⟩ := h.languages
  obtain ⟨⟨_, -, hmessage⟩, hfull⟩ := h.message
  obtain ⟨⟨_, -, hpatterns⟩, hsome⟩ := h.patterns
  have hnamed : rule.languages ≠ [] := by
    obtain ⟨l, hl⟩ := List.exists_mem_of_ne_nil named hne
    rw [hlanguages]
    exact List.ne_nil_of_mem (List.mem_eraseDups.mpr hl)
  have hlist : Value.IsList (fun w (l : Language) => w.IsText l.name)
      (Value.strings (rule.languages.map (·.name))) rule.languages := by
    refine ⟨_, rfl, ?_⟩
    rw [List.forall₂_map_left_iff, List.forall₂_map_left_iff]
    exact List.forall₂_same.mpr fun _ _ => rfl
  have hclauses : Value.IsList (Clause.Reads Clause.maxDepth .top) (.arr (Clause.toValues rule.patterns))
      rule.patterns := by
    rw [toValues_eq_map]
    exact (rereads_clause _ _).list _ _ hpatterns
  exact
    { id := ⟨rule.id, hget (by simp), htrim ▸ Text.nonBlank_trim hid, by rw [htrim, Text.trim_trim]⟩
      languages := ⟨_, rule.languages, hget (by simp), hlist, hnamed, by rw [hlanguages, eraseDups_eraseDups]⟩
      severity := hget (by simp)
      message := ⟨⟨_, hget (by simp), rereads_isTemplate _ _ _ hmessage⟩, hfull⟩
      patterns := ⟨⟨_, hget (by simp), hclauses⟩, hsome⟩
      fix := (rereads_fix _).member (hget (by simp)) h.fix
      tests := rereads_fixture.list.member (hget (by simp)) h.tests
      tags := rereads_isText.list.member (hget (by simp; rfl)) h.tags
      name := rereads_isText.member (hget (by simp [optionalText])) h.name
      description := rereads_isText.member (hget (by simp [optionalText])) h.description
      category := rereads_isText.member (hget (by simp [optionalText])) h.category
      checksum := rereads_isText.member (hget (by simp [optionalText])) h.checksum
      checksum_eq := h.checksum_eq }

namespace Validation

theorem reads_of_checkRule {raw : Option Value} {rule : Rule} (h : (checkRule raw).rule = some rule) :
    ∃ v, raw = some v ∧ Rule.Reads v rule := by
  cases raw with
  | none => cases h
  | some v =>
    obtain ⟨rule', hpasses⟩ := exists_passes (.inl (by rw [h]; rfl))
    rw [checkRule_of_passes hpasses] at h
    cases h
    exact ⟨v, rfl, passes_iff_reads.mp hpasses⟩

/-- Validating an accepted rule again, written out as a value, finds no issue and gives the same rule. -/
theorem checkRule_toValue {raw : Option Value} {rule : Rule} (h : (checkRule raw).rule = some rule) :
    checkRule (some rule.toValue) = { rule := some rule, ruleId := some rule.id, issues := [] } := by
  obtain ⟨v, -, hreads⟩ := reads_of_checkRule h
  exact checkRule_of_passes (passes_iff_reads.mpr (rereads_rule v rule hreads))

/-- A rule with blanks around its id, a language twice, members that no check reads and a content of a removal. -/
def untidy : Value :=
  .obj
    [("note", .null), ("id", .str " r "), ("languages", .arr [.str "python", .str "python"]),
      ("severity", .str "error"), ("message", .str "found \x7b\x7b$match\x7d\x7d"),
      ("patterns", .arr [.obj [("query", .str "(A) @found"), ("note", .null), ("type", .str "structural")]]),
      ("fix", .obj [("edits", .arr [.obj [("type", .str "remove"), ("target", .str "found"), ("content", .null)]])]),
      ("tests",
        .arr [.obj [("code", .str ""), ("expected", .arr [.obj [("line", Value.ofNat 1), ("ruleId", .null)]])]]),
      ("checksum", .str (Clause.checksum [.structural "(A) @found" none none]))]

def tidied : Rule :=
  { id := "r", languages := [.python], severity := .error, message := "found \x7b\x7b$match\x7d\x7d"
    patterns := [.structural "(A) @found" none none]
    fix := some { edits := [{ kind := .remove, target := some "found" }] }
    tests := some [{ code := "", expected := [{ line := 1 }] }]
    checksum := some (Clause.checksum [.structural "(A) @found" none none]) }

theorem exists_query {query : String} (h : (Query.parse query).toOption.isSome = true) :
    ∃ q, Query.parse query = .ok q := by
  cases hquery : Query.parse query with
  | error e =>
    rw [hquery] at h
    cases h
  | ok q => exact ⟨q, rfl⟩

theorem reads_tidied : Rule.Reads untidy tidied := by
  obtain ⟨q, hq⟩ := exists_query (show (Query.parse "(A) @found").toOption.isSome = true by decide +kernel)
  exact
    { id := ⟨" r ", rfl, ⟨'r', by decide, by decide⟩, by decide⟩
      languages := ⟨_, [.python, .python], rfl, ⟨_, rfl, .cons rfl (.cons rfl .nil)⟩, by decide, by decide⟩
      severity := rfl
      message := ⟨⟨_, rfl, rfl, fun name hname => .inl (by revert name; decide)⟩, ⟨'f', by decide, by decide⟩⟩
      patterns := ⟨⟨_, rfl, _, rfl, .cons ⟨rfl, rfl, q, hq, .none, .none⟩ .nil⟩, by decide⟩
      fix := .some ⟨.none, ⟨_, rfl, _, rfl,
        .cons ⟨⟨by decide, rfl⟩, .some ⟨rfl, by decide +kernel⟩, rfl⟩ .nil⟩, by decide⟩
      tests := .some ⟨_, rfl, .cons ⟨rfl, ⟨_, rfl, _, rfl,
        .cons ⟨⟨_, rfl, _, rfl, by decide, by decide⟩, .none, .none, .none, rfl⟩ .nil⟩, rfl, rfl⟩ .nil⟩
      tags := .none
      name := .none
      description := .none
      category := .none
      checksum := .some rfl
      checksum_eq := by simp [tidied, Clause.checksum, Value.checksum, Sha256.toLower_hex] }

/-- What is dropped from a rule on the way was not needed: the tidied rule is accepted as it is. -/
theorem checkRule_tidied : (checkRule (some untidy)).rule = some tidied ∧
    checkRule (some tidied.toValue) = { rule := some tidied, ruleId := some "r", issues := [] } := by
  have h : (checkRule (some untidy)).rule = some tidied := by
    rw [checkRule_of_passes (passes_iff_reads.mpr reads_tidied)]
  exact ⟨h, checkRule_toValue h⟩

end Validation

end RuleScan
