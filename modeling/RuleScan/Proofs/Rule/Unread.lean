import RuleScan.Proofs.Rule.Revalidation
import RuleScan.Proofs.Value.Canonical

/-! What validation does not look at. Each part of a rule is read from some members of an object, found by their keys.
Values that agree in these members, part by part, give the same rule, in whatever order the members stand and whatever
other members there are. -/
namespace RuleScan

namespace Validation

/-- The objects that a rule is made of. -/
inductive Part where
  | rule
  | clause
  | constraint
  | fix
  | edit
  | fixture
  | expected

/-- What stands at a key: a value without parts, a part, or a list of parts. -/
inductive Slot where
  | leaf
  | one (part : Part)
  | each (part : Part)

/-- The word at the key `type`. -/
def typeWord (v : Value) : Option String := (v.get? "type").bind Value.str?

/-- The keys that are read of a part of some type, with what stands there. All other members are ignored. -/
def Part.slots (type : Option String) : Part → List (String × Slot)
  | .rule =>
    [("id", .leaf), ("languages", .leaf), ("severity", .leaf), ("message", .leaf), ("patterns", .each .clause),
      ("fix", .one .fix), ("tests", .each .fixture), ("tags", .leaf), ("name", .leaf), ("description", .leaf),
      ("category", .leaf), ("checksum", .leaf)]
  | .clause =>
    ("type", .leaf) ::
      match type with
      | some "structural" => [("query", .leaf), ("focus", .leaf), ("where", .each .constraint)]
      | some "textual" => [("regex", .leaf), ("flags", .leaf), ("where", .each .constraint)]
      | some "all" | some "any" => [("clauses", .each .clause)]
      | some "not" | some "inside" | some "not-inside" => [("clause", .one .clause)]
      | _ => []
  | .constraint =>
    [("capture", .leaf), ("matches", .leaf), ("notMatches", .leaf), ("equals", .leaf), ("notEquals", .leaf),
      ("kinds", .leaf)]
  | .fix => [("description", .leaf), ("edits", .each .edit)]
  | .edit =>
    ("type", .leaf) :: ("target", .leaf) ::
      match type with
      | some "remove" => []
      | _ => [("content", .leaf)]
  | .fixture => [("code", .leaf), ("expected", .each .expected), ("name", .leaf), ("filename", .leaf)]
  | .expected =>
    [("line", .leaf), ("column", .leaf), ("endLine", .leaf), ("endColumn", .leaf), ("ruleId", .leaf)]

attribute [local simp] Part.slots

/-- Whether a value has the parts that stand there. -/
def Slot.takes : Slot → Value → Bool
  | .leaf, _ => false
  | .one _, v => v.isObj
  | .each _, v => v.arr?.isSome

/-- Values that differ only in the order of members, and in members that are ignored. -/
inductive Alike : Slot → Option Value → Option Value → Prop where
  | missing {slot : Slot} : Alike slot none none
  | plain {slot : Slot} {v w : Value} (hv : slot.takes v = false) (h : Value.Reordered v w) :
    Alike slot (some v) (some w)
  | members {part : Part} {ms ns : Members}
    (h : ∀ key slot, (key, slot) ∈ part.slots (typeWord (.obj ms)) → Alike slot (ms.get? key) (ns.get? key)) :
    Alike (.one part) (some (.obj ms)) (some (.obj ns))
  | nil (part : Part) : Alike (.each part) (some (.arr [])) (some (.arr []))
  | cons {part : Part} {v w : Value} {vs ws : List Value} (head : Alike (.one part) (some v) (some w))
    (tail : Alike (.each part) (some (.arr vs)) (some (.arr ws))) :
    Alike (.each part) (some (.arr (v :: vs))) (some (.arr (w :: ws)))

theorem takes_eq {v w : Value} (h : Value.Reordered v w) (slot : Slot) : slot.takes v = slot.takes w := by
  induction h with
  | refl => rfl
  | item | member => cases slot <;> rfl
  | order _ _ ih =>
    rw [← ih]
    cases slot <;> rfl

theorem str?_eq {v w : Value} (h : Value.Reordered v w) : v.str? = w.str? := by
  induction h with
  | refl | item | member => rfl
  | order _ _ ih => exact ih

namespace Alike

variable {slot : Slot} {part : Part} {x y : Option Value} {v w : Value} {vs : List Value} {ms ns : Members}
  {key : String}

theorem eq_none (h : Alike slot none y) : y = none := by
  cases h
  rfl

theorem exists_some (h : Alike slot (some v) y) : ∃ w, y = some w := by
  cases h <;> exact ⟨_, rfl⟩

theorem reordered (h : Alike .leaf (some v) (some w)) : Value.Reordered v w := by
  cases h with
  | plain _ h => exact h

theorem leaf (h : Value.Reordered v w) : Alike .leaf (some v) (some w) := plain rfl h

/-- A text is read as the same text. -/
theorem eq_str {s : String} (h : Alike slot (some (.str s)) (some w)) : w = .str s := by
  cases h with
  | plain _ h => exact h.eq_of_leaf rfl rfl

theorem bind_str? (h : Alike .leaf x y) : x.bind Value.str? = y.bind Value.str? := by
  cases h with
  | missing => rfl
  | plain _ h => exact str?_eq h

/-- What is read at a key is alike, or missing in both. -/
theorem get? (h : Alike (.one part) (some v) (some w)) (hmem : (key, slot) ∈ part.slots (typeWord v)) :
    Alike slot (v.get? key) (w.get? key) := by
  cases h with
  | plain hv h =>
    have hnone : ∀ u : Value, (Slot.one part).takes u = false → u.get? key = none := by
      intro u hu
      cases u <;> first | rfl | cases hu
    rw [hnone v hv, hnone w (takes_eq h _ ▸ hv)]
    exact missing
  | members h => exact h key slot hmem

/-- A list is read as a list, item by item. -/
theorem list (h : Alike (.each part) (some (.arr vs)) (some w)) :
    ∃ ws, w = .arr ws ∧ List.Forall₂ (fun v w => Alike (.one part) (some v) (some w)) vs ws := by
  induction vs generalizing w with
  | nil =>
    cases h with
    | plain hnone => cases hnone
    | nil => exact ⟨_, rfl, .nil⟩
  | cons v vs ih =>
    cases h with
    | plain hnone => cases hnone
    | cons head tail =>
      obtain ⟨ws, ⟨⟩, hws⟩ := ih tail
      exact ⟨_, rfl, .cons head hws⟩

theorem of_forall₂ {ws : List Value} (h : List.Forall₂ (fun v w => Alike (.one part) (some v) (some w)) vs ws) :
    Alike (.each part) (some (.arr vs)) (some (.arr ws)) := by
  induction h with
  | nil => exact nil part
  | cons head _ ih => exact cons head ih

/-- Values that are equal up to the order of members are alike in every place. -/
theorem of_reordered (slot : Slot) (h : Value.Reordered v w) (hv : v.DistinctKeys) :
    Alike slot (some v) (some w) := by
  induction v using Value.byParts generalizing slot w with
  | null | bool | num | str => exact plain (by cases slot <;> rfl) h
  | arr vs ih =>
    cases slot with
    | leaf | one => exact plain rfl h
    | each part =>
      obtain ⟨ws, rfl, hws⟩ := h.arr
      have hitems : ∀ v ∈ vs, ∀ w, Value.Reordered v w → Alike (.one part) (some v) (some w) :=
        fun v hmem w hvw => ih v hmem (.one part) hvw (Value.distinctKeys_arr.mp hv v hmem)
      exact of_forall₂ (((List.forall₂_and_left _ _).mpr ⟨hitems, hws⟩).imp fun v w hvw => hvw.1 w hvw.2)
  | obj ms ih =>
    cases slot with
    | leaf | each => exact plain rfl h
    | one part =>
      obtain ⟨ns, rfl, hns⟩ := h.obj hv.nodup
      refine members fun key slot _ => ?_
      have hrel := hns key
      generalize hm : ms.get? key = x, ns.get? key = y at hrel
      cases hrel with
      | none => exact missing
      | some hu =>
        have hmem := Members.mem_of_get? hm
        exact ih _ hmem slot hu ((Value.distinctKeys_obj.mp hv).2 _ hmem)

theorem slots_eq (h : ∀ key slot, (key, slot) ∈ part.slots (typeWord v) → Alike slot (v.get? key) (w.get? key)) :
    part.slots (typeWord v) = part.slots (typeWord w) := by
  have htype (hmem : ("type", Slot.leaf) ∈ part.slots (typeWord v)) : typeWord v = typeWord w :=
    (h _ _ hmem).bind_str?
  cases part with
  | clause | edit => rw [htype (by simp)]
  | _ => rfl

theorem symm (h : Alike slot x y) (hx : ∀ v ∈ x, v.DistinctKeys) : Alike slot y x := by
  induction h with
  | missing => exact missing
  | @plain slot v w hv h =>
    exact plain (takes_eq h slot ▸ hv) (Value.reordered_of_sorted_eq (h.sorted_eq (hx v rfl)).symm)
  | @members part ms ns h ih =>
    refine members fun key slot hmem => ?_
    rw [← slots_eq (w := .obj ns) h] at hmem
    exact ih key slot hmem fun v hv => (Value.distinctKeys_obj.mp (hx _ rfl)).2 _ (Members.mem_of_get? hv)
  | nil => exact nil _
  | cons _ _ ihhead ihtail =>
    refine cons (ihhead fun v hv => ?_) (ihtail fun v hv => ?_)
    · cases hv
      exact Value.distinctKeys_arr.mp (hx _ rfl) _ List.mem_cons_self
    · cases hv
      exact (hx _ rfl).tail

end Alike

def Keeps {α : Type} (slot : Slot) (reads : Value → α → Prop) : Prop :=
  ∀ v w a, Alike slot (some v) (some w) → reads v a → reads w a

namespace Keeps

variable {α : Type} {slot : Slot} {reads : Value → α → Prop} {x y : Option Value}

/-- A member that may be missing. -/
theorem option (h : Keeps slot reads) (hxy : Alike slot x y) {o : Option α} (hx : Option.Rel reads x o) :
    Option.Rel reads y o := by
  cases hx with
  | none =>
    cases hxy.eq_none
    exact .none
  | some hread =>
    obtain ⟨w, rfl⟩ := hxy.exists_some
    exact .some (h _ _ _ hxy hread)

theorem required (h : Keeps slot reads) (hxy : Alike slot x y) {a : α} (hx : ∃ v, x = some v ∧ reads v a) :
    ∃ w, y = some w ∧ reads w a := by
  obtain ⟨v, rfl, hread⟩ := hx
  obtain ⟨w, rfl⟩ := hxy.exists_some
  exact ⟨w, rfl, h v w a hxy hread⟩

theorem and (h : Keeps slot reads) (p : α → Prop) : Keeps slot fun v a => reads v a ∧ p a :=
  fun v w a hvw ha => ⟨h v w a hvw ha.1, ha.2⟩

theorem parts {part : Part} (h : Keeps (.one part) reads) : Keeps (.each part) (Value.IsList reads) := by
  rintro _ w as hvw ⟨vs, rfl, has⟩
  obtain ⟨ws, rfl, hws⟩ := hvw.list
  refine ⟨ws, rfl, ?_⟩
  clear hvw
  induction hws generalizing as with
  | nil => exact has
  | cons hhead _ ih =>
    cases has with
    | cons ha has => exact .cons (h _ _ _ hhead ha) (ih _ has)

theorem leaves (h : Keeps .leaf reads) : Keeps .leaf (Value.IsList reads) := by
  rintro _ w as hvw ⟨vs, rfl, has⟩
  obtain ⟨ws, rfl, hws⟩ := hvw.reordered.arr
  refine ⟨ws, rfl, ?_⟩
  clear hvw
  induction hws generalizing as with
  | nil => exact has
  | cons hhead _ ih =>
    cases has with
    | cons ha has => exact .cons (h _ _ _ (.leaf hhead) ha) (ih _ has)

end Keeps

section Parts

theorem keeps_isText : Keeps .leaf Value.IsText := by
  rintro _ w s hvw rfl
  exact hvw.eq_str

theorem keeps_isCount : Keeps .leaf Value.IsCount := by
  rintro _ w n hvw ⟨x, rfl, hx⟩
  exact ⟨x, hvw.reordered.eq_of_leaf rfl rfl, hx⟩

theorem keeps_isExpression : Keeps .leaf Value.IsExpression := keeps_isText.and _

theorem keeps_isName (names : List String) : Keeps .leaf (Value.IsName names) := keeps_isText.and _

theorem keeps_isTemplate (names : List String) : Keeps .leaf (Value.IsTemplate names) := keeps_isText.and _

theorem Alike.eq_some_str {x y : Option Value} {s : String} (h : Alike .leaf x y) (hx : x = some (.str s)) :
    y = some (.str s) := by
  obtain ⟨w, hw, rfl⟩ := keeps_isText.required h ⟨_, hx, rfl⟩
  exact hw

theorem keeps_constraint (declared : List String) : Keeps (.one .constraint) (Constraint.Reads declared) := by
  intro v w c hvw hc
  have hget {key : String} (hmem : (key, Slot.leaf) ∈ Part.constraint.slots (typeWord v)) := hvw.get? hmem
  exact
    { capture := (keeps_isName declared).required (hget (by simp)) hc.capture
      mustMatch := keeps_isExpression.option (hget (by simp)) hc.mustMatch
      mustNotMatch := keeps_isExpression.option (hget (by simp)) hc.mustNotMatch
      equals := keeps_isText.option (hget (by simp)) hc.equals
      notEquals := keeps_isText.option (hget (by simp)) hc.notEquals
      kinds := ((keeps_isText.and _).leaves.and _).option (hget (by simp)) hc.kinds }

/-- The keys that are read of a clause of this type. -/
theorem slots_of_type {v : Value} {word : String} (h : v.get? "type" = some (.str word)) (part : Part) :
    part.slots (typeWord v) = part.slots (some word) := by
  rw [typeWord, h]
  rfl

/-- Clauses, by the levels of nesting that are left. -/
theorem keeps_clause (room : Nat) (place : Place) : Keeps (.one .clause) (Clause.Reads room place) := by
  induction room generalizing place with
  | zero => exact fun _ _ _ _ h => h.elim
  | succ room ih =>
    intro v w c hvw hc
    have htype {word : String} (h : v.get? "type" = some (.str word)) : w.get? "type" = some (.str word) :=
      (hvw.get? (show ("type", Slot.leaf) ∈ _ by simp)).eq_some_str h
    have hget {word key : String} {slot : Slot} (h : v.get? "type" = some (.str word))
        (hmem : (key, slot) ∈ Part.clause.slots (some word)) : Alike slot (v.get? key) (w.get? key) :=
      hvw.get? (slots_of_type h _ ▸ hmem)
    cases c with
    | structural query focus constraints =>
      obtain ⟨hword, hquery, q, hq, hfocus, hwhere⟩ := hc
      exact ⟨htype hword, (hget hword (by simp)).eq_some_str hquery, q, hq,
        (keeps_isName _).option (hget hword (by simp)) hfocus,
        (keeps_constraint _).parts.option (hget hword (by simp)) hwhere⟩
    | textual regex flags constraints =>
      obtain ⟨hword, hregex, hfull, hflags, hcompiles, hwhere⟩ := hc
      exact ⟨htype hword, (hget hword (by simp)).eq_some_str hregex, hfull,
        keeps_isText.option (hget hword (by simp)) hflags, hcompiles,
        (keeps_constraint _).parts.option (hget hword (by simp)) hwhere⟩
    | all clauses =>
      obtain ⟨hword, hlist, hpositive⟩ := hc
      exact ⟨htype hword, (ih .inAll).parts.required (hget hword (by simp)) hlist, hpositive⟩
    | any clauses =>
      obtain ⟨hword, hlist, hne⟩ := hc
      exact ⟨htype hword, (ih .elsewhere).parts.required (hget hword (by simp)) hlist, hne⟩
    | guard kind clause =>
      obtain ⟨hword, hplace, hinner⟩ := hc
      have hmem : ("clause", Slot.one .clause) ∈ Part.clause.slots (some kind.word) := by
        cases kind <;> simp [GuardKind.word]
      exact ⟨htype hword, hplace, (ih .elsewhere).required (hget hword hmem) hinner⟩
    | shared | other => exact hc.elim

theorem keeps_edit (names : List String) : Keeps (.one .edit) (EditTemplate.Reads names) := by
  intro v w e hvw he
  have hget {key : String} {slot : Slot} (hmem : (key, slot) ∈ Part.edit.slots (some e.kind.word)) :
      Alike slot (v.get? key) (w.get? key) := hvw.get? (slots_of_type he.kind.2 _ ▸ hmem)
  refine ⟨⟨he.kind.1, (hget (show ("type", Slot.leaf) ∈ _ by simp)).eq_some_str he.kind.2⟩,
    (keeps_isName names).option (hget (by simp)) he.target, ?_⟩
  have hcontent := he.content
  split_ifs at hcontent ⊢ with hremove
  · exact hcontent
  · obtain ⟨u, text, hu, htext, hwithin⟩ := hcontent
    have hmem : ("content", Slot.leaf) ∈ Part.edit.slots (some e.kind.word) := by
      cases hkind : e.kind <;> simp_all [EditKind.word]
    obtain ⟨u', hu', hwithin'⟩ := (keeps_isTemplate names).required (hget hmem) ⟨u, hu, hwithin⟩
    exact ⟨u', text, hu', htext, hwithin'⟩

theorem keeps_fix (names : List String) : Keeps (.one .fix) (FixTemplate.Reads names) := by
  intro v w f hvw hf
  exact ⟨(keeps_isTemplate names).option (hvw.get? (by simp)) hf.description,
    (keeps_edit names).parts.required (hvw.get? (by simp)) hf.edits.1, hf.edits.2⟩

theorem keeps_expected : Keeps (.one .expected) Expected.Reads := by
  intro v w e hvw he
  have hget {key : String} (hmem : (key, Slot.leaf) ∈ Part.expected.slots (typeWord v)) := hvw.get? hmem
  exact
    { line := keeps_isCount.required (hget (by simp)) he.line
      column := keeps_isCount.option (hget (by simp)) he.column
      endLine := keeps_isCount.option (hget (by simp)) he.endLine
      endColumn := keeps_isCount.option (hget (by simp)) he.endColumn
      ruleId := he.ruleId.trans (hget (by simp)).bind_str? }

theorem keeps_fixture : Keeps (.one .fixture) Fixture.Reads := by
  intro v w f hvw hf
  have hget {key : String} {slot : Slot} (hmem : (key, slot) ∈ Part.fixture.slots (typeWord v)) := hvw.get? hmem
  exact
    { code := (hget (by simp)).eq_some_str hf.code
      expected := keeps_expected.parts.required (hget (by simp)) hf.expected
      name := hf.name.trans (hget (by simp)).bind_str?
      filename := hf.filename.trans (hget (by simp)).bind_str? }

theorem keeps_rule : Keeps (.one .rule) Rule.Reads := by
  intro v w rule hvw h
  have hget {key : String} {slot : Slot} (hmem : (key, slot) ∈ Part.rule.slots (typeWord v)) := hvw.get? hmem
  obtain ⟨id, hid, hnonblank⟩ := h.id
  obtain ⟨_, named, hlanguages, hlist, hnamed⟩ := h.languages
  have hnames : Keeps .leaf (Value.IsList fun w (l : Language) => w.IsText l.name) :=
    Keeps.leaves fun v w l hvw hl => keeps_isText v w l.name hvw hl
  obtain ⟨u, hu, hlist'⟩ := hnames.required (hget (by simp)) ⟨_, hlanguages, hlist⟩
  exact
    { id := ⟨id, (hget (by simp)).eq_some_str hid, hnonblank⟩
      languages := ⟨u, named, hu, hlist', hnamed⟩
      severity := (hget (by simp)).eq_some_str h.severity
      message := ⟨(keeps_isTemplate _).required (hget (by simp)) h.message.1, h.message.2⟩
      patterns := ⟨(keeps_clause _ _).parts.required (hget (by simp)) h.patterns.1, h.patterns.2⟩
      fix := (keeps_fix _).option (hget (by simp)) h.fix
      tests := keeps_fixture.parts.option (hget (by simp)) h.tests
      tags := keeps_isText.leaves.option (hget (by simp)) h.tags
      name := keeps_isText.option (hget (by simp)) h.name
      description := keeps_isText.option (hget (by simp)) h.description
      category := keeps_isText.option (hget (by simp)) h.category
      checksum := keeps_isText.option (hget (by simp)) h.checksum
      checksum_eq := h.checksum_eq }

end Parts

theorem rule_of_reads {v : Value} {rule : Rule} (h : Rule.Reads v rule) : (checkRule (some v)).rule = some rule := by
  rw [checkRule_of_passes (passes_iff_reads.mpr h)]

/-- Values that differ only in the order of members, and in members that are ignored, are accepted as the same rule,
or both refused. -/
theorem rule_eq_of_alike {v w : Value} (h : Alike (.one .rule) (some v) (some w)) (hv : v.DistinctKeys) :
    (checkRule (some v)).rule = (checkRule (some w)).rule := by
  have hkept {v w : Value} {rule : Rule} (h : Alike (.one .rule) (some v) (some w))
      (hrule : (checkRule (some v)).rule = some rule) : (checkRule (some w)).rule = some rule := by
    obtain ⟨_, ⟨⟩, hreads⟩ := reads_of_checkRule hrule
    exact rule_of_reads (keeps_rule v w rule h hreads)
  have hback := h.symm fun u hu => by
    cases hu
    exact hv
  ext rule
  exact ⟨hkept h, hkept hback⟩

end Validation

end RuleScan
