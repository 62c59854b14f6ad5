import Mathlib.Data.List.Induction
import Mathlib.Data.List.TakeWhile
import RuleScan.Proofs.Rule.Reading

/-! What the checks of texts, constraints and clauses accept. Each check is described by one equivalence: it finds
no issue and has this result exactly if the value stands for it. -/
namespace RuleScan

section Rel

variable {α β : Type} {R : α → β → Prop} {a : α} {o : Option β}

@[simp] theorem rel_none_iff : Option.Rel R none o ↔ o = none := by
  constructor
  · rintro ⟨⟩
    rfl
  · rintro rfl
    exact .none

@[simp] theorem rel_some_iff : Option.Rel R (some a) o ↔ ∃ b, o = some b ∧ R a b := by
  constructor
  · rintro ⟨h⟩
    exact ⟨_, rfl, h⟩
  · rintro ⟨b, rfl, h⟩
    exact .some h

/-- A partial map that drops nothing. -/
theorem filterMap_eq_and_length_iff (f : α → Option β) (as : List α) (bs : List β) :
    as.filterMap f = bs ∧ (as.filterMap f).length = as.length ↔ List.Forall₂ (fun a b => f a = some b) as bs := by
  induction as generalizing bs with
  | nil => simp [eq_comm]
  | cons a as ih =>
    cases ha : f a with
    | none =>
      have hle := List.length_filterMap_le f as
      rw [List.filterMap_cons_none ha, List.length_cons, List.forall₂_cons_left_iff]
      constructor
      · rintro ⟨-, hlength⟩
        omega
      · rintro ⟨b, bs, hb, -⟩
        exact nomatch ha.symm.trans hb
    | some b =>
      rw [List.filterMap_cons_some ha, List.length_cons, List.length_cons, List.forall₂_cons_left_iff]
      constructor
      · rintro ⟨rfl, hlength⟩
        exact ⟨b, _, ha, (ih _).mp ⟨rfl, by omega⟩, rfl⟩
      · rintro ⟨b', bs, hb, hbs, rfl⟩
        obtain ⟨hrest, hlength⟩ := (ih bs).mpr hbs
        rw [hrest] at hlength ⊢
        exact ⟨by rw [Option.some.inj (ha.symm.trans hb)], by omega⟩

end Rel

namespace Text

theorem trim_isEmpty_iff (s : String) : (trim s).isEmpty = true ↔ ¬NonBlank s := by
  have hnone : ¬NonBlank s ↔ ∀ c ∈ s.toList, isBlank c = true := by
    simp [NonBlank]
  have htrim : (trim s).isEmpty = true ↔ ∀ c ∈ s.toList.dropWhile isBlank, isBlank c = true := by
    rw [String.isEmpty_iff, trim, String.ofList_eq_empty_iff, List.reverse_eq_nil_iff, List.dropWhile_eq_nil_iff]
    simp only [List.mem_reverse]
  rw [hnone, htrim]
  constructor
  · intro h c hc
    rw [← List.takeWhile_append_dropWhile (p := isBlank) (l := s.toList)] at hc
    rcases List.mem_append.mp hc with hc | hc
    · exact List.all_eq_true.mp List.all_takeWhile c hc
    · exact h c hc
  · exact fun h c hc => h c ((List.dropWhile_sublist _).subset hc)

theorem isBlank_of_between {a b c : Char} (hlow : 0x20 < a.toNat) (ha : a ≤ c) (hb : c ≤ b) (hhigh : b.toNat < 0xA0) :
    isBlank c = false := by
  have hac : a.toNat ≤ c.toNat := ha
  have hcb : c.toNat ≤ b.toNat := hb
  unfold isBlank isBlankCode
  simp
  omega

end Text

namespace Validation

theorem text?_eq_some_iff {raw : Option Value} {s : String} :
    text? raw = some s ↔ raw = some (.str s) ∧ Text.NonBlank s := by
  unfold text?
  split
  · next t =>
    have ht := Text.trim_isEmpty_iff t
    split
    · next hempty =>
      refine ⟨nofun, ?_⟩
      rintro ⟨⟨⟩, hs⟩
      exact absurd hs (ht.mp hempty)
    · next hfull =>
      constructor
      · rintro ⟨⟩
        exact ⟨rfl, not_not.mp (mt ht.mpr hfull)⟩
      · rintro ⟨⟨⟩, -⟩
        rfl
  · next hne =>
    refine ⟨nofun, ?_⟩
    rintro ⟨rfl, -⟩
    exact absurd rfl (hne s)

theorem count?_eq_some_iff {raw : Option Value} {n : Nat} :
    count? raw = some n ↔ ∃ v, raw = some v ∧ v.IsCount n := by
  unfold count? Value.IsCount
  split
  · next x =>
    simp only [Option.some.injEq, exists_eq_left', Value.num.injEq]
    split
    · next hzero =>
      refine ⟨nofun, ?_⟩
      rintro ⟨hn, hpos⟩
      rw [hzero] at hn
      cases hn
      cases hpos
    · next hne =>
      refine ⟨fun h => ⟨h, ?_⟩, fun h => h.1⟩
      by_contra hpos
      obtain rfl : n = 0 := by omega
      exact hne h
  · next hne =>
    refine ⟨nofun, ?_⟩
    rintro ⟨v, rfl, x, rfl, -⟩
    exact absurd rfl (hne x)

/-- The check finds no issue, and this is its result. -/
def Checked.Gives {α : Type} (c : Checked α) (a : α) : Prop := c.issues = [] ∧ c.result = a

@[simp] theorem gives_of_nil {α : Type} {a b : α} : (⟨a, []⟩ : Checked α).Gives b ↔ a = b := by
  simp [Checked.Gives]

@[simp] theorem not_gives_of_cons {α : Type} {a b : α} {issue : Issue} {issues : List Issue} :
    ¬(⟨a, issue :: issues⟩ : Checked α).Gives b := by
  simp [Checked.Gives]

@[simp] theorem gives_some_iff {α : Type} {c : Checked α} {o : Option α} :
    (⟨some c.result, c.issues⟩ : Checked (Option α)).Gives o ↔ ∃ a, o = some a ∧ c.Gives a := by
  constructor
  · rintro ⟨hissues, rfl⟩
    exact ⟨_, rfl, hissues, rfl⟩
  · rintro ⟨a, rfl, hissues, rfl⟩
    exact ⟨hissues, rfl⟩

/-- Checks that each accept exactly what stands for an item accept exactly what stands for the list. -/
theorem gives_each {α β : Type} {check : α → Nat → Checked (Option β)} {R : α → β → Prop}
    (h : ∀ x i o, (check x i).Gives o ↔ ∃ b, o = some b ∧ R x b) (items : List α) (bs : List β) :
    (each items check).Gives bs ↔ List.Forall₂ R items bs := by
  have hfrom : ∀ (n : Nat) (bs : List β),
      (((items.zipIdx n).map fun item => check item.1 item.2).flatMap (·.issues) = [] ∧
        ((items.zipIdx n).map fun item => check item.1 item.2).filterMap (·.result) = bs) ↔
        List.Forall₂ R items bs := by
    clear bs
    induction items with
    | nil => simp [eq_comm]
    | cons x items ih =>
      intro n bs
      rw [List.zipIdx_cons, List.map_cons, List.flatMap_cons, List.append_eq_nil_iff, List.forall₂_cons_left_iff]
      constructor
      · rintro ⟨⟨hissues, hrest⟩, rfl⟩
        obtain ⟨b, hb, hR⟩ := (h x n _).mp ⟨hissues, rfl⟩
        exact ⟨b, _, hR, (ih (n + 1) _).mp ⟨hrest, rfl⟩, List.filterMap_cons_some hb⟩
      · rintro ⟨b, bs, hR, hbs, rfl⟩
        obtain ⟨hissues, hb⟩ := (h x n (some b)).mpr ⟨b, rfl, hR⟩
        obtain ⟨hrest, hresults⟩ := (ih (n + 1) bs).mpr hbs
        exact ⟨⟨hissues, hrest⟩, by rw [List.filterMap_cons_some hb, hresults]⟩
  exact hfrom 0 bs

section Checks

variable {path key : String} {raw : Option Value}

theorem gives_checkExpression {o : Option String} :
    (checkExpression path key raw).Gives o ↔ Option.Rel Value.IsExpression raw o := by
  unfold checkExpression Value.IsExpression Value.IsText
  split
  · simp [eq_comm]
  · next source =>
    split
    · next program hp => simp [hp, eq_comm]
    · next e he => simp [he]
  · next v hne => simpa using fun source _ hv => absurd hv (hne source)

theorem gives_checkText {o : Option String} : (checkText path key raw).Gives o ↔ Option.Rel Value.IsText raw o := by
  unfold checkText Value.IsText
  split
  · simp [eq_comm]
  · simp [eq_comm]
  · next v hne => simpa using fun s _ hv => absurd hv (hne s)

theorem gives_checkKinds {o : Option (List String)} :
    (checkKinds path raw).Gives o ↔
      Option.Rel (fun w kinds => w.IsList (fun w kind => w.IsText kind ∧ Text.NonBlank kind) kinds ∧ kinds ≠ [])
        raw o := by
  have hkind : (fun (w : Value) (kind : String) => w.IsText kind ∧ Text.NonBlank kind) =
      fun w kind => text? (some w) = some kind := by
    funext w kind
    simp [text?_eq_some_iff, Value.IsText]
  rw [hkind]
  unfold checkKinds
  split
  · simp [eq_comm]
  · next v =>
    dsimp only
    split
    · next items =>
      have hfull := filterMap_eq_and_length_iff (fun w => text? (some w)) items
      split
      · next hbad =>
        rw [Bool.or_eq_true, List.isEmpty_iff, decide_eq_true_eq] at hbad
        simp only [checkKinds.issue, not_gives_of_cons, rel_some_iff, false_iff]
        rintro ⟨kinds, rfl, ⟨_, ⟨⟩, hkinds⟩, hne⟩
        obtain ⟨rfl, hlength⟩ := (hfull kinds).mpr hkinds
        rcases hbad with rfl | hbad
        · exact hne rfl
        · exact hbad hlength
      · next hgood =>
        rw [Bool.or_eq_true, List.isEmpty_iff, decide_eq_true_eq, not_or, not_not] at hgood
        simp only [gives_of_nil, rel_some_iff]
        constructor
        · rintro rfl
          refine ⟨_, rfl, ⟨items, rfl, (hfull _).mp ⟨rfl, hgood.2⟩⟩, ?_⟩
          rw [← List.length_pos_iff, hgood.2, List.length_pos_iff]
          exact hgood.1
        · rintro ⟨kinds, rfl, ⟨_, ⟨⟩, hkinds⟩, -⟩
          rw [← ((hfull kinds).mpr hkinds).1]
          rfl
    · next hne =>
      simp only [checkKinds.issue, not_gives_of_cons, rel_some_iff, false_iff]
      rintro ⟨kinds, rfl, ⟨items, rfl, -⟩, -⟩
      exact absurd rfl (hne items)

theorem gives_checkConstraint (path : String) {declared : List String}
    (hnames : ∀ name ∈ declared, Text.NonBlank name) (v : Value) (index : Nat) (o : Option Constraint) :
    (checkConstraint path declared v index).Gives o ↔ ∃ c, o = some c ∧ Constraint.Reads declared v c := by
  unfold checkConstraint
  dsimp only
  split
  · next hnone =>
    simp only [not_gives_of_cons, false_iff]
    rintro ⟨c, rfl, ⟨w, hget, rfl, hmem⟩, -⟩
    rw [hget, text?_eq_some_iff.mpr ⟨rfl, hnames _ hmem⟩] at hnone
    cases hnone
  · next capture hsome =>
    obtain ⟨hget, -⟩ := text?_eq_some_iff.mp hsome
    simp only [Checked.Gives, List.append_eq_nil_iff]
    constructor
    · rintro ⟨⟨⟨⟨⟨⟨hunknown, hm⟩, hn⟩, he⟩, hd⟩, hk⟩, rfl⟩
      refine ⟨_, rfl, ⟨_, hget, rfl, ?_⟩, gives_checkExpression.mp ⟨hm, rfl⟩, gives_checkExpression.mp ⟨hn, rfl⟩,
        gives_checkText.mp ⟨he, rfl⟩, gives_checkText.mp ⟨hd, rfl⟩, gives_checkKinds.mp ⟨hk, rfl⟩⟩
      by_contra hmem
      simp [hmem] at hunknown
    · rintro ⟨c, rfl, hc⟩
      obtain ⟨w, hw, rfl, hmem⟩ := hc.capture
      obtain rfl : capture = c.capture := by simpa using hget.symm.trans hw
      obtain ⟨hm, hmr⟩ := gives_checkExpression.mpr hc.mustMatch
      obtain ⟨hn, hnr⟩ := gives_checkExpression.mpr hc.mustNotMatch
      obtain ⟨he, her⟩ := gives_checkText.mpr hc.equals
      obtain ⟨hd, hdr⟩ := gives_checkText.mpr hc.notEquals
      obtain ⟨hk, hkr⟩ := gives_checkKinds.mpr hc.kinds
      exact ⟨⟨⟨⟨⟨⟨by simp [hmem], hm⟩, hn⟩, he⟩, hd⟩, hk⟩, by rw [hmr, hnr, her, hdr, hkr]⟩

theorem gives_checkWhere (path : String) {declared : List String} (hnames : ∀ name ∈ declared, Text.NonBlank name)
    (raw : Option Value) (o : Option (List Constraint)) : (checkWhere path declared raw).Gives o ↔
      Option.Rel (Value.IsList (Constraint.Reads declared)) raw o := by
  unfold checkWhere Value.IsList
  split
  · simp [eq_comm]
  · simp [gives_each (gives_checkConstraint path hnames)]
  · next v hne =>
    simp only [not_gives_of_cons, rel_some_iff, false_iff]
    rintro ⟨cs, rfl, items, rfl, -⟩
    exact absurd rfl (hne items)

/-- A choice among names, if there is one, has to be made well. -/
theorem choice_iff (raw : Option Value) (names : List String) (o : Option String) :
    ((raw.isSome && ((raw.bind Value.str?).filter names.contains).isNone) = false ∧
      (raw.bind Value.str?).filter names.contains = o) ↔ Option.Rel (Value.IsName names) raw o := by
  cases raw with
  | none => simp [eq_comm]
  | some v =>
    simp only [rel_some_iff, Value.IsName, Value.IsText]
    cases v with
    | str name =>
      by_cases hmem : name ∈ names
      · simp [Value.str?, Option.filter, hmem, eq_comm]
      · simp [Value.str?, Option.filter, hmem]
    | _ => simp [Value.str?]

end Checks

/-! Clauses. -/

namespace ClauseCheck

def checked (o : ClauseCheck) : Checked (Option Clause) := ⟨o.clause, o.issues⟩

/-- The check accepts exactly these clauses, and declares what a match of them can bind. -/
structure Decides (o : ClauseCheck) (R : Clause → Prop) : Prop where
  gives : ∀ c?, o.checked.Gives c? ↔ ∃ c, c? = some c ∧ R c
  captures : ∀ c, R c → o.captures = c.bindable

variable {o : ClauseCheck} {R S : Clause → Prop}

theorem Decides.congr (h : o.Decides R) (hRS : ∀ c, S c ↔ R c) : o.Decides S := by
  obtain rfl : S = R := funext fun c => propext (hRS c)
  exact h

end ClauseCheck

theorem decides_refuse {R : Clause → Prop} (h : ∀ c, ¬R c) (issue : Issue) : (refuse issue).Decides R where
  gives _ := ⟨nofun, fun ⟨c, _, hc⟩ => absurd hc (h c)⟩
  captures c hc := absurd hc (h c)

theorem nonBlank_of_isCaptureName {name : String} (h : Query.IsCaptureName name) : Text.NonBlank name := by
  obtain ⟨hne, hparts⟩ := h
  obtain ⟨c, cs, hcs⟩ := List.exists_cons_of_ne_nil hne
  have hc : c ∈ name.toList := hcs ▸ List.mem_cons_self
  have hpart := hparts c hc
  simp only [Query.isCapturePart, Query.isLetter, Query.isNumeral, Bool.or_eq_true, Bool.and_eq_true,
    decide_eq_true_eq] at hpart
  refine ⟨c, hc, ?_⟩
  rcases hpart with ((((hpart | hpart) | hpart) | rfl) | rfl) | rfl
  · exact Text.isBlank_of_between (by decide) hpart.1 hpart.2 (by decide)
  · exact Text.isBlank_of_between (by decide) hpart.1 hpart.2 (by decide)
  · exact Text.isBlank_of_between (by decide) hpart.1 hpart.2 (by decide)
  all_goals decide

theorem nonBlank_of_groupName? {cs name rest : List Char} (h : Textual.groupName? cs = some (name, rest)) :
    Text.NonBlank (String.ofList name) := by
  unfold Textual.groupName? at h
  split at h
  · next c tail =>
    split at h
    · next hstart =>
      split at h
      · cases h
        refine ⟨c, by simp, ?_⟩
        simp only [Textual.isNameStart, Bool.or_eq_true, Bool.and_eq_true, decide_eq_true_eq] at hstart
        rcases hstart with ((hstart | hstart) | rfl) | rfl
        · exact Text.isBlank_of_between (by decide) hstart.1 hstart.2 (by decide)
        · exact Text.isBlank_of_between (by decide) hstart.1 hstart.2 (by decide)
        all_goals decide
      · cases h
    · cases h
  · cases h

theorem nonBlank_of_mem_groupNames (regex : String) : ∀ name ∈ Textual.groupNames regex, Text.NonBlank name := by
  have hfrom : ∀ (fuel : Nat) (cs : List Char), ∀ name ∈ Textual.groupNamesFrom fuel cs, Text.NonBlank name := by
    intro fuel cs
    fun_induction Textual.groupNamesFrom fuel cs with
    | case1 => exact nofun
    | case2 => exact nofun
    | case3 fuel c rest word after hword ih => exact List.forall_mem_cons.mpr ⟨nonBlank_of_groupName? hword, ih⟩
    | case4 fuel c rest hnone ih => exact ih
  exact hfrom _ _

/-- Where no name is blank, a choice that is not blank is any choice. -/
theorem filter_text?_eq {raw : Option Value} {names : List String} (hnames : ∀ name ∈ names, Text.NonBlank name) :
    (text? raw).filter names.contains = (raw.bind Value.str?).filter names.contains := by
  unfold text?
  split
  · next s =>
    split
    · next hempty =>
      have hmem : s ∉ names := fun hs => (Text.trim_isEmpty_iff s).mp hempty (hnames s hs)
      simp [Value.str?, Option.filter, hmem]
    · rfl
  · next hne =>
    cases raw with
    | none => rfl
    | some v =>
      cases v with
      | str s => exact absurd rfl (hne s)
      | _ => rfl

theorem decides_checkStructural (path : String) (v : Value) :
    (checkStructural path v).Decides fun c =>
      ∃ query focus constraints, c = .structural query focus constraints ∧
        Clause.ReadsStructural v query focus constraints := by
  unfold checkStructural
  split
  · next hnone =>
    refine decides_refuse ?_ _
    rintro c ⟨query, focus, constraints, rfl, hget, q, hq, -⟩
    rw [hget, text?_eq_some_iff.mpr ⟨rfl, Query.exists_not_blank_of_parse hq⟩] at hnone
    cases hnone
  next query hsome =>
  obtain ⟨hget, -⟩ := text?_eq_some_iff.mp hsome
  split
  · next e he =>
    refine decides_refuse ?_ _
    rintro c ⟨_, focus, constraints, rfl, hget', q, hq, -⟩
    obtain rfl : query = _ := by simpa using hget.symm.trans hget'
    rw [he] at hq
    cases hq
  next q hq =>
  have hnames : ∀ name ∈ q.captureNames, Text.NonBlank name := fun name hname =>
    nonBlank_of_isCaptureName (Query.isCaptureName_of_parse hq name hname)
  have hfocus := choice_iff (v.get? "focus") q.captureNames
  rw [← filter_text?_eq hnames] at hfocus
  constructor
  · intro c?
    simp only [ClauseCheck.checked, Checked.Gives, List.append_eq_nil_iff, ite_eq_right_iff, reduceCtorEq,
      imp_false, Bool.not_eq_true]
    constructor
    · rintro ⟨⟨hf, hw⟩, rfl⟩
      exact ⟨_, rfl, query, _, _, rfl, hget, q, hq, (hfocus _).mp ⟨hf, rfl⟩,
        (gives_checkWhere _ hnames _ _).mp ⟨hw, rfl⟩⟩
    · rintro ⟨_, rfl, query', focus, constraints, rfl, hget', q', hq', hf, hw⟩
      obtain rfl : query = query' := by simpa using hget.symm.trans hget'
      obtain rfl : q = q' := Except.ok.inj (hq.symm.trans hq')
      obtain ⟨hchosen, rfl⟩ := (hfocus _).mpr hf
      obtain ⟨hwhere, rfl⟩ := (gives_checkWhere (path ++ ".where") hnames _ _).mpr hw
      exact ⟨⟨hchosen, hwhere⟩, rfl⟩
  · rintro _ ⟨query', focus, constraints, rfl, hget', -⟩
    obtain rfl : query = query' := by simpa using hget.symm.trans hget'
    simp only [Clause.bindable, hq]

theorem not_rel_of_isText {R : Value → String → Prop} (hR : ∀ v s, R v s → v.IsText s) {raw : Option Value}
    (hnone : raw ≠ none) (htext : ∀ s, raw ≠ some (.str s)) {o : Option String} : ¬Option.Rel R raw o := by
  cases raw with
  | none => exact absurd rfl hnone
  | some v =>
    rw [rel_some_iff]
    rintro ⟨s, -, hs⟩
    exact htext s (congrArg some (hR v s hs))

/-- A textual clause whose flags are known. -/
theorem decides_textual {v : Value} {regex : String} (hget : v.get? "regex" = some (.str regex))
    (hfull : Text.NonBlank regex) {flags : Option String}
    (hflags : ∀ o, Option.Rel Value.IsText (v.get? "flags") o ↔ o = flags) (path : String)
    (issue : Regex.CompileError → Issue) :
    ClauseCheck.Decides
      (match Regex.compile regex (Textual.flags flags) with
      | .error e => refuse (issue e)
      | .ok _ =>
        let constraints := checkWhere path (Textual.groupNames regex) (v.get? "where")
        { clause := some (.textual regex flags constraints.result), issues := constraints.issues
          captures := Textual.groupNames regex })
      fun c => ∃ regex flags constraints, c = .textual regex flags constraints ∧
        Clause.ReadsTextual v regex flags constraints := by
  have hregex : ∀ {regex'}, v.get? "regex" = some (.str regex') → regex = regex' := by
    intro regex' hget'
    simpa using hget.symm.trans hget'
  have hwhere := gives_checkWhere path (nonBlank_of_mem_groupNames regex) (v.get? "where")
  split
  · next e he =>
    refine decides_refuse ?_ _
    rintro c ⟨_, flags', constraints, rfl, hget', -, hf, ⟨program, hp⟩, -⟩
    rw [← hregex hget', (hflags flags').mp hf, he] at hp
    cases hp
  · next program hp =>
    constructor
    · intro c?
      constructor
      · rintro ⟨hw, rfl⟩
        exact ⟨_, rfl, regex, flags, _, rfl, hget, hfull, (hflags flags).mpr rfl, ⟨program, hp⟩,
          (hwhere _).mp ⟨hw, rfl⟩⟩
      · rintro ⟨_, rfl, _, flags', constraints, rfl, hget', -, hf, -, hw⟩
        obtain rfl := hregex hget'
        obtain rfl := (hflags flags').mp hf
        obtain ⟨hissues, rfl⟩ := (hwhere _).mpr hw
        exact ⟨hissues, rfl⟩
    · rintro _ ⟨_, flags', constraints, rfl, hget', -⟩
      rw [Clause.bindable, hregex hget']

theorem decides_checkTextual (path : String) (v : Value) :
    (checkTextual path v).Decides fun c =>
      ∃ regex flags constraints, c = .textual regex flags constraints ∧
        Clause.ReadsTextual v regex flags constraints := by
  unfold checkTextual
  split
  · next hnone =>
    refine decides_refuse ?_ _
    rintro c ⟨regex, flags, constraints, rfl, hget, hfull, -⟩
    rw [hget, text?_eq_some_iff.mpr ⟨rfl, hfull⟩] at hnone
    cases hnone
  next regex hsome =>
  obtain ⟨hget, hfull⟩ := text?_eq_some_iff.mp hsome
  dsimp only
  split
  · next hnone =>
    refine decides_textual hget hfull ?_ _ _
    simp [hnone]
  · next flags hsome =>
    refine decides_textual hget hfull ?_ _ _
    simp [hsome, Value.IsText]
  · next hne hstr =>
    refine decides_refuse ?_ _
    rintro c ⟨regex', flags, constraints, rfl, -, -, hf, -⟩
    exact not_rel_of_isText (fun _ _ => id) hne hstr hf

section Lists

variable {check : Value → Nat → ClauseCheck} {R : Value → Clause → Prop} (h : ∀ v i, (check v i).Decides (R v))

include h

theorem clauses_iff (items : List Value) (cs : List Clause) :
    ((items.zipIdx.map fun (v, i) => check v i).flatMap (·.issues) = [] ∧
      (items.zipIdx.map fun (v, i) => check v i).filterMap (·.clause) = cs) ↔ List.Forall₂ R items cs := by
  rw [← gives_each fun v i => (h v i).gives]
  unfold Checked.Gives each
  simp only [List.flatMap_map, List.filterMap_map]
  rfl

theorem captures_of_forall₂ {items : List Value} {cs : List Clause} (hcs : List.Forall₂ R items cs) :
    (items.zipIdx.map fun (v, i) => check v i).flatMap (·.captures) = Clause.bindableEach cs := by
  have hfrom : ∀ n, ((items.zipIdx n).map fun (v, i) => check v i).flatMap (·.captures) = Clause.bindableEach cs := by
    induction hcs with
    | nil =>
      intro n
      rw [Clause.bindableEach]
      rfl
    | @cons v c items cs hc hcs ih =>
      intro n
      rw [List.zipIdx_cons, List.map_cons, List.flatMap_cons, Clause.bindableEach, ih, (h v n).captures c hc]
  exact hfrom 0

theorem decides_checkComposite (path type : String) (conjunction : Bool) (items : List Value) :
    (checkComposite path type conjunction (items.zipIdx.map fun (v, i) => check v i)).Decides fun c =>
      ∃ cs, c = (if conjunction then Clause.all cs else Clause.any cs) ∧ List.Forall₂ R items cs ∧
        (conjunction = true → ∃ c ∈ cs, c.isGuard = false) := by
  have hclauses := clauses_iff h items
  have hcaptures : ∀ c : Clause, (∃ cs, c = (if conjunction then Clause.all cs else Clause.any cs) ∧
      List.Forall₂ R items cs ∧ (conjunction = true → ∃ c ∈ cs, c.isGuard = false)) →
      (items.zipIdx.map fun (v, i) => check v i).flatMap (·.captures) = c.bindable := by
    rintro _ ⟨cs, rfl, hcs, -⟩
    rw [captures_of_forall₂ h hcs]
    cases conjunction <;> simp [Clause.bindable]
  unfold checkComposite
  dsimp only
  split
  · next hlength =>
    refine ⟨fun c? => ⟨?_, ?_⟩, hcaptures⟩
    · rintro ⟨hissues, -⟩
      have hforall := (hclauses _).mp ⟨hissues, rfl⟩
      exact absurd (by simpa using hforall.length_eq.symm) hlength
    · rintro ⟨_, rfl, cs, rfl, hcs, -⟩
      rw [((hclauses cs).mpr hcs).2] at hlength
      exact absurd (by simpa using hcs.length_eq.symm) hlength
  split
  · next hguards =>
    rw [Bool.and_eq_true, List.all_eq_true] at hguards
    refine ⟨fun c? => ⟨?_, ?_⟩, hcaptures⟩
    · rintro ⟨hissues, -⟩
      cases (List.append_eq_nil_iff.mp hissues).2
    · rintro ⟨_, rfl, cs, rfl, hcs, hpositive⟩
      obtain ⟨c, hc, hguard⟩ := hpositive hguards.1
      rw [((hclauses cs).mpr hcs).2] at hguards
      exact absurd (hguard.symm.trans (hguards.2 c hc)) Bool.false_ne_true
  · next hpositive =>
    refine ⟨fun c? => ⟨?_, ?_⟩, hcaptures⟩
    · rintro ⟨hissues, rfl⟩
      refine ⟨_, rfl, _, rfl, (hclauses _).mp ⟨hissues, rfl⟩, ?_⟩
      rintro rfl
      rw [Bool.true_and, Bool.not_eq_true] at hpositive
      obtain ⟨c, hc, hguard⟩ := List.all_eq_false.mp hpositive
      exact ⟨c, hc, Bool.eq_false_iff.mpr hguard⟩
    · rintro ⟨_, rfl, cs, rfl, hcs, -⟩
      obtain ⟨hissues, rfl⟩ := (hclauses cs).mpr hcs
      exact ⟨hissues, rfl⟩

end Lists

end Validation

/-! The type of a value tells which clauses it can stand for. -/

namespace Clause

variable {room : Nat} {place : Validation.Place} {v : Value} {c : Clause}

theorem exists_type_of_reads (h : Reads room place v c) :
    ∃ word ∈ Validation.clauseTypes, v.get? "type" = some (.str word) := by
  cases room with
  | zero => exact h.elim
  | succ room =>
    cases c with
    | structural | textual | all | any => exact ⟨_, by decide, h.1⟩
    | guard kind inner => exact ⟨_, by cases kind <;> decide, h.1⟩
    | shared | other => exact h.elim

theorem reads_structural_iff (htype : v.get? "type" = some (.str "structural")) :
    Reads (room + 1) place v c ↔
      ∃ query focus constraints, c = .structural query focus constraints ∧
        ReadsStructural v query focus constraints := by
  cases c with
  | guard kind inner => cases kind <;> simp [Reads, htype, GuardKind.word]
  | _ => simp [Reads, htype]

theorem reads_textual_iff (htype : v.get? "type" = some (.str "textual")) :
    Reads (room + 1) place v c ↔
      ∃ regex flags constraints, c = .textual regex flags constraints ∧ ReadsTextual v regex flags constraints := by
  cases c with
  | guard kind inner => cases kind <;> simp [Reads, htype, GuardKind.word]
  | _ => simp [Reads, htype]

theorem reads_all_iff (htype : v.get? "type" = some (.str "all")) :
    Reads (room + 1) place v c ↔
      ∃ clauses, c = .all clauses ∧ (∃ w, v.get? "clauses" = some w ∧ w.IsList (Reads room .inAll) clauses) ∧
        ∃ c ∈ clauses, c.isGuard = false := by
  cases c with
  | guard kind inner => cases kind <;> simp [Reads, htype, GuardKind.word]
  | _ => simp [Reads, htype]

theorem reads_any_iff (htype : v.get? "type" = some (.str "any")) :
    Reads (room + 1) place v c ↔
      ∃ clauses, c = .any clauses ∧ (∃ w, v.get? "clauses" = some w ∧ w.IsList (Reads room .elsewhere) clauses) ∧
        clauses ≠ [] := by
  cases c with
  | guard kind inner => cases kind <;> simp [Reads, htype, GuardKind.word]
  | _ => simp [Reads, htype]

theorem reads_guard_iff {kind : GuardKind} (htype : v.get? "type" = some (.str kind.word)) :
    Reads (room + 1) place v c ↔
      ∃ inner, c = .guard kind inner ∧ place = .inAll ∧
        ∃ w, v.get? "clause" = some w ∧ Reads room .elsewhere w inner := by
  cases c with
  | guard kind' inner => cases kind' <;> cases kind <;> simp [Reads, htype, GuardKind.word]
  | _ => cases kind <;> simp [Reads, htype, GuardKind.word]

end Clause

namespace Validation

section Nested

variable {room : Nat} {v : Value} {place : Place}

theorem decides_clauses {word : String} (hword : word = "all" ∨ word = "any")
    (htype : v.get? "type" = some (.str word)) {check : Value → Nat → ClauseCheck}
    (h : ∀ w i, (check w i).Decides (Clause.Reads room (if word = "all" then .inAll else .elsewhere) w))
    (path : String) (issue : Issue) :
    ClauseCheck.Decides
      (match v.get? "clauses" with
      | some (.arr (first :: rest)) =>
        checkComposite path word (word = "all") ((first :: rest).zipIdx.map fun (w, i) => check w i)
      | _ => refuse issue)
      (Clause.Reads (room + 1) place v) := by
  split
  · next first rest hitems =>
    refine (decides_checkComposite h path word (word = "all") (first :: rest)).congr fun c => ?_
    rcases hword with rfl | rfl
    · rw [Clause.reads_all_iff htype]
      simp [hitems, Value.IsList]
    · rw [Clause.reads_any_iff htype]
      have hne : ∀ clauses, List.Forall₂ (Clause.Reads room .elsewhere) (first :: rest) clauses → clauses ≠ [] := by
        rintro _ ⟨⟩
        exact List.cons_ne_nil _ _
      simpa [hitems, Value.IsList] using
        exists_congr fun clauses => and_congr_right fun _ => and_iff_left_of_imp (hne clauses)
  · next hnone =>
    -- A list of clauses that are read is not empty, so no other value stands for it.
    have hlist : ∀ (place : Place) (clauses : List Clause), clauses ≠ [] →
        ¬∃ w, v.get? "clauses" = some w ∧ w.IsList (Clause.Reads room place) clauses := by
      rintro place clauses hne ⟨_, hget, items, rfl, hclauses⟩
      cases hclauses with
      | nil => exact hne rfl
      | cons => exact hnone _ _ hget
    refine decides_refuse ?_ _
    intro c hc
    rcases hword with rfl | rfl
    · obtain ⟨clauses, -, hw, c, hmem, -⟩ := (Clause.reads_all_iff htype).mp hc
      exact hlist _ clauses (List.ne_nil_of_mem hmem) hw
    · obtain ⟨clauses, -, hw, hne⟩ := (Clause.reads_any_iff htype).mp hc
      exact hlist _ clauses hne hw

theorem decides_guard {kind : GuardKind} (htype : v.get? "type" = some (.str kind.word)) {o : ClauseCheck}
    (h : o.Decides fun c => ∃ w, v.get? "clause" = some w ∧ Clause.Reads room .elsewhere w c) :
    ClauseCheck.Decides { clause := o.clause.map (.guard kind), issues := o.issues }
      (Clause.Reads (room + 1) .inAll v) where
  gives c? := by
    simp only [Clause.reads_guard_iff htype, true_and]
    constructor
    · rintro ⟨hissues, rfl⟩
      obtain ⟨inner, hinner, hreads⟩ := (h.gives o.clause).mp ⟨hissues, rfl⟩
      exact ⟨_, congrArg (Option.map _) hinner, inner, rfl, hreads⟩
    · rintro ⟨_, rfl, inner, rfl, hreads⟩
      obtain ⟨hissues, hclause⟩ := (h.gives (some inner)).mpr ⟨inner, rfl, hreads⟩
      exact ⟨hissues, congrArg (Option.map _) hclause⟩
  captures c hc := by
    obtain ⟨inner, rfl, -⟩ := (Clause.reads_guard_iff htype).mp hc
    rw [Clause.bindable]

end Nested

/-- Checking a clause, by the levels of nesting that are left. -/
theorem decides_checkClause (room : Nat) (raw : Option Value) (path : String) (place : Place) :
    (checkClause room raw path place).Decides fun c => ∃ v, raw = some v ∧ Clause.Reads room place v c := by
  induction room generalizing raw path place with
  | zero =>
    have hnone : ∀ c, ¬∃ v, raw = some v ∧ Clause.Reads 0 place v c := by
      rintro c ⟨v, -, hc⟩
      exact hc
    rw [checkClause.eq_def]
    dsimp only
    split
    · split
      · split
        · exact decides_refuse hnone _
        · exact decides_refuse hnone _
      · exact decides_refuse hnone _
    · exact decides_refuse hnone _
  | succ room ih =>
    have hinner : ∀ (path : String) (place : Place) (v : Value),
        (checkClause room (some v) path place).Decides (Clause.Reads room place v) := fun path place v =>
      (ih (some v) path place).congr fun c => by simp
    rw [checkClause.eq_def]
    dsimp only
    split
    · next members =>
      refine ClauseCheck.Decides.congr (R := Clause.Reads (room + 1) place (.obj members)) ?_ fun c => by simp
      split
      · next word htype =>
        split
        · next hunknown =>
          refine decides_refuse ?_ _
          intro c hc
          obtain ⟨word', hword, htype'⟩ := Clause.exists_type_of_reads hc
          obtain rfl : word = word' := by simpa using htype.symm.trans htype'
          simp [hword] at hunknown
        next hknown =>
        split
        · next h =>
          exact (decides_checkStructural path _).congr fun c => Clause.reads_structural_iff (h ▸ htype)
        split
        · next h =>
          exact (decides_checkTextual path _).congr fun c => Clause.reads_textual_iff (h ▸ htype)
        split
        · next h =>
          have hword : word = "all" ∨ word = "any" := by simpa using h
          exact decides_clauses hword htype (fun w i => hinner _ _ w) path _
        next hcomposite =>
        have hguard : word = "not" ∨ word = "inside" ∨ word = "not-inside" := by
          have hmem : word ∈ clauseTypes := by simpa using hknown
          simp only [clauseTypes, List.mem_cons, List.not_mem_nil, or_false] at hmem
          simp only [Bool.or_eq_true, decide_eq_true_eq] at hcomposite
          tauto
        have hkind : (if word = "not" then GuardKind.not else if word = "inside" then .inside else .notInside).word =
            word := by
          rcases hguard with rfl | rfl | rfl <;> rfl
        rw [← hkind] at htype
        split
        · next hplace =>
          refine decides_refuse ?_ _
          intro c hc
          obtain ⟨inner, -, hin, -⟩ := (Clause.reads_guard_iff htype).mp hc
          exact hplace hin
        · next hplace =>
          obtain rfl := not_not.mp hplace
          exact decides_guard htype (ih _ _ _)
      · next hne =>
        refine decides_refuse ?_ _
        intro c hc
        obtain ⟨word, -, htype⟩ := Clause.exists_type_of_reads hc
        exact hne word htype
    · next hne =>
      refine decides_refuse ?_ _
      rintro c ⟨v, rfl, hc⟩
      obtain ⟨word, -, htype⟩ := Clause.exists_type_of_reads hc
      cases v with
      | obj members => exact hne members rfl
      | _ => cases htype

end Validation

namespace Clause

/-- Validation reads the clause from some value without finding a fault, at some place in a rule. -/
def Accepted (c : Clause) : Prop :=
  ∃ room ≤ maxDepth, ∃ raw path place, (Validation.checkClause room raw path place).clause = some c ∧
    (Validation.checkClause room raw path place).issues = []

theorem accepted_iff {c : Clause} : c.Accepted ↔ ∃ room ≤ maxDepth, ∃ place v, Reads room place v c := by
  constructor
  · rintro ⟨room, hroom, raw, path, place, hclause, hissues⟩
    have hgives := ((Validation.decides_checkClause room raw path place).gives (some c)).mp ⟨hissues, hclause⟩
    obtain ⟨_, ⟨⟩, v, -, hreads⟩ := hgives
    exact ⟨room, hroom, place, v, hreads⟩
  · rintro ⟨room, hroom, place, v, hreads⟩
    have hgives := ((Validation.decides_checkClause room (some v) "" place).gives (some c)).mpr
      ⟨c, rfl, v, rfl, hreads⟩
    exact ⟨room, hroom, some v, "", place, hgives.2, hgives.1⟩

theorem Accepted.sound {c : Clause} (h : c.Accepted) : c.Sound := by
  obtain ⟨room, -, raw, path, place, hclause, hissues⟩ := h
  obtain ⟨d, hd, hsound, -⟩ := Validation.sound_checkClause room raw path place hissues
  obtain rfl : d = c := Option.some.inj (hd.symm.trans hclause)
  exact hsound

end Clause

end RuleScan
