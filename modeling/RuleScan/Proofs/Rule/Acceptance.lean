import RuleScan.Proofs.Evaluation.Safety
import RuleScan.Rule.Validation

/-! What validation guarantees. Main statement: the clauses of an accepted rule are sound, and its
templates and edits are about declared captures. -/
namespace RuleScan

namespace Validation

theorem compiles_of_checkExpression {path key source : String} {raw : Option Value}
    (h : (checkExpression path key raw).result = some source) :
    ∃ program, Regex.compile source "" = .ok program := by
  unfold checkExpression at h
  split at h
  · cases h
  · split at h
    · next program hp =>
      cases h
      exact ⟨program, hp⟩
    · cases h
  · cases h

theorem exists_of_mem_each {α β : Type} {items : List α} {check : α → Nat → Checked (Option β)} {b : β}
    (hi : (each items check).issues = []) (hb : b ∈ (each items check).result) :
    ∃ x i, (check x i).result = some b ∧ (check x i).issues = [] := by
  obtain ⟨o, ho, hr⟩ := List.mem_filterMap.mp hb
  obtain ⟨⟨x, i⟩, hx, rfl⟩ := List.mem_map.mp ho
  exact ⟨x, i, hr, List.flatMap_eq_nil_iff.mp hi _ ho⟩

section Constraints

variable {path : String} {declared : List String}

theorem sound_of_checkConstraint {raw : Value} {index : Nat} {c : Constraint}
    (hr : (checkConstraint path declared raw index).result = some c)
    (hi : (checkConstraint path declared raw index).issues = []) : c.Sound declared := by
  unfold checkConstraint at hr hi
  dsimp only at hr hi
  split at hr
  · cases hr
  · next capture hc =>
    rw [hc] at hi
    cases hr
    simp only [List.append_eq_nil_iff] at hi
    refine ⟨?_, fun source hs => compiles_of_checkExpression hs, fun source hs => compiles_of_checkExpression hs⟩
    by_contra hn
    have hunknown := hi.1.1.1.1.1
    simp [hn] at hunknown

theorem sound_of_checkWhere {raw : Option Value} (hi : (checkWhere path declared raw).issues = []) :
    ∀ c ∈ (checkWhere path declared raw).result.getD [], c.Sound declared := by
  unfold checkWhere at hi ⊢
  split
  · exact nofun
  · intro c hc
    obtain ⟨x, i, hr, hx⟩ := exists_of_mem_each hi hc
    exact sound_of_checkConstraint hr hx
  · exact nofun

end Constraints

/-- Without issues there is a clause, which is sound and declares its captures; it is a guard only
where guards may stand. -/
def ClauseCheck.Sound (place : Place) (o : ClauseCheck) : Prop :=
  o.issues = [] → ∃ c, o.clause = some c ∧ c.Sound ∧ (place ≠ .inAll → c.isGuard = false) ∧ o.captures ⊆ c.declared

theorem sound_refuse (place : Place) (issue : Issue) : (refuse issue).Sound place := nofun

theorem sound_checkStructural (place : Place) (path : String) (raw : Value) :
    (checkStructural path raw).Sound place := by
  unfold checkStructural
  split
  · exact sound_refuse place _
  split
  · exact sound_refuse place _
  · next query _ _ q hq =>
    intro hi
    obtain ⟨hfocus, hwhere⟩ := List.append_eq_nil_iff.mp hi
    refine ⟨_, rfl, .structural hq ?_ (sound_of_checkWhere hwhere), fun _ => rfl, ?_⟩
    · intro f hf
      obtain ⟨-, hm⟩ := Option.filter_eq_some_iff.mp hf
      simpa using hm
    · rw [Clause.declared, hq]
      exact List.Subset.refl _

/-- A textual clause whose expression compiles, under whatever flags. -/
theorem sound_textual (place : Place) {regex : String} {flags : Option String} {program : Regex.Program}
    (hp : Regex.compile regex (Textual.flags flags) = .ok program) (path : String) (raw : Option Value) :
    let conditions := checkWhere path (Textual.groupNames regex) raw
    ClauseCheck.Sound place
      { clause := some (.textual regex flags conditions.result), issues := conditions.issues
        captures := Textual.groupNames regex } := by
  intro conditions hi
  refine ⟨_, rfl, .textual hp (sound_of_checkWhere hi), fun _ => rfl, ?_⟩
  rw [Clause.declared]
  exact List.subset_append_left _ _

theorem sound_checkTextual (place : Place) (path : String) (raw : Value) :
    (checkTextual path raw).Sound place := by
  unfold checkTextual
  split
  · exact sound_refuse place _
  · dsimp only
    split
    · split
      · exact sound_refuse place _
      · next hp => exact sound_textual place hp _ _
    · split
      · exact sound_refuse place _
      · next hp => exact sound_textual place hp _ _
    · exact sound_refuse place _

/-- Outcomes without issues hold as many clauses, which declare what the outcomes capture. -/
theorem clauses_of_sound {place : Place} {outcomes : List ClauseCheck} (h : ∀ o ∈ outcomes, o.Sound place)
    (hi : outcomes.flatMap (·.issues) = []) :
    (outcomes.filterMap (·.clause)).length = outcomes.length ∧
      (∀ c ∈ outcomes.filterMap (·.clause), c.Sound ∧ (place ≠ .inAll → c.isGuard = false)) ∧
      outcomes.flatMap (·.captures) ⊆ Clause.declaredEach (outcomes.filterMap (·.clause)) := by
  induction outcomes with
  | nil => exact ⟨rfl, nofun, nofun⟩
  | cons o rest ih =>
    obtain ⟨ho, hrest⟩ := List.forall_mem_cons.mp h
    rw [List.flatMap_cons, List.append_eq_nil_iff] at hi
    obtain ⟨c, hc, hs, hg, hd⟩ := ho hi.1
    obtain ⟨hlen, hall, hsub⟩ := ih hrest hi.2
    rw [List.filterMap_cons_some hc, List.flatMap_cons, Clause.declaredEach]
    refine ⟨by rw [List.length_cons, List.length_cons, hlen], List.forall_mem_cons.mpr ⟨⟨hs, hg⟩, hall⟩, ?_⟩
    exact List.append_subset.mpr ⟨fun x hx => List.mem_append_left _ (hd hx), fun x hx => List.mem_append_right _ (hsub hx)⟩

theorem sound_checkComposite (place : Place) (path type : String) {conjunction : Bool} {outcomes : List ClauseCheck}
    (h : ∀ o ∈ outcomes, o.Sound (if conjunction then .inAll else .elsewhere)) :
    (checkComposite path type conjunction outcomes).Sound place := by
  unfold checkComposite
  dsimp only
  split
  · next hne =>
    intro hi
    exact absurd (clauses_of_sound h hi).1 hne
  split
  · intro hi
    cases (List.append_eq_nil_iff.mp hi).2
  · next hpos =>
    intro hi
    obtain ⟨-, hall, hsub⟩ := clauses_of_sound h hi
    cases conjunction with
    | true =>
      have hpositive : ∃ c ∈ outcomes.filterMap (·.clause), c.isGuard = false := by
        rw [Bool.true_and, Bool.not_eq_true] at hpos
        obtain ⟨c, hc, hg⟩ := List.all_eq_false.mp hpos
        exact ⟨c, hc, Bool.eq_false_iff.mpr hg⟩
      refine ⟨_, rfl, .all hpositive fun c hc => (hall c hc).1, fun _ => rfl, ?_⟩
      rw [if_pos rfl, Clause.declared]
      exact hsub
    | false =>
      refine ⟨_, rfl, .any (fun c hc => (hall c hc).2 (by decide)) fun c hc => (hall c hc).1, fun _ => rfl, ?_⟩
      rw [if_neg Bool.false_ne_true, Clause.declared]
      exact hsub

/-- Checking a clause, by the levels of nesting that are left. -/
theorem sound_checkClause (room : Nat) (raw : Option Value) (path : String) (place : Place) :
    (checkClause room raw path place).Sound place := by
  induction room generalizing raw path place with
  | zero =>
    rw [checkClause.eq_def]
    dsimp only
    split
    · split
      · split
        · exact sound_refuse place _
        · exact sound_refuse place _
      · exact sound_refuse place _
    · exact sound_refuse place _
  | succ room ih =>
    rw [checkClause.eq_def]
    dsimp only
    split
    · next members =>
      split
      · next word _ =>
        split
        · exact sound_refuse place _
        split
        · exact sound_checkStructural place path _
        split
        · exact sound_checkTextual place path _
        split
        · split
          · refine sound_checkComposite place path word ?_
            intro o ho
            obtain ⟨⟨c, i⟩, -, rfl⟩ := List.mem_map.mp ho
            have hplace : (if decide (word = "all") = true then Place.inAll else .elsewhere) =
                if word = "all" then .inAll else .elsewhere := by simp only [decide_eq_true_eq]
            rw [hplace]
            exact ih _ _ _
          · exact sound_refuse place _
        split
        · exact sound_refuse place _
        · intro hi
          obtain ⟨c, hc, hs, hg, -⟩ := ih _ _ .elsewhere hi
          refine ⟨_, congrArg (Option.map _) hc, .guard (hg nofun) hs, fun hne => ?_, nofun⟩
          next hin => exact absurd hin (by simpa using hne)
      · exact sound_refuse place _
    · exact sound_refuse place _

end Validation

/-- Every placeholder stands for the whole match or is one of the names. -/
def Template.Within (names : List String) (template : String) : Prop :=
  ∀ name ∈ placeholders template, name = matchName ∨ name ∈ names

/-- The edits are about the whole match or one of the names, and so are their texts. -/
structure FixTemplate.Within (names : List String) (fix : FixTemplate) : Prop where
  description : ∀ d ∈ fix.description, Template.Within names d
  target : ∀ e ∈ fix.edits, ∀ name ∈ e.target, name ∈ names
  content : ∀ e ∈ fix.edits, ∀ text ∈ e.content, Template.Within names text

def Rule.declared (rule : Rule) : List String := Clause.declaredEach rule.patterns

/-- The clauses can be evaluated, and texts and edits are about declared names. -/
structure Rule.Sound (rule : Rule) : Prop where
  clauses : ∀ c ∈ rule.patterns, c.Sound
  positive : ∀ c ∈ rule.patterns, c.isGuard = false
  message : Template.Within rule.declared rule.message
  fix : ∀ fix ∈ rule.fix, fix.Within rule.declared

namespace Validation

section Templates

variable {captures names : List String} (hsub : captures ⊆ names)

include hsub

theorem within_of_checkTemplate {path template : String} (h : checkTemplate path captures template = []) :
    Template.Within names template := by
  intro name hn
  by_contra hout
  obtain ⟨hmatch, hnot⟩ := not_or.mp hout
  have hc : ¬(name = Template.matchName || captures.contains name) = true := by
    simp only [Bool.or_eq_true, decide_eq_true_eq, List.contains_iff_mem]
    exact not_or.mpr ⟨hmatch, fun hm => hnot (hsub hm)⟩
  have hnone := List.filterMap_eq_nil_iff.mp h name hn
  rw [if_neg hc] at hnone
  cases hnone

theorem within_of_checkEdit {raw : Value} {index : Nat} {e : EditTemplate}
    (hr : (checkEdit captures raw index).result = some e) (hi : (checkEdit captures raw index).issues = []) :
    (∀ name ∈ e.target, name ∈ names) ∧ ∀ text ∈ e.content, Template.Within names text := by
  unfold checkEdit at hr hi
  dsimp only at hr hi
  have htarget : ∀ name ∈ ((raw.get? "target").bind (·.str?)).filter captures.contains, name ∈ names := by
    intro name hn
    obtain ⟨-, hm⟩ := Option.filter_eq_some_iff.mp hn
    exact hsub (List.contains_iff_mem.mp hm)
  split at hr
  · cases hr
  · next kind hk =>
    rw [hk] at hi
    dsimp only at hi
    split at hr
    · cases hr
      exact ⟨htarget, nofun⟩
    · next hne =>
      rw [if_neg hne] at hi
      split at hr
      · next content hc =>
        cases hr
        rw [hc] at hi
        refine ⟨htarget, ?_⟩
        intro text ht
        obtain rfl := Option.some.inj ht
        exact within_of_checkTemplate hsub (List.append_eq_nil_iff.mp hi).2
      · cases hr
        exact ⟨htarget, nofun⟩

theorem within_of_checkFix {raw : Option Value} (hi : (checkFix captures raw).issues = []) :
    ∀ fix ∈ (checkFix captures raw).result, fix.Within names := by
  unfold checkFix at hi ⊢
  split
  · exact nofun
  · next fix =>
    dsimp only at hi ⊢
    split
    · next first rest he =>
      rw [he] at hi
      obtain ⟨hdescription, hedits⟩ := List.append_eq_nil_iff.mp hi
      intro f hf
      obtain rfl := Option.some.inj hf
      have hedit : ∀ e ∈ (each (first :: rest) (checkEdit captures)).result,
          (∀ name ∈ e.target, name ∈ names) ∧ ∀ text ∈ e.content, Template.Within names text := by
        intro e hm
        obtain ⟨x, i, hr, hx⟩ := exists_of_mem_each hedits hm
        exact within_of_checkEdit hsub hr hx
      refine ⟨?_, fun e hm => (hedit e hm).1, fun e hm => (hedit e hm).2⟩
      intro d hd
      split at hd
      · cases hd
      · next text ht =>
        rw [ht] at hdescription
        obtain rfl := Option.some.inj hd
        exact within_of_checkTemplate hsub hdescription
      · cases hd
    · exact nofun

end Templates

def patternChecks (raw : Option Value) : List ClauseCheck :=
  match raw with
  | some (.arr (first :: rest)) =>
    (first :: rest).zipIdx.map fun (c, i) => checkClause Clause.maxDepth (some c) (entry "patterns" i) .top
  | _ =>
    [refuse
      { path := "patterns", code := .missingPatterns, message := "A rule needs at least one pattern clause"
        actual := describe raw }]

theorem sound_patternChecks (raw : Option Value) : ∀ o ∈ patternChecks raw, o.Sound .top := by
  intro o ho
  unfold patternChecks at ho
  split at ho
  · obtain ⟨⟨c, i⟩, -, rfl⟩ := List.mem_map.mp ho
    exact sound_checkClause _ _ _ _
  · obtain rfl := List.mem_singleton.mp ho
    exact sound_refuse .top _

theorem ite_isEmpty_eq_nil_iff {α : Type} {xs ys : List α} :
    (if xs.isEmpty then ys else xs) = [] ↔ xs = [] ∧ ys = [] := by
  cases xs <;> simp

/-- What the parts of an accepted rule come from. -/
theorem of_checkRule {raw : Option Value} {rule : Rule} (h : (checkRule raw).rule = some rule) :
    ∃ patterns fix, (patternChecks patterns).flatMap (·.issues) = [] ∧
      rule.patterns = (patternChecks patterns).filterMap (·.clause) ∧
      checkTemplate "message" ((patternChecks patterns).flatMap (·.captures)) rule.message = [] ∧
      (checkFix ((patternChecks patterns).flatMap (·.captures)) fix).issues = [] ∧
      rule.fix = (checkFix ((patternChecks patterns).flatMap (·.captures)) fix).result := by
  unfold checkRule at h
  dsimp only at h
  split at h
  · cases h
  split at h
  · next hissues _ _ hmessage =>
    have hall := (ite_isEmpty_eq_nil_iff.mp hissues).1
    simp only [List.append_eq_nil_iff] at hall
    obtain ⟨⟨⟨⟨⟨⟨⟨⟨⟨⟨-, -⟩, hpatterns⟩, htemplate⟩, hfix⟩, -⟩, -⟩, -⟩, -⟩, -⟩, -⟩ := hall
    cases h
    rw [hmessage] at htemplate
    exact ⟨_, _, hpatterns, rfl, htemplate, hfix, rfl⟩
  · cases h

theorem sound_of_checkRule {raw : Option Value} {rule : Rule} (h : (checkRule raw).rule = some rule) :
    rule.Sound := by
  obtain ⟨patterns, fix, hissues, hpatterns, hmessage, hfix, hresult⟩ := of_checkRule h
  obtain ⟨-, hclauses, hsub⟩ := clauses_of_sound (sound_patternChecks patterns) hissues
  rw [← hpatterns] at hclauses hsub
  refine ⟨fun c hc => (hclauses c hc).1, fun c hc => (hclauses c hc).2 nofun, ?_, ?_⟩
  · exact within_of_checkTemplate hsub hmessage
  · rw [hresult]
    exact within_of_checkFix hsub hfix

end Validation

end RuleScan
