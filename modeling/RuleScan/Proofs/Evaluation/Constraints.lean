import RuleScan.Proofs.Evaluation.Guards
import RuleScan.Proofs.Query.Appending

/-! Constraints on captures and the predicates that ask the same. Main statement: a structural clause whose constraints
are not about kinds comes to the same as one whose query asks them, for all captures of some names, if and only if none
of the names is inherent. -/
namespace RuleScan

open Counted

namespace Query

/-- Whether a predicate holds of what is bound. One whose expression does not compile never holds. -/
def Predicate.holds (source : Units) (env : Bindings) (p : Predicate) : Bool :=
  match Check.ofPredicate p with
  | .ok check => check.holds source env
  | .error _ => false

section

variable {source : Units} {env : Bindings}

theorem ofPredicate_offset (p : Predicate) (offset : Nat) : Check.ofPredicate { p with offset } =
    (Check.ofPredicate p).map fun check => { check with predicate := { check.predicate with offset } } := by
  obtain ⟨relation, negated, args, start⟩ := p
  cases relation with
  | isMatch =>
    rcases args with _ | ⟨subject, _ | ⟨_ | text, rest⟩⟩
    · rfl
    · rfl
    · rfl
    · show (Regex.compile text "").map _ = ((Regex.compile text "").map _).map _
      cases Regex.compile text "" <;> rfl
  | eq | anyOf | empty => rfl

/-- The place of a predicate makes no difference to it. -/
theorem Predicate.holds_of_content {p p' : Predicate} (h : p.content = p'.content) :
    p.holds source env = p'.holds source env := by
  have hp : p' = { p with offset := p'.offset } := by
    obtain ⟨hrelation, h⟩ := Prod.mk.inj h
    obtain ⟨hnegated, hargs⟩ := Prod.mk.inj h
    rw [hrelation, hnegated, hargs]
  rw [hp]
  unfold Predicate.holds
  rw [ofPredicate_offset p p'.offset]
  cases Check.ofPredicate p with
  | error e => rfl
  | ok check => rfl

theorem predicate_of_ofPredicate {p : Predicate} {check : Check} (h : Check.ofPredicate p = .ok check) :
    check.predicate = p := by
  unfold Check.ofPredicate at h
  split at h
  · obtain ⟨program, -, rfl⟩ := map_eq_ok.mp h
    rfl
  · cases h
    rfl

/-- About a capture that is not bound, exactly the negated predicates hold. -/
theorem Predicate.holds_of_unbound {p : Predicate} (hfits : Fits p.relation p.args) {name : String}
    {others : List Argument} (hargs : p.args = .capture name :: others) (h : env.lookup name = none) :
    p.holds source env = p.negated := by
  obtain ⟨check, hcheck⟩ := exists_ofPredicate_eq_ok hfits.argumentProblem?_eq_none
  have hpredicate := predicate_of_ofPredicate hcheck
  rw [Predicate.holds, hcheck]
  dsimp only
  rw [Check.holds, hpredicate, hargs]
  dsimp only
  rw [h]

theorem all_holds_of_content {ps ps' : List Predicate} (h : ps.map Predicate.content = ps'.map Predicate.content) :
    ps.all (·.holds source env) = ps'.all (·.holds source env) := by
  induction ps generalizing ps' with
  | nil =>
    obtain rfl := List.map_eq_nil_iff.mp h.symm
    rfl
  | cons p ps ih =>
    obtain ⟨p', ps', rfl, hp, hps⟩ := List.map_eq_cons_iff.mp h.symm
    rw [List.all_cons, List.all_cons, Predicate.holds_of_content hp, ih hps.symm]

theorem all_holds_of_forall₂ {ps : List Predicate} {checks : List Check}
    (h : List.Forall₂ (fun p check => Check.ofPredicate p = .ok check) ps checks) :
    checks.all (·.holds source env) = ps.all (·.holds source env) := by
  induction h with
  | nil => rfl
  | @cons p check ps checks hp hps ih => rw [List.all_cons, List.all_cons, ih, Predicate.holds, hp]

theorem all_checks_eq {q : Query} {c : Compiled} (h : compile q = .ok c) :
    c.checks.all (·.holds source env) = q.predicates.all (·.holds source env) := by
  obtain ⟨checks, hchecks, hc⟩ := bind_eq_ok.mp h
  cases hc
  exact all_holds_of_forall₂ (forall₂_of_mapM hchecks)

end

end Query

namespace Constraint

/-- The predicate that compares the capture of a constraint with a text. -/
def predicate (c : Constraint) (relation : Query.Relation) (negated : Bool) (text : String) : Query.Predicate :=
  ⟨relation, negated, [.capture c.capture, .string text], 0⟩

/-- The predicates that ask what a constraint asks, apart from kinds. -/
def predicates (c : Constraint) : List Query.Predicate :=
  c.mustMatch.toList.map (c.predicate .isMatch false) ++ c.mustNotMatch.toList.map (c.predicate .isMatch true) ++
    c.equals.toList.map (c.predicate .eq false) ++ c.notEquals.toList.map (c.predicate .eq true)

section

variable {c : Constraint} {declared : List String} {source : Units} {env : Bindings} {node : Node}

theorem fits_of_mem_predicates (h : c.Sound declared) {p : Query.Predicate} (hp : p ∈ c.predicates) :
    Query.Fits p.relation p.args := by
  simp only [predicates, List.mem_append, List.mem_map, Option.mem_toList] at hp
  rcases hp with ((⟨text, ht, rfl⟩ | ⟨text, ht, rfl⟩) | ⟨text, -, rfl⟩) | ⟨text, -, rfl⟩
  · obtain ⟨program, hprogram⟩ := h.mustMatch text ht
    exact .isMatch _ _ hprogram
  · obtain ⟨program, hprogram⟩ := h.mustNotMatch text ht
    exact .isMatch _ _ hprogram
  · exact .eq _ _
  · exact .eq _ _

theorem exists_args_of_mem_predicates {p : Query.Predicate} (hp : p ∈ c.predicates) :
    ∃ text, p.args = [.capture c.capture, .string text] := by
  simp only [predicates, List.mem_append, List.mem_map] at hp
  rcases hp with ((⟨text, -, rfl⟩ | ⟨text, -, rfl⟩) | ⟨text, -, rfl⟩) | ⟨text, -, rfl⟩
  all_goals exact ⟨text, rfl⟩

theorem holds_predicate_eq (text : String) (negated : Bool) (h : env.lookup c.capture = some node) :
    (c.predicate .eq negated text).holds source env =
      (decide (node.textIn source = Units.ofString text) != negated) := by
  simp [predicate, Query.Predicate.holds, Query.Check.ofPredicate, Query.Check.holds, Query.Check.asks, h]

theorem holds_predicate_isMatch {expression : String} {program : Regex.Program}
    (hprogram : Regex.compile expression "" = .ok program) (negated : Bool) (h : env.lookup c.capture = some node) :
    (c.predicate .isMatch negated expression).holds source env = (program.test (node.textIn source) != negated) := by
  simp [predicate, Query.Predicate.holds, Query.Check.ofPredicate, Query.Check.holds, Query.Check.asks, h, hprogram,
    Except.map]

/-- Of a bound capture, a constraint that only asks for text asks the same as its predicates. -/
theorem holdsOf_compile (hs : c.Sound declared) (hkinds : c.kinds = none) (h : env.lookup c.capture = some node) :
    c.compile.holdsOf (node.textIn source) node.kind = .ok (c.predicates.all (·.holds source env)) := by
  have hequals : (c.equals.toList.map (c.predicate .eq false)).all (·.holds source env) =
      !c.equals.any (Units.ofString · ≠ node.textIn source) := by
    cases c.equals <;> simp [holds_predicate_eq _ false h, eq_comm]
  have hnotEquals : (c.notEquals.toList.map (c.predicate .eq true)).all (·.holds source env) =
      !c.notEquals.any (Units.ofString · = node.textIn source) := by
    cases c.notEquals <;> simp [holds_predicate_eq _ true h, eq_comm]
  unfold Test.holdsOf predicates
  simp only [Constraint.compile, List.all_append, hkinds, hequals, hnotEquals]
  generalize c.equals.any (Units.ofString · ≠ node.textIn source) = other
  generalize c.notEquals.any (Units.ofString · = node.textIn source) = same
  cases hmatch : c.mustMatch with
  | none =>
    cases hnot : c.mustNotMatch with
    | none => cases other <;> cases same <;> rfl
    | some forbidden =>
      obtain ⟨program, hp⟩ := hs.mustNotMatch forbidden hnot
      simp only [Option.map, hp, Test.matchesText, Option.toList, List.map, List.all, holds_predicate_isMatch hp true h]
      cases program.test (node.textIn source) <;> cases other <;> cases same <;> rfl
  | some wanted =>
    obtain ⟨program, hp⟩ := hs.mustMatch wanted hmatch
    cases hnot : c.mustNotMatch with
    | none =>
      simp only [Option.map, hp, Test.matchesText, Option.toList, List.map, List.all, holds_predicate_isMatch hp false h]
      cases program.test (node.textIn source) <;> cases other <;> cases same <;> rfl
    | some forbidden =>
      obtain ⟨program', hp'⟩ := hs.mustNotMatch forbidden hnot
      simp only [Option.map, hp, hp', Test.matchesText, Option.toList, List.map, List.all,
        holds_predicate_isMatch hp false h, holds_predicate_isMatch hp' true h]
      cases program.test (node.textIn source) <;> cases program'.test (node.textIn source) <;> cases other <;>
        cases same <;> rfl

/-- A constraint that only asks for text asks the same as its predicates. -/
theorem holds_compile (hs : c.Sound declared) (hkinds : c.kinds = none) (hmeaning : env.meaning c.capture ≠ .noNode) :
    c.compile.holds source env = .ok (c.predicates.all (·.holds source env)) := by
  have hcapture : c.compile.constraint.capture = c.capture := rfl
  rw [Test.holds, hcapture]
  cases hm : env.meaning c.capture with
  | noNode => exact absurd hm hmeaning
  | node node => exact holdsOf_compile hs hkinds (Bindings.meaning_eq_node_iff.mp hm)
  | nothing =>
    have hnegated : ∀ p ∈ c.predicates, p.holds source env = p.negated := by
      intro p hp
      obtain ⟨text, hargs⟩ := exists_args_of_mem_predicates hp
      have hunbound := (Bindings.meaning_eq_nothing_iff.mp hm).1
      exact Query.Predicate.holds_of_unbound (fits_of_mem_predicates hs hp) hargs hunbound
    have hall : c.predicates.all (·.holds source env) = c.predicates.all (·.negated) := by
      rw [Bool.eq_iff_iff, List.all_eq_true, List.all_eq_true]
      exact forall₂_congr fun p hp => by rw [hnegated p hp]
    rw [hall]
    cases hmatch : c.mustMatch <;> cases hequals : c.equals <;>
      simp [predicates, predicate, Constraint.compile, hmatch, hequals, hkinds]

theorem allHold_compile {constraints : List Constraint} (hs : ∀ c ∈ constraints, c.Sound declared)
    (hkinds : ∀ c ∈ constraints, c.kinds = none) (hmeaning : ∀ c ∈ constraints, env.meaning c.capture ≠ .noNode) :
    Test.allHold source env (constraints.map Constraint.compile) =
      .ok ((constraints.flatMap predicates).all (·.holds source env)) := by
  induction constraints with
  | nil => rfl
  | cons c rest ih =>
    obtain ⟨hc, hrest⟩ := List.forall_mem_cons.mp hs
    obtain ⟨hck, hkrest⟩ := List.forall_mem_cons.mp hkinds
    obtain ⟨hcm, hmrest⟩ := List.forall_mem_cons.mp hmeaning
    rw [List.map_cons, Test.allHold, holds_compile hc hck hcm, List.flatMap_cons, List.all_append]
    cases c.predicates.all (·.holds source env) with
    | true => exact ih hrest hkrest hmrest
    | false => rfl

/-- What constraints on the captures of a query ask can be written after the query. -/
theorem exists_parse_appended {query : String} {q : Query} (h : Query.parse query = .ok q)
    {constraints : List Constraint} (hs : ∀ c ∈ constraints, c.Sound q.captureNames) :
    ∃ found, found.map Query.Predicate.content = (constraints.flatMap predicates).map Query.Predicate.content ∧
      Query.parse (Query.appended query (constraints.flatMap predicates)) =
        .ok ⟨Query.appended query (constraints.flatMap predicates), q.pattern, q.predicates ++ found, q.captureNames⟩ := by
  have hfits : ∀ p ∈ constraints.flatMap predicates, Query.Fits p.relation p.args := by
    intro p hp
    obtain ⟨c, hc, hp⟩ := List.mem_flatMap.mp hp
    exact fits_of_mem_predicates (hs c hc) hp
  have hdeclared : ∀ p ∈ constraints.flatMap predicates, ∀ name, .capture name ∈ p.args → name ∈ q.captureNames := by
    intro p hp name hname
    obtain ⟨c, hc, hp⟩ := List.mem_flatMap.mp hp
    obtain ⟨text, hargs⟩ := exists_args_of_mem_predicates hp
    obtain rfl : name = c.capture := by simpa [hargs] using hname
    exact (hs c hc).capture
  exact Query.parse_appended h hfits hdeclared

end

end Constraint

namespace Clause

section

variable {query : String} {q : Query} {focus : Option String} {constraints : List Constraint} {tree : Tree}

theorem exists_reported_eq_ok (pattern : Query.Pattern) (condition : Bindings → Bool)
    (h : ∀ f ∈ focus, f ∉ Bindings.inherent) : ∃ ms, reported tree pattern focus condition = .ok ms := by
  have hfocused : ∀ x : Node × Bindings, ∃ m, focused focus x.1 x.2 = .ok m := fun x => by
    obtain ⟨m, hm, -⟩ := exists_focused_eq_ok h x.1 x.2
    exact ⟨m, hm⟩
  have hall : ∀ xs : List (Node × Bindings), ∃ ms, xs.mapM (fun x => focused focus x.1 x.2) = .ok ms := fun xs =>
    Query.mapM_eq_ok fun x _ => hfocused x
  obtain ⟨ms, hms⟩ := hall _
  exact ⟨ms, by rw [reported, hms]; rfl⟩

/-- The condition on a solution is that it satisfies the predicates of the query and passes the test. -/
theorem comesTo_reported_of_parse (hparse : Query.parse query = .ok q) {given : Option (List Constraint)}
    {test : Bindings → Bool} (htest : ∀ env, acceptance tree.source focus (given.getD []) env = .ok (test env)) :
    ComesTo tree (.structural query focus given)
      (reported tree q.pattern focus fun env => q.predicates.all (·.holds tree.source env) && test env) := by
  obtain ⟨compiled, hcompile, hpattern⟩ := Query.compile_of_parse hparse
  have hcomes := comesTo_reported hparse hcompile htest
  simp only [hpattern, Query.all_checks_eq hcompile] at hcomes
  exact hcomes

/-- A clause whose constraints are not about kinds or inherent names comes to the same as the one whose query asks what
they ask. -/
theorem Sound.exists_comesTo_appended (hs : (Clause.structural query focus (some constraints)).Sound)
    (hkinds : ∀ c ∈ constraints, c.kinds = none) (hplain : ∀ c ∈ constraints, c.capture ∉ Bindings.inherent)
    (tree : Tree) : ∃ o, ComesTo tree (.structural query focus (some constraints)) o ∧
      ComesTo tree (.structural (Query.appended query (constraints.flatMap Constraint.predicates)) focus none) o ∧
      ((∀ f ∈ focus, f ∉ Bindings.inherent) → ∃ ms, o = .ok ms) := by
  cases hs with
  | @structural _ _ _ q hparse hfocus hconstrained =>
    have hsound : ∀ c ∈ constraints, c.Sound q.captureNames := hconstrained
    obtain ⟨found, hcontent, happended⟩ := Constraint.exists_parse_appended hparse hsound
    have hconstraints : ∀ env, acceptance tree.source focus ((some constraints).getD []) env =
        .ok (focusBound focus env && (constraints.flatMap Constraint.predicates).all (·.holds tree.source env)) := by
      intro env
      have hmeaning : ∀ c ∈ constraints, env.meaning c.capture ≠ .noNode := fun c hc =>
        Bindings.meaning_ne_noNode (hplain c hc) env
      rw [acceptance, Option.getD_some, Constraint.allHold_compile hsound hkinds hmeaning]
      cases focusBound focus env <;> rfl
    have hnone : ∀ env, acceptance tree.source focus ((none : Option (List Constraint)).getD []) env =
        .ok (focusBound focus env) := by
      intro env
      rw [acceptance]
      cases focusBound focus env <;> rfl
    -- The appended predicates are tested before the focus, the constraints after it.
    have hcondition : ∀ env, ((q.predicates ++ found).all (·.holds tree.source env) && focusBound focus env) =
        (q.predicates.all (·.holds tree.source env) &&
          (focusBound focus env && (constraints.flatMap Constraint.predicates).all (·.holds tree.source env))) := by
      intro env
      rw [List.all_append, Query.all_holds_of_content hcontent, Bool.and_assoc, Bool.and_comm (focusBound focus env)]
    have happend := comesTo_reported_of_parse happended hnone
    simp only [hcondition] at happend
    exact ⟨_, comesTo_reported_of_parse hparse hconstraints, happend, exists_reported_eq_ok _ _⟩

end

end Clause

namespace MaybeChild

open Clause

variable {name : String}

/-- The clause that asks in its query what the constrained one asks. -/
def asking (name : String) : Clause :=
  .structural (Query.appended (source name) (constraint name).predicates) none none

theorem accepted_constrained (h : Query.IsCaptureName name) : (constrained name).Accepted :=
  accepted_iff.mpr ⟨1, by decide, .elsewhere, _, reads_constrained h 0 .elsewhere⟩

/-- Where the child is not there, the predicate on its text holds, as it is negated. -/
theorem comesTo_asking (h : Query.IsCaptureName name) : ComesTo tree (asking name) (.ok [found]) := by
  have hfits : ∀ p ∈ (constraint name).predicates, Query.Fits p.relation p.args :=
    List.forall_mem_cons.mpr ⟨.eq _ _, nofun⟩
  have hdeclared : ∀ p ∈ (constraint name).predicates, ∀ other, .capture other ∈ p.args → other ∈ [name] :=
    List.forall_mem_cons.mpr ⟨by simp [Constraint.predicate, constraint], nofun⟩
  obtain ⟨asked, hcontent, hparse⟩ := Query.parse_appended (parse_source h) hfits hdeclared
  have htest : ∀ env, acceptance tree.source none ((none : Option (List Constraint)).getD []) env = .ok true :=
    fun _ => rfl
  have hholds : asked.all (·.holds tree.source []) = true := Query.all_holds_of_content hcontent
  have hsolutions : Query.solutions tree.source (pattern name) tree.root [] = [[]] := rfl
  have hcomes := comesTo_reported_of_parse hparse htest
  have hreported : reported tree (pattern name) none
      (fun env => ([] ++ asked).all (·.holds tree.source env) && true) = .ok [found] := by
    unfold reported
    rw [show tree.root.preorder = [tree.root] from rfl, List.filterMap_cons, hsolutions]
    simp only [List.find?, List.nil_append, hholds]
    rfl
  rw [hreported] at hcomes
  exact hcomes

end MaybeChild

namespace Clause

/-- A structural clause whose constraints are not about kinds comes to the same as the one without constraints whose
query asks what they ask. This is so of all accepted clauses with constraints on some names exactly if none of the names
is inherent. -/
theorem where_predicates_agree_iff (names : List String) :
    (∀ query focus constraints, (Clause.structural query focus (some constraints)).Accepted →
      (∀ c ∈ constraints, c.kinds = none ∧ c.capture ∈ names) → ∀ tree,
        ∃ o, ComesTo tree (.structural query focus (some constraints)) o ∧
          ComesTo tree (.structural (Query.appended query (constraints.flatMap Constraint.predicates)) focus none) o ∧
          ((∀ f ∈ focus, f ∉ Bindings.inherent) → ∃ ms, o = .ok ms)) ↔
      ∀ name ∈ names, name ∉ Bindings.inherent := by
  constructor
  · intro h name hname hinherent
    have hcapture : Query.IsCaptureName name := (MaybeChild.writable_of_inherent name hinherent).1
    have hconstraints : ∀ c ∈ [MaybeChild.constraint name], c.kinds = none ∧ c.capture ∈ names :=
      List.forall_mem_cons.mpr ⟨⟨rfl, hname⟩, nofun⟩
    obtain ⟨o, hwhere, -, hreturns⟩ :=
      h _ none _ (MaybeChild.accepted_constrained hcapture) hconstraints MaybeChild.tree
    obtain ⟨ms, rfl⟩ := hreturns nofun
    cases hwhere.unique (MaybeChild.comesTo_constrained hcapture hinherent)
  · intro hplain query focus constraints haccepted hconstraints tree
    exact haccepted.sound.exists_comesTo_appended (fun c hc => (hconstraints c hc).1)
      (fun c hc => hplain c.capture (hconstraints c hc).2) tree

theorem where_predicates_agree_child :
    ComesTo MaybeChild.tree (MaybeChild.constrained "b") (.ok [MaybeChild.found]) ∧
      ComesTo MaybeChild.tree (MaybeChild.asking "b") (.ok [MaybeChild.found]) := by
  have hcapture : Query.IsCaptureName "b" := by decide
  have hconstraints : ∀ c ∈ [MaybeChild.constraint "b"], c.kinds = none ∧ c.capture ∈ ["b"] :=
    List.forall_mem_cons.mpr ⟨⟨rfl, List.mem_cons_self⟩, nofun⟩
  obtain ⟨o, hwhere, hquery, -⟩ := (where_predicates_agree_iff ["b"]).mpr (by decide) _ none _
    (MaybeChild.accepted_constrained hcapture) hconstraints MaybeChild.tree
  have hasking := MaybeChild.comesTo_asking hcapture
  obtain rfl : o = .ok [MaybeChild.found] := hquery.unique hasking
  exact ⟨hwhere, hasking⟩

/-- With an optional child captured as `constructor`, the constraint makes the clause fail where the predicate lets the
match pass. -/
theorem where_constructor_fails :
    (MaybeChild.constrained "constructor").Accepted ∧
      ComesTo MaybeChild.tree (MaybeChild.constrained "constructor") (.error (.noNode ⟨"startIndex"⟩)) ∧
      ComesTo MaybeChild.tree (MaybeChild.asking "constructor") (.ok [MaybeChild.found]) := by
  have hcapture : Query.IsCaptureName "constructor" := by decide
  exact ⟨MaybeChild.accepted_constrained hcapture, MaybeChild.comesTo_constrained hcapture (by decide),
    MaybeChild.comesTo_asking hcapture⟩

end Clause

end RuleScan
