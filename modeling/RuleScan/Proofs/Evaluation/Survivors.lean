import RuleScan.Proofs.Evaluation.Parts
import RuleScan.Proofs.Query.RoundTrip
import RuleScan.Proofs.Rule.ClauseChecks

/-! Which candidates of an 'all' clause survive its further clauses. A candidate is joined with the first match of
each clause that agrees with what it was joined with before, and this choice is not taken back. Main statement: a
survivor has a witness among the further matches; a candidate with a witness survives, in whatever order the further
clauses stand, if its further matches are interchangeable. -/
namespace RuleScan

namespace Clause

section

variable {tree : Tree} {clauses clauses' : List Clause} {p p' : Parts}

theorem mem_declaredEach_iff {name : String} : name ∈ declaredEach clauses ↔ ∃ c ∈ clauses, name ∈ c.declared := by
  induction clauses with
  | nil => simp [declaredEach]
  | cons c rest ih => simp [declaredEach, ih]

theorem Plain.perm (h : Plain (declaredEach clauses)) (hperm : clauses'.Perm clauses) :
    Plain (declaredEach clauses') := by
  intro name hname
  obtain ⟨c, hc, hd⟩ := mem_declaredEach_iff.mp hname
  exact h name (mem_declaredEach_iff.mpr ⟨c, hperm.mem_iff.mp hc, hd⟩)

theorem Sound.perm (h : (Clause.all clauses).Sound) (hperm : clauses'.Perm clauses) : (Clause.all clauses').Sound := by
  obtain ⟨c, hc, hg⟩ := h.exists_positive
  exact .all ⟨c, hperm.mem_iff.mpr hc, hg⟩ fun c hc => h.each c (hperm.mem_iff.mp hc)

namespace Parts

/-- The spans that an 'all' clause gives are those of the candidates that survive and pass the guards. -/
theorem map_span_passed (p : Parts) :
    p.passed.map (·.span) =
      ((p.candidates.filter fun m => (Match.joinEach p.further m).isSome).map (·.span)).filter (Admits p.guarded) := by
  have hsurvivors : p.survivors.map (·.span) =
      (p.candidates.filter fun m => (Match.joinEach p.further m).isSome).map (·.span) := by
    unfold survivors
    induction p.candidates with
    | nil => rfl
    | cons m rest ih =>
      rw [List.filterMap_cons, List.filter_cons]
      cases hj : Match.joinEach p.further m with
      | none => simpa using ih
      | some r => simpa [Match.span_of_joinEach hj] using ih
  rw [← hsurvivors, List.filter_map]
  rfl

/-- In any order of its clauses with the same first positive one, an 'all' clause has the same candidates, and its
other parts give the same matches in that order. -/
theorem Of.perm (h : p.Of tree clauses) (h' : p'.Of tree clauses') (hperm : clauses'.Perm clauses)
    (hfirst : (Clause.positives clauses').head? = (Clause.positives clauses).head?) :
    p'.candidates = p.candidates ∧ p'.further.Perm p.further ∧ p'.guarded.Perm p.guarded := by
  have hpositives : (Clause.positives clauses').Perm (Clause.positives clauses) := hperm.filter _
  have hguards : (Clause.guards clauses').Perm (Clause.guards clauses) := hperm.filterMap _
  obtain ⟨guarded, hguarded, hguardedPerm⟩ := List.perm_comp_forall₂ hguards h.guards
  obtain ⟨first, rest, hc, hrest, hcs⟩ := List.forall₂_cons_right_iff.mp h.positives
  obtain ⟨first', rest', -, -, hcs'⟩ := List.forall₂_cons_right_iff.mp h'.positives
  rw [hcs, hcs'] at hfirst hpositives
  obtain rfl : first' = first := Option.some.inj hfirst
  obtain ⟨further, hfurther, hfurtherPerm⟩ := List.perm_comp_forall₂ hpositives.cons_inv hrest
  have hof : Of tree clauses' ⟨p.candidates, further, guarded⟩ := by
    constructor
    · rw [hcs']
      exact .cons hc hfurther
    · exact hguarded
  obtain rfl := h'.unique hof
  exact ⟨rfl, hfurtherPerm, hguardedPerm⟩

/-- Without its guards, an 'all' clause gives the survivors. -/
theorem Of.comesTo_survivors (h : p.Of tree clauses) (hs : (Clause.all clauses).Sound)
    (hplain : Plain (declaredEach clauses)) : ComesTo tree (.all (Clause.positives clauses)) (.ok p.survivors) := by
  have hsub : ∀ c ∈ Clause.positives clauses, c ∈ clauses := fun c hc => (List.mem_filter.mp hc).1
  have hpositives : Clause.positives (Clause.positives clauses) = Clause.positives clauses := by
    simp [Clause.positives, List.filter_filter]
  have hguards : Clause.guards (Clause.positives clauses) = [] := by
    apply List.filterMap_eq_nil_iff.mpr
    intro c hc
    cases c with
    | guard kind inner => cases (List.mem_filter.mp hc).2
    | _ => rfl
  have hof : Of tree (Clause.positives clauses) ⟨p.candidates, p.further, []⟩ := by
    constructor
    · rw [hpositives]
      exact h.positives
    · rw [hguards]
      exact .nil
  have hplain' : Plain (declaredEach (Clause.positives clauses)) := by
    intro name hname
    obtain ⟨c, hc, hd⟩ := mem_declaredEach_iff.mp hname
    exact hplain name (mem_declaredEach_iff.mpr ⟨c, hsub c hc, hd⟩)
  have hsound : (Clause.all (Clause.positives clauses)).Sound := by
    obtain ⟨c, hc, hg⟩ := hs.exists_positive
    have hmem : c ∈ Clause.positives clauses := List.mem_filter.mpr ⟨hc, by simp [hg]⟩
    exact .all ⟨c, hmem, hg⟩ fun d hd => hs.each d (hsub d hd)
  have hpassed : Parts.passed ⟨p.candidates, p.further, []⟩ = p.survivors := by
    simp [passed, survivors, Admits]
  rw [← hpassed]
  exact hof.comesTo hsound hplain'

end Parts

theorem admits_perm {guarded guarded' : List (GuardKind × List Match)} (h : guarded'.Perm guarded) :
    Admits guarded' = Admits guarded :=
  funext fun _ => h.all_eq

/-- For an accepted 'all' clause that declares no inherent name: guards aside, the survivors are the candidates that
are joined with all further matches. A survivor has a witness, whose bindings it is given. A candidate for which the
further matches are interchangeable survives if and only if it has one, and where this is so of all candidates, the
spans that are given are the same for every order of the further clauses. -/
theorem Accepted.all_survivors (h : (Clause.all clauses).Accepted)
    (hplain : ∀ name ∈ declaredEach clauses, name ∉ Bindings.inherent) (tree : Tree) :
    ∃ p : Parts, p.Of tree clauses ∧ ComesTo tree (.all clauses) (.ok p.passed) ∧
      ComesTo tree (.all (positives clauses)) (.ok p.survivors) ∧
      (∀ m ∈ p.candidates, ∀ r, Match.joinEach p.further m = some r →
        ∃ chosen, Match.Witness p.further m chosen ∧ r = chosen.foldl Match.join m) ∧
      (∀ m ∈ p.candidates, p.further.Pairwise m.Interchangeable →
        ((∃ r, Match.joinEach p.further m = some r) ↔ ∃ chosen, Match.Witness p.further m chosen)) ∧
      ((∀ m ∈ p.candidates, p.further.Pairwise m.Interchangeable) → ∀ clauses', clauses'.Perm clauses →
        (positives clauses').head? = (positives clauses).head? →
        ∃ ms, ComesTo tree (.all clauses') (.ok ms) ∧ ms.map (·.span) = p.passed.map (·.span)) := by
  have hsound := h.sound
  obtain ⟨p, hp⟩ := Parts.exists_of_plain hsound hplain tree
  refine ⟨p, hp, hp.comesTo hsound hplain, ?_, ?_, ?_, ?_⟩
  · exact hp.comesTo_survivors hsound hplain
  · intro m _ r hr
    exact Match.exists_witness_of_joinEach hr
  · intro m _ hi
    constructor
    · rintro ⟨r, hr⟩
      obtain ⟨chosen, hw, -⟩ := Match.exists_witness_of_joinEach hr
      exact ⟨chosen, hw⟩
    · rintro ⟨chosen, hw⟩
      exact hw.exists_joinEach hi
  · intro hall clauses' hperm hfirst
    have hsound' := hsound.perm hperm
    have hplain' := Plain.perm hplain hperm
    obtain ⟨p', hp'⟩ := Parts.exists_of_plain hsound' hplain' tree
    obtain ⟨hcandidates, hfurther, hguarded⟩ := hp.perm hp' hperm hfirst
    have hsurvive : ∀ m ∈ p.candidates,
        (Match.joinEach p'.further m).isSome = (Match.joinEach p.further m).isSome := fun m hm =>
      Match.joinEach_isSome_perm hfurther (hall m hm)
    refine ⟨p'.passed, hp'.comesTo hsound' hplain', ?_⟩
    rw [Parts.map_span_passed, Parts.map_span_passed, hcandidates, admits_perm hguarded, List.filter_congr hsurvive]

theorem accepted_all {room : Nat} (hroom : room < maxDepth) (hpositive : ∃ c ∈ clauses, c.isGuard = false)
    (h : ∀ c ∈ clauses, ∃ v, Reads room .inAll v c) : (Clause.all clauses).Accepted := by
  obtain ⟨vs, hvs⟩ := exists_forall₂ h
  apply accepted_iff.mpr
  refine ⟨room + 1, hroom, .top, .obj [("type", .str "all"), ("clauses", .arr vs)], rfl, ?_, hpositive⟩
  exact ⟨_, rfl, vs, rfl, hvs.flip⟩

end

/-! A clause that looks for a pattern and does nothing else. -/

section Patterns

variable {pattern : Query.Pattern}

def ofPattern (pattern : Query.Pattern) : Clause := .structural (Query.print pattern []) none none

def patternValue (pattern : Query.Pattern) : Value :=
  .obj [("type", .str "structural"), ("query", .str (Query.print pattern []))]

theorem reads_ofPattern (h : pattern.WellFormed) (hone : pattern.quantifier = .one) (room : Nat)
    (place : Validation.Place) : Reads (room + 1) place (patternValue pattern) (ofPattern pattern) :=
  ⟨rfl, rfl, _, Query.parse_print_pattern h hone, .none, .none⟩

theorem declared_ofPattern (h : pattern.WellFormed) (hone : pattern.quantifier = .one) :
    (ofPattern pattern).declared = pattern.allCaptures.eraseDups := by
  rw [ofPattern, declared, Query.parse_print_pattern h hone]

theorem comesTo_ofPattern (h : pattern.WellFormed) (hone : pattern.quantifier = .one) (tree : Tree) :
    ComesTo tree (ofPattern pattern) (.ok (tree.root.preorder.filterMap fun node =>
      (Query.solutions tree.source pattern node []).head?.map fun env => ⟨node.span, node, env, none⟩)) :=
  comesTo_pattern (Query.parse_print_pattern h hone) rfl tree

end Patterns

/-! An `A` node over `bc` with a `B` and a `C` child. Looking for an `A` node, for one whose `B` or `C` child is
captured, and for one whose `C` child is captured under the same name: the choice made from the second clause decides
whether the third one agrees. -/
namespace TwoChildren

def tree : Tree :=
  .ofDraft .typescript (Units.ofString "bc")
    { kind := "A", start := 0, stop := 2
      children := [{ kind := "B", start := 0, stop := 1, children := [] },
        { kind := "C", start := 1, stop := 2, children := [] }] } []

def parent : Query.Pattern := .node "A" [] [] .one []

def parentOf (kind : String) : Query.Pattern := .node "A" [(none, .node kind [] [] .one ["x"])] [] .one []

def either : Clause := .any [ofPattern (parentOf "B"), ofPattern (parentOf "C")]

/-- The `A` node with some bindings. -/
def found (bindings : Bindings) : Match := ⟨tree.root.span, tree.root, bindings, none⟩

/-- The `A` node with one of its children captured. -/
def withChild (i : Nat) : Match := found (tree.root.children[i]?.toList.map fun c => ("x", c))

theorem wellFormed_parentOf {kind : String} (h : Query.IsIdentifier kind ∧ kind ≠ "_") : (parentOf kind).WellFormed := by
  simp only [parentOf, Query.Pattern.WellFormed, Query.ElementsWellFormed]
  refine ⟨by decide, ⟨nofun, ⟨?_, trivial, nofun, by decide⟩, trivial⟩, nofun, nofun⟩
  intro k hk
  cases hk
  exact h

theorem wellFormed_parent : parent.WellFormed := by
  simp only [parent, Query.Pattern.WellFormed, Query.ElementsWellFormed]
  exact ⟨by decide, trivial, nofun, nofun⟩

theorem comesTo_parent : ComesTo tree (ofPattern parent) (.ok [found []]) :=
  comesTo_ofPattern wellFormed_parent rfl tree

theorem comesTo_parentOf_B : ComesTo tree (ofPattern (parentOf "B")) (.ok [withChild 0]) :=
  comesTo_ofPattern (wellFormed_parentOf (by decide)) rfl tree

theorem comesTo_parentOf_C : ComesTo tree (ofPattern (parentOf "C")) (.ok [withChild 1]) :=
  comesTo_ofPattern (wellFormed_parentOf (by decide)) rfl tree

theorem comesTo_either : ComesTo tree either (.ok [withChild 0, withChild 1]) := by
  have h := comesTo_any (.cons comesTo_parentOf_B (.cons comesTo_parentOf_C .nil))
  have hunion : Match.union [[withChild 0], [withChild 1]] = [withChild 0, withChild 1] := by
    have hflat : [[withChild 0], [withChild 1]].flatten = [withChild 0, withChild 1] := rfl
    have hsorted : [withChild 0, withChild 1].Pairwise fun a b => a.span.le b.span := by decide
    have hfirst : (withChild 0).key = "0:2|x@0-1" := by decide +kernel
    have hsecond : (withChild 1).key = "0:2|x@1-2" := by decide +kernel
    rw [Match.union, hflat, List.mergeSort_of_pairwise hsorted]
    simp [Match.distinct, hfirst, hsecond]
  rw [← hunion]
  exact h

/-- The `C` child under both clauses, and the `B` child under the first. -/
def blocked : List Clause := [ofPattern parent, either, ofPattern (parentOf "C")]

def unblocked : List Clause := [ofPattern parent, ofPattern (parentOf "C"), either]

def eitherValue : Value :=
  .obj [("type", .str "any"), ("clauses", .arr [patternValue (parentOf "B"), patternValue (parentOf "C")])]

/-- The three clauses are read as parts of an 'all' clause, which is then accepted. -/
theorem accepted_of_subset {clauses : List Clause} (h : clauses ⊆ blocked) (hne : clauses ≠ []) :
    (Clause.all clauses).Accepted := by
  have hchild : ∀ {kind} room place, Query.IsIdentifier kind ∧ kind ≠ "_" →
      Reads (room + 1) place (patternValue (parentOf kind)) (ofPattern (parentOf kind)) := fun room place h =>
    reads_ofPattern (wellFormed_parentOf h) rfl room place
  have heither : Reads 2 .inAll eitherValue either := by
    refine ⟨rfl, ⟨_, rfl, _, rfl, .cons (hchild 0 _ (by decide)) (.cons (hchild 0 _ (by decide)) .nil)⟩, ?_⟩
    exact List.cons_ne_nil _ _
  have hreads : ∀ c ∈ blocked, ∃ v, Reads 2 .inAll v c := by
    simp only [blocked, List.forall_mem_cons]
    exact ⟨⟨_, reads_ofPattern wellFormed_parent rfl _ _⟩, ⟨_, heither⟩, ⟨_, hchild 1 _ (by decide)⟩, nofun⟩
  have hpositive : ∀ c ∈ blocked, c.isGuard = false := by
    simp only [blocked, List.forall_mem_cons]
    exact ⟨rfl, rfl, rfl, nofun⟩
  obtain ⟨c, hc⟩ := List.exists_mem_of_ne_nil clauses hne
  exact accepted_all (by decide) ⟨c, hc, hpositive c (h hc)⟩ fun c hc => hreads c (h hc)

theorem plain_of_subset {clauses : List Clause} (h : clauses ⊆ blocked) :
    ∀ name ∈ declaredEach clauses, name ∉ Bindings.inherent := by
  have hparent : (ofPattern parent).declared = [] := declared_ofPattern wellFormed_parent rfl
  have hB : (ofPattern (parentOf "B")).declared = ["x"] := declared_ofPattern (wellFormed_parentOf (by decide)) rfl
  have hC : (ofPattern (parentOf "C")).declared = ["x"] := declared_ofPattern (wellFormed_parentOf (by decide)) rfl
  have hdeclared : ∀ c ∈ blocked, ∀ name ∈ c.declared, name = "x" := by
    simp [blocked, either, declared, declaredEach, hparent, hB, hC]
  intro name hname
  obtain ⟨c, hc, hd⟩ := mem_declaredEach_iff.mp hname
  rw [hdeclared c (h hc) name hd]
  decide

/-- The `A` node and its `C` child: one further clause. -/
def pair : List Clause := [ofPattern parent, ofPattern (parentOf "C")]

theorem pair_subset : pair ⊆ blocked := by simp [pair, blocked]

theorem of_pair : Parts.Of tree pair ⟨[found []], [[withChild 1]], []⟩ :=
  ⟨.cons comesTo_parent (.cons comesTo_parentOf_C .nil), .nil⟩

theorem of_blocked : Parts.Of tree blocked ⟨[found []], [[withChild 0, withChild 1], [withChild 1]], []⟩ :=
  ⟨.cons comesTo_parent (.cons comesTo_either (.cons comesTo_parentOf_C .nil)), .nil⟩

theorem of_unblocked : Parts.Of tree unblocked ⟨[found []], [[withChild 1], [withChild 0, withChild 1]], []⟩ :=
  ⟨.cons comesTo_parent (.cons comesTo_parentOf_C (.cons comesTo_either .nil)), .nil⟩

theorem perm_unblocked : unblocked.Perm blocked := (List.Perm.swap _ _ _).cons _

/-- One further clause leaves no choice that could block another one. -/
theorem all_survivors_pair :
    (Clause.all pair).Accepted ∧ (∀ name ∈ declaredEach pair, name ∉ Bindings.inherent) ∧
      ComesTo tree (.all pair) (.ok [withChild 1]) ∧
      ∃ chosen, Match.Witness [[withChild 1]] (found []) chosen := by
  have haccepted := accepted_of_subset pair_subset (List.cons_ne_nil _ _)
  have hplain := plain_of_subset pair_subset
  obtain ⟨p, hp, hgives, -, hwitness, -, -⟩ := Accepted.all_survivors haccepted hplain tree
  obtain rfl := hp.unique of_pair
  obtain ⟨chosen, hchosen, -⟩ := hwitness (found []) List.mem_cons_self (withChild 1) rfl
  exact ⟨haccepted, hplain, hgives, chosen, hchosen⟩

/-- The `C` child could be chosen from both further clauses, but the `B` child is found first and the candidate is
lost; in the other order of the further clauses it survives. -/
theorem all_blocked_by_choice :
    (Clause.all blocked).Accepted ∧ (Clause.all unblocked).Accepted ∧
      ComesTo tree (ofPattern parent) (.ok [found []]) ∧
      ComesTo tree either (.ok [withChild 0, withChild 1]) ∧
      ComesTo tree (ofPattern (parentOf "C")) (.ok [withChild 1]) ∧
      Match.Witness [[withChild 0, withChild 1], [withChild 1]] (found []) [withChild 1, withChild 1] ∧
      ComesTo tree (.all blocked) (.ok []) ∧
      ComesTo tree (.all unblocked) (.ok [withChild 1]) := by
  have hsubset : unblocked ⊆ blocked := perm_unblocked.subset
  have haccepted := accepted_of_subset (List.Subset.refl _) (List.cons_ne_nil _ _)
  have haccepted' := accepted_of_subset hsubset (List.cons_ne_nil _ _)
  have hwitness : Match.Witness [[withChild 0, withChild 1], [withChild 1]] (found []) [withChild 1, withChild 1] := by
    constructor
    · exact .cons (List.mem_cons_of_mem _ List.mem_cons_self) (.cons List.mem_cons_self .nil)
    · decide
    · decide
  exact ⟨haccepted, haccepted', comesTo_parent, comesTo_either, comesTo_parentOf_C, hwitness,
    of_blocked.comesTo haccepted.sound (plain_of_subset (List.Subset.refl _)),
    of_unblocked.comesTo haccepted'.sound (plain_of_subset hsubset)⟩

end TwoChildren

end Clause

end RuleScan
