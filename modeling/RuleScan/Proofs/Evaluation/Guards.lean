import RuleScan.Proofs.Evaluation.Survivors
import RuleScan.Proofs.Rule.Safety

/-! What the matches of an 'all' clause stand for. Each is a candidate of the first positive clause, with the bindings
of one match of every other positive clause, and is let pass by every guard. Main statement: this holds of every
accepted 'all' clause, and the order of its guards makes no difference if and only if none of the names that its
clauses declare is inherent. -/
namespace RuleScan

open Counted

namespace Clause

theorem exists_sublist_filterMap {α β : Type} (f : α → Option β) (xs : List α) :
    ∃ kept, kept.Sublist xs ∧ List.Forall₂ (fun x y => f x = some y) kept (xs.filterMap f) := by
  induction xs with
  | nil => exact ⟨[], .slnil, .nil⟩
  | cons x rest ih =>
    obtain ⟨kept, hsub, hkept⟩ := ih
    cases hf : f x with
    | none =>
      rw [List.filterMap_cons_none hf]
      exact ⟨kept, hsub.cons x, hkept⟩
    | some y =>
      rw [List.filterMap_cons_some hf]
      exact ⟨x :: kept, hsub.cons_cons x, .cons hf hkept⟩

def Finds (tree : Tree) (c : Clause) (m : Match) : Prop := ∃ ms, ComesTo tree c (.ok ms) ∧ m ∈ ms

/-- What a guard asks of a span, with the matches of its clause. -/
def Allows (kind : GuardKind) (others : List Match) (span : Span) : Prop :=
  match kind with
  | .not => ∀ o ∈ others, ¬o.span.same span = true
  | .inside => ∃ o ∈ others, o.span.contains span = true
  | .notInside => ∀ o ∈ others, ¬o.span.contains span = true

theorem admitsSpan_iff {kind : GuardKind} {others : List Match} {span : Span} :
    admitsSpan kind others span = true ↔ Allows kind others span := by
  cases kind <;> simp [admitsSpan, Allows]

/-- A match of an 'all' clause with these further clauses and guards is made of a candidate: it has its node and span,
and binds what the candidate binds and what one match of each further clause binds. These matches have the span of the
candidate and agree with it and with each other. Its record is that of the candidate if there is no further clause, and
else one without a base. Every guard allows the span. -/
structure MadeOf (tree : Tree) (further : List Clause) (guarded : List (GuardKind × Clause)) (m r : Match) : Prop where
  node : r.node = m.node
  span : r.span = m.span
  bindings : ∃ chosen, List.Forall₂ (Finds tree) further chosen ∧ (∀ o ∈ chosen, o.span.same m.span = true) ∧
    (m :: chosen).Pairwise (fun a b => a.bindings.Agree b.bindings) ∧
    r.bindings = (chosen.map (·.bindings)).foldl Bindings.extend m.bindings
  base : r.base = if further.isEmpty then m.base else none
  guards : ∀ g ∈ guarded, ∃ others, ComesTo tree g.2 (.ok others) ∧ Allows g.1 others r.span

section

variable {tree : Tree} {clauses clauses' : List Clause} {p : Parts}

theorem finds_of_forall₂ {cs : List Clause} {results : List (List Match)} {chosen : List Match}
    (h : List.Forall₂ (fun c ms => ComesTo tree c (.ok ms)) cs results)
    (hmem : List.Forall₂ (fun ms o => o ∈ ms) results chosen) : List.Forall₂ (Finds tree) cs chosen := by
  induction h generalizing chosen with
  | nil =>
    cases hmem
    exact .nil
  | @cons c ms cs results hc hrest ih =>
    cases hmem with
    | cons ho hlater => exact .cons ⟨ms, hc, ho⟩ (ih hlater)

namespace Parts

theorem Of.madeOf {first : Clause} {rest : List Clause} (h : p.Of tree clauses)
    (hpos : Clause.positives clauses = first :: rest) :
    ∃ kept, kept.Sublist p.candidates ∧ List.Forall₂ (MadeOf tree rest (Clause.guards clauses)) kept p.passed := by
  have hfurther : List.Forall₂ (fun c ms => ComesTo tree c (.ok ms)) rest p.further := by
    have hparts := h.positives
    rw [hpos] at hparts
    cases hparts with
    | cons _ hrest => exact hrest
  have hpassed : p.passed =
      p.candidates.filterMap fun m => (Match.joinEach p.further m).filter fun r => Admits p.guarded r.span :=
    List.filter_filterMap ..
  obtain ⟨kept, hsub, hkept⟩ := exists_sublist_filterMap
    (fun m => (Match.joinEach p.further m).filter fun r => Admits p.guarded r.span) p.candidates
  rw [← hpassed] at hkept
  refine ⟨kept, hsub, hkept.imp fun m r hr => ?_⟩
  obtain ⟨hjoined, hadmitted⟩ := Option.filter_eq_some_iff.mp hr
  obtain ⟨chosen, hw, rfl⟩ := Match.exists_witness_of_joinEach hjoined
  have hfound := finds_of_forall₂ hfurther hw.mem
  constructor
  · exact Match.foldl_join_node m chosen
  · exact Match.foldl_join_span m chosen
  · exact ⟨chosen, hfound, hw.span, hw.agree, Match.foldl_join_bindings m chosen⟩
  · have hempty : rest.isEmpty = chosen.isEmpty := by
      cases hfound <;> rfl
    rw [hempty]
    exact Match.foldl_join_base m chosen
  · intro g hg
    have hguards : List.Forall₂ (fun (x : GuardKind × List Match) g => g.1 = x.1 ∧ ComesTo tree g.2 (.ok x.2))
        p.guarded (Clause.guards clauses) := h.guards.flip
    obtain ⟨others, hothers, hkind, hcomes⟩ := Query.exists_of_mem_forall₂ hguards hg
    have hadmits := List.all_eq_true.mp hadmitted others hothers
    rw [← hkind] at hadmits
    exact ⟨others.2, hcomes, admitsSpan_iff.mp hadmits⟩

end Parts

/-- Every match of a sound 'all' clause is made of a candidate, and they come in the order of the candidates. -/
theorem Sound.exists_madeOf (hs : (Clause.all clauses).Sound) {ms : List Match}
    (hms : ComesTo tree (.all clauses) (.ok ms)) :
    ∃ first rest candidates kept, positives clauses = first :: rest ∧ ComesTo tree first (.ok candidates) ∧
      kept.Sublist candidates ∧ List.Forall₂ (MadeOf tree rest (guards clauses)) kept ms := by
  obtain ⟨o, further, guarded, hparts, -, hall⟩ := hs.exists_conjunction tree
  obtain ⟨candidates, rfl, -⟩ := Query.bind_eq_ok.mp (hall.unique hms)
  obtain ⟨first, rest, hfirst, -, hpos⟩ := List.forall₂_cons_right_iff.mp hparts
  refine ⟨first, rest, candidates, ?_⟩
  cases hcases : ms with
  | nil => exact ⟨[], hpos, hfirst, List.nil_sublist _, .nil⟩
  | cons r later =>
    obtain ⟨p, hp⟩ := Parts.exists_of_mem hs hms (hcases ▸ List.mem_cons_self)
    have hcandidates : p.candidates = candidates := by
      have hpositives := hp.positives
      rw [hpos] at hpositives
      cases hpositives with
      | cons hc _ => exact Except.ok.inj (hc.unique hfirst)
    obtain ⟨kept, hsub, hmade⟩ := hp.madeOf hpos
    have hpassed : ms = p.passed := hp.eq_passed hs.each hms
    rw [hcandidates] at hsub
    rw [← hpassed, hcases] at hmade
    exact ⟨kept, hpos, hfirst, hsub, hmade⟩

/-- Where no declared name is inherent, the order of the guards makes no difference. -/
theorem Sound.guards_perm (hs : (Clause.all clauses).Sound) (hplain : Plain (declaredEach clauses))
    (hperm : clauses'.Perm clauses) (hpos : positives clauses' = positives clauses) {ms : List Match}
    (hms : ComesTo tree (.all clauses) (.ok ms)) : ComesTo tree (.all clauses') (.ok ms) := by
  obtain ⟨p, hp⟩ := Parts.exists_of_plain hs hplain tree
  have hs' := hs.perm hperm
  have hplain' := Plain.perm hplain hperm
  obtain ⟨p', hp'⟩ := Parts.exists_of_plain hs' hplain' tree
  obtain ⟨-, -, hguarded⟩ := hp.perm hp' hperm (congrArg List.head? hpos)
  have hof : Parts.Of tree clauses' ⟨p.candidates, p.further, p'.guarded⟩ := by
    constructor
    · rw [hpos]
      exact hp.positives
    · exact hp'.guards
  have hpassed : Parts.passed ⟨p.candidates, p.further, p'.guarded⟩ = p.passed := by
    rw [Parts.passed, Parts.passed, admits_perm hguarded]
    rfl
  have hsame : p.passed = ms := Except.ok.inj ((hp.comesTo hs hplain).unique hms)
  rw [← hsame, ← hpassed]
  exact hof.comesTo hs' hplain'

end

end Clause

/-! A clause that looks for `A` nodes and demands of a `B` child, which they may have, that its text is not `b`. Where
the child is not there, an inherent name of it makes the test fail. -/
namespace MaybeChild

open Clause

variable {name : String}

def constraint (name : String) : Constraint := { capture := name, notEquals := some "b" }

def constrained (name : String) : Clause := .structural (source name) none (some [constraint name])

def constrainedValue (name : String) : Value :=
  .obj [("type", .str "structural"), ("query", .str (source name)),
    ("where", .arr [.obj [("capture", .str name), ("notEquals", .str "b")]])]

def nodeOf (kind : String) : Query.Pattern := .node kind [] [] .one []

theorem wellFormed_nodeOf {kind : String} (h : Query.IsIdentifier kind ∧ kind ≠ "_") : (nodeOf kind).WellFormed := by
  simp only [nodeOf, Query.Pattern.WellFormed, Query.ElementsWellFormed]
  refine ⟨?_, trivial, nofun, nofun⟩
  intro k hk
  cases hk
  exact h

/-- The clause that looks for `A` nodes and the one that looks for `B` nodes, of which there are none. -/
def present : Clause := ofPattern (nodeOf "A")

def absent : Clause := ofPattern (nodeOf "B")

theorem reads_present (room : Nat) (place : Validation.Place) :
    Reads (room + 1) place (patternValue (nodeOf "A")) present :=
  reads_ofPattern (wellFormed_nodeOf (by decide)) rfl room place

theorem reads_absent (room : Nat) (place : Validation.Place) :
    Reads (room + 1) place (patternValue (nodeOf "B")) absent :=
  reads_ofPattern (wellFormed_nodeOf (by decide)) rfl room place

theorem reads_constrained (h : Query.IsCaptureName name) (room : Nat) (place : Validation.Place) :
    Reads (room + 1) place (constrainedValue name) (constrained name) := by
  refine ⟨rfl, rfl, _, parse_source h, .none, .some ⟨_, rfl, .cons ?_ .nil⟩⟩
  exact ⟨⟨_, rfl, rfl, List.mem_cons_self⟩, .none, .none, .none, .some rfl, .none⟩

theorem declared_constrained (h : Query.IsCaptureName name) : (constrained name).declared = [name] := by
  rw [constrained, declared, parse_source h]

/-- The `A` node. -/
def found : Match := ⟨tree.root.span, tree.root, [], none⟩

theorem comesTo_present : ComesTo tree present (.ok [found]) :=
  comesTo_ofPattern (wellFormed_nodeOf (by decide)) rfl tree

theorem comesTo_absent : ComesTo tree absent (.ok []) :=
  comesTo_ofPattern (wellFormed_nodeOf (by decide)) rfl tree

theorem comesTo_constrained (h : Query.IsCaptureName name) (hinherent : name ∈ Bindings.inherent) :
    ComesTo tree (constrained name) (.error (.noNode ⟨"startIndex"⟩)) := by
  have hmeaning : Bindings.meaning [] name = .noNode := Bindings.meaning_eq_noNode_iff.mpr ⟨rfl, hinherent⟩
  have htest : acceptance tree.source none [constraint name] [] = .error (.noNode ⟨"startIndex"⟩) := by
    simp [acceptance, focusBound, constraint, Constraint.Test.allHold, Constraint.Test.holds, Constraint.compile, hmeaning]
  have hsolutions : Query.solutions tree.source (pattern name) tree.root [] = [[]] := rfl
  have hfirst : Query.Compiled.firstAt ⟨pattern name, []⟩ tree.source (acceptance tree.source none [constraint name])
      tree.root = .error (.noNode ⟨"startIndex"⟩) := by
    rw [Query.Compiled.firstAt, hsolutions, List.findM?]
    simp only [List.all_nil, if_true, htest]
    rfl
  have hcompile : Query.compile ⟨source name, pattern name, [], [name]⟩ = .ok ⟨pattern name, []⟩ := rfl
  have hcomes := comesTo_structural (parse_source h) hcompile none (some [constraint name]) tree
  have hall : tree.root.preorder.filterMapM (Query.Compiled.firstAt ⟨pattern name, []⟩ tree.source
      (acceptance tree.source none [constraint name])) = .error (.noNode ⟨"startIndex"⟩) := by
    show [tree.root].filterMapM _ = _
    rw [List.filterMapM_cons, hfirst]
    rfl
  rw [Option.getD_some, hall] at hcomes
  exact hcomes

/-- `A` nodes that are no `A` nodes, inside of ones whose child has another text; and the guards swapped. -/
def refused (name : String) : List Clause := [present, .guard .not present, .guard .inside (constrained name)]

def failing (name : String) : List Clause := [present, .guard .inside (constrained name), .guard .not present]

theorem perm_failing (name : String) : (failing name).Perm (refused name) := (List.Perm.swap _ _ _).cons _

theorem reads_refused (h : Query.IsCaptureName name) : ∀ c ∈ refused name, ∃ v, Reads 2 .inAll v c := by
  have hguard : ∀ kind v c, Reads 1 .elsewhere v c →
      Reads 2 .inAll (.obj [("type", .str (GuardKind.word kind)), ("clause", v)]) (.guard kind c) := fun _ _ _ hc =>
    ⟨rfl, rfl, _, rfl, hc⟩
  simp only [refused, List.forall_mem_cons]
  exact ⟨⟨_, reads_present _ _⟩, ⟨_, hguard _ _ _ (reads_present _ _)⟩,
    ⟨_, hguard _ _ _ (reads_constrained h _ _)⟩, nofun⟩

theorem accepted_refused (h : Query.IsCaptureName name) : (Clause.all (refused name)).Accepted :=
  accepted_all (by decide) ⟨present, List.mem_cons_self, rfl⟩ (reads_refused h)

theorem accepted_failing (h : Query.IsCaptureName name) : (Clause.all (failing name)).Accepted :=
  accepted_all (by decide) ⟨present, List.mem_cons_self, rfl⟩ fun c hc =>
    reads_refused h c ((perm_failing name).mem_iff.mp hc)

/-- The first guard refuses the only candidate, so the second one is not looked at. -/
theorem comesTo_refused (h : Query.IsCaptureName name) (hinherent : name ∈ Bindings.inherent) :
    ComesTo tree (.all (refused name)) (.ok []) := by
  have hguards : List.Forall₂ (fun g o => g.1 = o.1 ∧ ComesTo tree g.2 o.2) (guards (refused name))
      [(.not, .ok [found]), (.inside, .error (.noNode ⟨"startIndex"⟩))] :=
    .cons ⟨rfl, comesTo_present⟩ (.cons ⟨rfl, comesTo_constrained h hinherent⟩ .nil)
  exact comesTo_all (accepted_refused h).sound.each (.cons comesTo_present .nil) hguards

theorem comesTo_failing (h : Query.IsCaptureName name) (hinherent : name ∈ Bindings.inherent) :
    ComesTo tree (.all (failing name)) (.error (.noNode ⟨"startIndex"⟩)) := by
  have hguards : List.Forall₂ (fun g o => g.1 = o.1 ∧ ComesTo tree g.2 o.2) (guards (failing name))
      [(.inside, .error (.noNode ⟨"startIndex"⟩)), (.not, .ok [found])] :=
    .cons ⟨rfl, comesTo_constrained h hinherent⟩ (.cons ⟨rfl, comesTo_present⟩ .nil)
  exact comesTo_all (accepted_failing h).sound.each (.cons comesTo_present .nil) hguards

theorem declared_refused (h : Query.IsCaptureName name) : declaredEach (refused name) = [name] := by
  have hpresent : present.declared = [] := declared_ofPattern (wellFormed_nodeOf (by decide)) rfl
  simp [refused, declaredEach, declared, hpresent, declared_constrained h]

/-- `A` nodes that are inside of `A` nodes and are no `B` nodes; and the guards swapped. -/
def passing : List Clause := [present, .guard .inside present, .guard .not absent]

def passingSwapped : List Clause := [present, .guard .not absent, .guard .inside present]

theorem accepted_passing : (Clause.all passing).Accepted := by
  have hreads : ∀ c ∈ passing, ∃ v, Reads 2 .inAll v c := by
    simp only [passing, List.forall_mem_cons]
    exact ⟨⟨_, reads_present 1 _⟩,
      ⟨.obj [("type", .str "inside"), ("clause", patternValue (nodeOf "A"))], rfl, rfl, _, rfl, reads_present 0 _⟩,
      ⟨.obj [("type", .str "not"), ("clause", patternValue (nodeOf "B"))], rfl, rfl, _, rfl, reads_absent 0 _⟩, nofun⟩
  exact accepted_all (by decide) ⟨present, List.mem_cons_self, rfl⟩ hreads

theorem comesTo_passing : ComesTo tree (.all passing) (.ok [found]) := by
  have hguards : List.Forall₂ (fun g o => g.1 = o.1 ∧ ComesTo tree g.2 o.2) (guards passing)
      [(.inside, .ok [found]), (.not, .ok [])] :=
    .cons ⟨rfl, comesTo_present⟩ (.cons ⟨rfl, comesTo_absent⟩ .nil)
  exact comesTo_all accepted_passing.sound.each (.cons comesTo_present .nil) hguards

end MaybeChild

namespace Clause

/-- Every match of an accepted 'all' clause is made of a candidate of its first positive clause, in the order of the
candidates, and every guard lets it pass. The guards of the accepted 'all' clauses over some names can be put in any
order exactly if none of the names is inherent. -/
theorem all_madeOf_guards_perm_iff (names : List String) :
    (∀ clauses, (Clause.all clauses).Accepted → ∀ tree ms, ComesTo tree (.all clauses) (.ok ms) →
      ∃ first rest candidates kept, positives clauses = first :: rest ∧ ComesTo tree first (.ok candidates) ∧
        kept.Sublist candidates ∧ List.Forall₂ (MadeOf tree rest (guards clauses)) kept ms) ∧
    ((∀ clauses clauses', (Clause.all clauses).Accepted → declaredEach clauses ⊆ names → clauses'.Perm clauses →
        positives clauses' = positives clauses →
        ∀ tree ms, ComesTo tree (.all clauses) (.ok ms) → ComesTo tree (.all clauses') (.ok ms)) ↔
      ∀ name ∈ names, name ∉ Bindings.inherent) := by
  refine ⟨fun clauses h tree ms hms => h.sound.exists_madeOf hms, ?_, ?_⟩
  · intro h name hname hinherent
    have hcapture : Query.IsCaptureName name := (MaybeChild.writable_of_inherent name hinherent).1
    have hdeclared : declaredEach (MaybeChild.refused name) ⊆ names := by
      rw [MaybeChild.declared_refused hcapture]
      exact List.cons_subset.mpr ⟨hname, List.nil_subset _⟩
    have hswapped := h _ (MaybeChild.failing name) (MaybeChild.accepted_refused hcapture) hdeclared
      (MaybeChild.perm_failing name) rfl _ _ (MaybeChild.comesTo_refused hcapture hinherent)
    cases hswapped.unique (MaybeChild.comesTo_failing hcapture hinherent)
  · intro hplain clauses clauses' h hdeclared hperm hpos tree ms hms
    exact h.sound.guards_perm (fun name hn => hplain name (hdeclared hn)) hperm hpos hms

theorem all_madeOf_passing :
    (∃ first rest candidates kept, positives MaybeChild.passing = first :: rest ∧
        ComesTo MaybeChild.tree first (.ok candidates) ∧ kept.Sublist candidates ∧
        List.Forall₂ (MadeOf MaybeChild.tree rest (guards MaybeChild.passing)) kept [MaybeChild.found]) ∧
      ComesTo MaybeChild.tree (.all MaybeChild.passingSwapped) (.ok [MaybeChild.found]) := by
  obtain ⟨hmade, hperm⟩ := all_madeOf_guards_perm_iff []
  have hdeclared : declaredEach MaybeChild.passing = [] := by
    have hpresent : MaybeChild.present.declared = [] := declared_ofPattern (MaybeChild.wellFormed_nodeOf (by decide)) rfl
    have habsent : MaybeChild.absent.declared = [] := declared_ofPattern (MaybeChild.wellFormed_nodeOf (by decide)) rfl
    simp [MaybeChild.passing, declaredEach, declared, hpresent, habsent]
  have hswap : MaybeChild.passingSwapped.Perm MaybeChild.passing := (List.Perm.swap _ _ _).cons _
  constructor
  · exact hmade _ MaybeChild.accepted_passing _ _ MaybeChild.comesTo_passing
  · exact hperm.mpr (List.forall_mem_nil _) _ _ MaybeChild.accepted_passing (hdeclared ▸ List.Subset.refl _) hswap rfl _ _
      MaybeChild.comesTo_passing

/-- With an optional child captured as `constructor`, one order of the guards gives no match and the other fails. -/
theorem guards_perm_constructor_fails :
    (Clause.all (MaybeChild.refused "constructor")).Accepted ∧ (Clause.all (MaybeChild.failing "constructor")).Accepted ∧
      (MaybeChild.failing "constructor").Perm (MaybeChild.refused "constructor") ∧
      positives (MaybeChild.failing "constructor") = positives (MaybeChild.refused "constructor") ∧
      ComesTo MaybeChild.tree (.all (MaybeChild.refused "constructor")) (.ok []) ∧
      ComesTo MaybeChild.tree (.all (MaybeChild.failing "constructor")) (.error (.noNode ⟨"startIndex"⟩)) := by
  have hinherent : "constructor" ∈ Bindings.inherent := by decide
  have hcapture : Query.IsCaptureName "constructor" := by decide
  exact ⟨MaybeChild.accepted_refused hcapture, MaybeChild.accepted_failing hcapture, MaybeChild.perm_failing _, rfl,
    MaybeChild.comesTo_refused hcapture hinherent, MaybeChild.comesTo_failing hcapture hinherent⟩

end Clause

end RuleScan
