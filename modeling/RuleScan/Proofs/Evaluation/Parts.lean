import RuleScan.Proofs.Evaluation.Conjunction

/-! The parts of an 'all' clause and what it makes of their matches. Every sound clause has an outcome of its own.
Main statement: the matches of a sound 'all' clause are made of those of its parts, and if no name that its clauses
declare is inherent, all parts give matches and so does the clause. -/
namespace RuleScan

open Counted

namespace Clause

variable {tree : Tree} {c : Clause}

/-- The clause comes to an outcome, in which no match binds a name twice. -/
def HasOutcome (tree : Tree) (c : Clause) (o : Except EvalError (List Match)) : Prop :=
  ComesTo tree c o ∧ ∀ ms, o = .ok ms → Match.AllUnique ms

private theorem allUnique_of_yields {m : Counted (List Match)} {o : Except EvalError (List Match)}
    (hm : EndsIn m o) (hy : Yields m (∀ m ∈ ·, m.Named)) : ∀ ms, o = .ok ms → Match.AllUnique ms := by
  intro ms ho r hr
  subst ho
  obtain ⟨n, -, hgives⟩ := hm.gives
  have hstart : (Tracker.start { maxSteps := n } (.still 0)).Unhindered := ⟨rfl, rfl, fun _ => rfl⟩
  have hsteps : ((Tracker.start { maxSteps := n } (.still 0)).steps + n : Int) ≤ n := by
    have hzero : (Tracker.start { maxSteps := n } (.still 0)).steps = 0 := rfl
    omega
  obtain ⟨t', hrun⟩ := hgives _ hstart hsteps
  exact (hy _ _ _ hrun r hr).unique

private theorem exists_for_guards {β : Type} {R : Clause → β → Prop} {clauses : List Clause}
    (h : ∀ c ∈ clauses, ∃ o, R c.unguarded o) :
    ∃ guarded : List (GuardKind × β), List.Forall₂ (fun g o => g.1 = o.1 ∧ R g.2 o.2) (guards clauses) guarded := by
  apply exists_forall₂
  intro g hg
  obtain ⟨c, hc, he⟩ := List.mem_filterMap.mp hg
  obtain ⟨o, ho⟩ := h c hc
  cases c with
  | guard kind inner =>
    cases he
    exact ⟨(kind, o), rfl, ho⟩
  | _ => cases he

private theorem exists_for_positives {β : Type} {R : Clause → β → Prop} {clauses : List Clause}
    (hpositive : ∃ c ∈ clauses, c.isGuard = false) (h : ∀ c ∈ clauses, ∃ o, R c.unguarded o) :
    ∃ first further, List.Forall₂ R (positives clauses) (first :: further) := by
  have heach : ∀ c ∈ positives clauses, ∃ o, R c o := by
    intro c hc
    obtain ⟨hmem, hg⟩ := List.mem_filter.mp hc
    have ho := h c hmem
    rw [unguarded_of_not_isGuard (by simpa using hg)] at ho
    exact ho
  obtain ⟨outcomes, hall⟩ := exists_forall₂ heach
  obtain ⟨c, hc, hg⟩ := hpositive
  have hmem : c ∈ positives clauses := List.mem_filter.mpr ⟨hc, by simp [hg]⟩
  cases outcomes with
  | nil =>
    rw [List.forall₂_nil_right_iff.mp hall] at hmem
    cases hmem
  | cons first further => exact ⟨first, further, hall⟩

/-- A match of a conjunction binds no name twice if those of its parts do not. -/
private theorem allUnique_conjunction {first : Except EvalError (List Match)}
    {further : List (Except EvalError (List Match))} {guarded : List (GuardKind × Except EvalError (List Match))}
    (h : ∀ o ∈ first :: further, ∀ ms, o = .ok ms → Match.AllUnique ms) :
    ∀ ms, conjunction first further guarded = .ok ms → Match.AllUnique ms := by
  obtain ⟨hfirst, hfurther⟩ := List.forall_mem_cons.mp h
  intro ms hms m hm
  obtain ⟨candidates, rfl, hnext⟩ := Query.bind_eq_ok.mp hms
  obtain ⟨survivors, hs, hguards⟩ := Query.bind_eq_ok.mp hnext
  obtain ⟨hmem, -⟩ := exists_of_guardEach hguards hm
  obtain ⟨results, rfl⟩ := exists_of_narrowEach hs hmem
  have hresults : ∀ others ∈ results, Match.AllUnique others := fun others ho =>
    hfurther _ (List.mem_map_of_mem ho) others rfl
  exact (narrowEach_eq_ok (hfirst candidates rfl) hresults hs).2 m hmem

private theorem Sound.exists_hasOutcome (h : c.Sound) (tree : Tree) : ∃ o, HasOutcome tree c.unguarded o := by
  induction h with
  | @structural query focus constraints q parses focus_mem constrained =>
    obtain ⟨o, ho, -⟩ := settles_structuralMatches tree query focus (constraints.getD [])
    refine ⟨o, comesTo_of_eq ho ?_, allUnique_of_yields ho (yields_named_structuralMatches tree query focus _)⟩
    intro memo
    rw [unguarded, evaluate]
    intro _ _ he
    cases he
  | @textual regex flags constraints program compiles constrained =>
    obtain ⟨o, ho, -⟩ := settles_textualMatches tree (LineIndex.ofText tree.source)
      ((constraints.getD []).map Constraint.compile) (program.all tree.source)
    refine ⟨o, comesTo_of_eq ho ?_, allUnique_of_yields ho (yields_named_textualMatches compiles _ _)⟩
    intro memo
    rw [unguarded, evaluate, compiles]
    · rfl
    · intro _ _ he
      cases he
  | @any clauses positive each ih =>
    have hclauses : ∀ c ∈ clauses, ∃ o, HasOutcome tree c o := by
      intro c hc
      have ho := ih c hc
      rw [unguarded_of_not_isGuard (positive c hc)] at ho
      exact ho
    obtain ⟨outcomes, hoc⟩ := exists_forall₂ hclauses
    refine ⟨_, comesTo_any (hoc.imp fun _ _ h => h.1), ?_⟩
    intro ms h
    obtain ⟨results, hr, rfl⟩ := Query.map_eq_ok.mp h
    intro m hm
    obtain ⟨xs, hxs, hmem⟩ := Match.exists_of_mem_union hm
    obtain ⟨o, ho, he⟩ := Query.exists_of_mapM hr xs hxs
    obtain ⟨c, -, -, hunique⟩ := Query.exists_of_mem_forall₂ hoc ho
    exact hunique xs he m hmem
  | @all clauses positive each ih =>
    obtain ⟨o, further, hparts⟩ := exists_for_positives positive ih
    obtain ⟨guarded, hguarded⟩ := exists_for_guards ih
    refine ⟨_, comesTo_all each (hparts.imp fun _ _ h => h.1) (hguarded.imp fun _ _ h => ⟨h.1, h.2.1⟩),
      allUnique_conjunction ?_⟩
    intro o ho
    obtain ⟨c, -, -, hunique⟩ := Query.exists_of_mem_forall₂ hparts ho
    exact hunique
  | guard positive inner ih =>
    rw [unguarded_of_not_isGuard positive] at ih
    exact ih

theorem Sound.exists_comesTo (h : c.Sound) (tree : Tree) : ∃ o, ComesTo tree c.unguarded o := by
  obtain ⟨o, ho, -⟩ := h.exists_hasOutcome tree
  exact ⟨o, ho⟩

theorem Sound.allUnique (h : c.Sound) {ms : List Match} (hms : ComesTo tree c.unguarded (.ok ms)) :
    Match.AllUnique ms := by
  obtain ⟨o, ho, hunique⟩ := h.exists_hasOutcome tree
  exact hunique ms (ho.unique hms)

/-- A sound clause whose names are no inherent ones comes to matches. -/
theorem Sound.exists_comesTo_ok (h : c.Sound) (hplain : Plain c.declared) (tree : Tree) :
    ∃ ms, ComesTo tree c.unguarded (.ok ms) := by
  obtain ⟨o, ho⟩ := h.exists_comesTo tree
  obtain ⟨r, hr, -⟩ := h.evaluates_unguarded hplain tree (LineIndex.ofText tree.source) (List.Subset.refl _) []
  have he := (ho []).unique hr
  cases o with
  | error e => cases he
  | ok ms => exact ⟨ms, ho⟩

theorem Sound.exists_conjunction {clauses : List Clause} (hs : (Clause.all clauses).Sound) (tree : Tree) :
    ∃ first further guarded, List.Forall₂ (ComesTo tree) (positives clauses) (first :: further) ∧
      List.Forall₂ (fun g o => g.1 = o.1 ∧ ComesTo tree g.2 o.2) (guards clauses) guarded ∧
      ComesTo tree (.all clauses) (conjunction first further guarded) := by
  have heach : ∀ c ∈ clauses, ∃ o, ComesTo tree c.unguarded o := fun c hc => (hs.each c hc).exists_comesTo tree
  obtain ⟨first, further, hparts⟩ := exists_for_positives hs.exists_positive heach
  obtain ⟨guarded, hguarded⟩ := exists_for_guards heach
  exact ⟨first, further, guarded, hparts, hguarded, comesTo_all hs.each hparts hguarded⟩

/-- The matches of the first positive clause, of each further one, and of the clause that each guard holds. -/
structure Parts where
  candidates : List Match
  further : List (List Match)
  guarded : List (GuardKind × List Match)

namespace Parts

structure Of (tree : Tree) (clauses : List Clause) (p : Parts) : Prop where
  positives : List.Forall₂ (fun c ms => ComesTo tree c (.ok ms)) (positives clauses) (p.candidates :: p.further)
  guards : List.Forall₂ (fun g h => g.1 = h.1 ∧ ComesTo tree g.2 (.ok h.2)) (guards clauses) p.guarded

def survivors (p : Parts) : List Match := p.candidates.filterMap (Match.joinEach p.further)

/-- The survivors that every guard lets pass. -/
def passed (p : Parts) : List Match := p.survivors.filter fun m => Admits p.guarded m.span

variable {clauses : List Clause} {p : Parts}

private theorem forall₂_map_ok {cs : List Clause} {results : List (List Match)}
    (h : List.Forall₂ (fun c ms => ComesTo tree c (.ok ms)) cs results) :
    List.Forall₂ (ComesTo tree) cs (results.map .ok) :=
  List.forall₂_map_right_iff.mpr h

private theorem forall₂_map_guarded {gs : List (GuardKind × Clause)} {results : List (GuardKind × List Match)}
    (h : List.Forall₂ (fun g h => g.1 = h.1 ∧ ComesTo tree g.2 (.ok h.2)) gs results) :
    List.Forall₂ (fun g o => g.1 = o.1 ∧ ComesTo tree g.2 o.2) gs (results.map fun g => (g.1, .ok g.2)) :=
  List.forall₂_map_right_iff.mpr h

private theorem sound_positives (hs : ∀ c ∈ clauses, c.Sound) : ∀ c ∈ Clause.positives clauses,
    c.Sound ∧ c.unguarded = c := by
  intro c hc
  obtain ⟨hmem, hg⟩ := List.mem_filter.mp hc
  exact ⟨hs c hmem, unguarded_of_not_isGuard (by simpa using hg)⟩

/-- The parts of a clause give nothing else. -/
theorem Of.unique {p' : Parts} (h : p.Of tree clauses) (h' : p'.Of tree clauses) : p = p' := by
  have hpositives : p.candidates :: p.further = p'.candidates :: p'.further :=
    List.right_unique_forall₂' (fun _ _ _ ha hb => Except.ok.inj (ha.unique hb)) h.positives h'.positives
  have hguarded : p.guarded = p'.guarded := by
    refine List.right_unique_forall₂' ?_ h.guards h'.guards
    intro g a b ha hb
    exact Prod.ext (ha.1.symm.trans hb.1) (Except.ok.inj (ha.2.unique hb.2))
  obtain ⟨hcandidates, hfurther⟩ := List.cons.inj hpositives
  cases p
  cases p'
  simp_all

theorem Of.allUnique (h : p.Of tree clauses) (hs : ∀ c ∈ clauses, c.Sound) :
    ∀ ms ∈ p.candidates :: p.further, Match.AllUnique ms := by
  intro ms hms
  obtain ⟨c, hc, hcomes⟩ := Query.exists_of_mem_forall₂ h.positives hms
  obtain ⟨hsound, hself⟩ := sound_positives hs c hc
  exact hsound.allUnique (hself.symm ▸ hcomes)

theorem Of.eq_passed (h : p.Of tree clauses) (hs : ∀ c ∈ clauses, c.Sound) {ms : List Match}
    (hms : ComesTo tree (.all clauses) (.ok ms)) : ms = p.passed := by
  obtain ⟨hcandidates, hfurther⟩ := List.forall_mem_cons.mp (h.allUnique hs)
  have hall := comesTo_all hs (forall₂_map_ok h.positives) (forall₂_map_guarded h.guards)
  obtain ⟨_, ⟨⟩, hnext⟩ := Query.bind_eq_ok.mp (hms.unique hall).symm
  obtain ⟨survivors, hn, hguards⟩ := Query.bind_eq_ok.mp hnext
  obtain ⟨hsurvivors, -⟩ := narrowEach_eq_ok hcandidates hfurther hn
  rw [guardEach_eq, hsurvivors] at hguards
  exact (Except.ok.inj hguards).symm

theorem exists_of_mem (hs : (Clause.all clauses).Sound) {ms : List Match}
    (hms : ComesTo tree (.all clauses) (.ok ms)) {m : Match} (hm : m ∈ ms) : ∃ p : Parts, p.Of tree clauses := by
  obtain ⟨o, further, guarded, hparts, hguarded, hall⟩ := hs.exists_conjunction tree
  obtain ⟨candidates, rfl, hnext⟩ := Query.bind_eq_ok.mp (hall.unique hms)
  obtain ⟨survivors, hn, hguards⟩ := Query.bind_eq_ok.mp hnext
  obtain ⟨hmem, admitted, rfl⟩ := exists_of_guardEach hguards hm
  obtain ⟨results, rfl⟩ := exists_of_narrowEach hn hmem
  have hmapped : List.Forall₂ (ComesTo tree) (Clause.positives clauses) ((candidates :: results).map .ok) := hparts
  exact ⟨⟨candidates, results, admitted⟩, List.forall₂_map_right_iff.mp hmapped, List.forall₂_map_right_iff.mp hguarded⟩

/-- Where no declared name is inherent, a sound 'all' clause gives what is made of its parts. -/
theorem Of.comesTo (h : p.Of tree clauses) (hs : (Clause.all clauses).Sound) (hplain : Plain (declaredEach clauses)) :
    ComesTo tree (.all clauses) (.ok p.passed) := by
  obtain ⟨ms, hms⟩ : ∃ ms, ComesTo tree (.all clauses) (.ok ms) := hs.exists_comesTo_ok hplain tree
  exact h.eq_passed hs.each hms ▸ hms

/-- Where no declared name is inherent, all parts of a sound 'all' clause give matches. -/
theorem exists_of_plain (hs : (Clause.all clauses).Sound) (hplain : Plain (declaredEach clauses)) (tree : Tree) :
    ∃ p : Parts, p.Of tree clauses := by
  have heach : ∀ c ∈ clauses, ∃ ms, ComesTo tree c.unguarded (.ok ms) := fun c hc =>
    (hs.each c hc).exists_comesTo_ok (fun name hn => hplain name (declared_subset_of_mem hc hn)) tree
  obtain ⟨candidates, further, hparts⟩ :=
    exists_for_positives (R := fun c ms => ComesTo tree c (.ok ms)) hs.exists_positive heach
  obtain ⟨guarded, hguarded⟩ := exists_for_guards (R := fun c ms => ComesTo tree c (.ok ms)) heach
  exact ⟨⟨candidates, further, guarded⟩, hparts, hguarded⟩

end Parts

end Clause

end RuleScan
