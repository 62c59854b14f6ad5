import RuleScan.Proofs.Evaluation.Outcomes

/-! What 'all' clauses come to. The clauses of a sound 'all' clause are evaluated one by one, each to an outcome that
does not depend on what is remembered. Main statement: if these outcomes are matches, the clause gives the candidates
of its first positive clause that are joined with the matches of each further one and that every guard lets pass. -/
namespace RuleScan

open Counted

namespace Clause

def positives (clauses : List Clause) : List Clause := clauses.filter fun c => !c.isGuard

def guard? : Clause → Option (GuardKind × Clause)
  | .guard kind c => some (kind, c)
  | _ => none

def guards (clauses : List Clause) : List (GuardKind × Clause) := clauses.filterMap guard?

/-- What narrowing candidates by one outcome after another comes to. Where no candidate is left, no further outcome
is looked at. -/
def narrowEach : List Match → List (Except EvalError (List Match)) → Except EvalError (List Match)
  | candidates, [] => .ok candidates
  | candidates, o :: rest =>
    if candidates.isEmpty then .ok []
    else do
      let others ← o
      let narrowed ← (candidates.filterMapM (joinFirst · others)).mapError .noNode
      narrowEach narrowed rest

/-- What applying guards, each with the outcome of its clause, comes to. -/
def guardEach : List Match → List (GuardKind × Except EvalError (List Match)) → Except EvalError (List Match)
  | candidates, [] => .ok candidates
  | candidates, (kind, o) :: rest =>
    if candidates.isEmpty then .ok []
    else do
      let others ← o
      guardEach (candidates.filter fun m => admitsSpan kind others m.span) rest

/-- What an 'all' clause comes to, from the outcomes of its positive clauses and of the clauses of its guards. -/
def conjunction (first : Except EvalError (List Match)) (further : List (Except EvalError (List Match)))
    (guarded : List (GuardKind × Except EvalError (List Match))) : Except EvalError (List Match) := do
  let candidates ← first
  let survivors ← narrowEach candidates further
  guardEach survivors guarded

section Outcomes

variable {tree : Tree} {o : Except EvalError (List Match)}

theorem endsIn_narrow (others candidates : List Match) :
    EndsIn (narrow others candidates) ((candidates.filterMapM (joinFirst · others)).mapError .noNode) := by
  induction candidates with
  | nil => exact endsIn_pure []
  | cons m rest ih =>
    rw [narrow, List.filterMapM_cons]
    have hfirst := endsIn_ofExcept EvalError.noNode (joinFirst m others)
    apply EndsIn.step_bind
    cases hj : joinFirst m others with
    | error e => exact endsIn_throw _
    | ok joined =>
      cases joined with
      | none => exact ih
      | some j =>
        have hcons := endsIn_map (fun ms => j :: ms) ih
        cases hr : rest.filterMapM (joinFirst · others) with
        | error e =>
          rw [hr] at hcons
          exact hcons
        | ok ms =>
          rw [hr] at hcons
          exact hcons

theorem endsIn_guardPass (kind : GuardKind) (others candidates : List Match) :
    EndsIn (guardPass kind others candidates) (.ok (candidates.filter fun m => admitsSpan kind others m.span)) := by
  induction candidates with
  | nil => exact endsIn_pure []
  | cons m rest ih =>
    rw [guardPass]
    apply EndsIn.step_bind
    apply ih.bind_ok
    rw [List.filter_cons]
    exact endsIn_pure _

/-- Guards are passed over when the positive clauses are evaluated. -/
theorem evaluatePositives_positives (tree : Tree) (lines : LineIndex) (clauses : List Clause)
    (candidates : Option (List Match)) (memo : Memo) :
    evaluatePositives tree lines clauses candidates memo =
      evaluatePositives tree lines (positives clauses) candidates memo := by
  induction clauses generalizing candidates memo with
  | nil => rfl
  | cons c rest ih =>
    by_cases hg : c.isGuard = true
    · have hskip : positives (c :: rest) = positives rest := by simp [positives, hg]
      rw [hskip, ← ih, evaluatePositives.eq_def]
      simp only [hg, if_true]
    · have hkeep : positives (c :: rest) = c :: positives rest := by simp [positives, hg]
      rw [hkeep, evaluatePositives.eq_def, evaluatePositives.eq_def tree lines (c :: positives rest)]
      simp only [ih]

theorem guardEach_nil (guarded : List (GuardKind × Except EvalError (List Match))) : guardEach [] guarded = .ok [] := by
  cases guarded <;> rfl

/-- The further positive clauses narrow some candidates. -/
theorem endsIn_evaluatePositives {clauses : List Clause} {outcomes : List (Except EvalError (List Match))}
    (hpos : ∀ c ∈ clauses, c.isGuard = false) (h : List.Forall₂ (ComesTo tree) clauses outcomes)
    (candidates : List Match) (memo : Memo) :
    EndsIn (evaluatePositives tree (LineIndex.ofText tree.source) clauses (some candidates) memo)
      ((narrowEach candidates outcomes).map fun ms => (some ms, memo)) := by
  induction h generalizing candidates with
  | nil =>
    rw [evaluatePositives]
    exact endsIn_pure _
  | @cons c o rest outcomes hc hrest ih =>
    obtain ⟨hg, hpos⟩ := List.forall_mem_cons.mp hpos
    rw [evaluatePositives.eq_def]
    simp only [hg, Bool.false_eq_true, if_false]
    cases candidates with
    | nil => exact endsIn_pure _
    | cons m ms =>
      rw [narrowEach, if_neg (by simp), map_bind]
      apply endsIn_map_bind (hc memo)
      intro others
      rw [map_bind]
      exact (endsIn_narrow others (m :: ms)).bind fun narrowed _ => ih hpos narrowed

/-- The guards filter some candidates. -/
theorem endsIn_evaluateGuards {clauses : List Clause} {guarded : List (GuardKind × Except EvalError (List Match))}
    (hsound : ∀ c ∈ clauses, c.Sound)
    (h : List.Forall₂ (fun g o => g.1 = o.1 ∧ ComesTo tree g.2 o.2) (guards clauses) guarded)
    (candidates : List Match) (memo : Memo) :
    EndsIn (evaluateGuards tree (LineIndex.ofText tree.source) clauses candidates memo)
      ((guardEach candidates guarded).map fun ms => (ms, memo)) := by
  induction clauses generalizing candidates guarded with
  | nil =>
    cases h
    rw [evaluateGuards]
    exact endsIn_pure _
  | cons c rest ih =>
    obtain ⟨hc, hrest⟩ := List.forall_mem_cons.mp hsound
    rw [evaluateGuards]
    by_cases hempty : candidates = []
    · rw [hempty, guardEach_nil]
      exact endsIn_pure _
    have hsome : candidates.isEmpty = false := by simpa using hempty
    simp only [hsome, Bool.false_eq_true, if_false]
    by_cases hg : c.isGuard = true
    · cases hc with
      | @guard kind inner positive hinner =>
        have hcons : guards (.guard kind inner :: rest) = (kind, inner) :: guards rest := rfl
        rw [hcons] at h
        cases h with
        | @cons _ o _ outcomes hfirst hlater =>
          obtain ⟨kind', o⟩ := o
          obtain ⟨rfl, hcomes⟩ := hfirst
          rw [guardMatches, bind_assoc, guardEach, hsome, if_neg Bool.false_ne_true, map_bind]
          apply endsIn_map_bind (hcomes memo)
          intro others
          exact (endsIn_guardPass kind others candidates).bind_ok (ih hrest hlater _)
      | _ => cases hg
    · have hfalse : c.isGuard = false := Bool.eq_false_iff.mpr hg
      have hskip : guards (c :: rest) = guards rest := by
        cases c with
        | guard kind inner => exact absurd rfl hg
        | _ => rfl
      rw [hskip] at h
      rw [guardMatches_of_sound hc hfalse, pure_bind]
      exact ih hrest h candidates

theorem comesTo_all {clauses : List Clause} (hsound : ∀ c ∈ clauses, c.Sound)
    {further : List (Except EvalError (List Match))} {guarded : List (GuardKind × Except EvalError (List Match))}
    (hparts : List.Forall₂ (ComesTo tree) (positives clauses) (o :: further))
    (hguards : List.Forall₂ (fun g o => g.1 = o.1 ∧ ComesTo tree g.2 o.2) (guards clauses) guarded) :
    ComesTo tree (.all clauses) (conjunction o further guarded) := by
  have hnone : ∀ c ∈ positives clauses, c.isGuard = false := by
    intro c hc
    simpa using (List.mem_filter.mp hc).2
  intro memo
  rw [evaluate, evaluatePositives_positives]
  generalize positives clauses = parts at hparts hnone
  cases hparts with
  | @cons first _ rest _ hfirst hrest =>
    obtain ⟨hg, hgs⟩ := List.forall_mem_cons.mp hnone
    rw [evaluatePositives.eq_def]
    simp only [hg, Bool.false_eq_true, if_false, bind_assoc]
    rw [conjunction, map_bind]
    apply endsIn_map_bind (hfirst memo)
    intro candidates
    rw [map_bind]
    apply endsIn_map_bind (endsIn_evaluatePositives hgs hrest candidates memo)
    intro survivors
    exact endsIn_evaluateGuards hsound hguards survivors memo

/-- Clauses that are evaluated one after another. -/
theorem endsIn_evaluateEach {clauses : List Clause} {outcomes : List (Except EvalError (List Match))}
    (h : List.Forall₂ (ComesTo tree) clauses outcomes) (memo : Memo) :
    EndsIn (evaluateEach tree (LineIndex.ofText tree.source) clauses memo)
      ((outcomes.mapM id).map fun results => (results, memo)) := by
  induction h with
  | nil =>
    rw [evaluateEach]
    exact endsIn_pure _
  | @cons c o rest outcomes hc hrest ih =>
    rw [evaluateEach, List.mapM_cons, map_bind]
    apply endsIn_map_bind (hc memo)
    intro ms
    rw [map_bind]
    apply endsIn_map_bind ih
    intro results
    exact endsIn_pure _

theorem comesTo_any {clauses : List Clause} {outcomes : List (Except EvalError (List Match))}
    (h : List.Forall₂ (ComesTo tree) clauses outcomes) :
    ComesTo tree (.any clauses) ((outcomes.mapM id).map Match.union) := by
  intro memo
  rw [evaluate]
  have hend := endsIn_map (fun r => (Match.union r.1, r.2)) (endsIn_evaluateEach h memo)
  cases hr : outcomes.mapM id with
  | error e =>
    rw [hr] at hend
    exact hend
  | ok results =>
    rw [hr] at hend
    exact hend

end Outcomes

section Joining

variable {candidates survivors : List Match}

theorem joinIn_of_filterMapM {others : List Match} (hc : Match.AllUnique candidates) (ho : Match.AllUnique others)
    (h : candidates.filterMapM (joinFirst · others) = .ok survivors) :
    survivors = candidates.filterMap (Match.joinIn others) := by
  induction candidates generalizing survivors with
  | nil =>
    cases h
    rfl
  | cons m rest ih =>
    obtain ⟨hm, hrest⟩ := List.forall_mem_cons.mp hc
    rw [List.filterMapM_cons] at h
    obtain ⟨joined, hj, h⟩ := Query.bind_eq_ok.mp h
    have he := joinFirst_eq_ok hm ho hj
    rw [List.filterMap_cons, ← he]
    cases joined with
    | none => exact ih hrest h
    | some j =>
      obtain ⟨later, hlater, h⟩ := Query.bind_eq_ok.mp h
      cases h
      rw [ih hrest hlater]

theorem allUnique_joinIn {others : List Match} (hc : Match.AllUnique candidates) (ho : Match.AllUnique others) :
    Match.AllUnique (candidates.filterMap (Match.joinIn others)) := by
  intro j hj
  obtain ⟨m, hm, he⟩ := List.mem_filterMap.mp hj
  exact unique_of_joinIn (hc m hm) ho he

/-- Candidates are narrowed to those that are joined with all results. -/
theorem narrowEach_eq_ok {results : List (List Match)} (hc : Match.AllUnique candidates)
    (hr : ∀ others ∈ results, Match.AllUnique others)
    (h : narrowEach candidates (results.map .ok) = .ok survivors) :
    survivors = candidates.filterMap (Match.joinEach results) ∧ Match.AllUnique survivors := by
  induction results generalizing candidates with
  | nil =>
    cases h
    exact ⟨List.filterMap_some.symm, hc⟩
  | cons others rest ih =>
    obtain ⟨ho, hrest⟩ := List.forall_mem_cons.mp hr
    rw [List.map_cons, narrowEach] at h
    by_cases hempty : candidates = []
    · subst hempty
      cases h
      exact ⟨rfl, nofun⟩
    rw [if_neg (by simpa using hempty)] at h
    obtain ⟨_, ⟨⟩, h⟩ := Query.bind_eq_ok.mp h
    obtain ⟨narrowed, hn, h⟩ := Query.bind_eq_ok.mp h
    have he := joinIn_of_filterMapM hc ho (mapError_eq_ok hn)
    obtain ⟨hs, hu⟩ := ih (he ▸ allUnique_joinIn hc ho) hrest h
    refine ⟨?_, hu⟩
    rw [hs, he, List.filterMap_filterMap]
    rfl

theorem exists_of_narrowEach {m : Match} {further : List (Except EvalError (List Match))}
    (h : narrowEach candidates further = .ok survivors) (hm : m ∈ survivors) :
    ∃ results : List (List Match), further = results.map .ok := by
  induction further generalizing candidates with
  | nil => exact ⟨[], rfl⟩
  | cons o rest ih =>
    rw [narrowEach] at h
    split at h
    · cases h
      cases hm
    · obtain ⟨others, rfl, hnext⟩ := Query.bind_eq_ok.mp h
      obtain ⟨narrowed, -, hlast⟩ := Query.bind_eq_ok.mp hnext
      obtain ⟨results, rfl⟩ := ih hlast
      exact ⟨others :: results, rfl⟩

/-- The guards let a match with this span pass. -/
def Admits (guarded : List (GuardKind × List Match)) (span : Span) : Bool :=
  guarded.all fun g => admitsSpan g.1 g.2 span

/-- Candidates are filtered to those that all guards let pass. -/
theorem guardEach_eq (candidates : List Match) (guarded : List (GuardKind × List Match)) :
    guardEach candidates (guarded.map fun g => (g.1, .ok g.2)) =
      .ok (candidates.filter fun m => Admits guarded m.span) := by
  induction guarded generalizing candidates with
  | nil => simp [guardEach, Admits]
  | cons g rest ih =>
    rw [List.map_cons, guardEach]
    by_cases hempty : candidates = []
    · subst hempty
      rfl
    rw [if_neg (by simpa using hempty)]
    have hnext := ih (candidates.filter fun m => admitsSpan g.1 g.2 m.span)
    rw [List.filter_filter] at hnext
    simp only [Admits, List.all_cons, Bool.and_comm] at hnext ⊢
    exact hnext

theorem exists_of_guardEach {m : Match} {guarded : List (GuardKind × Except EvalError (List Match))} {passed : List Match}
    (h : guardEach candidates guarded = .ok passed) (hm : m ∈ passed) :
    m ∈ candidates ∧ ∃ results : List (GuardKind × List Match), guarded = results.map fun g => (g.1, .ok g.2) := by
  induction guarded generalizing candidates with
  | nil =>
    cases h
    exact ⟨hm, [], rfl⟩
  | cons g rest ih =>
    obtain ⟨kind, o⟩ := g
    rw [guardEach] at h
    split at h
    · cases h
      cases hm
    · obtain ⟨others, rfl, h⟩ := Query.bind_eq_ok.mp h
      obtain ⟨hmem, results, rfl⟩ := ih h
      exact ⟨(List.mem_filter.mp hmem).1, (kind, others) :: results, rfl⟩

end Joining

end Clause

end RuleScan
