import RuleScan.Proofs.Query.Solutions
import RuleScan.Proofs.Tree.Traversal

/-! The search ends in the first solution that is accepted, and the matches of a query are the nodes
with an acceptable solution. -/
namespace RuleScan.Query

open Counted

section Lists

variable {ε α β γ : Type}

theorem findSomeM?_append (f : α → Except ε (Option β)) (xs ys : List α) :
    (xs ++ ys).findSomeM? f = xs.findSomeM? f >>= fun r =>
      match r with
      | some b => pure (some b)
      | none => ys.findSomeM? f := by
  induction xs with
  | nil => rfl
  | cons x xs ih =>
    simp only [List.cons_append, List.findSomeM?_cons, bind_assoc]
    congr 1
    funext r
    cases r with
    | none => exact ih
    | some b => rfl

theorem findSomeM?_flatMap (f : α → List γ) (g : γ → Except ε (Option β)) (xs : List α) :
    (xs.flatMap f).findSomeM? g = xs.findSomeM? fun x => (f x).findSomeM? g := by
  induction xs with
  | nil => rfl
  | cons x xs ih =>
    rw [List.flatMap_cons, findSomeM?_append, ih, List.findSomeM?_cons]
    rfl

end Lists

section Search

variable {β : Type} {a : Environment → Except EvalError (Option β)}
  {accept : Environment → Counted (Option β)}

/-- Trying one list of solutions and then another. -/
private theorem endsIn_append {m m' : Counted (Option β)} {xs ys : List Environment}
    (hm : EndsIn m (xs.findSomeM? a)) (hm' : EndsIn m' (ys.findSomeM? a)) :
    EndsIn (m >>= fun r =>
      match r with
      | some b => pure (some b)
      | none => m') ((xs ++ ys).findSomeM? a) := by
  rw [findSomeM?_append]
  refine hm.bind ?_
  rintro (_ | b) -
  · exact hm'
  · exact endsIn_pure (some b)

private theorem findSomeM?_singleton (e : Environment) : [e].findSomeM? a = a e := by
  rw [List.findSomeM?_cons, List.findSomeM?_nil]
  cases a e with
  | error _ => rfl
  | ok r => cases r <;> rfl

private theorem endsIn_whenBound (haccept : ∀ e, EndsIn (accept e) (a e)) (env : Option Environment) :
    EndsIn (whenBound env accept) (env.toList.findSomeM? a) := by
  cases env with
  | none => exact endsIn_pure none
  | some e =>
    rw [Option.toList_some, findSomeM?_singleton]
    exact haccept e

section Children

variable {fits : Node → Bool} {solve : Node → List Environment}
  {attempt : Node → (Environment → Counted (Option β)) → Counted (Option β)}
  {next : List Node → Environment → Counted (Option β)}
  {follow : List Node → Environment → List Environment}
  (hattempt : ∀ c k (b : Environment → Except EvalError (Option β)),
    (∀ e, EndsIn (k e) (b e)) → EndsIn (attempt c k) ((solve c).findSomeM? b))
  (hnext : ∀ left e, EndsIn (next left e) ((follow left e).findSomeM? a))

include hattempt hnext

private theorem endsIn_occurrences (cs : List Node) :
    EndsIn (occurrences fits attempt next cs) ((occurrencesIn fits solve follow cs).findSomeM? a) := by
  induction cs with
  | nil => exact endsIn_pure none
  | cons c rest ih =>
    rw [occurrences, occurrencesIn]
    split
    · refine endsIn_append ?_ ih
      rw [findSomeM?_flatMap]
      exact hattempt c _ _ (hnext rest)
    · exact ih

private theorem endsIn_repeats (cs : List Node) (first : Bool) (env : Environment)
    {stop : Counted (Option β)} {last : List Environment} (hstop : EndsIn stop (last.findSomeM? a)) :
    EndsIn (repeats fits attempt next cs first env stop)
      ((repeatsIn fits solve follow cs first env last).findSomeM? a) := by
  induction cs generalizing first env stop last with
  | nil => exact hstop
  | cons c rest ih =>
    rw [repeats, repeatsIn]
    split
    · refine endsIn_append ?_ (ih first env hstop)
      rw [findSomeM?_flatMap]
      exact hattempt c _ _ fun matched => ih false _ (hnext rest _)
    · exact ih first env hstop

end Children

mutual

theorem endsIn_solve (source : Units) : ∀ (p : Pattern) (n : Node) (s : Environment)
    (accept : Environment → Counted (Option β)) (a : Environment → Except EvalError (Option β)),
    (∀ e, EndsIn (accept e) (a e)) → EndsIn (solve source p n s accept) ((solutions source p n s).findSomeM? a)
  | .wildcard q cs, n, s, accept, a, ha => by
    rw [solve, solutions]
    exact (endsIn_whenBound ha _).step_bind
  | .literal v q cs, n, s, accept, a, ha => by
    rw [solve, solutions]
    refine EndsIn.step_bind ?_
    split
    · exact endsIn_whenBound ha _
    · exact endsIn_pure none
  | .alternation as q cs, n, s, accept, a, ha => by
    rw [solve, solutions, findSomeM?_flatMap]
    exact (endsIn_solveAny source as n s _ _ fun t => endsIn_whenBound ha _).step_bind
  | .node kind es absent q cs, n, s, accept, a, ha => by
    rw [solve, solutions]
    refine EndsIn.step_bind ?_
    split
    · exact endsIn_pure none
    split
    · exact endsIn_pure none
    rw [findSomeM?_flatMap]
    exact endsIn_whenBound (fun t => endsIn_solveElements source es n.children t accept a ha) _

theorem endsIn_solveAny (source : Units) : ∀ (ps : List Pattern) (n : Node) (s : Environment)
    (accept : Environment → Counted (Option β)) (a : Environment → Except EvalError (Option β)),
    (∀ e, EndsIn (accept e) (a e)) →
      EndsIn (solveAny source ps n s accept) ((solutionsOfAny source ps n s).findSomeM? a)
  | [], n, s, accept, a, ha => by
    rw [solveAny, solutionsOfAny]
    exact endsIn_pure none
  | p :: ps, n, s, accept, a, ha => by
    rw [solveAny, solutionsOfAny]
    exact endsIn_append (endsIn_solve source p n s accept a ha) (endsIn_solveAny source ps n s accept a ha)

theorem endsIn_solveElements (source : Units) : ∀ (es : List Element) (children : List Node) (s : Environment)
    (accept : Environment → Counted (Option β)) (a : Environment → Except EvalError (Option β)),
    (∀ e, EndsIn (accept e) (a e)) →
      EndsIn (solveElements source es children s accept) ((solutionsOfElements source es children s).findSomeM? a)
  | [], children, s, accept, a, ha => by
    rw [solveElements, solutionsOfElements, findSomeM?_singleton]
    exact ha s
  | (field, p) :: es, children, s, accept, a, ha => by
    have hattempt := fun c => endsIn_solve source p c s
    have hnext := fun left t => endsIn_solveElements source es left t accept a ha
    rw [solveElements, solutionsOfElements]
    unfold takenIn
    cases p.quantifier with
    | one => exact endsIn_occurrences hattempt hnext children
    | optional => exact endsIn_append (endsIn_occurrences hattempt hnext children) (hnext children s)
    | zeroOrMore => exact endsIn_repeats hattempt hnext children true s (hnext children s)
    | oneOrMore => exact endsIn_repeats hattempt hnext children true s (endsIn_pure none)

end

end Search

theorem endsIn_checkAll (source : Units) (env : Environment) (checks : List Check) :
    EndsIn (checkAll source env checks) (.ok (checks.all (·.holds source env))) := by
  induction checks with
  | nil => exact endsIn_pure true
  | cons c rest ih =>
    rw [checkAll, List.all_cons]
    refine EndsIn.step_bind ?_
    cases c.holds source env with
    | true => exact ih
    | false => exact endsIn_pure false

namespace Compiled

/-- The first solution at a node that satisfies the predicates and passes a test, with the node. -/
def firstAt (c : Compiled) (source : Units) (test : Bindings → Except EvalError Bool) (node : Node) :
    Except EvalError (Option (Node × Bindings)) := do
  let found ← (solutions source c.pattern node []).findM? fun env =>
    if c.checks.all (·.holds source env) then test env else .ok false
  .ok (found.map (node, ·))

section Matches

variable {accept : Bindings → Counted Bool} {test : Bindings → Except EvalError Bool}
  (htest : ∀ env, EndsIn (accept env) (test env))

include htest

theorem endsIn_solveAt (c : Compiled) (source : Units) (node : Node) :
    EndsIn (c.solveAt source accept node)
      ((solutions source c.pattern node []).findM? fun env =>
        if c.checks.all (·.holds source env) then test env else .ok false) := by
  rw [solveAt, List.findM?_eq_findSomeM?]
  refine endsIn_solve source c.pattern node [] _ _ fun env => ?_
  refine (endsIn_checkAll source env c.checks).bind_ok ?_
  split
  · refine (htest env).bind fun b _ => ?_
    cases b
    · exact endsIn_pure none
    · exact endsIn_pure (some env)
  · exact endsIn_pure none

/-- The matches among some nodes are gathered in order. -/
theorem endsIn_findAmong (c : Compiled) (source : Units) (nodes : List Node) (found : Array (Node × Bindings)) :
    EndsIn (c.findAmong source accept nodes found)
      (nodes.filterMapM (c.firstAt source test) >>= fun ms => .ok (found ++ ms.toArray)) := by
  induction nodes generalizing found with
  | nil => exact endsIn_pure found
  | cons node rest ih =>
    rw [findAmong, List.filterMapM_cons]
    refine EndsIn.step_bind ?_
    rw [firstAt]
    simp only [bind_assoc]
    refine (endsIn_solveAt htest c source node).bind ?_
    rintro (_ | env) -
    · exact ih found
    · have h := ih (found.push (node, env))
      cases hr : rest.filterMapM (c.firstAt source test) with
      | error e =>
        rw [hr] at h
        exact h
      | ok ms =>
        rw [hr] at h
        have happ : found.push (node, env) ++ ms.toArray = found ++ ((node, env) :: ms).toArray := by simp
        change EndsIn _ (.ok (found ++ ((node, env) :: ms).toArray))
        exact happ ▸ h

theorem endsIn_findMatches (c : Compiled) (tree : Tree) :
    EndsIn (c.findMatches tree accept) (tree.root.preorder.filterMapM (c.firstAt tree.source test)) := by
  have h := (endsIn_findAmong htest c tree.source tree.root.preorder #[]).bind
    (f := fun found => pure found.toList) (g := fun found => .ok found.toList) fun _ _ => endsIn_pure _
  rw [findMatches]
  cases hr : tree.root.preorder.filterMapM (c.firstAt tree.source test) with
  | error e =>
    rw [hr] at h
    exact h
  | ok ms =>
    rw [hr] at h
    have happ : (#[] ++ ms.toArray).toList = ms := by simp
    exact happ ▸ h

end Matches

section Walking

variable (c : Compiled) (accept : Bindings → Counted Bool)

/-- What the search does at a node that the walk comes to. -/
def visit (source : Units) (found : Array (Node × Bindings)) (node : Node) : Counted (Array (Node × Bindings)) := do
  Counted.step
  match ← c.solveAt source accept node with
  | some env => return found.push (node, env)
  | none => return found

theorem foldl_visit (source : Units) (nodes : List Node) (search : Counted (Array (Node × Bindings))) :
    nodes.foldl (fun search node => search >>= fun found => c.visit accept source found node) search =
      search >>= c.findAmong source accept nodes := by
  induction nodes generalizing search with
  | nil =>
    have hnil : c.findAmong source accept [] = pure := funext fun found => by rw [findAmong]
    rw [List.foldl_nil, hnil, bind_pure]
  | cons node rest ih =>
    rw [List.foldl_cons, ih, bind_assoc]
    congr 1
    funext found
    simp only [findAmong, visit, bind_assoc]
    congr 1
    funext _
    congr 1
    funext env
    cases env <;> simp only [pure_bind]

/-- The search is a walk over the tree that goes below every node and tries each node it comes to. An error ends it, as
nothing is done after it. -/
theorem findMatches_eq_walk (tree : Tree) : c.findMatches tree accept =
    tree.root.walk (fun search v => (search >>= fun found => c.visit accept tree.source found v.node, true)) (pure #[]) >>=
      fun found => pure found.toList := by
  rw [Node.walk_eq_foldl (fun search node => search >>= fun found => c.visit accept tree.source found node), foldl_visit,
    pure_bind, findMatches]

end Walking

/-- An environment solves the pattern at a node, satisfies the predicates and passes the caller's test. -/
def Accepts (c : Compiled) (source : Units) (accept : Bindings → Bool) (node : Node) (env : Bindings) : Prop :=
  Solves source c.pattern node [] env ∧ (∀ k ∈ c.checks, k.holds source env = true) ∧ accept env = true

private theorem filterMapM_ok {α β : Type} (f : α → Option β) (xs : List α) :
    xs.filterMapM (fun x => (.ok (f x) : Except EvalError (Option β))) = .ok (xs.filterMap f) := by
  induction xs with
  | nil => rfl
  | cons x xs ih =>
    rw [List.filterMapM_cons, List.filterMap_cons, ih]
    cases f x <;> rfl

def pick (c : Compiled) (source : Units) (accept : Bindings → Bool) (node : Node) : Option Bindings :=
  (solutions source c.pattern node []).find? fun env => c.checks.all (·.holds source env) && accept env

section Pick

variable {c : Compiled} {source : Units} {accept : Bindings → Bool} {node : Node} {env : Bindings}

private theorem accepts_iff : c.Accepts source accept node env ↔
    env ∈ solutions source c.pattern node [] ∧ (c.checks.all (·.holds source env) && accept env) = true := by
  simp [Accepts, mem_solutions]

theorem accepts_of_pick (h : c.pick source accept node = some env) : c.Accepts source accept node env := by
  have hg := List.find?_some h
  exact accepts_iff.mpr ⟨List.mem_of_find?_eq_some h, hg⟩

theorem not_accepts_of_pick (h : c.pick source accept node = none) : ¬c.Accepts source accept node env := by
  intro ha
  obtain ⟨hs, hg⟩ := accepts_iff.mp ha
  exact List.find?_eq_none.mp h env hs hg

end Pick

/-- With a test that never fails, the first accepted environment at each node is the one found. -/
theorem filterMapM_firstAt (c : Compiled) (source : Units) (test : Bindings → Bool) (nodes : List Node) :
    nodes.filterMapM (c.firstAt source fun env => .ok (test env)) =
      .ok (nodes.filterMap fun node => (c.pick source test node).map (node, ·)) := by
  have htest : (fun env => if c.checks.all (·.holds source env) then .ok (test env) else .ok false) =
      fun env => (pure (c.checks.all (·.holds source env) && test env) : Except EvalError Bool) := by
    funext env
    cases c.checks.all (·.holds source env) <;> rfl
  have hfirst : c.firstAt source (fun env => .ok (test env)) =
      fun node => .ok ((c.pick source test node).map (node, ·)) := by
    funext node
    rw [firstAt, htest, List.findM?_pure]
    rfl
  rw [hfirst, filterMapM_ok]

theorem endsIn_findMatches_pick (c : Compiled) (tree : Tree) {accept : Bindings → Counted Bool}
    {test : Bindings → Bool} (h : ∀ env, EndsIn (accept env) (.ok (test env))) :
    EndsIn (c.findMatches tree accept)
      (.ok (tree.root.preorder.filterMap fun node => (c.pick tree.source test node).map (node, ·))) := by
  have hend := endsIn_findMatches h c tree
  rw [filterMapM_firstAt] at hend
  exact hend

/-- The reported matches are the nodes of the tree in pre-order at which some environment is accepted,
each with such an environment. -/
theorem findMatches_sound_complete (c : Compiled) (tree : Tree) (accept : Bindings → Bool) :
    ∃ (pick : Node → Option Bindings) (n : Nat),
      (∀ node env, pick node = some env → c.Accepts tree.source accept node env) ∧
      (∀ node, pick node = none → ∀ env, ¬c.Accepts tree.source accept node env) ∧
      (c.findMatches tree fun b => pure (accept b)).Gives
        (tree.root.preorder.filterMap fun node => (pick node).map (node, ·)) n := by
  obtain ⟨n, hn⟩ := (c.endsIn_findMatches_pick tree fun env => endsIn_pure (accept env)).gives
  refine ⟨c.pick tree.source accept, n, ?_, ?_, hn⟩
  · intro node env h
    exact accepts_of_pick h
  · intro node h env
    exact not_accepts_of_pick h

end Compiled

end RuleScan.Query
