import RuleScan.Proofs.Query.Matching

/-! Children that the search skips. An element without a field passes over anonymous children when its pattern is
one that no anonymous node solves. Main statement: the search without this test runs through the same occurrences
and finds the same matches, and only takes more steps. -/
namespace RuleScan

namespace Counted

variable {α β : Type}

/-- Both end in the same outcome, the second one after as many steps or more. -/
def Saves (m m' : Counted α) : Prop := ∃ o n k, m = after n o ∧ m' = after (n + k) o

theorem step_bind_after (n : Nat) (o : Except EvalError α) : (step >>= fun _ => after n o) = after (n + 1) o := by
  simp only [after, stepMany, bind_assoc]

theorem EndsIn.saves {m : Counted α} {o : Except EvalError α} (h : EndsIn m o) : Saves m m := by
  obtain ⟨n, hn⟩ := h
  exact ⟨o, n, 0, hn, hn⟩

theorem EndsIn.exists_after {m m' : Counted α} {o : Except EvalError α} (h : EndsIn m o) (hs : Saves m m') :
    ∃ n k, m = after n o ∧ m' = after (n + k) o := by
  obtain ⟨o', n, k, hm, hm'⟩ := hs
  obtain rfl := h.unique ⟨n, hm⟩
  exact ⟨n, k, hm, hm'⟩

theorem Saves.of_idle {m m' : Counted α} (h : Saves m m') (k : Nat) : Saves m (stepMany k >>= fun _ => m') := by
  obtain ⟨o, n, j, hm, hm'⟩ := h
  refine ⟨o, n, k + j, hm, ?_⟩
  rw [hm', stepMany_bind_after, Nat.add_left_comm]

theorem Saves.bind {m m' : Counted α} {f f' : α → Counted β} (hm : Saves m m') (hf : ∀ a, Saves (f a) (f' a)) :
    Saves (m >>= f) (m' >>= f') := by
  obtain ⟨o, n, k, rfl, rfl⟩ := hm
  cases o with
  | error e => exact ⟨.error e, n, k, after_error_bind n e f, after_error_bind (n + k) e f'⟩
  | ok a =>
    obtain ⟨o, n', k', hf, hf'⟩ := hf a
    refine ⟨o, n + n', k + k', ?_, ?_⟩
    · rw [after_ok_bind, hf, stepMany_bind_after]
    · rw [after_ok_bind, hf', stepMany_bind_after, Nat.add_add_add_comm]

theorem Saves.step_bind {m m' : Counted α} (h : Saves m m') : Saves (step >>= fun _ => m) (step >>= fun _ => m') :=
  endsIn_step.saves.bind fun _ => h

end Counted

namespace Query

open Counted

theorem findSomeM?_map {ε α β γ : Type} (f : α → γ) (g : γ → Except ε (Option β)) (xs : List α) :
    (xs.map f).findSomeM? g = xs.findSomeM? (g ∘ f) := by
  induction xs with
  | nil => rfl
  | cons x xs ih =>
    rw [List.map_cons, List.findSomeM?_cons, List.findSomeM?_cons, ih]
    rfl

section Search

variable {β : Type}

mutual

/-- The search in which an element without a field takes anonymous children if its pattern passes a test. -/
def solveBy (takes : Pattern → Bool) (source : Units) :
    Pattern → Node → Environment → (Environment → Counted (Option β)) → Counted (Option β)
  | .wildcard _ captures, node, env, accept => do
    Counted.step
    whenBound (bind source node captures env) accept
  | .literal value _ captures, node, env, accept => do
    Counted.step
    if node.kind = value || (node.children.isEmpty && node.textIn source = Units.ofString value) then
      whenBound (bind source node captures env) accept
    else pure none
  | .alternation alternatives _ captures, node, env, accept => do
    Counted.step
    solveAnyBy takes source alternatives node env fun inner => whenBound (bind source node captures inner) accept
  | .node kind elements absent _ captures, node, env, accept => do
    Counted.step
    if !node.named || kind.any (· ≠ node.kind) then pure none
    else if absent.any fun f => node.children.any (·.field = some f) then pure none
    else
      whenBound (bind source node captures env) fun bound =>
        solveElementsBy takes source elements node.children bound accept

def solveAnyBy (takes : Pattern → Bool) (source : Units) :
    List Pattern → Node → Environment → (Environment → Counted (Option β)) → Counted (Option β)
  | [], _, _, _ => pure none
  | p :: rest, node, env, accept => do
    match ← solveBy takes source p node env accept with
    | some b => pure (some b)
    | none => solveAnyBy takes source rest node env accept

def solveElementsBy (takes : Pattern → Bool) (source : Units) :
    List Element → List Node → Environment → (Environment → Counted (Option β)) → Counted (Option β)
  | [], _, env, accept => accept env
  | (field, p) :: rest, children, env, accept =>
    let fits := admits field (takes p)
    let attempt := fun c => solveBy takes source p c env
    let next := fun left env => solveElementsBy takes source rest left env accept
    match p.quantifier with
    | .one => occurrences fits attempt next children
    | .optional => do
      match ← occurrences fits attempt next children with
      | some b => pure (some b)
      | none => next children env
    | .zeroOrMore => repeats fits attempt next children true env (next children env)
    | .oneOrMore => repeats fits attempt next children true env (pure none)

end

mutual

/-- With the test of the search itself, it is the search. -/
theorem solveBy_acceptsAnonymous (source : Units) : ∀ p : Pattern,
    solveBy (β := β) Pattern.acceptsAnonymous source p = solve source p
  | .wildcard q cs => rfl
  | .literal v q cs => rfl
  | .alternation as q cs => by
    funext n s accept
    rw [solveBy, solve, solveAnyBy_acceptsAnonymous source as]
  | .node kind es absent q cs => by
    funext n s accept
    rw [solveBy, solve, solveElementsBy_acceptsAnonymous source es]

theorem solveAnyBy_acceptsAnonymous (source : Units) : ∀ ps : List Pattern,
    solveAnyBy (β := β) Pattern.acceptsAnonymous source ps = solveAny source ps
  | [] => rfl
  | p :: ps => by
    funext n s accept
    rewrite [solveAnyBy, solveAny, solveBy_acceptsAnonymous source p, solveAnyBy_acceptsAnonymous source ps]
    rfl

theorem solveElementsBy_acceptsAnonymous (source : Units) : ∀ es : List Element,
    solveElementsBy (β := β) Pattern.acceptsAnonymous source es = solveElements source es
  | [] => rfl
  | (field, p) :: es => by
    funext children s accept
    rewrite [solveElementsBy, solveElements, solveBy_acceptsAnonymous source p,
      solveElementsBy_acceptsAnonymous source es]
    rfl

end

mutual

/-- At an anonymous node the search for a pattern that takes none ends without a solution, whatever accepts one. -/
theorem solveBy_anonymous (takes : Pattern → Bool) (source : Units) : ∀ (p : Pattern) (n : Node) (s : Environment),
    p.acceptsAnonymous = false → n.named = false →
      ∃ k, ∀ accept : Environment → Counted (Option β), solveBy takes source p n s accept = after k (.ok none)
  | .alternation as q cs, n, s, hp, hn => by
    obtain ⟨k, hk⟩ := solveAnyBy_anonymous takes source as n s hp hn
    refine ⟨k + 1, fun accept => ?_⟩
    rw [solveBy, hk]
    exact step_bind_after k _
  | .node kind es absent q cs, n, s, _, hn => by
    refine ⟨1, fun accept => ?_⟩
    have hrefused : (!n.named || kind.any (· ≠ n.kind)) = true := by rw [hn]; rfl
    rw [solveBy, if_pos hrefused]
    exact step_bind_after 0 (.ok none)

theorem solveAnyBy_anonymous (takes : Pattern → Bool) (source : Units) :
    ∀ (ps : List Pattern) (n : Node) (s : Environment),
      Pattern.acceptsAnonymous.anyAccepts ps = false → n.named = false →
        ∃ k, ∀ accept : Environment → Counted (Option β), solveAnyBy takes source ps n s accept = after k (.ok none)
  | [], n, s, _, _ => ⟨0, fun accept => rfl⟩
  | p :: ps, n, s, hps, hn => by
    rw [Pattern.acceptsAnonymous.anyAccepts, Bool.or_eq_false_iff] at hps
    obtain ⟨k, hk⟩ := solveBy_anonymous takes source p n s hps.1 hn
    obtain ⟨k', hk'⟩ := solveAnyBy_anonymous takes source ps n s hps.2 hn
    refine ⟨k + k', fun accept => ?_⟩
    rw [solveAnyBy, hk, after_ok_bind]
    dsimp only
    rw [hk', stepMany_bind_after]

end

theorem solve_anonymous (source : Units) {p : Pattern} {n : Node} (s : Environment) (hp : p.acceptsAnonymous = false)
    (hn : n.named = false) :
    ∃ k, ∀ accept : Environment → Counted (Option β), solve source p n s accept = after k (.ok none) := by
  have h := solveBy_anonymous (β := β) Pattern.acceptsAnonymous source p n s hp hn
  rwa [solveBy_acceptsAnonymous] at h

/-- A solution would be the outcome of a search that accepts all. -/
theorem solutions_anonymous (source : Units) {p : Pattern} {n : Node} (s : Environment)
    (hp : p.acceptsAnonymous = false) (hn : n.named = false) : solutions source p n s = [] := by
  obtain ⟨k, hk⟩ := solve_anonymous (β := Environment) source s hp hn
  have hends := endsIn_solve source p n s (fun e => pure (some e)) _ fun e => endsIn_pure (some e)
  cases hsolutions : solutions source p n s with
  | nil => rfl
  | cons e rest =>
    rw [hsolutions] at hends
    cases hends.unique ⟨k, hk _⟩

section Children

/-- A second way to try children takes more of them, and idles at those that the first one skips. -/
structure Skips (fits fits' : Node → Bool)
    (attempt attempt' : Node → (Environment → Counted (Option β)) → Counted (Option β)) : Prop where
  wider : ∀ c, fits c = true → fits' c = true
  tried : ∀ c k k', (∀ e, Saves (k e) (k' e)) → Saves (attempt c k) (attempt' c k')
  idle : ∀ c, fits c = false → fits' c = true → ∃ k, ∀ accept, attempt' c accept = after k (.ok none)

variable {fits fits' : Node → Bool} {attempt attempt' : Node → (Environment → Counted (Option β)) → Counted (Option β)}
  {next next' : List Node → Environment → Counted (Option β)}

/-- Two searches one after another. -/
theorem saves_orElse {m m' other other' : Counted (Option β)} (hm : Saves m m') (hother : Saves other other') :
    Saves (m >>= fun r =>
      match r with
      | some b => pure (some b)
      | none => other)
    (m' >>= fun r =>
      match r with
      | some b => pure (some b)
      | none => other') := by
  apply hm.bind
  rintro (_ | b)
  · exact hother
  · exact (endsIn_pure (some b)).saves

theorem Skips.child (h : Skips fits fits' attempt attempt') (c : Node) {k k' : Environment → Counted (Option β)}
    (hk : ∀ e, Saves (k e) (k' e)) {others others' : Counted (Option β)} (hothers : Saves others others') :
    Saves
      (if fits c then attempt c k >>= fun r =>
        match r with
        | some b => pure (some b)
        | none => others
      else others)
      (if fits' c then attempt' c k' >>= fun r =>
        match r with
        | some b => pure (some b)
        | none => others'
      else others') := by
  cases hfits : fits c with
  | true =>
    rw [h.wider c hfits]
    exact saves_orElse (h.tried c k k' hk) hothers
  | false =>
    cases hfits' : fits' c with
    | true =>
      obtain ⟨n, hn⟩ := h.idle c hfits hfits'
      rw [if_neg Bool.false_ne_true, if_pos rfl, hn, after_ok_bind]
      exact hothers.of_idle n
    | false => exact hothers

theorem Skips.occurrences (h : Skips fits fits' attempt attempt') (hnext : ∀ left e, Saves (next left e) (next' left e))
    (cs : List Node) : Saves (occurrences fits attempt next cs) (occurrences fits' attempt' next' cs) := by
  induction cs with
  | nil => exact (endsIn_pure none).saves
  | cons c rest ih =>
    rw [Query.occurrences, Query.occurrences]
    exact h.child c (hnext rest) ih

theorem Skips.repeats (h : Skips fits fits' attempt attempt') (hnext : ∀ left e, Saves (next left e) (next' left e))
    (cs : List Node) (first : Bool) (env : Environment) {stop stop' : Counted (Option β)} (hstop : Saves stop stop') :
    Saves (repeats fits attempt next cs first env stop) (repeats fits' attempt' next' cs first env stop') := by
  induction cs generalizing first env stop stop' with
  | nil => exact hstop
  | cons c rest ih =>
    rw [Query.repeats, Query.repeats]
    exact h.child c (fun matched => ih false _ (hnext rest _)) (ih first env hstop)

end Children

theorem saves_whenBound (env : Option Environment) {accept accept' : Environment → Counted (Option β)}
    (h : ∀ e, Saves (accept e) (accept' e)) : Saves (whenBound env accept) (whenBound env accept') := by
  cases env with
  | none => exact (endsIn_pure none).saves
  | some e => exact h e

/-- A test is passed by every pattern that takes anonymous children. -/
def Weaker (takes : Pattern → Bool) : Prop := ∀ p : Pattern, p.acceptsAnonymous = true → takes p = true

/-- The children that an element tries under a weaker test, and those that it skips without. -/
theorem skips_of_saves {takes : Pattern → Bool} (htakes : Weaker takes) {source : Units} {field : Option String}
    {p : Pattern} {s : Environment}
    (hsaves : ∀ c (k k' : Environment → Counted (Option β)), (∀ e, Saves (k e) (k' e)) →
      Saves (solve source p c s k) (solveBy takes source p c s k')) :
    Skips (β := β) (admits field p.acceptsAnonymous) (admits field (takes p)) (fun c => solve source p c s)
      (fun c => solveBy takes source p c s) where
  wider c hc := by
    cases field with
    | some f => exact hc
    | none =>
      rcases Bool.or_eq_true_iff.mp hc with hp | hnamed
      · exact Bool.or_eq_true_iff.mpr (.inl (htakes p hp))
      · exact Bool.or_eq_true_iff.mpr (.inr hnamed)
  tried := hsaves
  idle c hc hc' := by
    cases field with
    | some f => exact absurd hc' (hc ▸ Bool.false_ne_true)
    | none =>
      obtain ⟨hp, hnamed⟩ := Bool.or_eq_false_iff.mp hc
      exact solveBy_anonymous takes source p c s hp hnamed

mutual

/-- A search under a weaker test ends as the search does, by the form of the pattern. -/
theorem saves_solve {takes : Pattern → Bool} (htakes : Weaker takes) (source : Units) :
    ∀ (p : Pattern) (n : Node) (s : Environment)
    (accept accept' : Environment → Counted (Option β)), (∀ e, Saves (accept e) (accept' e)) →
      Saves (solve source p n s accept) (solveBy takes source p n s accept')
  | .wildcard q cs, n, s, accept, accept', h => by
    rw [solve, solveBy]
    exact (saves_whenBound _ h).step_bind
  | .literal v q cs, n, s, accept, accept', h => by
    rw [solve, solveBy]
    apply Saves.step_bind
    split
    · exact saves_whenBound _ h
    · exact (endsIn_pure none).saves
  | .alternation as q cs, n, s, accept, accept', h => by
    rw [solve, solveBy]
    exact (saves_solveAny htakes source as n s _ _ fun t => saves_whenBound _ h).step_bind
  | .node kind es absent q cs, n, s, accept, accept', h => by
    rw [solve, solveBy]
    apply Saves.step_bind
    split
    · exact (endsIn_pure none).saves
    split
    · exact (endsIn_pure none).saves
    · exact saves_whenBound _ fun t => saves_solveElements htakes source es n.children t accept accept' h

theorem saves_solveAny {takes : Pattern → Bool} (htakes : Weaker takes) (source : Units) :
    ∀ (ps : List Pattern) (n : Node) (s : Environment)
    (accept accept' : Environment → Counted (Option β)), (∀ e, Saves (accept e) (accept' e)) →
      Saves (solveAny source ps n s accept) (solveAnyBy takes source ps n s accept')
  | [], n, s, accept, accept', h => by
    rw [solveAny, solveAnyBy]
    exact (endsIn_pure none).saves
  | p :: ps, n, s, accept, accept', h => by
    rw [solveAny, solveAnyBy]
    exact saves_orElse (saves_solve htakes source p n s accept accept' h)
      (saves_solveAny htakes source ps n s accept accept' h)

theorem saves_solveElements {takes : Pattern → Bool} (htakes : Weaker takes) (source : Units) :
    ∀ (es : List Element) (children : List Node) (s : Environment)
    (accept accept' : Environment → Counted (Option β)), (∀ e, Saves (accept e) (accept' e)) →
      Saves (solveElements source es children s accept) (solveElementsBy takes source es children s accept')
  | [], children, s, accept, accept', h => by
    rw [solveElements, solveElementsBy]
    exact h s
  | (field, p) :: es, children, s, accept, accept', h => by
    have hskips : Skips (admits field p.acceptsAnonymous) (admits field (takes p)) (fun c => solve source p c s)
        (fun c => solveBy takes source p c s) :=
      skips_of_saves htakes fun c => saves_solve htakes source p c s
    have hnext := fun left t => saves_solveElements htakes source es left t accept accept' h
    rw [solveElements, solveElementsBy]
    cases p.quantifier with
    | one => exact hskips.occurrences hnext children
    | optional => exact saves_orElse (hskips.occurrences hnext children) (hnext children s)
    | zeroOrMore => exact hskips.repeats hnext children true s (hnext children s)
    | oneOrMore => exact hskips.repeats hnext children true s (endsIn_pure none).saves

end

/-- The occurrences among some children, the first of which is at a position: for each one the position after it and
what is bound there. -/
def produced (fits : Node → Bool) (solve : Node → List Environment) : List Node → Nat → List (Nat × Environment)
  | [], _ => []
  | c :: rest, pos => (if fits c then (solve c).map (pos + 1, ·) else []) ++ produced fits solve rest (pos + 1)

/-- The search for an occurrence runs through those produced, in order. -/
theorem endsIn_occurrences_produced {source : Units} {p : Pattern} {s : Environment} {fits : Node → Bool}
    {next : List Node → Environment → Counted (Option β)} {a : List Node → Environment → Except EvalError (Option β)}
    (hnext : ∀ left e, EndsIn (next left e) (a left e)) (children : List Node) (pos : Nat) :
    EndsIn (occurrences fits (fun c => solve source p c s) next (children.drop pos))
      ((produced fits (fun c => solutions source p c s) (children.drop pos) pos).findSomeM? fun x =>
        a (children.drop x.1) x.2) := by
  induction hcs : children.drop pos generalizing pos with
  | nil => exact endsIn_pure none
  | cons c rest ih =>
    obtain ⟨-, hrest⟩ := drop_eq_cons hcs
    rw [occurrences, produced]
    cases fits c with
    | false => exact ih (pos + 1) hrest
    | true =>
      rw [findSomeM?_append]
      have hsolve := endsIn_solve source p c s (next rest) (a rest) (hnext rest)
      have hproduced : ((solutions source p c s).map (pos + 1, ·)).findSomeM? (fun x => a (children.drop x.1) x.2) =
          (solutions source p c s).findSomeM? (a rest) := by
        rw [findSomeM?_map, ← hrest]
        rfl
      rw [if_pos rfl, if_pos rfl, hproduced]
      apply hsolve.bind
      rintro (_ | b) -
      · exact ih (pos + 1) hrest
      · exact endsIn_pure (some b)

/-- The children that an element without a field skips, where the others are tried alike. -/
theorem skips_anonymous (source : Units) (p : Pattern) (s : Environment) :
    Skips (β := β) (admits none p.acceptsAnonymous) (fun _ => true) (fun c => solve source p c s)
      (fun c => solve source p c s) where
  wider _ _ := rfl
  tried c k k' hk := by
    have h := saves_solve (fun _ h => h) source p c s k k' hk
    rwa [solveBy_acceptsAnonymous] at h
  idle c hc _ := by
    obtain ⟨hp, hnamed⟩ := Bool.or_eq_false_iff.mp hc
    exact solve_anonymous source s hp hnamed

theorem produced_acceptsAnonymous (source : Units) (p : Pattern) (s : Environment) (children : List Node) (pos : Nat) :
    produced (admits none p.acceptsAnonymous) (fun c => solutions source p c s) children pos =
      produced (fun _ => true) (fun c => solutions source p c s) children pos := by
  induction children generalizing pos with
  | nil => rfl
  | cons c rest ih =>
    rw [produced, produced, ih]
    cases hc : admits none p.acceptsAnonymous c with
    | true => rfl
    | false =>
      obtain ⟨hp, hnamed⟩ := Bool.or_eq_false_iff.mp hc
      rw [solutions_anonymous source s hp hnamed]
      rfl

end Search

namespace Compiled

/-- The matches of a query under a test of the patterns that take anonymous children. -/
def findMatchesBy (takes : Pattern → Bool) (c : Compiled) (tree : Tree) (accept : Bindings → Counted Bool) :
    Counted (List (Node × Bindings)) := do
  let found ← findAmongBy tree.root.preorder #[]
  pure found.toList
where
  solveAtBy (node : Node) : Counted (Option Bindings) :=
    solveBy takes tree.source c.pattern node [] fun env => do
      if ← checkAll tree.source env c.checks then
        if ← accept env then pure (some env) else pure none
      else pure none
  findAmongBy : List Node → Array (Node × Bindings) → Counted (Array (Node × Bindings))
    | [], found => pure found
    | node :: rest, found => do
      Counted.step
      match ← solveAtBy node with
      | some env => findAmongBy rest (found.push (node, env))
      | none => findAmongBy rest found

theorem findAmongBy_acceptsAnonymous (c : Compiled) (tree : Tree) (accept : Bindings → Counted Bool)
    (nodes : List Node) :
    findMatchesBy.findAmongBy Pattern.acceptsAnonymous c tree accept nodes = c.findAmong tree.source accept nodes := by
  induction nodes with
  | nil => rfl
  | cons node rest ih =>
    funext found
    rewrite [findMatchesBy.findAmongBy, findAmong, findMatchesBy.solveAtBy, solveAt, solveBy_acceptsAnonymous, ih]
    rfl

/-- With the test of the search itself, these are the matches. -/
theorem findMatchesBy_acceptsAnonymous (c : Compiled) (tree : Tree) (accept : Bindings → Counted Bool) :
    c.findMatchesBy Pattern.acceptsAnonymous tree accept = c.findMatches tree accept := by
  rw [findMatchesBy, findMatches, findAmongBy_acceptsAnonymous]

theorem saves_findMatches {takes : Pattern → Bool} (htakes : Weaker takes) (c : Compiled) (tree : Tree)
    {accept : Bindings → Counted Bool} (haccept : ∀ env, Saves (accept env) (accept env)) :
    Saves (c.findMatches tree accept) (c.findMatchesBy takes tree accept) := by
  have hat (node : Node) : Saves (c.solveAt tree.source accept node)
      (findMatchesBy.solveAtBy takes c tree accept node) := by
    apply saves_solve htakes tree.source c.pattern node []
    intro env
    apply (endsIn_checkAll tree.source env c.checks).saves.bind
    rintro (_ | _)
    · exact (endsIn_pure none).saves
    · apply (haccept env).bind
      rintro (_ | _)
      · exact (endsIn_pure none).saves
      · exact (endsIn_pure (some env)).saves
  have hamong (nodes : List Node) (found : Array (Node × Bindings)) :
      Saves (c.findAmong tree.source accept nodes found)
        (findMatchesBy.findAmongBy takes c tree accept nodes found) := by
    induction nodes generalizing found with
    | nil => exact (endsIn_pure found).saves
    | cons node rest ih =>
      rw [findAmong, findMatchesBy.findAmongBy]
      apply Saves.step_bind
      apply (hat node).bind
      rintro (_ | env)
      · exact ih found
      · exact ih (found.push (node, env))
  rw [findMatches, findMatchesBy]
  exact (hamong _ _).bind fun found => (endsIn_pure found.toList).saves

end Compiled

/-- To skip anonymous children only saves steps. A pattern that takes none has no solution at an anonymous node,
where the search for one ends without asking whether it is accepted. So an element without a field has the same
occurrences, in the same order, among all children and among those that it tries, and the search for an occurrence
ends as it does where nothing is skipped, after as many steps or fewer. So does the search for the matches of a query,
which differs in its test alone from the one where no element skips a child. -/
theorem skipping_anonymous_saves {β : Type} (source : Units) :
    (∀ (p : Pattern) (n : Node) (s : Environment), p.acceptsAnonymous = false → n.named = false →
      (∀ s', ¬Solves source p n s s') ∧
      ∃ k, ∀ accept : Environment → Counted (Option β), solve source p n s accept = after k (.ok none)) ∧
    (∀ (p : Pattern) (s : Environment) (children : List Node) (pos : Nat) (cost : List Node → Environment → Nat)
      (answer : List Node → Environment → Except EvalError (Option β)),
      ∃ found n k,
        found = produced (admits none p.acceptsAnonymous) (fun c => solutions source p c s) (children.drop pos) pos ∧
        found = produced (fun _ => true) (fun c => solutions source p c s) (children.drop pos) pos ∧
        occurrences (admits none p.acceptsAnonymous) (fun c => solve source p c s)
          (fun left e => after (cost left e) (answer left e)) (children.drop pos) =
            after n (found.findSomeM? fun x => answer (children.drop x.1) x.2) ∧
        occurrences (fun _ => true) (fun c => solve source p c s)
          (fun left e => after (cost left e) (answer left e)) (children.drop pos) =
            after (n + k) (found.findSomeM? fun x => answer (children.drop x.1) x.2)) ∧
    (∀ (c : Compiled) (tree : Tree) (accept : Bindings → Counted Bool),
      c.findMatchesBy Pattern.acceptsAnonymous tree accept = c.findMatches tree accept) ∧
    ∀ (c : Compiled) (tree : Tree) (cost : Bindings → Nat) (answer : Bindings → Except EvalError Bool),
      ∃ n k,
        c.findMatches tree (fun env => after (cost env) (answer env)) =
          after n (tree.root.preorder.filterMapM (c.firstAt tree.source answer)) ∧
        c.findMatchesBy (fun _ => true) tree (fun env => after (cost env) (answer env)) =
          after (n + k) (tree.root.preorder.filterMapM (c.firstAt tree.source answer)) := by
  refine ⟨fun p n s hp hn => ⟨fun s' hs => ?_, ?_⟩, fun p s children pos cost answer => ?_,
    Compiled.findMatchesBy_acceptsAnonymous, fun c tree cost answer => ?_⟩
  · rw [← mem_solutions, solutions_anonymous source s hp hn] at hs
    cases hs
  · exact solve_anonymous source s hp hn
  · have hnext (left : List Node) (e : Environment) : EndsIn (after (cost left e) (answer left e)) (answer left e) :=
      ⟨_, rfl⟩
    obtain ⟨n, k, hn, hk⟩ := (endsIn_occurrences_produced hnext children pos).exists_after
      ((skips_anonymous source p s).occurrences (fun left e => (hnext left e).saves) (children.drop pos))
    exact ⟨_, n, k, rfl, produced_acceptsAnonymous source p s _ pos, hn, hk⟩
  · have haccept (env : Bindings) : EndsIn (after (cost env) (answer env)) (answer env) := ⟨_, rfl⟩
    have htakes : Weaker fun _ => true := fun _ _ => rfl
    have hsaves := c.saves_findMatches htakes tree fun env => (haccept env).saves
    exact EndsIn.exists_after (c.endsIn_findMatches haccept tree) hsaves

/-- At a comma no alternative between kinds of nodes has a solution. -/
theorem skipping_anonymous_saves_at_comma :
    ∀ s', ¬Solves (Units.ofString ",")
      (.alternation [.node (some "call") [] [] .one ["c"], .node none [] [] .one []] .one [])
      { kind := ",", named := false, field := none, children := [], text := none, hasError := false
        span := ⟨0, 1, ⟨1, 1⟩, ⟨1, 2⟩⟩ } [] s' :=
  ((skipping_anonymous_saves (β := Unit) _).1 _ _ _ rfl rfl).1

end Query

end RuleScan
