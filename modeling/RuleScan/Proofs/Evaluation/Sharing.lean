import RuleScan.Proofs.Evaluation.Surroundings
import RuleScan.Proofs.Rule.Safety

/-! Results of shared clauses are remembered. This spares steps and changes nothing else: clauses that
stand at several places come to the same matches, or to the same error, as copies of them. -/
namespace RuleScan

namespace Counted

variable {α β γ δ : Type} {R : α → β → Prop} {S : γ → δ → Prop} {m : Counted α} {m' : Counted β}

/-- `m` takes no more steps than `m'`. Both come to results that `R` relates, or both fail with one error. -/
inductive Spares (R : α → β → Prop) (m : Counted α) (m' : Counted β) : Prop where
  | ok {n n' : Nat} {a : α} {b : β} (fewer : n ≤ n') (left : m = after n (.ok a)) (right : m' = after n' (.ok b))
    (related : R a b)
  | error {n n' : Nat} {e : EvalError} (fewer : n ≤ n') (left : m = after n (.error e))
    (right : m' = after n' (.error e))

theorem spares_pure {a : α} {b : β} (h : R a b) : Spares R (pure a) (pure b) := .ok (Nat.le_refl 0) rfl rfl h

theorem spares_throw (e : EvalError) : Spares R (throw e) (throw e) := .error (Nat.le_refl 0) rfl rfl

/-- A result that is known already takes no steps. -/
theorem EndsIn.spares {a : α} {b : β} (hm : EndsIn m' (.ok b)) (h : R a b) : Spares R (pure a) m' := by
  obtain ⟨n, hn⟩ := hm
  exact .ok (Nat.zero_le n) rfl hn h

theorem Settles.spares (h : Settles m) : Spares (· = ·) m m := by
  obtain ⟨o, ⟨n, hn⟩, -⟩ := h
  cases o with
  | ok a => exact .ok (Nat.le_refl n) hn hn rfl
  | error e => exact .error (Nat.le_refl n) hn hn

theorem Spares.endsIn {a : α} (h : Spares R m m') (hm : EndsIn m (.ok a)) : ∃ b, EndsIn m' (.ok b) ∧ R a b := by
  cases h with
  | ok fewer left right related =>
    cases hm.unique ⟨_, left⟩
    exact ⟨_, ⟨_, right⟩, related⟩
  | error fewer left right => cases hm.unique ⟨_, left⟩

/-- The results that are passed on are related, and the first is what `m` ends in. -/
theorem Spares.bind {f : α → Counted γ} {f' : β → Counted δ} (h : Spares R m m')
    (hf : ∀ a b, EndsIn m (.ok a) → R a b → Spares S (f a) (f' b)) : Spares S (m >>= f) (m' >>= f') := by
  cases h with
  | error fewer left right =>
    rw [left, right, after_error_bind, after_error_bind]
    exact .error fewer rfl rfl
  | ok fewer left right related =>
    have hrest := hf _ _ ⟨_, left⟩ related
    rw [left, right, after_ok_bind, after_ok_bind]
    cases hrest with
    | ok fewer₂ left₂ right₂ related₂ =>
      rw [left₂, right₂, stepMany_bind_after, stepMany_bind_after]
      exact .ok (Nat.add_le_add fewer fewer₂) rfl rfl related₂
    | error fewer₂ left₂ right₂ =>
      rw [left₂, right₂, stepMany_bind_after, stepMany_bind_after]
      exact .error (Nat.add_le_add fewer fewer₂) rfl rfl

theorem stepMany_steps {n : Nat} {t t' : Tracker} (h : stepMany n t = .ok () t') : t'.steps = t.steps + n := by
  induction n generalizing t with
  | zero =>
    cases h
    rfl
  | succ n ih =>
    rw [stepMany_succ] at h
    rcases t.step_cases with ⟨-, t₁, hs, -, hsteps, -⟩ | ⟨-, _, _, hs⟩ | ⟨-, _, _, hs, -⟩
    · rw [hs] at h
      have hrest := ih h
      omega
    · rw [hs] at h
      cases h
    · rw [hs] at h
      cases h

/-- Where many steps are allowed, fewer are. -/
theorem stepMany_of_le {n n' : Nat} (hle : n ≤ n') {t t' : Tracker} (h : stepMany n' t = .ok () t') :
    ∃ t'', stepMany n t = .ok () t'' ∧ t''.steps ≤ t'.steps := by
  obtain ⟨k, rfl⟩ := Nat.exists_eq_add_of_le hle
  have hsteps := stepMany_steps h
  rw [stepMany_add] at h
  change EStateM.bind (stepMany n) (fun _ => stepMany k) t = _ at h
  unfold EStateM.bind at h
  rcases stepMany_cases n t with ⟨t'', hr⟩ | ⟨e, t'', hr⟩
  · have hsteps' := stepMany_steps hr
    exact ⟨t'', hr, by omega⟩
  · rw [hr] at h
    cases h

/-- An outcome that is no halt is reached after all steps only. -/
theorem stepMany_of_after {n : Nat} {o o' : Except EvalError α} (ho' : NoHalt o') {t t' : Tracker}
    (h : after n o t = ended o' t') : stepMany n t = .ok () t' ∧ o = o' := by
  rcases stepMany_cases n t with ⟨t'', hr⟩ | ⟨e, t'', hr⟩
  · rw [after_of_ok o hr] at h
    cases o <;> cases o' <;> cases h <;> exact ⟨hr, rfl⟩
  · rw [after_of_error o hr] at h
    cases o' with
    | ok a => cases h
    | error e' =>
      cases h
      exact absurd rfl (ho' e)

end Counted

open Counted

namespace Clause

mutual

def copied : Clause → Clause
  | .all clauses => .all (copiedEach clauses)
  | .any clauses => .any (copiedEach clauses)
  | .guard kind clause => .guard kind clause.copied
  | .shared _ clause => clause.copied
  | .structural query focus constraints => .structural query focus constraints
  | .textual regex flags constraints => .textual regex flags constraints
  | .other type => .other type

def copiedEach : List Clause → List Clause
  | [] => []
  | c :: rest => c.copied :: copiedEach rest

end

mutual

/-- The shared clauses of a clause, at any depth, with their keys. -/
def sharings : Clause → List (String × Clause)
  | .all clauses | .any clauses => sharingsEach clauses
  | .guard _ clause => clause.sharings
  | .shared key clause => (key, clause) :: clause.sharings
  | .structural _ _ _ | .textual _ _ _ | .other _ => []

def sharingsEach : List Clause → List (String × Clause)
  | [] => []
  | c :: rest => c.sharings ++ sharingsEach rest

end

mutual

theorem sharings_copied : ∀ c : Clause, c.copied.sharings = []
  | .all cs => by
    rw [copied, sharings]
    exact sharingsEach_copiedEach cs
  | .any cs => by
    rw [copied, sharings]
    exact sharingsEach_copiedEach cs
  | .guard _ c => by
    rw [copied, sharings]
    exact sharings_copied c
  | .shared _ c => by
    rw [copied]
    exact sharings_copied c
  | .structural _ _ _ | .textual _ _ _ | .other _ => by
    rw [copied, sharings]

theorem sharingsEach_copiedEach : ∀ cs : List Clause, sharingsEach (copiedEach cs) = []
  | [] => by
    rw [copiedEach, sharingsEach]
  | c :: cs => by
    rw [copiedEach, sharingsEach, sharings_copied c, sharingsEach_copiedEach cs]
    rfl

end

def KeysAgree (sharings : List (String × Clause)) : Prop :=
  ∀ x ∈ sharings, ∀ y ∈ sharings, x.1 = y.1 → x = y

theorem guardKind?_copied : ∀ c : Clause, c.copied.guardKind? = c.guardKind?
  | .shared key c => by
    rw [copied, guardKind?]
    exact guardKind?_copied c
  | .all _ | .any _ | .guard _ _ | .structural _ _ _ | .textual _ _ _ | .other _ => by
    simp only [copied, guardKind?]

theorem isGuard_copied (c : Clause) : c.copied.isGuard = c.isGuard := by
  unfold isGuard
  rw [guardKind?_copied]

section Memory

variable (tree : Tree) (lines : LineIndex) (objects : List (String × Clause))

/-- What is remembered of a clause is what its copy comes to, from any memory. -/
structure Recalls (memo : Memo) : Prop where
  clause : ∀ key c result, (key, c) ∈ objects → memo.lookup (.clause key) = some result →
    ∀ memo', ∃ rest, EndsIn (evaluate tree lines c.copied memo') (.ok (result, rest))
  guarded : ∀ key c kind others, (key, c) ∈ objects → memo.lookup (.guarded key) = some others →
    c.guardKind? = some kind →
      ∀ memo', ∃ rest, EndsIn (guardMatches tree lines c.copied memo') (.ok (some (kind, others), rest))

/-- Equal results, the first with a memory that can be relied on. -/
def Alike {α : Type} (r r' : α × Memo) : Prop := r.1 = r'.1 ∧ Recalls tree lines objects r.2

end Memory

variable {tree : Tree} {lines : LineIndex} {objects : List (String × Clause)} {memo : Memo}

theorem recalls_nil : Recalls tree lines objects [] := ⟨nofun, nofun⟩

/-- A key names one clause, so that remembering a result of it is right for whatever has this key. -/
theorem Recalls.cons_clause (hmemo : Recalls tree lines objects memo) (hkeys : KeysAgree objects) {key : String}
    {c : Clause} {result : List Match} (hc : (key, c) ∈ objects)
    (hends : ∀ memo', ∃ rest, EndsIn (evaluate tree lines c.copied memo') (.ok (result, rest))) :
    Recalls tree lines objects ((.clause key, result) :: memo) := by
  constructor
  · intro key' c' result' hc' hlookup
    rw [List.lookup_cons] at hlookup
    split at hlookup
    · next heq =>
      have hkey : key' = key := Remembered.clause.inj (eq_of_beq heq)
      cases hkeys _ hc' _ hc hkey
      cases hlookup
      exact hends
    · exact hmemo.clause key' c' result' hc' hlookup
  · intro key' c' kind others hc' hlookup
    rw [List.lookup_cons] at hlookup
    split at hlookup
    · next heq => cases eq_of_beq heq
    · exact hmemo.guarded key' c' kind others hc' hlookup

theorem Recalls.cons_guarded (hmemo : Recalls tree lines objects memo) (hkeys : KeysAgree objects) {key : String}
    {c : Clause} {kind : GuardKind} {others : List Match} (hc : (key, c) ∈ objects) (hkind : c.guardKind? = some kind)
    (hends : ∀ memo', ∃ rest, EndsIn (guardMatches tree lines c.copied memo') (.ok (some (kind, others), rest))) :
    Recalls tree lines objects ((.guarded key, others) :: memo) := by
  constructor
  · intro key' c' result' hc' hlookup
    rw [List.lookup_cons] at hlookup
    split at hlookup
    · next heq => cases eq_of_beq heq
    · exact hmemo.clause key' c' result' hc' hlookup
  · intro key' c' kind' others' hc' hlookup hkind'
    rw [List.lookup_cons] at hlookup
    split at hlookup
    · next heq =>
      have hkey : key' = key := Remembered.guarded.inj (eq_of_beq heq)
      cases hkeys _ hc' _ hc hkey
      cases hlookup
      cases hkind.symm.trans hkind'
      exact hends
    · exact hmemo.guarded key' c' kind' others' hc' hlookup hkind'

mutual

/-- A clause against its copy, by the form of the clause. Copies are never looked up, so that the memory of
the second evaluation may be any. -/
theorem spares_evaluate (hkeys : KeysAgree objects) : ∀ (c : Clause) (_ : c.sharings ⊆ objects) {memo : Memo}
    (_ : Recalls tree lines objects memo) (memo' : Memo),
    Spares (Alike tree lines objects) (evaluate tree lines c memo) (evaluate tree lines c.copied memo')
  | .structural query focus constraints, _, memo, hmemo, memo' => by
    rw [copied, evaluate, evaluate]
    apply (settles_structuralMatches tree query focus (constraints.getD [])).spares.bind
    intro found found' _ heq
    exact spares_pure ⟨heq, hmemo⟩
  | .textual regex flags constraints, _, memo, hmemo, memo' => by
    rw [copied, evaluate, evaluate]
    have hcompiled : Settles (ofExcept .regex (Regex.compile regex (Textual.flags flags))) := by
      apply settles_ofExcept
      cases Regex.compile regex (Textual.flags flags) <;> exact nofun
    apply hcompiled.spares.bind
    intro program program' _ heq
    cases heq
    apply (settles_textualMatches tree lines _ _).spares.bind
    intro found found' _ heq
    exact spares_pure ⟨heq, hmemo⟩
  | .any clauses, hsub, memo, hmemo, memo' => by
    rw [copied, evaluate, evaluate]
    rw [sharings] at hsub
    apply (spares_evaluateEach hkeys clauses hsub hmemo memo').bind
    intro r r' _ hr
    exact spares_pure ⟨congrArg Match.union hr.1, hr.2⟩
  | .all clauses, hsub, memo, hmemo, memo' => by
    rw [copied, evaluate, evaluate]
    rw [sharings] at hsub
    apply (spares_evaluatePositives hkeys clauses hsub none hmemo memo').bind
    intro r r' _ hr
    obtain ⟨candidates, memo₁⟩ := r
    obtain ⟨candidates', memo₁'⟩ := r'
    obtain ⟨heq, hmemo₁⟩ := hr
    cases heq
    cases candidates with
    | none => exact spares_throw _
    | some candidates => exact spares_evaluateGuards hkeys clauses hsub candidates hmemo₁ memo₁'
  | .guard kind clause, _, memo, _, memo' => by
    rw [copied, evaluate, evaluate]
    exact spares_throw _
  | .other type, _, memo, _, memo' => by
    rw [copied, evaluate, evaluate]
    exact spares_throw _
  | .shared key c, hsub, memo, hmemo, memo' => by
    rw [sharings, List.cons_subset] at hsub
    rw [copied, evaluate]
    cases hlookup : memo.lookup (.clause key) with
    | some result =>
      obtain ⟨rest, hends⟩ := hmemo.clause key c result hsub.1 hlookup memo'
      exact hends.spares ⟨rfl, hmemo⟩
    | none =>
      have hspares := spares_evaluate hkeys c hsub.2 hmemo
      -- the pair is put together again, so that the copy has something to follow its evaluation as well
      rw [← bind_pure (evaluate tree lines c.copied memo')]
      apply (hspares memo').bind
      intro r r' hends hr
      refine spares_pure ⟨hr.1, hr.2.cons_clause hkeys hsub.1 ?_⟩
      intro memo''
      obtain ⟨⟨result, rest⟩, hb, heq, -⟩ := (hspares memo'').endsIn hends
      cases heq
      exact ⟨rest, hb⟩

theorem spares_evaluateEach (hkeys : KeysAgree objects) : ∀ (cs : List Clause) (_ : sharingsEach cs ⊆ objects)
    {memo : Memo} (_ : Recalls tree lines objects memo) (memo' : Memo),
    Spares (Alike tree lines objects) (evaluateEach tree lines cs memo) (evaluateEach tree lines (copiedEach cs) memo')
  | [], _, memo, hmemo, memo' => by
    rw [copiedEach, evaluateEach, evaluateEach]
    exact spares_pure ⟨rfl, hmemo⟩
  | c :: cs, hsub, memo, hmemo, memo' => by
    rw [copiedEach, evaluateEach, evaluateEach]
    rw [sharingsEach, List.append_subset] at hsub
    apply (spares_evaluate hkeys c hsub.1 hmemo memo').bind
    intro r r' _ hr
    apply (spares_evaluateEach hkeys cs hsub.2 hr.2 r'.2).bind
    intro rs rs' _ hrs
    exact spares_pure ⟨congrArg₂ List.cons hr.1 hrs.1, hrs.2⟩

theorem spares_evaluatePositives (hkeys : KeysAgree objects) : ∀ (cs : List Clause) (_ : sharingsEach cs ⊆ objects)
    (candidates : Option (List Match)) {memo : Memo} (_ : Recalls tree lines objects memo) (memo' : Memo),
    Spares (Alike tree lines objects) (evaluatePositives tree lines cs candidates memo)
      (evaluatePositives tree lines (copiedEach cs) candidates memo')
  | [], _, candidates, memo, hmemo, memo' => by
    rw [copiedEach, evaluatePositives, evaluatePositives]
    exact spares_pure ⟨rfl, hmemo⟩
  | c :: cs, hsub, candidates, memo, hmemo, memo' => by
    rw [sharingsEach, List.append_subset] at hsub
    have hc := spares_evaluate hkeys c hsub.1 hmemo memo'
    rw [copiedEach, evaluatePositives.eq_def]
    rw [evaluatePositives.eq_def tree lines (c.copied :: copiedEach cs)]
    dsimp only
    rw [isGuard_copied]
    split
    · exact spares_evaluatePositives hkeys cs hsub.2 candidates hmemo memo'
    · split
      · apply hc.bind
        intro r r' _ hr
        rw [← hr.1]
        exact spares_evaluatePositives hkeys cs hsub.2 (some r.1) hr.2 r'.2
      · exact spares_pure ⟨rfl, hmemo⟩
      · apply hc.bind
        intro r r' _ hr
        rw [← hr.1]
        apply (settles_narrow r.1 _).spares.bind
        intro narrowed narrowed' _ heq
        cases heq
        exact spares_evaluatePositives hkeys cs hsub.2 (some narrowed) hr.2 r'.2

theorem spares_evaluateGuards (hkeys : KeysAgree objects) : ∀ (cs : List Clause) (_ : sharingsEach cs ⊆ objects)
    (candidates : List Match) {memo : Memo} (_ : Recalls tree lines objects memo) (memo' : Memo),
    Spares (Alike tree lines objects) (evaluateGuards tree lines cs candidates memo)
      (evaluateGuards tree lines (copiedEach cs) candidates memo')
  | [], _, candidates, memo, hmemo, memo' => by
    rw [copiedEach, evaluateGuards, evaluateGuards]
    exact spares_pure ⟨rfl, hmemo⟩
  | c :: cs, hsub, candidates, memo, hmemo, memo' => by
    rw [sharingsEach, List.append_subset] at hsub
    rw [copiedEach, evaluateGuards, evaluateGuards]
    split
    · exact spares_pure ⟨rfl, hmemo⟩
    · apply (spares_guardMatches hkeys c hsub.1 hmemo memo').bind
      intro r r' _ hr
      obtain ⟨guarded, memo₁⟩ := r
      obtain ⟨guarded', memo₁'⟩ := r'
      obtain ⟨⟨heq, hmemo₁⟩, -⟩ := hr
      cases heq
      rcases guarded with _ | ⟨kind, others⟩
      · exact spares_evaluateGuards hkeys cs hsub.2 candidates hmemo₁ memo₁'
      · apply (settles_guardPass kind others candidates).spares.bind
        intro kept kept' _ heq
        cases heq
        exact spares_evaluateGuards hkeys cs hsub.2 kept hmemo₁ memo₁'

/-- What a guard gives is of its own kind, so that its kind need not be remembered. -/
theorem spares_guardMatches (hkeys : KeysAgree objects) : ∀ (c : Clause) (_ : c.sharings ⊆ objects) {memo : Memo}
    (_ : Recalls tree lines objects memo) (memo' : Memo),
    Spares (fun r r' => Alike tree lines objects r r' ∧ ∀ g ∈ r.1, c.guardKind? = some g.1)
      (guardMatches tree lines c memo) (guardMatches tree lines c.copied memo')
  | .guard kind clause, hsub, memo, hmemo, memo' => by
    rw [copied, guardMatches, guardMatches]
    rw [sharings] at hsub
    apply (spares_evaluate hkeys clause hsub hmemo memo').bind
    intro r r' _ hr
    refine spares_pure ⟨⟨by rw [hr.1], hr.2⟩, ?_⟩
    intro g hg
    cases hg
    rfl
  | .shared key c, hsub, memo, hmemo, memo' => by
    rw [sharings, List.cons_subset] at hsub
    rw [copied, guardMatches]
    split
    · next others kind hlookup hkind =>
      obtain ⟨rest, hends⟩ := hmemo.guarded key c kind others hsub.1 hlookup hkind memo'
      refine hends.spares ⟨⟨rfl, hmemo⟩, ?_⟩
      intro g hg
      cases hg
      exact hkind
    · have hspares := spares_guardMatches hkeys c hsub.2 hmemo
      rw [← bind_pure (guardMatches tree lines c.copied memo')]
      apply (hspares memo').bind
      intro r r' hends hr
      obtain ⟨guarded, memo₁⟩ := r
      obtain ⟨⟨heq, hmemo₁⟩, hkind⟩ := hr
      refine spares_pure ⟨⟨heq, ?_⟩, hkind⟩
      rcases guarded with _ | ⟨kind, others⟩
      · exact hmemo₁
      · apply hmemo₁.cons_guarded hkeys hsub.1 (hkind _ rfl)
        intro memo''
        obtain ⟨⟨guarded'', rest⟩, hb, ⟨heq, -⟩, -⟩ := (hspares memo'').endsIn hends
        cases heq
        exact ⟨rest, hb⟩
  | .structural _ _ _, _, memo, hmemo, memo' | .textual _ _ _, _, memo, hmemo, memo'
  | .any _, _, memo, hmemo, memo' | .all _, _, memo, hmemo, memo' | .other _, _, memo, hmemo, memo' => by
    rw [copied, guardMatches.eq_def, guardMatches.eq_def]
    exact spares_pure ⟨⟨rfl, hmemo⟩, nofun⟩

end

/-- Both evaluations look at the surroundings once, take their steps and come to one outcome. -/
theorem exists_evaluateAll_eq_copied (tree : Tree) {clauses : List Clause} (h : KeysAgree (sharingsEach clauses)) :
    ∃ (s s' : Nat) (o : Except EvalError (List Match)), s ≤ s' ∧ NoHalt o ∧
      evaluateAll tree clauses = (checkpoint >>= fun _ => after s o) ∧
      evaluateAll tree (copiedEach clauses) = (checkpoint >>= fun _ => after s' o) := by
  have hunion : Spares (· = ·) (evaluateEach tree (LineIndex.ofText tree.source) clauses [] >>=
        fun r => pure (Match.union r.1))
      (evaluateEach tree (LineIndex.ofText tree.source) (copiedEach clauses) [] >>=
        fun r => pure (Match.union r.1)) := by
    apply (spares_evaluateEach h clauses (List.Subset.refl _) recalls_nil []).bind
    intro r r' _ hr
    exact spares_pure (congrArg Match.union hr.1)
  obtain ⟨o, hends, ho⟩ := (settles_evaluateEach tree (LineIndex.ofText tree.source) clauses []).bind
    fun r => settles_pure (Match.union r.1)
  simp only [evaluateAll]
  cases hunion with
  | ok fewer left right related =>
    cases related
    exact ⟨_, _, _, fewer, noHalt_ok _, by rw [← left], by rw [← right]⟩
  | error fewer left right =>
    cases hends.unique ⟨_, left⟩
    exact ⟨_, _, _, fewer, ho, by rw [← left], by rw [← right]⟩

/-- Evaluation with remembered results against evaluation of copies, which share nothing. Enough steps give
both the same matches, or the same error, and the copies take no fewer; in any budget and any surroundings in
which the copies come to it, the clauses do. -/
theorem evaluateAll_copied (tree : Tree) {clauses : List Clause} (h : KeysAgree (sharingsEach clauses)) :
    sharingsEach (copiedEach clauses) = [] ∧
    (∃ (s s' : Nat) (o : Except EvalError (List Match)), s ≤ s' ∧ NoHalt o ∧
      ∀ world : Surroundings, (∀ i, world.stop i = false) → ∀ m : Int,
        (s ≤ m → ∃ t, evaluateAll tree clauses (.start { maxSteps := m } world) = ended o t ∧ t.steps = s) ∧
        (s' ≤ m → ∃ t, evaluateAll tree (copiedEach clauses) (.start { maxSteps := m } world) = ended o t ∧
          t.steps = s')) ∧
    ∀ (t t' : Tracker) (o : Except EvalError (List Match)), NoHalt o →
      evaluateAll tree (copiedEach clauses) t = ended o t' →
        ∃ t'', evaluateAll tree clauses t = ended o t'' ∧ t''.steps ≤ t'.steps := by
  obtain ⟨s, s', o, hle, ho, heq, heq'⟩ := exists_evaluateAll_eq_copied tree h
  refine ⟨sharingsEach_copiedEach clauses, ⟨s, s', o, hle, ho, ?_⟩, ?_⟩
  · intro world hstop m
    have hstart : (Tracker.start { maxSteps := m } world).Unhindered := ⟨rfl, rfl, hstop⟩
    obtain ⟨t, hc, hu, hsteps, hbudget⟩ := hstart.checkpoint
    have hzero : t.steps = 0 := hsteps
    have hmax : t.budget.maxSteps = m := by rw [hbudget]; rfl
    have hrun (k : Nat) (hk : (k : Int) ≤ m) :
        ∃ t', (checkpoint >>= fun _ => after k o) (.start { maxSteps := m } world) = ended o t' ∧ t'.steps = k := by
      obtain ⟨t', hr, hsteps'⟩ := stepMany_within hu k (by omega)
      refine ⟨t', ?_, by omega⟩
      rw [checkpoint_bind, hc]
      exact after_of_ok o hr
    rw [heq, heq']
    exact ⟨hrun s, hrun s'⟩
  · intro t t' o' ho' hr
    rw [heq', checkpoint_bind] at hr
    rw [heq, checkpoint_bind]
    rcases hc : t.checkpoint with ⟨_ | halt, t₁⟩
    all_goals rw [hc] at hr
    · obtain ⟨hsteps, rfl⟩ := stepMany_of_after ho' hr
      obtain ⟨t'', hsteps', hfewer⟩ := stepMany_of_le hle hsteps
      exact ⟨t'', after_of_ok o hsteps', hfewer⟩
    · cases o' with
      | ok found => cases hr
      | error e =>
        cases hr
        exact absurd rfl (ho' halt)

/-- A clause that stands by itself, in a conjunction and in a guard. -/
def thrice (c : Clause) : List Clause :=
  [.shared "k" c, .all [.shared "k" c, .guard .inside (.shared "k" c)]]

theorem keysAgree_thrice (query : String) :
    KeysAgree (sharingsEach (thrice (.structural query none none))) := by
  have hall : ∀ x ∈ sharingsEach (thrice (.structural query none none)),
      x = ("k", Clause.structural query none none) := by
    simp [thrice, sharingsEach, sharings]
  intro x hx y hy _
  rw [hall x hx, hall y hy]

theorem evaluateAll_copied_thrice :
    KeysAgree (sharingsEach (thrice (.structural "(A)" none none))) ∧
    sharingsEach (copiedEach (thrice (.structural "(A)" none none))) = [] ∧
    ∃ (s s' : Nat) (o : Except EvalError (List Match)), s ≤ s' ∧ NoHalt o ∧
      ∀ world : Surroundings, (∀ i, world.stop i = false) → ∀ m : Int,
        (s ≤ m → ∃ t, evaluateAll MaybeChild.tree (thrice (.structural "(A)" none none))
          (.start { maxSteps := m } world) = ended o t ∧ t.steps = s) ∧
        (s' ≤ m → ∃ t, evaluateAll MaybeChild.tree (copiedEach (thrice (.structural "(A)" none none)))
          (.start { maxSteps := m } world) = ended o t ∧ t.steps = s') := by
  have hkeys := keysAgree_thrice "(A)"
  obtain ⟨hnone, hends, -⟩ := evaluateAll_copied MaybeChild.tree hkeys
  exact ⟨hkeys, hnone, hends⟩

end Clause

end RuleScan
