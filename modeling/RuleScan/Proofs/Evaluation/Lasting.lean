import RuleScan.Proofs.Evaluation.Safety
import RuleScan.Proofs.Evaluation.Surroundings

/-! What is so of every match that an evaluation gives. A property that queries and expressions establish and that
joining two matches keeps holds of whatever the clauses come to, remembered results included. The names of the groups of
the expressions are given, as some properties are established by those expressions only that lack a name. -/
namespace RuleScan

namespace Counted

variable {α β : Type} {m : Counted α} {P : α → Prop}

/-- What `m` gives, if it gives something, has a property. -/
def Yields (m : Counted α) (P : α → Prop) : Prop := ∀ t a t', m t = .ok a t' → P a

theorem yields_pure {a : α} (h : P a) : Yields (pure a) P := by
  rintro t _ _ ⟨⟩
  exact h

theorem yields_throw (e : EvalError) : Yields (throw e) P := by
  rintro t _ _ ⟨⟩

theorem yields_true (m : Counted α) : Yields m fun _ => True := fun _ _ _ _ => trivial

theorem Yields.bind {f : α → Counted β} {R : β → Prop} (hm : Yields m P) (hf : ∀ a, P a → Yields (f a) R) :
    Yields (m >>= f) R := by
  intro t b t' h
  change EStateM.bind m f t = _ at h
  unfold EStateM.bind at h
  split at h
  · next a t₁ ha => exact hf a (hm t a t₁ ha) t₁ b t' h
  · cases h

/-- What comes after something that is not looked at. -/
theorem yields_bind {f : α → Counted β} {R : β → Prop} (h : ∀ a, Yields (f a) R) : Yields (m >>= f) R :=
  (yields_true m).bind fun a _ => h a

theorem yields_ofExcept {ε : Type} {wrap : ε → EvalError} {x : Except ε α} (h : ∀ a, x = .ok a → P a) :
    Yields (ofExcept wrap x) P := by
  cases x with
  | ok a => exact yields_pure (h a rfl)
  | error e => exact yields_throw (wrap e)

theorem EndsIn.yields {o : Except EvalError α} (hm : EndsIn m o) (h : ∀ a, o = .ok a → P a) : Yields m P := by
  intro t a t' hrun
  rcases hm.run t with ⟨t₁, ht⟩ | ⟨e, t₁, ht⟩
  · rw [hrun] at ht
    cases o with
    | ok b =>
      cases ht
      exact h a rfl
    | error e => cases ht
  · rw [hrun] at ht
    cases ht

/-- There is a budget that is enough, under which the result is given. -/
theorem EndsIn.of_yields {a : α} (hm : EndsIn m (.ok a)) (h : Yields m P) : P a := by
  obtain ⟨n, -, hgives⟩ := hm.gives
  obtain ⟨t', hrun⟩ := hgives (Tracker.start { maxSteps := n } (.still 0)) ⟨rfl, rfl, fun _ => rfl⟩
    (Int.le_of_eq (Int.zero_add _))
  exact h _ a t' hrun

end Counted

open Counted

namespace Clause

mutual

/-- The groups of the expressions of a clause at any depth, as they are compiled. -/
def groups : Clause → List String
  | .textual regex flags _ =>
    match Regex.compile regex (Textual.flags flags) with
    | .ok program => program.names.map (·.1)
    | .error _ => []
  | .all clauses | .any clauses => groupsEach clauses
  | .guard _ clause | .shared _ clause => clause.groups
  | .structural _ _ _ | .other _ => []

def groupsEach : List Clause → List String
  | [] => []
  | c :: rest => c.groups ++ groupsEach rest

end

/-- A property that matches of queries have, and of expressions with groups of these names, and that joined matches take
over. -/
structure Lasting (tree : Tree) (lines : LineIndex) (names : List String) (P : Match → Prop) : Prop where
  structural : ∀ query focus constraints, Yields (structuralMatches tree query focus constraints) (∀ m ∈ ·, P m)
  textual : ∀ {regex flags program}, Regex.compile regex (Textual.flags flags) = .ok program →
    program.names.map (·.1) ⊆ names →
      ∀ tests, Yields (textualMatches tree lines tests (program.all tree.source)) (∀ m ∈ ·, P m)
  joined : ∀ {candidate other : Match} {merged : Bindings}, P candidate → P other →
    candidate.bindings.merge other.bindings = .ok (some merged) → P { candidate with bindings := merged, base := none }

variable {tree : Tree} {lines : LineIndex} {names : List String} {P : Match → Prop}

/-- What is so of all that an expression may report is so of what it reports. -/
theorem yields_textualMatches_of {found : List Regex.Found} (tests : List Constraint.Test)
    (h : ∀ f ∈ found, ∀ bindings base, Textual.bindings tree.source lines f = .ok (bindings, base) →
      let node := Textual.node tree.source lines f.start f.stop
      P ⟨node.span, node, bindings, base⟩) :
    Yields (textualMatches tree lines tests found) (∀ m ∈ ·, P m) := by
  induction found with
  | nil => exact yields_pure nofun
  | cons f rest ih =>
    obtain ⟨hf, hrest⟩ := List.forall_mem_cons.mp h
    rw [textualMatches]
    refine yields_bind fun _ => ?_
    split
    · exact ih hrest
    refine (yields_ofExcept fun record hr => hr).bind fun record hrecord => yields_bind fun b => ?_
    cases b with
    | true => exact (ih hrest).bind fun ms hms => yields_pure (List.forall_mem_cons.mpr ⟨hf _ _ hrecord, hms⟩)
    | false => exact ih hrest

theorem Lasting.of_joinFirst (hP : Lasting tree lines names P) {candidate joined : Match} {others : List Match}
    (hc : P candidate) (ho : ∀ m ∈ others, P m) (h : joinFirst candidate others = .ok (some joined)) : P joined := by
  induction others with
  | nil => cases h
  | cons m rest ih =>
    obtain ⟨hm, hrest⟩ := List.forall_mem_cons.mp ho
    rw [joinFirst] at h
    split at h
    · split at h
      · next merged hmerged =>
        cases h
        exact hP.joined hc hm hmerged
      · exact ih hrest h
      · cases h
    · exact ih hrest h

theorem Lasting.yields_narrow (hP : Lasting tree lines names P) {others candidates : List Match} (ho : ∀ m ∈ others, P m)
    (hc : ∀ m ∈ candidates, P m) : Yields (narrow others candidates) (∀ m ∈ ·, P m) := by
  induction candidates with
  | nil => exact yields_pure nofun
  | cons m rest ih =>
    obtain ⟨hm, hrest⟩ := List.forall_mem_cons.mp hc
    rw [narrow]
    refine yields_bind fun _ => (yields_ofExcept fun r hr => hr).bind fun r hr => ?_
    cases r with
    | some joined =>
      exact (ih hrest).bind fun ms hms => yields_pure (List.forall_mem_cons.mpr ⟨hP.of_joinFirst hm ho hr, hms⟩)
    | none => exact ih hrest

theorem yields_guardPass (kind : GuardKind) (others : List Match) {candidates : List Match}
    (hc : ∀ m ∈ candidates, P m) : Yields (guardPass kind others candidates) (∀ m ∈ ·, P m) := by
  induction candidates with
  | nil => exact yields_pure nofun
  | cons m rest ih =>
    obtain ⟨hm, hrest⟩ := List.forall_mem_cons.mp hc
    rw [guardPass]
    refine yields_bind fun _ => (ih hrest).bind fun kept hkept => yields_pure ?_
    split
    · exact List.forall_mem_cons.mpr ⟨hm, hkept⟩
    · exact hkept

def Memo.Holds (P : Match → Prop) (memo : Memo) : Prop := ∀ e ∈ memo, ∀ m ∈ e.2, P m

theorem Memo.Holds.lookup {memo : Memo} (h : memo.Holds P) {key : Remembered} {ms : List Match}
    (hms : memo.lookup key = some ms) : ∀ m ∈ ms, P m := by
  obtain ⟨l₁, l₂, rfl, -⟩ := List.lookup_eq_some_iff.mp hms
  exact h (key, ms) (List.mem_append_right _ List.mem_cons_self)

mutual

/-- What a clause comes to, by its form. -/
theorem Lasting.yields_evaluate (hP : Lasting tree lines names P) : ∀ (c : Clause) {memo : Memo}, c.groups ⊆ names →
    memo.Holds P → Yields (evaluate tree lines c memo) fun r => (∀ m ∈ r.1, P m) ∧ r.2.Holds P
  | .structural query focus constraints, memo, _, hmemo => by
    rw [evaluate]
    exact (hP.structural _ _ _).bind fun ms hms => yields_pure ⟨hms, hmemo⟩
  | .textual regex flags constraints, memo, hgroups, hmemo => by
    rw [evaluate]
    refine (yields_ofExcept fun program hp => hp).bind fun program hp => ?_
    rw [groups, hp] at hgroups
    exact (hP.textual hp hgroups _).bind fun ms hms => yields_pure ⟨hms, hmemo⟩
  | .any clauses, memo, hgroups, hmemo => by
    rw [groups] at hgroups
    rw [evaluate]
    refine (hP.yields_evaluateEach clauses hgroups hmemo).bind fun r hr => yields_pure ⟨fun m hm => ?_, hr.2⟩
    obtain ⟨ms, hms, hm⟩ := Match.exists_of_mem_union hm
    exact hr.1 ms hms m hm
  | .all clauses, memo, hgroups, hmemo => by
    rw [groups] at hgroups
    rw [evaluate]
    have hnone : ∀ ms ∈ (none : Option (List Match)), ∀ m ∈ ms, P m := nofun
    refine (hP.yields_evaluatePositives clauses hgroups hnone hmemo).bind fun r hr => ?_
    rcases r with ⟨_ | candidates, memo'⟩
    · exact yields_throw _
    · exact hP.yields_evaluateGuards clauses hgroups (hr.1 candidates rfl) hr.2
  | .guard kind c, memo, _, hmemo => by
    rw [evaluate]
    exact yields_throw _
  | .other type, memo, _, hmemo => by
    rw [evaluate]
    exact yields_throw _
  | .shared key c, memo, hgroups, hmemo => by
    rw [groups] at hgroups
    rw [evaluate]
    cases hlookup : memo.lookup (.clause key) with
    | some result => exact yields_pure ⟨hmemo.lookup hlookup, hmemo⟩
    | none =>
      refine (hP.yields_evaluate c hgroups hmemo).bind fun r hr => yields_pure ⟨hr.1, ?_⟩
      exact List.forall_mem_cons.mpr ⟨hr.1, hr.2⟩

theorem Lasting.yields_evaluateEach (hP : Lasting tree lines names P) : ∀ (cs : List Clause) {memo : Memo},
    groupsEach cs ⊆ names → memo.Holds P →
    Yields (evaluateEach tree lines cs memo) fun r => (∀ ms ∈ r.1, ∀ m ∈ ms, P m) ∧ r.2.Holds P
  | [], memo, _, hmemo => by
    rw [evaluateEach]
    exact yields_pure ⟨nofun, hmemo⟩
  | c :: cs, memo, hgroups, hmemo => by
    rw [groupsEach] at hgroups
    obtain ⟨hfirst, hrest⟩ := List.append_subset.mp hgroups
    rw [evaluateEach]
    refine (hP.yields_evaluate c hfirst hmemo).bind fun r hr => ?_
    exact (hP.yields_evaluateEach cs hrest hr.2).bind fun rs hrs =>
      yields_pure ⟨List.forall_mem_cons.mpr ⟨hr.1, hrs.1⟩, hrs.2⟩

theorem Lasting.yields_evaluatePositives (hP : Lasting tree lines names P) :
    ∀ (cs : List Clause) {candidates : Option (List Match)} {memo : Memo}, groupsEach cs ⊆ names →
    (∀ ms ∈ candidates, ∀ m ∈ ms, P m) → memo.Holds P →
    Yields (evaluatePositives tree lines cs candidates memo) fun r =>
      (∀ ms ∈ r.1, ∀ m ∈ ms, P m) ∧ r.2.Holds P
  | [], candidates, memo, _, hc, hmemo => by
    rw [evaluatePositives]
    exact yields_pure ⟨hc, hmemo⟩
  | c :: cs, candidates, memo, hgroups, hc, hmemo => by
    rw [groupsEach] at hgroups
    obtain ⟨hfirst, hrest⟩ := List.append_subset.mp hgroups
    rw [evaluatePositives.eq_def]
    dsimp only
    split
    · exact hP.yields_evaluatePositives cs hrest hc hmemo
    split
    · refine (hP.yields_evaluate c hfirst hmemo).bind fun r hr => hP.yields_evaluatePositives cs hrest ?_ hr.2
      rintro _ ⟨⟩
      exact hr.1
    · exact yields_pure ⟨hc, hmemo⟩
    · next ms _ =>
      refine (hP.yields_evaluate c hfirst hmemo).bind fun r hr => ?_
      refine (hP.yields_narrow hr.1 (hc ms rfl)).bind fun narrowed hn => hP.yields_evaluatePositives cs hrest ?_ hr.2
      rintro _ ⟨⟩
      exact hn

theorem Lasting.yields_evaluateGuards (hP : Lasting tree lines names P) :
    ∀ (cs : List Clause) {candidates : List Match} {memo : Memo}, groupsEach cs ⊆ names →
    (∀ m ∈ candidates, P m) → memo.Holds P →
    Yields (evaluateGuards tree lines cs candidates memo) fun r => (∀ m ∈ r.1, P m) ∧ r.2.Holds P
  | [], candidates, memo, _, hc, hmemo => by
    rw [evaluateGuards]
    exact yields_pure ⟨hc, hmemo⟩
  | c :: cs, candidates, memo, hgroups, hc, hmemo => by
    rw [groupsEach] at hgroups
    obtain ⟨hfirst, hrest⟩ := List.append_subset.mp hgroups
    rw [evaluateGuards]
    split
    · exact yields_pure ⟨nofun, hmemo⟩
    refine (hP.yields_guardMatches c hfirst hmemo).bind fun r hr => ?_
    rcases r with ⟨_ | ⟨kind, others⟩, memo'⟩
    · exact hP.yields_evaluateGuards cs hrest hc hr.2
    · exact (yields_guardPass kind others hc).bind fun kept hk => hP.yields_evaluateGuards cs hrest hk hr.2

theorem Lasting.yields_guardMatches (hP : Lasting tree lines names P) : ∀ (c : Clause) {memo : Memo},
    c.groups ⊆ names → memo.Holds P →
    Yields (guardMatches tree lines c memo) fun r => (∀ g ∈ r.1, ∀ m ∈ g.2, P m) ∧ r.2.Holds P
  | .guard kind c, memo, hgroups, hmemo => by
    rw [groups] at hgroups
    rw [guardMatches]
    refine (hP.yields_evaluate c hgroups hmemo).bind fun r hr => yields_pure ⟨?_, hr.2⟩
    rintro _ ⟨⟩
    exact hr.1
  | .shared key c, memo, hgroups, hmemo => by
    rw [groups] at hgroups
    rw [guardMatches]
    split
    · next others kind hothers _ =>
      refine yields_pure ⟨?_, hmemo⟩
      rintro _ ⟨⟩
      exact hmemo.lookup hothers
    · refine (hP.yields_guardMatches c hgroups hmemo).bind fun r hr => yields_pure ⟨hr.1, ?_⟩
      rcases r with ⟨_ | g, memo'⟩
      · exact hr.2
      · exact List.forall_mem_cons.mpr ⟨hr.1 g rfl, hr.2⟩
  | .structural _ _ _, memo, _, hmemo | .textual _ _ _, memo, _, hmemo | .any _, memo, _, hmemo
  | .all _, memo, _, hmemo | .other _, memo, _, hmemo => by
    rw [guardMatches.eq_def]
    exact yields_pure ⟨nofun, hmemo⟩

end

theorem Lasting.yields_evaluateAll {clauses : List Clause}
    (hP : Lasting tree (LineIndex.ofText tree.source) (groupsEach clauses) P) :
    Yields (evaluateAll tree clauses) (∀ m ∈ ·, P m) := by
  have hnone : Memo.Holds P [] := List.forall_mem_nil _
  rw [evaluateAll]
  refine yields_bind fun _ => ?_
  refine (hP.yields_evaluateEach clauses (List.Subset.refl _) hnone).bind fun r hr => yields_pure fun m hm => ?_
  obtain ⟨ms, hms, hm⟩ := Match.exists_of_mem_union hm
  exact hr.1 ms hms m hm

end Clause

end RuleScan
