import RuleScan.Proofs.Evaluation.UniqueNames

/-! The outcomes of clauses. A clause comes to matches or to an error of its own, apart from its budget and from what
is remembered of other clauses. -/
namespace RuleScan

open Counted

namespace Clause

/-- Evaluating the clause ends in an outcome, whatever is remembered, and remembers nothing more. -/
def ComesTo (tree : Tree) (c : Clause) (o : Except EvalError (List Match)) : Prop :=
  ∀ memo, EndsIn (evaluate tree (LineIndex.ofText tree.source) c memo) (o.map fun ms => (ms, memo))

variable {tree : Tree} {c : Clause} {o o' : Except EvalError (List Match)}

theorem ComesTo.unique (h : ComesTo tree c o) (h' : ComesTo tree c o') : o = o' := by
  have he := (h []).unique (h' [])
  cases o <;> cases o' <;> simp_all [Except.map]

theorem map_bind {ε α β γ : Type} (x : Except ε α) (f : α → Except ε β) (g : β → γ) :
    (x >>= f).map g = x >>= fun a => (f a).map g := by
  cases x <;> rfl

theorem mapError_eq_ok {ε ε' α : Type} {x : Except ε α} {wrap : ε → ε'} {a : α}
    (h : x.mapError wrap = .ok a) : x = .ok a := by
  cases x with
  | error e => cases h
  | ok b => exact congrArg Except.ok (Except.ok.inj h)

theorem endsIn_map_bind {α β γ : Type} {m : Counted γ} {o : Except EvalError α} {k : α → γ}
    {f : γ → Counted β} {g : α → Except EvalError β} (hm : EndsIn m (o.map k)) (hf : ∀ a, EndsIn (f (k a)) (g a)) :
    EndsIn (m >>= f) (o >>= g) := by
  cases o with
  | error e => exact hm.bind (g := fun _ => .error e) nofun
  | ok a => exact hm.bind_ok (hf a)

theorem endsIn_map {α β : Type} {m : Counted α} {o : Except EvalError α} (f : α → β) (h : EndsIn m o) :
    EndsIn (m >>= fun a => pure (f a)) (o.map f) := by
  have hbind := h.bind (f := fun a => pure (f a)) (g := fun a => .ok (f a)) fun a _ => endsIn_pure (f a)
  cases o <;> exact hbind

/-- A clause that does not look at what is remembered. -/
theorem comesTo_of_eq {m : Counted (List Match)} (hm : EndsIn m o)
    (h : ∀ memo, evaluate tree (LineIndex.ofText tree.source) c memo = m >>= fun ms => pure (ms, memo)) :
    ComesTo tree c o := by
  intro memo
  rw [h]
  exact endsIn_map (·, memo) hm

section Structural

variable {query : String} {q : Query} {compiled : Query.Compiled}

/-- The test that a structural clause makes of each solution. -/
def acceptance (source : Units) (focus : Option String) (constraints : List Constraint) (env : Bindings) :
    Except EvalError Bool :=
  if focusBound focus env then Constraint.Test.allHold source env (constraints.map Constraint.compile) else .ok false

/-- A structural clause reports the first solution at each node that passes its test. -/
theorem comesTo_structural (hparse : Query.parse query = .ok q) (hcompile : Query.compile q = .ok compiled)
    (focus : Option String) (constraints : Option (List Constraint)) (tree : Tree) :
    ComesTo tree (.structural query focus constraints) (do
      let found ← tree.root.preorder.filterMapM
        (compiled.firstAt tree.source (acceptance tree.source focus (constraints.getD [])))
      (found.mapM fun x => focused focus x.1 x.2).mapError .noNode) := by
  have hmatches : structuralMatches tree query focus (constraints.getD []) =
      (compiled.findMatches tree fun env => Counted.ofExcept id (acceptance tree.source focus (constraints.getD []) env))
        >>= fun found => Counted.ofExcept .noNode (found.mapM fun x => focused focus x.1 x.2) := by
    have htest : (fun env => Counted.ofExcept id (acceptance tree.source focus (constraints.getD []) env)) =
        fun env => if focusBound focus env then
          Counted.ofExcept id (Constraint.Test.allHold tree.source env ((constraints.getD []).map Constraint.compile))
        else pure false := by
      funext env
      unfold acceptance
      split <;> rfl
    rw [structuralMatches, hparse, htest]
    show (Counted.ofExcept .regex (Query.compile q) >>= _) = _
    rw [hcompile]
    rfl
  have hid : ∀ env, EndsIn (Counted.ofExcept id (acceptance tree.source focus (constraints.getD []) env))
      (acceptance tree.source focus (constraints.getD []) env) := by
    intro env
    have hend := endsIn_ofExcept id (acceptance tree.source focus (constraints.getD []) env)
    cases h : acceptance tree.source focus (constraints.getD []) env with
    | error e =>
      rw [h] at hend
      exact hend
    | ok b =>
      rw [h] at hend
      exact hend
  have hend := (compiled.endsIn_findMatches hid tree).bind
    (f := fun found => Counted.ofExcept .noNode (found.mapM fun x => focused focus x.1 x.2))
    (g := fun found => (found.mapM fun x => focused focus x.1 x.2).mapError .noNode)
    fun found _ => endsIn_ofExcept _ _
  rw [← hmatches] at hend
  apply comesTo_of_eq hend
  intro memo
  rw [evaluate]

/-- What a structural clause reports: at each node the first solution of a pattern that satisfies a condition. -/
def reported (tree : Tree) (pattern : Query.Pattern) (focus : Option String) (condition : Bindings → Bool) :
    Except EvalError (List Match) :=
  ((tree.root.preorder.filterMap fun node =>
      ((Query.solutions tree.source pattern node []).find? condition).map (node, ·)).mapM
    fun x => focused focus x.1 x.2).mapError .noNode

/-- Where the test never fails, it is a condition on the solution. -/
theorem comesTo_reported (hparse : Query.parse query = .ok q) (hcompile : Query.compile q = .ok compiled)
    {focus : Option String} {constraints : Option (List Constraint)} {test : Bindings → Bool}
    (htest : ∀ env, acceptance tree.source focus (constraints.getD []) env = .ok (test env)) :
    ComesTo tree (.structural query focus constraints)
      (reported tree compiled.pattern focus fun env => compiled.checks.all (·.holds tree.source env) && test env) := by
  have hcomes := comesTo_structural hparse hcompile focus constraints tree
  rw [show acceptance tree.source focus (constraints.getD []) = fun env => .ok (test env) from funext htest,
    compiled.filterMapM_firstAt] at hcomes
  exact hcomes

/-- A structural clause with a pattern and nothing else reports the first solution at each node. -/
theorem comesTo_pattern (hparse : Query.parse query = .ok q) (hnone : q.predicates = []) (tree : Tree) :
    ComesTo tree (.structural query none none) (.ok (tree.root.preorder.filterMap fun node =>
      (Query.solutions tree.source q.pattern node []).head?.map fun env => ⟨node.span, node, env, none⟩)) := by
  have hcompile : Query.compile q = .ok ⟨q.pattern, []⟩ := by
    rw [Query.compile, hnone]
    rfl
  have htest : ∀ env, acceptance tree.source none ((none : Option (List Constraint)).getD []) env = .ok true :=
    fun _ => rfl
  have hcomes := comesTo_reported hparse hcompile htest
  have hreport : ∀ found : List (Node × Bindings), (found.mapM fun x => focused none x.1 x.2).mapError EvalError.noNode =
      .ok (found.map fun x => ⟨x.1.span, x.1, x.2, none⟩) := by
    intro found
    have hpure : found.mapM (fun x => focused none x.1 x.2) =
        (.ok (found.map fun x => ⟨x.1.span, x.1, x.2, none⟩) : Except NoNode (List Match)) := List.mapM_pure
    exact congrArg (Except.mapError EvalError.noNode) hpure
  have hfirst : ∀ found : List Bindings, (found.find? fun _ => true) = found.head? := by
    intro found
    cases found <;> rfl
  unfold reported at hcomes
  rw [hreport, List.map_filterMap] at hcomes
  simp only [List.all_nil, Bool.and_self, hfirst, Option.map_map] at hcomes
  exact hcomes

end Structural

section Textual

variable {regex : String} {flags : Option String} {program : Regex.Program}

def reportedText (source : Units) (lines : LineIndex) (found : Regex.Found) : Except ReadOnly Match :=
  (Textual.bindings source lines found).map fun (bindings, base) =>
    let node := Textual.node source lines found.start found.stop
    { span := node.span, node, bindings, base }

/-- Without constraints, an expression reports all that it finds and that is not empty. -/
theorem comesTo_expression (hcompile : Regex.compile regex (Textual.flags flags) = .ok program) (tree : Tree) :
    ComesTo tree (.textual regex flags none)
      ((((program.all tree.source).filter fun f => f.stop ≠ f.start).mapM
        (reportedText tree.source (LineIndex.ofText tree.source))).mapError .readOnly) := by
  have hend (found : List Regex.Found) : EndsIn (textualMatches tree (LineIndex.ofText tree.source) [] found)
      (((found.filter fun f => f.stop ≠ f.start).mapM
        (reportedText tree.source (LineIndex.ofText tree.source))).mapError .readOnly) := by
    induction found with
    | nil => exact endsIn_pure []
    | cons f rest ih =>
      rw [textualMatches]
      apply EndsIn.step_bind
      by_cases hempty : f.stop = f.start
      · rw [if_pos hempty, List.filter_cons_of_neg (by simpa using hempty)]
        exact ih
      · rw [if_neg hempty, List.filter_cons_of_pos (by simpa using hempty), List.mapM_cons, reportedText]
        cases Textual.bindings tree.source (LineIndex.ofText tree.source) f with
        | error e => exact endsIn_throw _
        | ok record =>
          cases hrest : (rest.filter fun f => f.stop ≠ f.start).mapM
              (reportedText tree.source (LineIndex.ofText tree.source)) with
          | error e =>
            rw [hrest] at ih
            exact ih.bind (g := fun _ => .error (.readOnly e)) fun ms h => by cases h
          | ok ms =>
            rw [hrest] at ih
            exact ih.bind_ok (endsIn_pure _)
  apply comesTo_of_eq (hend (program.all tree.source))
  intro memo
  rw [evaluate, hcompile]
  rfl

end Textual

end Clause

end RuleScan
