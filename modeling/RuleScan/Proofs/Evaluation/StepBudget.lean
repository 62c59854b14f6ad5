import Mathlib.Tactic.Choose
import RuleScan.Evaluation.Clauses
import RuleScan.Proofs.Query.Matching

/-! The step budget cuts an evaluation off and changes nothing else: every evaluation of clauses has its
own number of steps and its own outcome. -/
namespace RuleScan

open Counted

namespace Query.Compiled

private theorem noHalt_findM? {α : Type} {f : α → Except EvalError Bool} (hf : ∀ x, NoHalt (f x)) (xs : List α) :
    NoHalt (xs.findM? f) := by
  induction xs with
  | nil => exact noHalt_ok none
  | cons x xs ih =>
    rw [List.findM?]
    refine (hf x).bind fun b => ?_
    cases b with
    | true => exact noHalt_ok (some x)
    | false => exact ih

private theorem noHalt_filterMapM {α β : Type} {f : α → Except EvalError (Option β)} (hf : ∀ x, NoHalt (f x))
    (xs : List α) : NoHalt (xs.filterMapM f) := by
  induction xs with
  | nil => exact noHalt_ok []
  | cons x xs ih =>
    rw [List.filterMapM_cons]
    refine (hf x).bind fun r => ?_
    cases r with
    | none => exact ih
    | some b => exact ih.bind fun bs => noHalt_ok (b :: bs)

theorem settles_findMatches (c : Compiled) (tree : Tree) {accept : Bindings → Counted Bool}
    (h : ∀ env, Settles (accept env)) : Settles (c.findMatches tree accept) := by
  choose test htest hsafe using h
  refine ⟨_, endsIn_findMatches htest c tree, noHalt_filterMapM (fun node => ?_) _⟩
  rw [firstAt]
  refine NoHalt.bind (noHalt_findM? (fun env => ?_) _) fun found => noHalt_ok _
  split
  · exact hsafe env
  · exact noHalt_ok false

end Query.Compiled

namespace Constraint.Test

theorem noHalt_matchesText (text : Units) (program : Except Regex.CompileError Regex.Program) :
    NoHalt (matchesText text program) := by
  cases program <;> exact nofun

theorem noHalt_holdsOf (t : Test) (text : Units) (kind : String) : NoHalt (t.holdsOf text kind) := by
  unfold holdsOf
  dsimp only
  repeat' first
    | exact noHalt_ok _
    | refine (noHalt_matchesText text _).bind fun b => ?_
    | split

theorem noHalt_holds (source : Units) (bindings : Bindings) (t : Test) (base : Option Node) :
    NoHalt (t.holds source bindings base) := by
  unfold holds
  split
  · exact t.noHalt_holdsOf _ _
  · exact noHalt_ok _
  · exact nofun

theorem noHalt_allHold (source : Units) (bindings : Bindings) (tests : List Test) (base : Option Node) :
    NoHalt (allHold source bindings tests base) := by
  induction tests with
  | nil => exact noHalt_ok true
  | cons t rest ih =>
    have ht := t.noHalt_holds source bindings base
    unfold allHold
    split
    · exact ih
    · exact ht

end Constraint.Test

namespace Clause

private theorem noHalt_query {α : Type} (x : Except Query.SyntaxFault α) : NoHalt (x.mapError .query) := by
  cases x <;> exact nofun

private theorem noHalt_regex {α : Type} (x : Except Regex.CompileError α) : NoHalt (x.mapError .regex) := by
  cases x <;> exact nofun

private theorem noHalt_noNode {α : Type} (x : Except NoNode α) : NoHalt (x.mapError .noNode) := by
  cases x <;> exact nofun

private theorem noHalt_readOnly {α : Type} (x : Except ReadOnly α) : NoHalt (x.mapError .readOnly) := by
  cases x <;> exact nofun

theorem settles_allHold (source : Units) (bindings : Bindings) (tests : List Constraint.Test) (base : Option Node) :
    Settles (ofExcept id (Constraint.Test.allHold source bindings tests base)) := by
  have h := Constraint.Test.noHalt_allHold source bindings tests base
  refine settles_ofExcept ?_
  cases hr : Constraint.Test.allHold source bindings tests base with
  | ok b => exact noHalt_ok b
  | error e =>
    rw [hr] at h
    exact h

theorem settles_structuralMatches (tree : Tree) (query : String) (focus : Option String)
    (constraints : List Constraint) : Settles (structuralMatches tree query focus constraints) := by
  rw [structuralMatches]
  refine (settles_ofExcept (noHalt_query _)).bind fun parsed => ?_
  refine (settles_ofExcept (noHalt_regex _)).bind fun compiled => ?_
  refine (compiled.settles_findMatches tree fun bindings => ?_).bind fun found => settles_ofExcept (noHalt_noNode _)
  split
  · exact settles_allHold _ _ _ none
  · exact settles_pure false

theorem settles_textualMatches (tree : Tree) (lines : LineIndex) (tests : List Constraint.Test)
    (found : List Regex.Found) : Settles (textualMatches tree lines tests found) := by
  induction found with
  | nil => exact settles_pure []
  | cons f rest ih =>
    rw [textualMatches]
    refine settles_step.bind fun _ => ?_
    split
    · exact ih
    refine (settles_ofExcept (noHalt_readOnly _)).bind fun record => (settles_allHold _ _ _ _).bind fun b => ?_
    cases b with
    | true => exact ih.bind fun ms => settles_pure _
    | false => exact ih

theorem settles_narrow (others candidates : List Match) : Settles (narrow others candidates) := by
  induction candidates with
  | nil => exact settles_pure []
  | cons m rest ih =>
    rw [narrow]
    refine settles_step.bind fun _ => (settles_ofExcept (noHalt_noNode _)).bind fun r => ?_
    cases r with
    | some joined => exact ih.bind fun ms => settles_pure _
    | none => exact ih

theorem settles_guardPass (kind : GuardKind) (others candidates : List Match) :
    Settles (guardPass kind others candidates) := by
  induction candidates with
  | nil => exact settles_pure []
  | cons m rest ih =>
    rw [guardPass]
    exact settles_step.bind fun _ => ih.bind fun kept => settles_pure _

mutual

theorem settles_evaluate (tree : Tree) (lines : LineIndex) : ∀ (c : Clause) (memo : Memo),
    Settles (evaluate tree lines c memo)
  | .structural query focus constraints, memo => by
    rw [evaluate]
    exact (settles_structuralMatches _ _ _ _).bind fun ms => settles_pure _
  | .textual regex flags constraints, memo => by
    rw [evaluate]
    refine (settles_ofExcept (noHalt_regex _)).bind fun program => ?_
    exact (settles_textualMatches _ _ _ _).bind fun ms => settles_pure _
  | .any clauses, memo => by
    rw [evaluate]
    exact (settles_evaluateEach tree lines clauses memo).bind fun r => settles_pure _
  | .all clauses, memo => by
    rw [evaluate]
    refine (settles_evaluatePositives tree lines clauses none memo).bind fun r => ?_
    rcases r with ⟨_ | candidates, memo'⟩
    · exact settles_throw nofun
    · exact settles_evaluateGuards tree lines clauses candidates memo'
  | .guard kind c, memo => by
    rw [evaluate]
    exact settles_throw nofun
  | .other type, memo => by
    rw [evaluate]
    exact settles_throw nofun
  | .shared key c, memo => by
    rw [evaluate]
    cases memo.lookup (.clause key) with
    | some result => exact settles_pure _
    | none => exact (settles_evaluate tree lines c memo).bind fun r => settles_pure _

theorem settles_evaluateEach (tree : Tree) (lines : LineIndex) : ∀ (cs : List Clause) (memo : Memo),
    Settles (evaluateEach tree lines cs memo)
  | [], memo => by
    rw [evaluateEach]
    exact settles_pure _
  | c :: cs, memo => by
    rw [evaluateEach]
    refine (settles_evaluate tree lines c memo).bind fun r => ?_
    exact (settles_evaluateEach tree lines cs r.2).bind fun rs => settles_pure _

theorem settles_evaluatePositives (tree : Tree) (lines : LineIndex) : ∀ (cs : List Clause)
    (candidates : Option (List Match)) (memo : Memo), Settles (evaluatePositives tree lines cs candidates memo)
  | [], candidates, memo => by
    rw [evaluatePositives]
    exact settles_pure _
  | c :: cs, candidates, memo => by
    rw [evaluatePositives.eq_def]
    dsimp only
    split
    · exact settles_evaluatePositives tree lines cs candidates memo
    split
    · exact (settles_evaluate tree lines c memo).bind fun r =>
        settles_evaluatePositives tree lines cs (some r.1) r.2
    · exact settles_pure _
    · refine (settles_evaluate tree lines c memo).bind fun r => ?_
      exact (settles_narrow _ _).bind fun ms => settles_evaluatePositives tree lines cs (some ms) r.2

theorem settles_evaluateGuards (tree : Tree) (lines : LineIndex) : ∀ (cs : List Clause)
    (candidates : List Match) (memo : Memo), Settles (evaluateGuards tree lines cs candidates memo)
  | [], candidates, memo => by
    rw [evaluateGuards]
    exact settles_pure _
  | c :: cs, candidates, memo => by
    rw [evaluateGuards]
    split
    · exact settles_pure _
    refine (settles_guardMatches tree lines c memo).bind fun r => ?_
    rcases r with ⟨_ | ⟨kind, others⟩, memo'⟩
    · exact settles_evaluateGuards tree lines cs candidates memo'
    · exact (settles_guardPass _ _ _).bind fun kept => settles_evaluateGuards tree lines cs kept memo'

theorem settles_guardMatches (tree : Tree) (lines : LineIndex) : ∀ (c : Clause) (memo : Memo),
    Settles (guardMatches tree lines c memo)
  | .guard kind c, memo => by
    rw [guardMatches]
    exact (settles_evaluate tree lines c memo).bind fun r => settles_pure _
  | .shared key c, memo => by
    rw [guardMatches]
    split
    · exact settles_pure _
    · exact (settles_guardMatches tree lines c memo).bind fun r => settles_pure _
  | .structural _ _ _, memo | .textual _ _ _, memo | .any _, memo | .all _, memo | .other _, memo => by
    rw [guardMatches.eq_def]
    exact settles_pure _

end

private theorem evaluateAll_eq (tree : Tree) (clauses : List Clause) {t t' : Tracker}
    (h : t.checkpoint = (none, t')) :
    evaluateAll tree clauses t =
      (evaluateEach tree (LineIndex.ofText tree.source) clauses [] >>= fun r => pure (Match.union r.1)) t' := by
  rw [evaluateAll, checkpoint_bind, h]

private theorem start_checkpoint (m : Int) {world : Surroundings} (hstop : ∀ i, world.stop i = false) :
    ∃ t, (Tracker.start { maxSteps := m } world).checkpoint = (none, t) ∧ t.Unhindered ∧ t.steps = 0 ∧
      t.budget.maxSteps = m := by
  have hstart : (Tracker.start { maxSteps := m } world).Unhindered := ⟨rfl, rfl, hstop⟩
  obtain ⟨t, hc, hu, hsteps, hbudget⟩ := hstart.checkpoint
  exact ⟨t, hc, hu, hsteps, by rw [hbudget]; rfl⟩

/-- Without time limits and requests to stop, an evaluation has a number `s` of steps and an outcome of
its own: at least `s` steps give this outcome after exactly `s`, and fewer end at the first step too many. -/
theorem evaluateAll_step_budget (tree : Tree) (clauses : List Clause) :
    ∃ (s : Nat) (o : Except EvalError (List Match)), (∀ h, o ≠ .error (.halted h)) ∧
      ∀ world : Surroundings, (∀ i, world.stop i = false) →
        (∀ m : Int, s ≤ m → ∃ t', evaluateAll tree clauses (.start { maxSteps := m } world) = ended o t' ∧
          t'.steps = s) ∧
        ∀ m : Nat, m < s → ∃ elapsed t',
          evaluateAll tree clauses (.start { maxSteps := m } world) =
            .error (.halted (.stepLimit m (m + 1) elapsed)) t' ∧ t'.steps = m + 1 := by
  have hsettles := (settles_evaluateEach tree (LineIndex.ofText tree.source) clauses []).bind
    fun r => settles_pure (Match.union r.1)
  obtain ⟨o, ⟨s, hs⟩, ho⟩ := hsettles
  refine ⟨s, o, ho, fun world hstop => ?_⟩
  refine ⟨fun m hm => ?_, fun m hm => ?_⟩
  · obtain ⟨t₁, hc, hu, hsteps, hmax⟩ := start_checkpoint m hstop
    obtain ⟨t₂, hr, hsteps₂⟩ := stepMany_within hu s (by omega)
    refine ⟨t₂, ?_, by omega⟩
    rw [evaluateAll_eq tree clauses hc, hs]
    exact after_of_ok o hr
  · obtain ⟨t₁, hc, hu, hsteps, hmax⟩ := start_checkpoint m hstop
    obtain ⟨elapsed, t₂, hr, hsteps₂⟩ := stepMany_beyond hu s m hmax (by omega) (by omega)
    refine ⟨elapsed, t₂, ?_, hsteps₂⟩
    rw [evaluateAll_eq tree clauses hc, hs]
    exact after_of_error o hr

end Clause

end RuleScan
