import RuleScan.Proofs.Analysis.Units

/-! Why the analysis of a file stops. Wherever it looks, a reason to stop is one that its surroundings have
shown: a look found a stop asked for, or the clock was read after the end of the run's time. -/
namespace RuleScan

open Counted

/-- The surroundings have shown this reason to cancel, for a run that has until then. -/
def Surroundings.Shows (w : Surroundings) (deadline : Option Int) : CancelReason → Prop
  | .aborted => ∃ i < w.looks, w.stop i = true
  | .budgetExceeded => ∃ d ∈ deadline, ∃ i < w.readings, d < w.time i

namespace Surroundings

theorem shows_look {w : Surroundings} (deadline : Option Int) (h : w.look.1 = true) :
    w.look.2.Shows deadline .aborted :=
  ⟨w.looks, Nat.lt_succ_self _, h⟩

theorem shows_readClock {w : Surroundings} {deadline : Option Int} {d : Int} (hd : d ∈ deadline)
    (h : d < w.readClock.1) : w.readClock.2.Shows deadline .budgetExceeded :=
  ⟨d, hd, w.readings, Nat.lt_succ_self _, h⟩

end Surroundings

/-- The surroundings of an evaluation have shown this reason. -/
def Tracker.Shows (t : Tracker) (reason : CancelReason) : Prop := t.world.Shows t.budget.runDeadline reason

namespace Tracker

theorem budget_checkpoint (t : Tracker) : t.checkpoint.2.budget = t.budget := by
  unfold checkpoint
  dsimp only
  repeat' split
  all_goals rfl

theorem budget_step (t : Tracker) : t.step.2.budget = t.budget := by
  unfold step elapsed
  dsimp only
  split
  · rfl
  split
  · exact budget_checkpoint _
  · rfl

theorem shows_checkpoint {t : Tracker} {reason : CancelReason} (h : t.checkpoint.1 = some (.cancelled reason)) :
    t.checkpoint.2.Shows reason := by
  unfold checkpoint at h ⊢
  dsimp only at h ⊢
  split at h
  · next hstop =>
    cases h
    rw [if_pos hstop]
    exact Surroundings.shows_look _ hstop
  next hstop =>
  rw [if_neg hstop]
  split at h
  · next hlate =>
    cases h
    rw [if_pos hlate]
    obtain ⟨d, hd, hlt⟩ := (Option.any_eq_true _ _).mp hlate
    exact Surroundings.shows_readClock hd (by simpa using hlt)
  next hlate =>
  split at h
  · cases h
  · cases h

theorem shows_step {t : Tracker} {reason : CancelReason} (h : t.step.1 = some (.cancelled reason)) :
    t.step.2.Shows reason := by
  unfold step elapsed at h ⊢
  dsimp only at h ⊢
  split at h
  · cases h
  next hmax =>
  rw [if_neg hmax]
  split at h
  · next hlook =>
    rw [if_pos hlook]
    exact shows_checkpoint h
  · cases h

end Tracker

theorem Counted.shows_stepMany {n : Nat} {t t' : Tracker} {reason : CancelReason}
    (h : stepMany n t = .error (.halted (.cancelled reason)) t') :
    t'.world.Shows t.budget.runDeadline reason := by
  induction n generalizing t with
  | zero => cases h
  | succ n ih =>
    have hbudget := t.budget_step
    have hshows : t.step.1 = some (.cancelled reason) → t.step.2.Shows reason := Tracker.shows_step
    rw [stepMany_succ] at h
    revert h hbudget hshows
    rcases t.step with ⟨_ | halt, t₁⟩
    · intro h hbudget _
      rw [← hbudget]
      exact ih h
    · intro h hbudget hshows
      cases h
      rw [← hbudget]
      exact hshows rfl

/-- An evaluation is cancelled for a reason that it was shown. -/
theorem Clause.shows_evaluateAll {tree : Tree} {clauses : List Clause} {t t' : Tracker} {reason : CancelReason}
    (h : evaluateAll tree clauses t = .error (.halted (.cancelled reason)) t') :
    t'.world.Shows t.budget.runDeadline reason := by
  obtain ⟨n, o, ho, heq⟩ := exists_evaluateAll_eq tree clauses
  have hbudget := t.budget_checkpoint
  have hshows : t.checkpoint.1 = some (.cancelled reason) → t.checkpoint.2.Shows reason := Tracker.shows_checkpoint
  rw [heq, checkpoint_bind] at h
  revert h hbudget hshows
  rcases t.checkpoint with ⟨_ | halt, t₁⟩
  · intro h hbudget _
    rw [← hbudget]
    dsimp only at h
    cases hr : stepMany n t₁ with
    | ok _ t₂ =>
      rw [after_of_ok o hr] at h
      cases o with
      | ok found => cases h
      | error e =>
        cases h
        exact absurd rfl (ho _)
    | error e t₂ =>
      rw [after_of_error o hr] at h
      cases h
      exact shows_stepMany hr
  · intro h hbudget hshows
    cases h
    rw [← hbudget]
    exact hshows rfl

namespace FileUnit

variable {settings : UnitSettings}

theorem shows_cancellation {w w' : Surroundings} {reason : CancelReason}
    (h : cancellation settings w = (some reason, w')) : w'.Shows settings.runDeadline reason := by
  unfold cancellation at h
  dsimp only at h
  split at h
  · next hstop =>
    cases h
    exact Surroundings.shows_look _ hstop
  split at h
  · cases h
  next d hd =>
  obtain ⟨hreason, rfl⟩ := Prod.mk.inj h
  split at hreason
  · next hlate =>
    cases hreason
    exact Surroundings.shows_readClock hd hlate
  · cases hreason

theorem shows_evaluateRule {path : String} {tree : Tree} {rule : Rule} {c c' : Collector} {w w' : Surroundings}
    {reason : CancelReason} (h : evaluateRule path tree rule settings c w = (.error reason, c', w')) :
    w'.Shows settings.runDeadline reason := by
  rw [evaluateRule_eq] at h
  unfold wrapUp at h
  split at h
  · next hrun =>
    cases h
    exact Clause.shows_evaluateAll hrun
  · cases h
  · split at h
    · cases h
    · cases h

theorem shows_evaluateRules {path : String} {tree : Tree} {language : Language} {interference : Interference}
    {rules : List Rule} {index : Nat} {c : Collector} {w : Surroundings} {reason : CancelReason}
    (h : (evaluateRules path tree language settings interference rules index c w).cancellation = some reason) :
    (evaluateRules path tree language settings interference rules index c w).world.Shows settings.runDeadline
      reason := by
  induction rules generalizing index c w with
  | nil => cases h
  | cons rule rules ih =>
    rw [evaluateRules] at h ⊢
    split at h
    · next hother =>
      rw [if_pos hother]
      exact ih h
    next hfor =>
    rw [if_neg hfor]
    rcases hcheck : cancellation settings w with ⟨_ | reason', w₁⟩
    · rw [hcheck] at h
      dsimp only at h ⊢
      rcases hrule : evaluateRule path tree rule settings c
        (if interference.onRule rule.id then w₁.setStop true else w₁) with ⟨reason' | e, c', w₂⟩
      · rw [hrule] at h
        cases h
        exact shows_evaluateRule hrule
      · rw [hrule] at h
        exact ih h
    · rw [hcheck] at h
      cases h
      exact shows_cancellation hcheck

/-- A file reports a reason to stop only if its surroundings have shown it. -/
theorem shows_run {input : SourceInput} {rules : List Rule} {tools : UnitTools} {w : Surroundings}
    {reason : CancelReason} (h : (run input rules settings tools w).1.cancellation = some reason) :
    (run input rules settings tools w).2.2.Shows settings.runDeadline reason := by
  unfold run at h ⊢
  rcases hcheck : cancellation settings w with ⟨_ | reason', w'⟩
  · rw [hcheck] at h
    dsimp only at h ⊢
    revert h
    split
    · exact nofun
    split
    · exact nofun
    split
    · exact nofun
    split
    · exact nofun
    · exact shows_evaluateRules
  · rw [hcheck] at h
    cases h
    exact shows_cancellation hcheck

end FileUnit

end RuleScan
