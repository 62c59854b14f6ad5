import RuleScan.Proofs.Evaluation.StepBudget

/-! Evaluations and their surroundings. The clock and requests to stop can halt an evaluation and do nothing
else to it: one that is not halted by them comes to the same as in surroundings that never halt it. -/
namespace RuleScan

open Counted

/-- The halt comes from the surroundings and not from the steps taken. -/
def Halt.Outer : Halt → Prop
  | .stepLimit .. => False
  | .timeLimit .. | .cancelled _ => True

namespace Tracker

theorem checkpoint_cases (t : Tracker) :
    (∃ t', t.checkpoint = (none, t') ∧ t'.steps = t.steps ∧ t'.budget = t.budget) ∨
      ¬t.Unhindered ∧ ∃ h t', t.checkpoint = (some h, t') ∧ h.Outer := by
  by_cases hu : t.Unhindered
  · obtain ⟨t', hc, -, hsteps, hbudget⟩ := hu.checkpoint
    exact .inl ⟨t', hc, hsteps, hbudget⟩
  unfold checkpoint Surroundings.look Surroundings.readClock
  dsimp only
  split
  · exact .inr ⟨hu, _, _, rfl, trivial⟩
  split
  · exact .inr ⟨hu, _, _, rfl, trivial⟩
  split
  · exact .inr ⟨hu, _, _, rfl, trivial⟩
  · exact .inl ⟨_, rfl, rfl, rfl⟩

/-- A step is taken, or is one too many, or is halted by the surroundings. -/
theorem step_cases (t : Tracker) :
    ((t.steps : Int) < t.budget.maxSteps ∧ ∃ t', t.step = (none, t') ∧ (t.Unhindered → t'.Unhindered) ∧
        t'.steps = t.steps + 1 ∧ t'.budget = t.budget) ∨
      (t.budget.maxSteps ≤ (t.steps : Int) ∧ ∃ elapsed t',
        t.step = (some (.stepLimit t.budget.maxSteps (t.steps + 1) elapsed), t')) ∨
      ¬t.Unhindered ∧ ∃ h t', t.step = (some h, t') ∧ h.Outer := by
  by_cases hle : t.budget.maxSteps ≤ (t.steps : Int)
  · obtain ⟨elapsed, t', hs, -⟩ := step_of_le hle
    exact .inr (.inl ⟨hle, elapsed, t', hs⟩)
  have hlt := Int.not_le.mp hle
  by_cases hu : t.Unhindered
  · obtain ⟨t', hs, hu', hsteps, hbudget⟩ := hu.step_of_lt hlt
    exact .inl ⟨hlt, t', hs, fun _ => hu', hsteps, hbudget⟩
  have hmax : ¬t.budget.maxSteps < ((t.steps + 1 : Nat) : Int) := by omega
  unfold step
  simp only [hmax, if_false]
  split
  · rcases checkpoint_cases { t with steps := t.steps + 1 } with ⟨t', hc, hsteps, hbudget⟩ | ⟨-, h, t', hc, ho⟩
    · exact .inl ⟨hlt, t', hc, fun h => absurd h hu, hsteps, hbudget⟩
    · exact .inr (.inr ⟨hu, h, t', hc, ho⟩)
  · exact .inl ⟨hlt, _, rfl, fun h => absurd h hu, rfl, rfl⟩

end Tracker

namespace Counted

/-- The budget of a tracker allows `n` more steps. -/
def Allows (t : Tracker) (n : Nat) : Prop := n = 0 ∨ (t.steps + n : Int) ≤ t.budget.maxSteps

/-- Steps are all taken, or are more than the budget allows, or are halted by the surroundings. -/
theorem stepMany_trichotomy (n : Nat) (t : Tracker) :
    (Allows t n ∧ ∃ t', stepMany n t = .ok () t') ∨
      (¬Allows t n ∧ ∃ steps elapsed t',
        stepMany n t = .error (.halted (.stepLimit t.budget.maxSteps steps elapsed)) t') ∨
      ¬t.Unhindered ∧ ∃ h t', stepMany n t = .error (.halted h) t' ∧ h.Outer := by
  induction n generalizing t with
  | zero => exact .inl ⟨.inl rfl, t, rfl⟩
  | succ n ih =>
    simp only [stepMany_succ]
    rcases t.step_cases with ⟨hlt, t', hs, hu, hsteps, hbudget⟩ | ⟨hle, elapsed, t', hs⟩ | ⟨hu, h, t', hs, ho⟩
    · have hallows : Allows t' n ↔ Allows t (n + 1) := by
        simp only [Allows, hsteps, hbudget]
        omega
      have hrest := ih t'
      rw [hallows, hbudget] at hrest
      rw [hs]
      exact hrest.imp_right (.imp_right fun ⟨hu', hh⟩ => ⟨fun h => hu' (hu h), hh⟩)
    · have hallows : ¬Allows t (n + 1) := by
        simp only [Allows]
        omega
      rw [hs]
      exact .inr (.inl ⟨hallows, _, elapsed, t', rfl⟩)
    · rw [hs]
      exact .inr (.inr ⟨hu, h, t', rfl, ho⟩)

end Counted

namespace Clause

/-- What an evaluation comes to when nothing but its steps can halt it. -/
def outcome (tree : Tree) (clauses : List Clause) (maxSteps : Int) : Except EvalError (List Match) :=
  match evaluateAll tree clauses (.start { maxSteps } (.still 0)) with
  | .ok found _ => .ok found
  | .error e _ => .error e

/-- Each evaluation has its own number of steps, which come after one look at the surroundings, and its
own outcome. -/
theorem exists_evaluateAll_eq (tree : Tree) (clauses : List Clause) :
    ∃ (n : Nat) (o : Except EvalError (List Match)), NoHalt o ∧
      evaluateAll tree clauses = checkpoint >>= fun _ => after n o := by
  have hsettles := (settles_evaluateEach tree (LineIndex.ofText tree.source) clauses []).bind
    fun r => settles_pure (Match.union r.1)
  obtain ⟨o, ⟨n, hn⟩, ho⟩ := hsettles
  refine ⟨n, o, ho, ?_⟩
  rw [evaluateAll, ← hn]

/-- Under any budget of time and in any surroundings an evaluation comes to its outcome, or is halted by
its step limit as it always is, or is halted by the surroundings. -/
theorem evaluateAll_trichotomy (tree : Tree) (clauses : List Clause) {t : Tracker} (ht : t.steps = 0) :
    (∃ o t', NoHalt o ∧ outcome tree clauses t.budget.maxSteps = o ∧ evaluateAll tree clauses t = ended o t') ∨
      (∃ steps elapsed steps' elapsed' t',
        outcome tree clauses t.budget.maxSteps =
          .error (.halted (.stepLimit t.budget.maxSteps steps elapsed)) ∧
        evaluateAll tree clauses t = .error (.halted (.stepLimit t.budget.maxSteps steps' elapsed')) t') ∨
      ∃ h t', evaluateAll tree clauses t = .error (.halted h) t' ∧ h.Outer := by
  obtain ⟨n, o, ho, heq⟩ := exists_evaluateAll_eq tree clauses
  -- in surroundings that never halt, only the step limit decides
  have hcalm : (Tracker.start { maxSteps := t.budget.maxSteps } (.still 0)).Unhindered := ⟨rfl, rfl, fun _ => rfl⟩
  obtain ⟨s, hcheck, hs, hsteps, hbudget⟩ := hcalm.checkpoint
  have houtcome : outcome tree clauses t.budget.maxSteps = match after n o s with
      | .ok found _ => .ok found
      | .error e _ => .error e := by
    rw [outcome, heq, checkpoint_bind, hcheck]
  rw [heq, checkpoint_bind]
  rcases t.checkpoint_cases with ⟨t₁, hc, hsteps₁, hbudget₁⟩ | ⟨-, h, t₁, hc, ho⟩
  · have hallows : Allows s n ↔ Allows t₁ n := by
      simp only [Allows, hsteps₁, hbudget₁, hsteps, hbudget, ht]
      rfl
    rw [hc]
    rcases stepMany_trichotomy n t₁ with ⟨hn, t₂, hr⟩ | ⟨hn, steps', elapsed', t₂, hr⟩ | ⟨-, h, t₂, hr, houter⟩
    · rcases stepMany_trichotomy n s with ⟨-, s₂, hr'⟩ | ⟨hn', -⟩ | ⟨hu, -⟩
      · refine .inl ⟨o, t₂, ho, ?_, after_of_ok o hr⟩
        rw [houtcome, after_of_ok o hr']
        cases o <;> rfl
      · exact absurd (hallows.mpr hn) hn'
      · exact absurd hs hu
    · rcases stepMany_trichotomy n s with ⟨hn', -⟩ | ⟨-, steps, elapsed, s₂, hr'⟩ | ⟨hu, -⟩
      · exact absurd (hallows.mp hn') hn
      · rw [hbudget₁] at hr
        rw [hbudget] at hr'
        refine .inr (.inl ⟨steps, elapsed, steps', elapsed', t₂, ?_, after_of_error o hr⟩)
        rw [houtcome, after_of_error o hr']
        rfl
      · exact absurd hs hu
    · exact .inr (.inr ⟨h, t₂, after_of_error o hr, houter⟩)
  · rw [hc]
    exact .inr (.inr ⟨h, t₁, rfl, ho⟩)

end Clause

/-! An evaluation depends only on what it is going to see. -/

namespace Surroundings

/-- From here on both see the same. -/
structure SameAhead (w w' : Surroundings) : Prop where
  time : ∀ i, w.time (w.readings + i) = w'.time (w'.readings + i)
  stop : ∀ i, w.stop (w.looks + i) = w'.stop (w'.looks + i)

variable {w w' : Surroundings}

theorem SameAhead.readClock_fst (h : w.SameAhead w') : w.readClock.1 = w'.readClock.1 := h.time 0

theorem SameAhead.readClock_snd (h : w.SameAhead w') : w.readClock.2.SameAhead w'.readClock.2 where
  time i := by
    have := h.time (1 + i)
    simpa only [Surroundings.readClock, Nat.add_assoc] using this
  stop := h.stop

theorem SameAhead.look_fst (h : w.SameAhead w') : w.look.1 = w'.look.1 := h.stop 0

theorem SameAhead.look_snd (h : w.SameAhead w') : w.look.2.SameAhead w'.look.2 where
  time := h.time
  stop i := by
    have := h.stop (1 + i)
    simpa only [Surroundings.look, Nat.add_assoc] using this

theorem SameAhead.setStop (h : w.SameAhead w') (value : Bool) : (w.setStop value).SameAhead (w'.setStop value) :=
  ⟨h.time, fun _ => rfl⟩

end Surroundings

namespace Tracker

/-- Both have counted the same and are going to see the same. -/
structure SameAhead (t t' : Tracker) : Prop where
  budget : t.budget = t'.budget
  startedAt : t.startedAt = t'.startedAt
  steps : t.steps = t'.steps
  world : t.world.SameAhead t'.world

variable {t t' : Tracker}

theorem SameAhead.checkpoint (h : t.SameAhead t') :
    t.checkpoint.1 = t'.checkpoint.1 ∧ t.checkpoint.2.SameAhead t'.checkpoint.2 := by
  have hlook := h.world.look_fst
  have hworld := h.world.look_snd
  have hnow := hworld.readClock_fst
  have hafter := hworld.readClock_snd
  unfold Tracker.checkpoint
  simp only [← h.budget, ← h.startedAt, ← h.steps, ← hlook, ← hnow]
  split
  · exact ⟨rfl, rfl, rfl, rfl, hworld⟩
  split
  · exact ⟨rfl, rfl, rfl, rfl, hafter⟩
  split
  · exact ⟨rfl, rfl, rfl, rfl, hafter⟩
  · exact ⟨rfl, rfl, rfl, rfl, hafter⟩

theorem SameAhead.step (h : t.SameAhead t') : t.step.1 = t'.step.1 ∧ t.step.2.SameAhead t'.step.2 := by
  have hnow := h.world.readClock_fst
  have hafter := h.world.readClock_snd
  have hnext : SameAhead { t with steps := t.steps + 1 } { t' with steps := t'.steps + 1 } :=
    ⟨h.budget, h.startedAt, congrArg (· + 1) h.steps, h.world⟩
  have hchecked := hnext.checkpoint
  unfold Tracker.step Tracker.elapsed
  simp only [← h.budget, ← h.startedAt, ← h.steps, ← hnow] at hchecked hnext ⊢
  split
  · exact ⟨rfl, rfl, rfl, rfl, hafter⟩
  split
  · exact hchecked
  · exact ⟨rfl, hnext⟩

theorem SameAhead.start {w w' : Surroundings} (h : w.SameAhead w') (budget : Budget) :
    (Tracker.start budget w).SameAhead (Tracker.start budget w') :=
  ⟨rfl, h.readClock_fst, rfl, h.readClock_snd⟩

end Tracker

namespace Counted

variable {α : Type}

/-- Two runs that end alike, in trackers that are going to see the same. -/
def SameEnd : EStateM.Result EvalError Tracker α → EStateM.Result EvalError Tracker α → Prop
  | .ok a t, .ok a' t' => a = a' ∧ t.SameAhead t'
  | .error e t, .error e' t' => e = e' ∧ t.SameAhead t'
  | _, _ => False

theorem sameEnd_ended (o : Except EvalError α) {t t' : Tracker} (h : t.SameAhead t') :
    SameEnd (ended o t) (ended o t') := by
  cases o <;> exact ⟨rfl, h⟩

theorem sameEnd_stepMany (n : Nat) {t t' : Tracker} (h : t.SameAhead t') :
    SameEnd (stepMany n t) (stepMany n t') := by
  induction n generalizing t t' with
  | zero => exact ⟨rfl, h⟩
  | succ n ih =>
    obtain ⟨hhalt, hnext⟩ := h.step
    rw [stepMany_succ, stepMany_succ]
    revert hhalt hnext
    rcases t.step with ⟨halt, t₁⟩
    rcases t'.step with ⟨halt', t₁'⟩
    rintro rfl hnext
    cases halt with
    | none => exact ih hnext
    | some halt => exact ⟨rfl, hnext⟩

end Counted

theorem Clause.sameEnd_evaluateAll (tree : Tree) (clauses : List Clause) {t t' : Tracker} (h : t.SameAhead t') :
    SameEnd (evaluateAll tree clauses t) (evaluateAll tree clauses t') := by
  obtain ⟨n, o, -, heq⟩ := exists_evaluateAll_eq tree clauses
  obtain ⟨hhalt, hnext⟩ := h.checkpoint
  rw [heq, checkpoint_bind, checkpoint_bind]
  revert hhalt hnext
  rcases t.checkpoint with ⟨halt, t₁⟩
  rcases t'.checkpoint with ⟨halt', t₁'⟩
  rintro rfl hnext
  cases halt with
  | some halt => exact ⟨rfl, hnext⟩
  | none =>
    have hsteps := sameEnd_stepMany n hnext
    dsimp only
    cases hr : stepMany n t₁ with
    | ok _ t₂ =>
      cases hr' : stepMany n t₁' with
      | ok _ t₂' =>
        rw [hr, hr'] at hsteps
        rw [after_of_ok o hr, after_of_ok o hr']
        exact sameEnd_ended o hsteps.2
      | error e t₂' =>
        rw [hr, hr'] at hsteps
        exact hsteps.elim
    | error e t₂ =>
      cases hr' : stepMany n t₁' with
      | ok _ t₂' =>
        rw [hr, hr'] at hsteps
        exact hsteps.elim
      | error e' t₂' =>
        rw [hr, hr'] at hsteps
        rw [after_of_error o hr, after_of_error o hr']
        exact hsteps

/-! In surroundings that stay as they are, limits that are not reached at the start are never reached. -/

namespace Surroundings

variable {w : Surroundings} {now : Int}

theorem SameAhead.readClock_still (h : w.SameAhead (.still now)) : w.readClock.2.SameAhead (.still now) :=
  ⟨h.readClock_snd.time, h.stop⟩

theorem SameAhead.look_still (h : w.SameAhead (.still now)) : w.look.2.SameAhead (.still now) :=
  ⟨h.time, h.look_snd.stop⟩

end Surroundings

namespace Tracker

/-- The surroundings stay as they are, and no time limit lies behind. -/
structure Calm (t : Tracker) (now : Int) : Prop where
  world : t.world.SameAhead (.still now)
  deadline : ∀ d ∈ t.budget.deadline, now ≤ d
  runDeadline : ∀ d ∈ t.budget.runDeadline, now ≤ d

variable {t : Tracker} {now : Int}

theorem Calm.checkpoint (h : t.Calm now) : ∃ t', t.checkpoint = (none, t') ∧ t'.Calm now := by
  have hstop : t.world.look.1 = false := h.world.look_fst
  have hnow : t.world.look.2.readClock.1 = now := h.world.look_still.readClock_fst
  have hlimit : ∀ limit : Option Int, (∀ d ∈ limit, now ≤ d) → limit.any (· < now) = false := by
    rintro (_ | d) hd
    · rfl
    · exact decide_eq_false (Int.not_lt.mpr (hd d rfl))
  unfold Tracker.checkpoint
  simp only [hstop, hnow, hlimit _ h.deadline, hlimit _ h.runDeadline, Bool.false_eq_true, if_false]
  exact ⟨_, rfl, h.world.look_still.readClock_still, h.deadline, h.runDeadline⟩

theorem Calm.step (h : t.Calm now) : t.step.2.Calm now ∧ ∀ halt, t.step.1 = some halt → ¬halt.Outer := by
  unfold Tracker.step Tracker.elapsed
  dsimp only
  split
  · refine ⟨⟨h.world.readClock_still, h.deadline, h.runDeadline⟩, ?_⟩
    rintro _ ⟨⟩
    exact id
  split
  · have hnext : Calm { t with steps := t.steps + 1 } now := ⟨h.world, h.deadline, h.runDeadline⟩
    obtain ⟨t', hcheck, hcalm⟩ := hnext.checkpoint
    rw [hcheck]
    exact ⟨hcalm, nofun⟩
  · exact ⟨⟨h.world, h.deadline, h.runDeadline⟩, nofun⟩

end Tracker

namespace Counted

variable {α : Type} {t : Tracker} {now : Int}

/-- The tracker as a run leaves it. -/
def trackerLeft : EStateM.Result EvalError Tracker α → Tracker
  | .ok _ t | .error _ t => t

/-- The surroundings stay calm and have not halted the run. -/
structure Undisturbed (now : Int) (r : EStateM.Result EvalError Tracker α) : Prop where
  calm : (trackerLeft r).Calm now
  inner : ∀ halt t, r = .error (.halted halt) t → ¬halt.Outer

theorem undisturbed_stepMany (h : t.Calm now) (n : Nat) : Undisturbed now (stepMany n t) := by
  induction n generalizing t with
  | zero => exact ⟨h, nofun⟩
  | succ n ih =>
    obtain ⟨hcalm, hhalt⟩ := h.step
    rw [stepMany_succ]
    revert hcalm hhalt
    rcases t.step with ⟨_ | halt, t'⟩
    · exact fun hcalm _ => ih hcalm
    · intro hcalm hhalt
      refine ⟨hcalm, ?_⟩
      rintro _ _ ⟨⟩
      exact hhalt halt rfl

end Counted

theorem Clause.undisturbed_evaluateAll (tree : Tree) (clauses : List Clause) {t : Tracker} {now : Int}
    (h : t.Calm now) : Undisturbed now (evaluateAll tree clauses t) := by
  obtain ⟨n, o, ho, heq⟩ := exists_evaluateAll_eq tree clauses
  obtain ⟨t₁, hcheck, hcalm⟩ := h.checkpoint
  rw [heq, checkpoint_bind, hcheck]
  have hsteps := undisturbed_stepMany hcalm n
  dsimp only
  cases hr : stepMany n t₁ with
  | ok _ t₂ =>
    rw [hr] at hsteps
    rw [after_of_ok o hr]
    cases o with
    | ok found => exact ⟨hsteps.calm, nofun⟩
    | error e =>
      refine ⟨hsteps.calm, ?_⟩
      rintro halt _ ⟨⟩
      exact absurd rfl (ho halt)
  | error e t₂ =>
    rw [hr] at hsteps
    rw [after_of_error o hr]
    refine ⟨hsteps.calm, ?_⟩
    rintro halt _ ⟨⟩
    exact hsteps.inner halt t₂ rfl

end RuleScan
