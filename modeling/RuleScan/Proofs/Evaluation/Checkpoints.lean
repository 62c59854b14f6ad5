import Mathlib.Data.List.Count
import RuleScan.Evaluation.Budget

/-! The steps of one evaluation under any interleaving of its calls with changes of what they look at. A step halts
when the count passes the limit, or when it is one of those at which the surroundings are looked at and these ask for
an end. Main statement: it halts exactly then, each time for the first reason that applies, and where the surroundings
keep asking for an end, one of the next 256 steps halts. -/
namespace RuleScan

/-- What can happen while steps are counted: a call to the tracker, or a change of what it looks at. -/
inductive TrackerEvent where
  | step
  | checkpoint
  | elapsed
  | clock (now : Int)
  | abort
  | flag (value : Int)
  deriving DecidableEq

def TrackerEvent.isCall : TrackerEvent → Bool
  | .step | .checkpoint | .elapsed => true
  | .clock _ | .abort | .flag _ => false

/-- A tracker and what it looks at: a clock, and those who may ask for a stop. A signal, once given, stays; a shared
word asks for a stop while it is not zero. Either of the two may be missing. -/
structure Watch where
  tracker : Tracker
  now : Int
  signal : Option Bool
  flag : Option Int

namespace Watch

/-- Whether the signal or the shared word asks for a stop. -/
def asked (w : Watch) : Bool := w.signal.getD false || w.flag.any (· ≠ 0)

def runOver (w : Watch) : Bool := w.tracker.budget.runDeadline.any (· < w.now)

/-- The time of the evaluation is over. -/
def late (w : Watch) : Bool := w.tracker.budget.deadline.any (· < w.now)

/-- The surroundings ask for an end, one way or another. -/
def Wanted (w : Watch) : Prop := w.asked = true ∨ w.runOver = true ∨ w.late = true

instance (w : Watch) : Decidable w.Wanted := inferInstanceAs (Decidable (_ ∨ _ ∨ _))

/-- The tracker as its next call finds it. A call looks at the clock once at most, and once at most whether a stop is
asked for. -/
def facing (w : Watch) : Tracker :=
  { w.tracker with world := (w.tracker.world.setClock w.now).setStop w.asked }

/-- A tracker at its start. -/
def start (budget : Budget) (now : Int) (signal : Option Bool) (flag : Option Int) : Watch :=
  { tracker := Tracker.start budget (.still now), now, signal, flag }

/-- What a step raises, if anything. -/
def raised (w : Watch) : Option Halt := w.facing.step.1

/-- The tracker and its surroundings after an event. A call that raises leaves its count behind. -/
def after (w : Watch) : TrackerEvent → Watch
  | .step => { w with tracker := w.facing.step.2 }
  | .checkpoint => { w with tracker := w.facing.checkpoint.2 }
  | .elapsed => { w with tracker := w.facing.elapsed.2 }
  | .clock now => { w with now }
  | .abort => { w with signal := w.signal.map fun _ => true }
  | .flag value => { w with flag := w.flag.map fun _ => value }

def afterAll (w : Watch) (events : List TrackerEvent) : Watch := events.foldl after w

variable {w : Watch} {events later : List TrackerEvent}

theorem afterAll_append (w : Watch) (events later : List TrackerEvent) :
    w.afterAll (events ++ later) = (w.afterAll events).afterAll later := List.foldl_append

/-- The parts of a tracker that no look at the surroundings changes. -/
private def kept (t : Tracker) : Budget × Int × Nat := (t.budget, t.startedAt, t.steps)

private theorem kept_elapsed (t : Tracker) : kept t.elapsed.2 = kept t := rfl

private theorem kept_checkpoint (t : Tracker) : kept t.checkpoint.2 = kept t := by
  unfold Tracker.checkpoint
  dsimp only
  split_ifs <;> rfl

private theorem kept_step (t : Tracker) : kept t.step.2 = (t.budget, t.startedAt, t.steps + 1) := by
  unfold Tracker.step
  dsimp only
  split_ifs
  · rfl
  · exact kept_checkpoint _
  · rfl

/-- An event counts if it is a step, and changes neither the budget nor the time of the start. -/
private theorem kept_after (w : Watch) (e : TrackerEvent) :
    kept (w.after e).tracker =
      (w.tracker.budget, w.tracker.startedAt, w.tracker.steps + if e = .step then 1 else 0) := by
  cases e with
  | step => exact kept_step _
  | checkpoint => exact kept_checkpoint _
  | elapsed => exact kept_elapsed _
  | clock now => rfl
  | abort => rfl
  | flag value => rfl

theorem budget_after (w : Watch) (e : TrackerEvent) : (w.after e).tracker.budget = w.tracker.budget :=
  congrArg Prod.fst (kept_after w e)

theorem startedAt_after (w : Watch) (e : TrackerEvent) : (w.after e).tracker.startedAt = w.tracker.startedAt :=
  congrArg (·.2.1) (kept_after w e)

theorem steps_after (w : Watch) (e : TrackerEvent) :
    (w.after e).tracker.steps = w.tracker.steps + if e = .step then 1 else 0 :=
  congrArg (·.2.2) (kept_after w e)

theorem budget_afterAll (w : Watch) (events : List TrackerEvent) :
    (w.afterAll events).tracker.budget = w.tracker.budget := by
  induction events generalizing w with
  | nil => rfl
  | cons e later ih =>
    have hrest := ih (w.after e)
    rw [budget_after] at hrest
    exact hrest

theorem startedAt_afterAll (w : Watch) (events : List TrackerEvent) :
    (w.afterAll events).tracker.startedAt = w.tracker.startedAt := by
  induction events generalizing w with
  | nil => rfl
  | cons e later ih =>
    have hrest := ih (w.after e)
    rw [startedAt_after] at hrest
    exact hrest

/-- The count is the number of steps taken, those that raised among them. -/
theorem steps_afterAll (w : Watch) (events : List TrackerEvent) :
    (w.afterAll events).tracker.steps = w.tracker.steps + events.count .step := by
  induction events generalizing w with
  | nil => rfl
  | cons e later ih =>
    have hrest := ih (w.after e)
    rw [steps_after] at hrest
    rw [List.count_cons]
    simp only [beq_iff_eq]
    have hsame : w.afterAll (e :: later) = (w.after e).afterAll later := rfl
    rw [hsame]
    omega

/-- A call changes nothing of what the next one looks at. -/
theorem wanted_afterAll_of_calls (hcalls : ∀ e ∈ events, e.isCall = true) (hw : w.Wanted) :
    (w.afterAll events).Wanted := by
  induction events generalizing w with
  | nil => exact hw
  | cons e later ih =>
    obtain ⟨he, hlater⟩ := List.forall_mem_cons.mp hcalls
    have hbudget := budget_after w e
    have hnext : (w.after e).Wanted := by
      cases e with
      | step | checkpoint | elapsed =>
        unfold Wanted runOver late
        rw [hbudget]
        exact hw
      | clock now => cases he
      | abort => cases he
      | flag value => cases he
    exact ih hlater hnext

/-- A look at the surroundings halts if they ask for an end: a stop that is asked for comes first, then the end of the
run's time, then that of the evaluation's. -/
private theorem checkpoint_facing (w : Watch) (n : Nat) :
    ({ w.facing with steps := n } : Tracker).checkpoint.1 =
      if w.Wanted then
        some (if w.asked then .cancelled .aborted
          else if w.runOver then .cancelled .budgetExceeded
          else .timeLimit n (w.now - w.tracker.startedAt))
      else none := by
  have hlook : ({ w.facing with steps := n } : Tracker).checkpoint.1 =
      if w.asked then some (.cancelled .aborted)
      else if w.runOver then some (.cancelled .budgetExceeded)
      else if w.late then some (.timeLimit n (w.now - w.tracker.startedAt))
      else none := by
    unfold Tracker.checkpoint
    dsimp only [Surroundings.look, Surroundings.readClock, facing, Surroundings.setStop, Surroundings.setClock]
    by_cases hasked : w.asked = true
    · rw [if_pos hasked, if_pos hasked]
    · rw [if_neg hasked, if_neg hasked]
      unfold runOver late
      split_ifs <;> rfl
  rw [hlook]
  unfold Wanted
  by_cases hasked : w.asked = true
  · simp [hasked]
  by_cases hover : w.runOver = true
  · simp [hasked, hover]
  by_cases hlate : w.late = true
  · simp [hasked, hover, hlate]
  · simp [hasked, hover, hlate]

/-- A step halts if it passes the limit, or if it is a multiple of the interval and the surroundings ask for an end. -/
theorem raised_eq (w : Watch) :
    w.raised =
      if w.tracker.budget.maxSteps < ((w.tracker.steps + 1 : Nat) : Int) ∨
          Budget.checkpointInterval ∣ w.tracker.steps + 1 ∧ w.Wanted then
        some (if w.tracker.budget.maxSteps < ((w.tracker.steps + 1 : Nat) : Int) then
            .stepLimit w.tracker.budget.maxSteps (w.tracker.steps + 1) (w.now - w.tracker.startedAt)
          else if w.asked then .cancelled .aborted
          else if w.runOver then .cancelled .budgetExceeded
          else .timeLimit (w.tracker.steps + 1) (w.now - w.tracker.startedAt))
      else none := by
  have hlook := checkpoint_facing w (w.tracker.steps + 1)
  unfold raised Tracker.step
  by_cases hlimit : w.tracker.budget.maxSteps < ((w.tracker.steps + 1 : Nat) : Int)
  · have hpast : w.facing.budget.maxSteps < ((w.facing.steps + 1 : Nat) : Int) := hlimit
    simp only [hpast, hlimit, true_or, if_true]
    rfl
  · have hpast : ¬w.facing.budget.maxSteps < ((w.facing.steps + 1 : Nat) : Int) := hlimit
    simp only [hpast, hlimit, false_or, if_false]
    by_cases hdue : Budget.checkpointInterval ∣ w.tracker.steps + 1
    · have hmod : (w.facing.steps + 1) % Budget.checkpointInterval = 0 := Nat.mod_eq_zero_of_dvd hdue
      rw [if_pos hmod]
      simp only [hdue, true_and]
      exact hlook
    · have hmod : ¬(w.facing.steps + 1) % Budget.checkpointInterval = 0 :=
        fun h => hdue (Nat.dvd_of_mod_eq_zero h)
      rw [if_neg hmod, if_neg fun h => hdue h.1]

/-- Of some steps among other events, the one after the first `k` can be singled out. -/
theorem exists_split_of_lt_count {α : Type} [DecidableEq α] {a : α} {k : Nat} {xs : List α} (h : k < xs.count a) :
    ∃ before rest, xs = before ++ a :: rest ∧ before.count a = k := by
  induction xs generalizing k with
  | nil => exact absurd h (Nat.not_lt_zero k)
  | cons x rest ih =>
    by_cases hx : x = a
    · subst hx
      cases k with
      | zero => exact ⟨[], rest, rfl, rfl⟩
      | succ k =>
        rw [List.count_cons_self] at h
        obtain ⟨before, after, hsplit, hcount⟩ := ih (by omega : k < rest.count x)
        refine ⟨x :: before, after, by rw [hsplit]; rfl, ?_⟩
        rw [List.count_cons_self, hcount]
    · rw [List.count_cons_of_ne hx] at h
      obtain ⟨before, after, hsplit, hcount⟩ := ih h
      refine ⟨x :: before, after, by rw [hsplit]; rfl, ?_⟩
      rw [List.count_cons_of_ne hx, hcount]

/-- Where the surroundings ask for an end at every step, one of the next 256 steps raises. -/
theorem exists_raised (hsteps : Budget.checkpointInterval ≤ later.count .step)
    (hwanted : ∀ before rest, later = before ++ .step :: rest → (w.afterAll before).Wanted) :
    ∃ before rest, later = before ++ .step :: rest ∧ before.count .step < Budget.checkpointInterval ∧
      (w.afterAll before).raised.isSome = true := by
  -- As many steps are taken before the next look as are missing from the present cycle.
  have hcycle : Budget.checkpointInterval = 256 := rfl
  have hmissing : 255 - w.tracker.steps % 256 < later.count .step := by omega
  obtain ⟨before, rest, hsplit, hcount⟩ := exists_split_of_lt_count hmissing
  have hdue : Budget.checkpointInterval ∣ (w.afterAll before).tracker.steps + 1 := by
    rw [steps_afterAll, hcount, hcycle]
    omega
  refine ⟨before, rest, hsplit, by omega, ?_⟩
  rw [raised_eq, if_pos (.inr ⟨hdue, hwanted before rest hsplit⟩)]
  rfl

/-- After any events, a step raises exactly if the new count passes the limit, or if it is a multiple of 256 and a stop
is asked for or a time is over; it raises for the first reason that applies. From there on, while the surroundings ask
for an end at every step, one of the next 256 steps raises, whatever else happens between them. -/
theorem raises_exactly_when_due (budget : Budget) (now : Int) (signal : Option Bool) (flag : Option Int)
    (events : List TrackerEvent) :
    let w := (start budget now signal flag).afterAll events
    let count := events.count .step + 1
    (w.raised =
      if budget.maxSteps < (count : Int) ∨ 256 ∣ count ∧ (w.asked = true ∨ w.runOver = true ∨ w.late = true) then
        some (if budget.maxSteps < (count : Int) then .stepLimit budget.maxSteps count (w.now - now)
          else if w.asked then .cancelled .aborted
          else if w.runOver then .cancelled .budgetExceeded
          else .timeLimit count (w.now - now))
      else none) ∧
    (w.runOver = true ↔ ∃ deadline, budget.runDeadline = some deadline ∧ deadline < w.now) ∧
    (w.late = true ↔ ∃ deadline, budget.deadline = some deadline ∧ deadline < w.now) ∧
    ∀ later : List TrackerEvent, 256 ≤ later.count .step →
      (∀ before rest, later = before ++ .step :: rest →
        (w.afterAll before).asked = true ∨ (w.afterAll before).runOver = true ∨ (w.afterAll before).late = true) →
      ∃ before rest, later = before ++ .step :: rest ∧ before.count .step < 256 ∧
        (w.afterAll before).raised.isSome = true := by
  intro w count
  have hbudget : w.tracker.budget = budget := budget_afterAll _ events
  have hstarted : w.tracker.startedAt = now := startedAt_afterAll _ events
  have hcount : w.tracker.steps + 1 = events.count .step + 1 := by
    have hsteps : w.tracker.steps = 0 + events.count .step := steps_afterAll _ events
    omega
  refine ⟨?_, ?_, ?_, ?_⟩
  · have hraised := raised_eq w
    rw [hbudget, hstarted, hcount] at hraised
    exact hraised
  · unfold runOver
    rw [hbudget, Option.any_eq_true]
    simp only [decide_eq_true_eq]
  · unfold late
    rw [hbudget, Option.any_eq_true]
    simp only [decide_eq_true_eq]
  · intro later hsteps hwanted
    exact exists_raised hsteps hwanted

/-- The time runs out after 300 steps; the look at step 512 sees it. -/
theorem raises_exactly_when_due_late :
    ∃ before rest, List.replicate 256 TrackerEvent.step = before ++ .step :: rest ∧ before.count .step < 256 ∧
      (((start { maxSteps := 10000, deadline := some 50 } 0 none none).afterAll
        (List.replicate 300 .step ++ [.clock 51])).afterAll before).raised.isSome = true := by
  obtain ⟨-, -, hlate, hdetected⟩ := raises_exactly_when_due { maxSteps := 10000, deadline := some 50 } 0 none none
    (List.replicate 300 .step ++ [.clock 51])
  refine hdetected (List.replicate 256 .step) (Nat.le_of_eq List.count_replicate_self.symm) ?_
  intro before rest hsplit
  have hcalls : ∀ e ∈ before, e.isCall = true := by
    intro e he
    have hmem : e ∈ List.replicate 256 TrackerEvent.step := by
      rw [hsplit]
      exact List.mem_append_left _ he
    rw [List.eq_of_mem_replicate hmem]
    rfl
  refine wanted_afterAll_of_calls hcalls (.inr (.inr (hlate.mpr ⟨50, rfl, ?_⟩)))
  rw [afterAll_append]
  exact (by decide : (50 : Int) < 51)

end Watch

end RuleScan
