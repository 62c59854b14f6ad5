import Mathlib.Tactic.Choose
import RuleScan.Evaluation.Counted

/-! The normal form of counted computations: some steps, then an outcome. Nothing in an evaluation
reads its budget, so the number of steps and the outcome are fixed and a budget can only cut them off. -/
namespace RuleScan

namespace Tracker

/-- No time limit is set and nobody ever asks to stop. -/
structure Unhindered (t : Tracker) : Prop where
  deadline : t.budget.deadline = none
  runDeadline : t.budget.runDeadline = none
  stop : ∀ i, t.world.stop i = false

variable {t : Tracker}

theorem Unhindered.checkpoint (h : t.Unhindered) :
    ∃ t', t.checkpoint = (none, t') ∧ t'.Unhindered ∧ t'.steps = t.steps ∧ t'.budget = t.budget := by
  unfold Tracker.checkpoint Surroundings.look Surroundings.readClock
  simp only [h.stop, h.deadline, h.runDeadline, Option.any_none, Bool.false_eq_true, if_false]
  exact ⟨_, rfl, ⟨h.deadline, h.runDeadline, h.stop⟩, rfl, rfl⟩

theorem Unhindered.step_of_lt (h : t.Unhindered) (hs : (t.steps : Int) < t.budget.maxSteps) :
    ∃ t', t.step = (none, t') ∧ t'.Unhindered ∧ t'.steps = t.steps + 1 ∧ t'.budget = t.budget := by
  have hu : Unhindered { t with steps := t.steps + 1 } := ⟨h.deadline, h.runDeadline, h.stop⟩
  have hle : ¬t.budget.maxSteps < ((t.steps + 1 : Nat) : Int) := by omega
  unfold Tracker.step
  simp only [hle, if_false]
  split
  · exact hu.checkpoint
  · exact ⟨_, rfl, hu, rfl, rfl⟩

theorem step_of_le (hs : t.budget.maxSteps ≤ (t.steps : Int)) :
    ∃ elapsed t', t.step = (some (.stepLimit t.budget.maxSteps (t.steps + 1) elapsed), t') ∧
      t'.steps = t.steps + 1 := by
  have hlt : t.budget.maxSteps < ((t.steps + 1 : Nat) : Int) := by omega
  unfold Tracker.step Tracker.elapsed Surroundings.readClock
  simp only [hlt, if_true]
  exact ⟨_, _, rfl, rfl⟩

end Tracker

namespace Counted

variable {α β : Type}

/-- Takes `n` steps. -/
def stepMany : Nat → Counted Unit
  | 0 => pure ()
  | n + 1 => do
    step
    stepMany n

/-- Takes `n` steps and then ends in an outcome. -/
def after (n : Nat) (o : Except EvalError α) : Counted α := do
  stepMany n
  ofExcept id o

/-- `m` takes some number of steps and ends in `o`, unless it is halted on the way. -/
def EndsIn (m : Counted α) (o : Except EvalError α) : Prop := ∃ n, m = after n o

def NoHalt (o : Except EvalError α) : Prop := ∀ h, o ≠ .error (.halted h)

/-- `m` ends in an outcome of its own, which is no halt. -/
def Settles (m : Counted α) : Prop := ∃ o, EndsIn m o ∧ NoHalt o

theorem noHalt_ok (a : α) : NoHalt (.ok a) := nofun

theorem NoHalt.bind {o : Except EvalError α} {f : α → Except EvalError β} (ho : NoHalt o)
    (hf : ∀ a, NoHalt (f a)) : NoHalt (o >>= f) := by
  cases o with
  | ok a => exact hf a
  | error e => exact fun h he => ho h (congrArg Except.error (Except.error.inj he))

theorem stepMany_add (m n : Nat) : stepMany (m + n) = stepMany m >>= fun _ => stepMany n := by
  induction m with
  | zero => rw [Nat.zero_add]; rfl
  | succ m ih =>
    rw [Nat.succ_add]
    simp only [stepMany, ih, bind_assoc]

theorem after_ok_bind (n : Nat) (a : α) (f : α → Counted β) :
    after n (.ok a) >>= f = stepMany n >>= fun _ => f a := by
  simp only [after, ofExcept, bind_assoc, pure_bind]

theorem after_error_bind (n : Nat) (e : EvalError) (f : α → Counted β) :
    after n (.error e) >>= f = after n (.error e) := by
  simp only [after, ofExcept, bind_assoc]
  rfl

theorem stepMany_bind_after (m n : Nat) (o : Except EvalError α) :
    (stepMany m >>= fun _ => after n o) = after (m + n) o := by
  simp only [after, stepMany_add, bind_assoc]

theorem endsIn_pure (a : α) : EndsIn (pure a) (.ok a) := ⟨0, rfl⟩

theorem endsIn_throw (e : EvalError) : EndsIn (throw e : Counted α) (.error e) := ⟨0, rfl⟩

theorem endsIn_step : EndsIn step (.ok ()) := by
  refine ⟨1, ?_⟩
  simp only [after, stepMany, ofExcept, bind_pure_unit]

theorem endsIn_ofExcept {ε : Type} (wrap : ε → EvalError) (x : Except ε α) :
    EndsIn (ofExcept wrap x) (x.mapError wrap) := by
  cases x with
  | ok a => exact endsIn_pure a
  | error e => exact endsIn_throw (wrap e)

/-- Sequencing: what `m` ends in decides what is sequenced after it. -/
theorem EndsIn.bind {m : Counted α} {o : Except EvalError α} {f : α → Counted β}
    {g : α → Except EvalError β} (hm : EndsIn m o) (hf : ∀ a, o = .ok a → EndsIn (f a) (g a)) :
    EndsIn (m >>= f) (o >>= g) := by
  obtain ⟨n, rfl⟩ := hm
  cases o with
  | error e => exact ⟨n, after_error_bind n e f⟩
  | ok a =>
    obtain ⟨k, hk⟩ := hf a rfl
    refine ⟨n + k, ?_⟩
    rw [after_ok_bind, hk, stepMany_bind_after]
    rfl

theorem EndsIn.bind_ok {m : Counted α} {a : α} {f : α → Counted β} {o : Except EvalError β}
    (hm : EndsIn m (.ok a)) (hf : EndsIn (f a) o) : EndsIn (m >>= f) o := by
  refine hm.bind (g := fun _ => o) ?_
  intro b hb
  cases hb
  exact hf

/-- One step first does not change what a computation ends in. -/
theorem EndsIn.step_bind {m : Counted α} {o : Except EvalError α} (hm : EndsIn m o) :
    EndsIn (step >>= fun _ => m) o := endsIn_step.bind_ok hm

theorem Settles.bind {m : Counted α} {f : α → Counted β} (hm : Settles m)
    (hf : ∀ a, Settles (f a)) : Settles (m >>= f) := by
  choose g hg hgh using hf
  obtain ⟨o, ho, hh⟩ := hm
  exact ⟨o >>= g, ho.bind fun a _ => hg a, hh.bind hgh⟩

theorem settles_pure (a : α) : Settles (pure a : Counted α) := ⟨_, endsIn_pure a, noHalt_ok a⟩

theorem settles_step : Settles step := ⟨_, endsIn_step, noHalt_ok ()⟩

theorem settles_throw {e : EvalError} (he : ∀ h, e ≠ .halted h) : Settles (throw e : Counted α) :=
  ⟨_, endsIn_throw e, fun h heq => he h (Except.error.inj heq)⟩

theorem settles_ofExcept {ε : Type} {wrap : ε → EvalError} {x : Except ε α} (hx : NoHalt (x.mapError wrap)) :
    Settles (ofExcept wrap x) := ⟨_, endsIn_ofExcept wrap x, hx⟩

section Budget

variable {t : Tracker}

def ended (o : Except EvalError α) (t : Tracker) : EStateM.Result EvalError Tracker α :=
  match o with
  | .ok a => .ok a t
  | .error e => .error e t

theorem checkpoint_bind (f : Unit → Counted α) (t : Tracker) :
    (checkpoint >>= f) t = match t.checkpoint with
      | (none, t') => f () t'
      | (some h, t') => .error (.halted h) t' := by
  change EStateM.bind checkpoint f t = _
  unfold EStateM.bind checkpoint track
  rcases t.checkpoint with ⟨_ | h, t'⟩ <;> rfl

theorem stepMany_succ (n : Nat) (t : Tracker) :
    stepMany (n + 1) t = match t.step with
      | (none, t') => stepMany n t'
      | (some h, t') => .error (.halted h) t' := by
  change EStateM.bind step (fun _ => stepMany n) t = _
  unfold EStateM.bind step track
  rcases t.step with ⟨_ | h, t'⟩ <;> rfl

theorem stepMany_within (h : t.Unhindered) (n : Nat) (hn : (t.steps + n : Int) ≤ t.budget.maxSteps) :
    ∃ t', stepMany n t = .ok () t' ∧ t'.steps = t.steps + n := by
  induction n generalizing t with
  | zero => exact ⟨t, rfl, rfl⟩
  | succ n ih =>
    obtain ⟨t₁, hs, hu, hc, hb⟩ := h.step_of_lt (by omega)
    obtain ⟨t₂, hr, hc'⟩ := ih hu (by rw [hc, hb]; omega)
    refine ⟨t₂, ?_, by omega⟩
    rw [stepMany_succ, hs]
    exact hr

theorem stepMany_beyond (h : t.Unhindered) (n m : Nat) (hm : t.budget.maxSteps = m) (ht : t.steps ≤ m)
    (hn : m < t.steps + n) :
    ∃ elapsed t', stepMany n t = .error (.halted (.stepLimit m (m + 1) elapsed)) t' ∧ t'.steps = m + 1 := by
  induction n generalizing t with
  | zero => omega
  | succ n ih =>
    rw [stepMany_succ]
    by_cases hlt : t.steps < m
    · obtain ⟨t₁, hs, hu, hc, hb⟩ := h.step_of_lt (by omega)
      rw [hs]
      exact ih hu (hb ▸ hm) (by omega) (by omega)
    · obtain ⟨elapsed, t₁, hs, hc⟩ := t.step_of_le (by omega)
      have he : t.steps = m := by omega
      rw [hs, hm, he]
      exact ⟨elapsed, t₁, rfl, by omega⟩

theorem stepMany_cases (n : Nat) (t : Tracker) :
    (∃ t', stepMany n t = .ok () t') ∨ ∃ h t', stepMany n t = .error (.halted h) t' := by
  induction n generalizing t with
  | zero => exact .inl ⟨t, rfl⟩
  | succ n ih =>
    rw [stepMany_succ]
    rcases t.step with ⟨_ | h, t'⟩
    · exact ih t'
    · exact .inr ⟨h, t', rfl⟩

theorem after_of_ok {n : Nat} {t' : Tracker} (o : Except EvalError α) (h : stepMany n t = .ok () t') :
    after n o t = ended o t' := by
  change EStateM.bind (stepMany n) (fun _ => ofExcept id o) t = _
  unfold EStateM.bind
  rw [h]
  cases o <;> rfl

theorem after_of_error {n : Nat} {e : EvalError} {t' : Tracker} (o : Except EvalError α)
    (h : stepMany n t = .error e t') : after n o t = .error e t' := by
  change EStateM.bind (stepMany n) (fun _ => ofExcept id o) t = _
  unfold EStateM.bind
  rw [h]

/-- Under any budget a computation comes to its outcome or is halted. -/
theorem EndsIn.run {m : Counted α} {o : Except EvalError α} (hm : EndsIn m o) (t : Tracker) :
    (∃ t', m t = ended o t') ∨ ∃ h t', m t = .error (.halted h) t' := by
  obtain ⟨n, rfl⟩ := hm
  rcases stepMany_cases n t with ⟨t', h⟩ | ⟨e, t', h⟩
  · exact .inl ⟨t', after_of_ok o h⟩
  · exact .inr ⟨e, t', after_of_error o h⟩

/-- A computation ends in one outcome only. -/
theorem EndsIn.unique {m : Counted α} {o o' : Except EvalError α} (h : EndsIn m o) (h' : EndsIn m o') : o = o' := by
  obtain ⟨n, rfl⟩ := h
  obtain ⟨n', hn⟩ := h'
  have hstart : (Tracker.start { maxSteps := n + n' } (.still 0)).Unhindered := ⟨rfl, rfl, fun _ => rfl⟩
  have hsteps : (Tracker.start { maxSteps := n + n' } (.still 0)).steps = 0 := rfl
  have hmax : (Tracker.start { maxSteps := n + n' } (.still 0)).budget.maxSteps = n + n' := rfl
  obtain ⟨t, ht, -⟩ := stepMany_within hstart n (by omega)
  obtain ⟨t', ht', -⟩ := stepMany_within hstart n' (by omega)
  have hrun : ended o t = ended o' t' := by
    rw [← after_of_ok o ht, ← after_of_ok o' ht', hn]
  cases o <;> cases o' <;> cases hrun <;> rfl

/-- Any budget gives the result or halts the computation, and `n` steps are enough to get it. -/
def Gives (m : Counted α) (a : α) (n : Nat) : Prop :=
  (∀ t, (∃ t', m t = .ok a t') ∨ ∃ h t', m t = .error (.halted h) t') ∧
    ∀ t : Tracker, t.Unhindered → (t.steps + n : Int) ≤ t.budget.maxSteps → ∃ t', m t = .ok a t'

theorem EndsIn.gives {m : Counted α} {a : α} (hm : EndsIn m (.ok a)) : ∃ n, Gives m a n := by
  obtain ⟨n, hn⟩ := hm
  refine ⟨n, EndsIn.run ⟨n, hn⟩, ?_⟩
  intro t hu hle
  obtain ⟨t', ht, -⟩ := stepMany_within hu n hle
  rw [hn]
  exact ⟨t', after_of_ok _ ht⟩

end Budget

end Counted

end RuleScan
