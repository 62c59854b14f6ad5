import Mathlib.Data.List.Induction
import RuleScan.Pool.Threads

/-! The life cycle of a pool of threads under any interleaving of its calls. A call that sets up looks at the
pool, waits, and then makes a set of threads without looking again. Main statement: nothing leaks exactly when
no call to set up or tear down comes in while another is setting up. -/
namespace RuleScan

/-- What can happen to a pool of threads: a call comes in and goes on up to its wait, or a call that waits
goes on to its end. -/
inductive ThreadEvent where
  | setUp
  | setUpEnds
  | run
  | tearDown
  | tearDownEnds
  deriving DecidableEq

/-- Whether a call comes in that sets the pool up or tears it down. -/
def ThreadEvent.isChange : ThreadEvent → Bool
  | .setUp | .tearDown => true
  | .setUpEnds | .run | .tearDownEnds => false

namespace ThreadPool

/-- The pool after an event. A call that is refused leaves it as it is, and so does a task that is run. -/
def after (p : ThreadPool) : ThreadEvent → ThreadPool
  | .setUp => p.beginSetUp.toOption.getD p
  | .setUpEnds => p.endSetUp
  | .run => p
  | .tearDown => p.beginTearDown
  | .tearDownEnds => p.endTearDown

def afterAll (p : ThreadPool) (events : List ThreadEvent) : ThreadPool := events.foldl after p

/-- No call waits. -/
def Idle (p : ThreadPool) : Prop := p.settingUp = 0 ∧ p.tearingDown = []

instance (p : ThreadPool) : Decidable p.Idle := inferInstanceAs (Decidable (_ ∧ _))

/-- From here on, calls that set up or tear down come in only while no call is setting up. -/
def Orderly (p : ThreadPool) : List ThreadEvent → Prop
  | [] => True
  | e :: later => (e.isChange = true → p.settingUp = 0) ∧ (p.after e).Orderly later

instance decidableOrderly (p : ThreadPool) : (events : List ThreadEvent) → Decidable (p.Orderly events)
  | [] => isTrue trivial
  | e :: later =>
    have := decidableOrderly (p.after e) later
    inferInstanceAs (Decidable ((e.isChange = true → p.settingUp = 0) ∧ (p.after e).Orderly later))

/-- At most one set of threads is made, none once the pool is being torn down, and then every set is gone when
no call waits; no task is given to a set once the pool is being torn down. -/
structure LeakFree (events : List ThreadEvent) : Prop where
  once : (afterAll {} events).made ≤ 1
  notLate : ∀ before later, events = before ++ later → (afterAll {} before).destroyed = true →
    (afterAll {} events).made = (afterAll {} before).made
  cleared : (afterAll {} events).Idle → (afterAll {} events).destroyed = true →
    ∀ set < (afterAll {} events).made, set ∈ (afterAll {} events).gone
  refused : (afterAll {} events).destroyed = true → ∀ {α β : Type} (work : α → Except String β) (task : α),
    (afterAll {} events).run work task = .error .destroyed

variable {p : ThreadPool} {events before later : List ThreadEvent}

theorem afterAll_append (p : ThreadPool) (events later : List ThreadEvent) :
    p.afterAll (events ++ later) = (p.afterAll events).afterAll later := List.foldl_append

theorem afterAll_concat (p : ThreadPool) (events : List ThreadEvent) (e : ThreadEvent) :
    p.afterAll (events ++ [e]) = (p.afterAll events).after e := afterAll_append p events [e]

/-- All that an event can do: nothing, let a call set up or tear down, or end such a call. -/
theorem after_cases (p : ThreadPool) (e : ThreadEvent) :
    p.after e = p ∨
    (e = .setUp ∧ p.after e = { p with settingUp := p.settingUp + 1 }) ∨
    (∃ n, p.settingUp = n + 1 ∧
      p.after e = { p with settingUp := n, current := some p.made, made := p.made + 1 }) ∨
    (e = .tearDown ∧ p.after e = { p with destroyed := true, tearingDown := p.tearingDown ++ p.current.toList }) ∨
    ∃ set rest, p.after e = { p with tearingDown := rest, gone := p.gone ++ [set], current := none } := by
  cases e with
  | setUp =>
    rw [after, beginSetUp]
    split
    · exact .inl rfl
    split
    · exact .inl rfl
    · exact .inr (.inl ⟨rfl, rfl⟩)
  | setUpEnds =>
    rw [after, endSetUp]
    split
    · exact .inl rfl
    · next n hn => exact .inr (.inr (.inl ⟨n, hn, rfl⟩))
  | run => exact .inl rfl
  | tearDown =>
    rw [after, beginTearDown]
    split
    · exact .inl rfl
    · exact .inr (.inr (.inr (.inl ⟨rfl, rfl⟩)))
  | tearDownEnds =>
    rw [after, endTearDown]
    split
    · exact .inl rfl
    · next set rest _ => exact .inr (.inr (.inr (.inr ⟨set, rest, rfl⟩)))

/-- The states that a pool goes through while its calls are orderly. -/
inductive Phase : ThreadPool → Prop
  | unused {n : Nat} (h : n ≤ 1) : Phase { settingUp := n }
  | inUse : Phase { current := some 0, made := 1 }
  | closing : Phase { current := some 0, destroyed := true, made := 1, tearingDown := [0] }
  | neverUsed : Phase { destroyed := true }
  | closed : Phase { destroyed := true, made := 1, gone := [0] }

namespace Phase

theorem after (hp : Phase p) {e : ThreadEvent} (he : e.isChange = true → p.settingUp = 0) : Phase (p.after e) := by
  cases hp with
  | @unused n hn =>
    cases e with
    | setUp =>
      have hzero : n = 0 := he rfl
      subst hzero
      exact .unused (Nat.le_refl 1)
    | setUpEnds =>
      obtain rfl | rfl : n = 0 ∨ n = 1 := by omega
      · exact .unused (Nat.zero_le 1)
      · exact .inUse
    | run => exact .unused hn
    | tearDown =>
      have hzero : n = 0 := he rfl
      subst hzero
      exact .neverUsed
    | tearDownEnds => exact .unused hn
  | inUse =>
    cases e with
    | tearDown => exact .closing
    | _ => exact .inUse
  | closing =>
    cases e with
    | tearDownEnds => exact .closed
    | _ => exact .closing
  | neverUsed => cases e <;> exact .neverUsed
  | closed => cases e <;> exact .closed

theorem afterAll (hp : Phase p) (h : p.Orderly events) : Phase (p.afterAll events) := by
  induction events generalizing p with
  | nil => exact hp
  | cons e later ih =>
    obtain ⟨he, hlater⟩ := h
    exact ih (hp.after he) hlater

/-- Tearing down begins where no set can be made any more. -/
theorem after_of_destroyed (hp : Phase p) (hd : p.destroyed = true) (e : ThreadEvent) :
    (p.after e).destroyed = true ∧ (p.after e).made = p.made := by
  cases hp with
  | unused => cases hd
  | inUse => cases hd
  | closing => cases e <;> exact ⟨rfl, rfl⟩
  | neverUsed => cases e <;> exact ⟨rfl, rfl⟩
  | closed => cases e <;> exact ⟨rfl, rfl⟩

theorem made_afterAll (hp : Phase p) (hd : p.destroyed = true) (h : p.Orderly events) :
    (p.afterAll events).made = p.made := by
  induction events generalizing p with
  | nil => rfl
  | cons e later ih =>
    obtain ⟨he, hlater⟩ := h
    obtain ⟨hdestroyed, hmade⟩ := hp.after_of_destroyed hd e
    exact (ih (hp.after he) hdestroyed hlater).trans hmade

theorem made_le_one (hp : Phase p) : p.made ≤ 1 := by
  cases hp with
  | unused => exact Nat.zero_le 1
  | neverUsed => exact Nat.zero_le 1
  | _ => exact Nat.le_refl 1

theorem mem_gone (hp : Phase p) (hidle : p.Idle) (hd : p.destroyed = true) {set : Nat} (hset : set < p.made) :
    set ∈ p.gone := by
  cases hp with
  | unused => cases hd
  | inUse => cases hd
  | closing => exact absurd hidle.2 nofun
  | neverUsed => exact absurd hset (Nat.not_lt_zero set)
  | closed =>
    have hzero : set = 0 := Nat.lt_one_iff.mp hset
    exact hzero ▸ List.mem_cons_self

end Phase

theorem orderly_append : p.Orderly (before ++ later) ↔ p.Orderly before ∧ (p.afterAll before).Orderly later := by
  induction before generalizing p with
  | nil => exact (Iff.of_eq (true_and _)).symm
  | cons e before ih => exact (and_congr_right fun _ => ih).trans and_assoc.symm

/-- Whatever calls come in, no task is given to a set once the pool is being torn down. -/
theorem run_eq_destroyed {α β : Type} (h : p.destroyed = true) (work : α → Except String β) (task : α) :
    p.run work task = .error .destroyed := by
  rw [run, if_pos h]

theorem leakFree_of_orderly (h : Orderly {} events) : LeakFree events := by
  have hstart : Phase {} := .unused (Nat.zero_le 1)
  have hphase := hstart.afterAll h
  refine ⟨hphase.made_le_one, ?_, fun hidle hd _ hset => hphase.mem_gone hidle hd hset, fun hd _ _ => run_eq_destroyed hd⟩
  rintro before later rfl hd
  obtain ⟨hbefore, hlater⟩ := orderly_append.mp h
  rw [afterAll_append]
  exact (hstart.afterAll hbefore).made_afterAll hd hlater

/-- The sets that are made and those that calls are going to make. -/
def promised (p : ThreadPool) : Nat := p.made + p.settingUp

theorem promised_le_after (p : ThreadPool) (e : ThreadEvent) : p.promised ≤ (p.after e).promised := by
  unfold promised
  rcases p.after_cases e with he | ⟨-, he⟩ | ⟨n, hn, he⟩ | ⟨-, he⟩ | ⟨set, rest, he⟩
  · exact Nat.le_of_eq (by rw [he])
  · rw [he]; dsimp only; omega
  · rw [he]; dsimp only; omega
  · exact Nat.le_of_eq (by rw [he])
  · exact Nat.le_of_eq (by rw [he])

/-- A set that a call is going to make is made by the time no call waits. -/
theorem promised_le_made (h : (p.afterAll events).Idle) : p.promised ≤ (p.afterAll events).made := by
  have hle : p.promised ≤ (p.afterAll events).promised := by
    clear h
    induction events generalizing p with
    | nil => exact Nat.le_refl _
    | cons e later ih => exact Nat.le_trans (p.promised_le_after e) ih
  have hidle := h.1
  simp only [promised] at hle ⊢
  omega

/-- A set in use has been made. -/
theorem made_pos (events : List ThreadEvent) (h : (afterAll {} events).current.isSome = true) :
    0 < (afterAll {} events).made := by
  induction events using List.reverseRecOn with
  | nil => cases h
  | append_singleton events e ih =>
    rw [afterAll_concat] at h ⊢
    rcases (afterAll {} events).after_cases e with he | ⟨-, he⟩ | ⟨n, -, he⟩ | ⟨-, he⟩ | ⟨set, rest, he⟩
    · rw [he] at h ⊢; exact ih h
    · rw [he] at h ⊢; exact ih h
    · rw [he]; exact Nat.succ_pos _
    · rw [he] at h ⊢; exact ih h
    · rw [he] at h; cases h

/-- A call that sets up or tears down while another is setting up comes to a second set or a late one. -/
theorem LeakFree.settingUp_eq_zero {e : ThreadEvent} (h : LeakFree (before ++ e :: later))
    (hidle : (afterAll {} (before ++ e :: later)).Idle) (he : e.isChange = true) :
    (afterAll {} before).settingUp = 0 := by
  by_contra hne
  have hsplit : before ++ e :: later = (before ++ [e]) ++ later := by simp
  have hpromised : ((afterAll {} before).after e).promised ≤ (afterAll {} (before ++ e :: later)).made := by
    rw [hsplit, afterAll_append] at hidle ⊢
    rw [← afterAll_concat]
    exact promised_le_made hidle
  have hkept := (afterAll {} before).promised_le_after e
  have honce := h.once
  have hlate := h.notLate before (e :: later) rfl
  simp only [promised] at hpromised hkept
  cases e with
  | setUpEnds => cases he
  | run => cases he
  | tearDownEnds => cases he
  | setUp =>
    by_cases hcurrent : (afterAll {} before).current.isSome = true
    · have hmade := made_pos before hcurrent
      omega
    by_cases hd : (afterAll {} before).destroyed = true
    · have hsame := hlate hd
      omega
    · have hbegun : ((afterAll {} before).after .setUp).settingUp = (afterAll {} before).settingUp + 1 := by
        simp [after, beginSetUp, hcurrent, hd, Except.toOption]
      omega
  | tearDown =>
    by_cases hd : (afterAll {} before).destroyed = true
    · have hsame := hlate hd
      omega
    · have hbegun : ((afterAll {} before).after .tearDown).destroyed = true ∧
          ((afterAll {} before).after .tearDown).settingUp = (afterAll {} before).settingUp := by
        simp [after, beginTearDown, hd]
      have hsame := h.notLate (before ++ [.tearDown]) later hsplit (by rw [afterAll_concat]; exact hbegun.1)
      rw [afterAll_concat] at hsame
      omega

theorem LeakFree.orderly (h : LeakFree events) (hidle : (afterAll {} events).Idle) : Orderly {} events := by
  -- the events that are left are orderly from the state that those before them lead to
  have hrest : ∀ later before, events = before ++ later → (afterAll {} before).Orderly later := by
    intro later
    induction later with
    | nil => exact fun _ _ => trivial
    | cons e later ih =>
      intro before hsplit
      subst hsplit
      have hnext := ih (before ++ [e]) (by simp)
      rw [afterAll_concat] at hnext
      exact ⟨h.settingUp_eq_zero hidle, hnext⟩
  exact hrest events [] rfl

/-- Calls come in and go on in any order. Once none waits, nothing has leaked exactly when no call to set up or
tear down came in while another was setting up; such calls leak nothing on the way either. Whatever the order,
no task is given to a set of threads once the pool is being torn down. -/
theorem leakFree_iff_orderly (events : List ThreadEvent) :
    ((afterAll {} events).Idle → (LeakFree events ↔ Orderly {} events)) ∧ (Orderly {} events → LeakFree events) ∧
      ((afterAll {} events).destroyed = true → ∀ {α β : Type} (work : α → Except String β) (task : α),
        (afterAll {} events).run work task = .error .destroyed) :=
  ⟨fun hidle => ⟨fun h => h.orderly hidle, leakFree_of_orderly⟩, leakFree_of_orderly, fun hd _ _ => run_eq_destroyed hd⟩

/-- A pool that is set up, runs tasks and is torn down twice leaks nothing. -/
theorem leakFree_one_run :
    let events : List ThreadEvent := [.setUp, .setUpEnds, .setUp, .run, .run, .tearDown, .run, .tearDown, .tearDownEnds]
    (afterAll {} events).Idle ∧ Orderly {} events ∧ LeakFree events := by
  intro events
  have hidle : (afterAll {} events).Idle := by decide
  have horderly : Orderly {} events := by decide
  exact ⟨hidle, horderly, ((leakFree_iff_orderly events).1 hidle).mpr horderly⟩

/-- Of two overlapping calls to set up, each makes a set, and only the second set is torn down. A call to set
up that is overtaken by one to tear down makes a set that stays. No call waits at the end of either. -/
theorem overlapping_calls_leak :
    let twice : List ThreadEvent := [.setUp, .setUp, .setUpEnds, .setUpEnds, .tearDown, .tearDownEnds]
    let overtaken : List ThreadEvent := [.setUp, .tearDown, .setUpEnds]
    (afterAll {} twice = { destroyed := true, made := 2, gone := [1] } ∧ ¬LeakFree twice) ∧
      (afterAll {} [.setUp, .tearDown]).made = 0 ∧
      afterAll {} overtaken = { current := some 0, destroyed := true, made := 1 } ∧ ¬LeakFree overtaken := by
  intro twice overtaken
  have htwice : ¬LeakFree twice := fun h => absurd h.once (by decide)
  have hovertaken : ¬LeakFree overtaken := fun h =>
    absurd (h.cleared (by decide) (by decide) 0 (by decide)) (by decide)
  exact ⟨⟨by decide, htwice⟩, by decide, by decide, hovertaken⟩

end ThreadPool

end RuleScan
