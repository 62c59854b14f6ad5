import Mathlib.Data.List.Induction
import RuleScan.Proofs.Pool.Replies

/-! Whether the workers of a pool are ever free while a task waits. Each call that queues tasks or ends one starts as
many as there are free workers, but the call that gives the pool a processor starts none. Main statement: a task waits
beside a free worker exactly if it was queued before there was a processor and no call has looked at the queue since.
Otherwise running tasks only have to end for all that is queued to be worked on and for all that wait to be told. -/
namespace RuleScan

/-- Whether a call looks at the queue only when it ends a task. -/
def PoolCall.isPassive {α β : Type} : PoolCall α β → Bool
  | .setProcessor | .complete .. | .fail .. | .drain => true
  | .add _ | .batch _ | .cancelPending | .shutdown => false

namespace TaskPool

variable {α β : Type} {p : TaskPool α β} {c : PoolCall α β} {ticket : Nat}

/-- With a processor, no worker is free while a task waits. -/
def Working (p : TaskPool α β) : Prop := p.ready = true → p.queue = [] ∨ p.active.length = p.maxWorkers

/-- There is a processor and a task waits, but nothing runs. -/
structure Stalled (p : TaskPool α β) : Prop where
  ready : p.ready = true
  waits : p.queue ≠ []
  still : p.active = []

/-- What holds between calls, whatever was asked of a pool. -/
structure Sound (p : TaskPool α β) : Prop where
  workers : 0 < p.maxWorkers
  bounded : p.active.length ≤ p.maxWorkers
  unready : p.ready = false → p.active = []
  closed : p.shuttingDown = true → p.queue = []
  paused : p.paused = true → p.shuttingDown = true

theorem sound_ofSize (workers : Int) : (ofSize workers : TaskPool α β).Sound := by
  have hworkers : 0 < max 1 workers.toNat := by omega
  exact ⟨hworkers, Nat.zero_le _, fun _ => rfl, fun _ => rfl, nofun⟩

theorem fill_of_queue_eq_nil (h : p.queue = []) : p.fill = p := by
  unfold fill
  split
  · rfl
  · cases p
    subst h
    simp [List.splitAt_eq]

theorem Sound.working_fill (h : p.Sound) : p.fill.Working := by
  intro hready
  by_cases hqueue : p.queue = []
  · rw [fill_of_queue_eq_nil hqueue]
    exact .inl hqueue
  have hunpaused : p.paused = false := by
    refine Bool.eq_false_iff.mpr fun hpaused => hqueue (h.closed (h.paused hpaused))
  have hkept : p.fill.ready = p.ready := by
    obtain ⟨queue, active, history, heq⟩ := p.fill_frame
    rw [heq]
  rw [hkept] at hready
  have hbounded := h.bounded
  rw [fill_eq hready hunpaused]
  simp only [List.drop_eq_nil_iff, List.length_append, List.length_take]
  omega

namespace Sound

/-- Callers and what they get do not matter. -/
theorem frame (h : p.Sound) (submitted tickets : Nat) (waiting : List (Nat × Awaited α β))
    (replies : List (Nat × PoolReply α β)) (history : List (PoolEvent α β)) :
    Sound { p with submitted, tickets, waiting, replies, history } :=
  ⟨h.workers, h.bounded, h.unready, h.closed, h.paused⟩

theorem queued (h : p.Sound) (hopen : p.shuttingDown = false) (queue : List (PoolTask α)) (submitted tickets : Nat)
    (waiting : List (Nat × Awaited α β)) : Sound { p with queue, submitted, tickets, waiting } :=
  ⟨h.workers, h.bounded, h.unready, fun hclosing => (nomatch hopen.symm.trans hclosing), h.paused⟩

theorem fill (h : p.Sound) : p.fill.Sound := by
  by_cases hgo : p.ready = true ∧ p.paused = false
  · have hbounded := h.bounded
    rw [fill_eq hgo.1 hgo.2]
    refine ⟨h.workers, ?_, fun hready => (nomatch hgo.1.symm.trans hready), fun hclosing => ?_, h.paused⟩
    · simp only [List.length_append, List.length_take]
      omega
    · simp only [h.closed hclosing, List.drop_nil]
  · have hstays : p.fill = p := by
      refine if_pos ?_
      cases hready : p.ready <;> cases hpaused : p.paused <;> simp_all
    rwa [hstays]

theorem finish (h : p.Sound) (t : PoolTask α) (outcome : TaskOutcome β) : (p.finish t outcome).Sound := by
  refine ⟨h.workers, Nat.le_trans (List.length_filter_le _ _) h.bounded, fun hready => ?_, h.closed, h.paused⟩
  show p.active.filter _ = []
  rw [h.unready hready, List.filter_nil]

theorem after (h : p.Sound) (c : PoolCall α β) : (p.after c).Sound := by
  have hsettle : ∀ sequence outcome, (p.settle sequence outcome).Sound := by
    intro sequence outcome
    rcases p.settle_cases sequence outcome with heq | ⟨t, -, heq⟩
    · rwa [heq]
    · rw [heq]
      exact (h.finish t outcome).fill
  have hidle : ∀ {q : TaskPool α β} ticket, q.Sound → (q.awaitIdle ticket).Sound := by
    intro q ticket hq
    obtain ⟨waiting, replies, heq⟩ := q.awaitIdle_frame ticket
    rw [heq]
    exact hq.frame ..
  cases c with
  | setProcessor => exact ⟨h.workers, h.bounded, nofun, h.closed, h.paused⟩
  | add input =>
    rw [after_add]
    split
    · exact h
    · next hopen => exact (h.queued (Bool.eq_false_iff.mpr hopen) ..).fill
  | batch inputs =>
    rw [TaskPool.after]
    cases hready : p.ready with
    | false =>
      rw [batch_unready hready]
      exact h.frame ..
    | true =>
      rw [batch_eq hready]
      split
      · exact (h.frame ..).fill
      split
      · next hclosing => exact ⟨h.workers, h.bounded, h.unready, h.closed, fun _ => hclosing⟩
      · next hopen => exact (h.queued (Bool.eq_false_iff.mpr hopen) ..).fill
  | complete sequence value => exact hsettle sequence _
  | fail sequence message => exact hsettle sequence _
  | cancelPending =>
    rw [TaskPool.after]
    obtain ⟨waiting, replies, history, heq⟩ := p.cancelPending_frame
    rw [heq]
    exact ⟨h.workers, h.bounded, h.unready, fun _ => rfl, h.paused⟩
  | drain => exact hidle _ (h.frame ..)
  | shutdown =>
    rw [after_shutdown]
    split
    · exact h.frame ..
    · refine hidle _ ?_
      obtain ⟨waiting, replies, history, heq⟩ := { p.ticket.2 with shuttingDown := true }.cancelPending_frame
      rw [heq]
      exact ⟨h.workers, h.bounded, h.unready, fun _ => rfl, fun _ => rfl⟩

theorem afterAll (h : p.Sound) (calls : List (PoolCall α β)) : (p.afterAll calls).Sound := by
  induction calls generalizing p with
  | nil => exact h
  | cons c calls ih => exact ih (h.after c)

/-- Calls that look at the queue leave no worker free while a task waits, however they find the pool. -/
theorem working_after (h : p.Sound) (hc : c.isPassive = false) : (p.after c).Working := by
  cases c with
  | setProcessor => cases hc
  | add input =>
    rw [after_add]
    split
    · next hclosing => exact fun _ => .inl (h.closed hclosing)
    · next hopen => exact (h.queued (Bool.eq_false_iff.mpr hopen) ..).working_fill
  | batch inputs =>
    rw [TaskPool.after]
    cases hready : p.ready with
    | false =>
      rw [batch_unready hready]
      exact fun hready' => absurd (hready.symm.trans hready') Bool.false_ne_true
    | true =>
      rw [batch_eq hready]
      split
      · exact (h.frame ..).working_fill
      split
      · next hclosing => exact fun _ => .inl (h.closed hclosing)
      · next hopen => exact (h.queued (Bool.eq_false_iff.mpr hopen) ..).working_fill
  | complete sequence value => cases hc
  | fail sequence message => cases hc
  | cancelPending =>
    rw [TaskPool.after]
    obtain ⟨waiting, replies, history, heq⟩ := p.cancelPending_frame
    rw [heq]
    exact fun _ => .inl rfl
  | drain => cases hc
  | shutdown =>
    rw [after_shutdown]
    split
    · next hclosing => exact fun _ => .inl (h.closed hclosing)
    · obtain ⟨waiting, replies, history, hcancel⟩ := { p.ticket.2 with shuttingDown := true }.cancelPending_frame
      obtain ⟨waiting', replies', hidle⟩ := TaskPool.awaitIdle_frame
        ({ p.ticket.2 with shuttingDown := true } : TaskPool α β).cancelPending p.tickets
      rw [hidle, hcancel]
      exact fun _ => .inl rfl

theorem working_settle (h : p.Sound) (hw : p.Working) (sequence : Nat) (outcome : TaskOutcome β) :
    (p.settle sequence outcome).Working := by
  rcases p.settle_cases sequence outcome with heq | ⟨t, -, heq⟩
  · rwa [heq]
  · rw [heq]
    exact (h.finish t outcome).working_fill

/-- Only the first processor can find tasks that wait beside free workers. -/
theorem keeps_working (h : p.Sound) (hw : p.Working) (c : PoolCall α β)
    (hfirst : c = .setProcessor → p.ready = true ∨ p.queue = []) : (p.after c).Working := by
  cases c with
  | setProcessor => exact fun _ => (hfirst rfl).elim hw .inl
  | complete sequence value => exact h.working_settle hw sequence _
  | fail sequence message => exact h.working_settle hw sequence _
  | drain =>
    obtain ⟨waiting, replies, heq⟩ := TaskPool.awaitIdle_frame p.ticket.2 p.tickets
    show (p.ticket.2.awaitIdle p.tickets).Working
    rw [heq]
    exact hw
  | add _ | batch _ | cancelPending | shutdown => exact h.working_after rfl

theorem not_working (h : p.Sound) (hstalled : p.Stalled) : ¬p.Working := by
  intro hw
  have hworkers := h.workers
  rcases hw hstalled.ready with hqueue | hfull
  · exact hstalled.waits hqueue
  · rw [hstalled.still, List.length_nil] at hfull
    omega

end Sound

/-- Nothing runs, so nothing can end, and the queue stays as it is. -/
theorem Stalled.after (h : p.Stalled) (hc : c.isPassive = true) : (p.after c).Stalled := by
  have hsettle : ∀ sequence outcome, (p.settle sequence outcome).Stalled := by
    intro sequence outcome
    rcases p.settle_cases sequence outcome with heq | ⟨t, ht, -⟩
    · rwa [heq]
    · rw [h.still] at ht
      cases ht
  cases c with
  | setProcessor => exact ⟨rfl, h.waits, h.still⟩
  | complete sequence value => exact hsettle sequence _
  | fail sequence message => exact hsettle sequence _
  | drain =>
    obtain ⟨waiting, replies, heq⟩ := TaskPool.awaitIdle_frame p.ticket.2 p.tickets
    show (p.ticket.2.awaitIdle p.tickets).Stalled
    rw [heq]
    exact ⟨h.ready, h.waits, h.still⟩
  | add _ | batch _ | cancelPending | shutdown => cases hc

theorem Stalled.afterAll (h : p.Stalled) {calls : List (PoolCall α β)} (hcalls : ∀ c ∈ calls, c.isPassive = true) :
    (p.afterAll calls).Stalled := by
  induction calls generalizing p with
  | nil => exact h
  | cons c calls ih =>
    obtain ⟨hc, hcalls⟩ := List.forall_mem_cons.mp hcalls
    exact ih (h.after hc) hcalls

/-- Tasks were queued when the pool was given its first processor, and no call has looked at the queue since. -/
def Stalls (workers : Int) (calls : List (PoolCall α β)) : Prop :=
  ∃ before quiet, calls = before ++ .setProcessor :: quiet ∧
    ((ofSize workers : TaskPool α β).afterAll before).ready = false ∧
    ((ofSize workers : TaskPool α β).afterAll before).queue ≠ [] ∧ ∀ c ∈ quiet, c.isPassive = true

theorem Stalls.stalled {workers : Int} {calls : List (PoolCall α β)} (h : Stalls workers calls) :
    ((ofSize workers : TaskPool α β).afterAll calls).Stalled := by
  obtain ⟨before, quiet, rfl, hready, hqueue, hquiet⟩ := h
  have hsound := (sound_ofSize workers).afterAll before
  rw [afterAll_append]
  have hfirst : (((ofSize workers).afterAll before).after .setProcessor).Stalled :=
    ⟨rfl, hqueue, hsound.unready hready⟩
  exact hfirst.afterAll hquiet

theorem working_or_stalls (workers : Int) (calls : List (PoolCall α β)) :
    ((ofSize workers : TaskPool α β).afterAll calls).Working ∨ Stalls workers calls := by
  induction calls using List.reverseRecOn with
  | nil => exact .inl nofun
  | append_singleton calls c ih =>
    have hsound := (sound_ofSize (α := α) (β := β) workers).afterAll calls
    rw [afterAll_append]
    cases hc : c.isPassive with
    | false => exact .inl (hsound.working_after hc)
    | true =>
      rcases ih with hw | ⟨before, quiet, rfl, hready, hqueue, hquiet⟩
      · by_cases hfirst : c = .setProcessor ∧ ((ofSize workers : TaskPool α β).afterAll calls).ready = false ∧
            ((ofSize workers : TaskPool α β).afterAll calls).queue ≠ []
        · obtain ⟨rfl, hready, hqueue⟩ := hfirst
          exact .inr ⟨calls, [], rfl, hready, hqueue, nofun⟩
        · refine .inl (hsound.keeps_working hw c fun hset => ?_)
          by_contra hnone
          simp only [not_or, Bool.not_eq_true] at hnone
          exact hfirst ⟨hset, hnone⟩
      · refine .inr ⟨before, quiet ++ [c], by simp, hready, hqueue, fun d hd => ?_⟩
        rcases List.mem_append.mp hd with hd | hd
        · exact hquiet d hd
        · rw [List.mem_singleton.mp hd]
          exact hc

/-! That all gets done. -/

def left (p : TaskPool α β) : Nat := p.queue.length + p.active.length

theorem isIdle_iff : p.isIdle = true ↔ p.left = 0 := by
  simp [isIdle, left, Nat.add_eq_zero_iff]

theorem left_fill (p : TaskPool α β) : p.fill.left = p.left := by
  unfold fill
  split
  · rfl
  · simp only [left, List.splitAt_eq, List.length_drop, List.length_append, List.length_take]
    omega

theorem isIdle_fill (p : TaskPool α β) : p.fill.isIdle = p.isIdle := by
  rw [Bool.eq_iff_iff, isIdle_iff, isIdle_iff, left_fill]

theorem left_finish_lt {t : PoolTask α} (ht : t ∈ p.active) (outcome : TaskOutcome β) :
    (p.finish t outcome).left < p.left := by
  have hless : (p.active.filter (·.sequence ≠ t.sequence)).length < p.active.length :=
    List.length_filter_lt_length_iff_exists.mpr ⟨t, ht, by simp⟩
  exact Nat.add_lt_add_left hless _

theorem settle_head {t : PoolTask α} {rest : List (PoolTask α)} (h : p.active = t :: rest) (outcome : TaskOutcome β) :
    p.settle t.sequence outcome = (p.finish t outcome).fill := by
  have hfind : p.active.find? (·.sequence = t.sequence) = some t := by
    rw [h]
    exact List.find?_cons_of_pos (by simp)
  unfold settle
  rw [hfind]
  rfl

/-- A pool that works and whose tasks end, in the order in which they start, comes to be idle. -/
theorem isIdle_finishAll (work : α → β) {fuel : Nat} (h : p.Sound) (hw : p.Working) (hready : p.ready = true)
    (hfuel : p.left ≤ fuel) : (p.finishAll work fuel).isIdle = true := by
  induction fuel generalizing p with
  | zero => exact isIdle_iff.mpr (Nat.le_zero.mp hfuel)
  | succ fuel ih =>
    rw [finishAll]
    split
    · next hactive =>
      have hqueue : p.queue = [] := (hw hready).resolve_right fun hfull => by
        have hworkers := h.workers
        rw [hactive, List.length_nil] at hfull
        omega
      rw [isIdle_iff, left, hqueue, hactive]
      rfl
    · next t rest hactive =>
      have hleft := left_finish_lt (p := p) (t := t) (by simp [hactive]) (.completed (work t.input))
      rw [settle_head hactive]
      have hfinish := h.finish t (.completed (work t.input))
      refine ih hfinish.fill hfinish.working_fill ?_ ?_
      · obtain ⟨queue, active, history, heq⟩ := (p.finish t (.completed (work t.input))).fill_frame
        rw [heq]
        exact hready
      · rw [left_fill]
        omega

theorem exists_afterAll_eq_finishAll (work : α → β) (fuel : Nat) (p : TaskPool α β) :
    ∃ calls, p.finishAll work fuel = p.afterAll calls := by
  induction fuel generalizing p with
  | zero => exact ⟨[], rfl⟩
  | succ fuel ih =>
    rw [finishAll]
    split
    · exact ⟨[], rfl⟩
    · next t rest _ =>
      obtain ⟨calls, hcalls⟩ := ih (p.settle t.sequence (.completed (work t.input)))
      exact ⟨.complete t.sequence (work t.input) :: calls, hcalls⟩

/-! Those that wait for a pool to be idle. -/

def Attentive (p : TaskPool α β) : Prop := ∀ ticket, (ticket, .idle) ∈ p.waiting → p.isIdle = false

/-- Who waits for tasks does not come to wait for a pool to be idle, nor is told that it is. -/
theorem observe_batch_ne_idle (idle : Bool) (s : SettledTask α β) (sequences : List Nat)
    (ended : List (SettledTask α β)) : observe idle s (.batch sequences ended) ≠ .inl .idle ∧
      observe idle s (.batch sequences ended) ≠ .inr .idle := by
  rw [observe]
  dsimp only
  split_ifs <;> simp

theorem idle_of_observe {idle : Bool} {s : SettledTask α β} {a : Awaited α β} (h : observe idle s a = .inl .idle) :
    idle = true := by
  cases a with
  | batch sequences ended => exact absurd h (observe_batch_ne_idle idle s sequences ended).1
  | idle =>
    cases idle with
    | true => rfl
    | false => cases h

theorem busy_of_observe {idle : Bool} {s : SettledTask α β} {a : Awaited α β} (h : observe idle s a = .inr .idle) :
    idle = false := by
  cases a with
  | batch sequences ended => exact absurd h (observe_batch_ne_idle idle s sequences ended).2
  | idle =>
    cases idle with
    | true => cases h
    | false => rfl

/-- Who waits is told as soon as the last task has ended. -/
theorem attentive_announce (p : TaskPool α β) (s : SettledTask α β) : (p.announce s).Attentive := by
  intro ticket hwaits
  obtain ⟨a, -, ha⟩ := mem_waiting_announce.mp hwaits
  exact busy_of_observe ha

theorem attentive_announceAll (p : TaskPool α β) {ss : List (SettledTask α β)} (hss : ss ≠ []) :
    (p.announceAll ss).Attentive := by
  obtain ⟨front, s, rfl⟩ := (List.eq_nil_or_concat' ss).resolve_left hss
  rw [announceAll, List.foldl_append]
  exact attentive_announce _ s

namespace Attentive

theorem fill (h : p.Attentive) : p.fill.Attentive := by
  intro ticket hwaits
  rw [isIdle_fill]
  refine h ticket ?_
  obtain ⟨queue, active, history, heq⟩ := p.fill_frame
  rwa [heq] at hwaits

theorem submit (h : p.Attentive) (inputs : List α) : (p.submit inputs).Attentive := by
  intro ticket hwaits
  have hbusy := h ticket hwaits
  simp only [isIdle, TaskPool.submit, Bool.and_eq_false_iff, List.isEmpty_eq_false_iff] at hbusy ⊢
  exact hbusy.imp_left (List.append_ne_nil_of_left_ne_nil · _)

theorem cancelPending (h : p.Attentive) : p.cancelPending.Attentive := by
  rw [cancelPending_eq]
  by_cases hqueue : p.queue = []
  · intro ticket hwaits
    simp only [cancellations, hqueue, List.map_nil] at hwaits ⊢
    have hbusy := h ticket hwaits
    rwa [isIdle, hqueue] at hbusy
  · exact attentive_announceAll _ (by simpa [cancellations] using hqueue)

theorem awaitIdle (h : p.Attentive) (ticket : Nat) : (p.awaitIdle ticket).Attentive := by
  unfold TaskPool.awaitIdle
  split
  · exact h
  · next hbusy => exact fun _ _ => Bool.eq_false_iff.mpr hbusy

theorem after (h : p.Attentive) (c : PoolCall α β) : (p.after c).Attentive := by
  have hsettle : ∀ sequence outcome, (p.settle sequence outcome).Attentive := by
    intro sequence outcome
    rcases p.settle_cases sequence outcome with heq | ⟨t, -, heq⟩
    · rwa [heq]
    · rw [heq]
      exact (attentive_announce _ _).fill
  cases c with
  | setProcessor => exact h
  | add input =>
    rw [after_add]
    split
    · exact h
    · exact (h.submit [input]).fill
  | batch inputs =>
    rw [TaskPool.after]
    cases hready : p.ready with
    | false =>
      rw [batch_unready hready]
      exact h
    | true =>
      rw [batch_eq hready]
      have hticket : p.ticket.2.Attentive := h
      split
      · exact fill h
      split
      · exact h
      · refine fill fun ticket hwaits => ?_
        rcases List.mem_append.mp hwaits with hwaits | hwaits
        · exact hticket.submit inputs ticket hwaits
        · cases List.mem_singleton.mp hwaits
  | complete sequence value => exact hsettle sequence _
  | fail sequence message => exact hsettle sequence _
  | cancelPending => exact h.cancelPending
  | drain =>
    have hticket : p.ticket.2.Attentive := h
    exact hticket.awaitIdle _
  | shutdown =>
    rw [after_shutdown]
    split
    · exact h
    · have hclosing : ({ p.ticket.2 with shuttingDown := true } : TaskPool α β).Attentive := h
      exact hclosing.cancelPending.awaitIdle _

theorem afterAll (h : p.Attentive) (calls : List (PoolCall α β)) : (p.afterAll calls).Attentive := by
  induction calls generalizing p with
  | nil => exact h
  | cons c calls ih => exact ih (h.after c)

end Attentive

theorem attentive_ofSize (workers : Int) : (ofSize workers : TaskPool α β).Attentive := nofun

/-- The caller with this ticket waits for the pool to be idle, or was told that it is. -/
def Asked (p : TaskPool α β) (ticket : Nat) : Prop := (ticket, .idle) ∈ p.waiting ∨ (ticket, .idle) ∈ p.replies

namespace Asked

theorem announce (h : p.Asked ticket) (s : SettledTask α β) : (p.announce s).Asked ticket := by
  rcases h with hwaits | htold
  · cases hidle : p.isIdle with
    | true => exact .inr (mem_replies_announce.mpr (.inr ⟨_, hwaits, by rw [hidle]; rfl⟩))
    | false => exact .inl (mem_waiting_announce.mpr ⟨_, hwaits, by rw [hidle]; rfl⟩)
  · exact .inr (List.mem_append_left _ htold)

theorem announceAll (h : p.Asked ticket) (ss : List (SettledTask α β)) : (p.announceAll ss).Asked ticket := by
  induction ss generalizing p with
  | nil => exact h
  | cons s ss ih => exact ih (h.announce s)

theorem after (h : p.Asked ticket) (c : PoolCall α β) : (p.after c).Asked ticket := by
  obtain ⟨queue, active, ss, -, hquiet⟩ := p.exists_quiet c
  have hsame : ({ p with queue, active } : TaskPool α β).Asked ticket := h
  exact (hsame.announceAll ss).imp (hquiet.waiting_subset ·) (hquiet.replies_subset ·)

theorem afterAll (h : p.Asked ticket) (calls : List (PoolCall α β)) : (p.afterAll calls).Asked ticket := by
  induction calls generalizing p with
  | nil => exact h
  | cons c calls ih => exact ih (h.after c)

end Asked

/-- Whatever is asked of a pool: with a processor, all its workers are busy or no task waits, unless tasks were queued
before it was given its first processor and no call has looked at the queue since; then tasks wait and nothing runs.
Otherwise the tasks that run only have to end for the pool to come to be idle, and who waits for that is told. -/
theorem working_iff_not_stalls (workers : Int) (calls : List (PoolCall α β)) :
    let p : TaskPool α β := (ofSize workers).afterAll calls
    ((p.ready = true → p.queue = [] ∨ p.active.length = p.maxWorkers) ↔ ¬Stalls workers calls) ∧
    (Stalls workers calls → p.ready = true ∧ p.queue ≠ [] ∧ p.active = []) ∧
    (p.ready = true → ¬Stalls workers calls → ∀ work : α → β,
      let q := p.finishAll work (p.queue.length + p.active.length)
      q.isIdle = true ∧ ∀ ticket, (ticket, .idle) ∈ p.waiting → p.active ≠ [] ∧ (ticket, .idle) ∈ q.replies) := by
  intro p
  have hsound : p.Sound := (sound_ofSize workers).afterAll calls
  have hattentive : p.Attentive := (attentive_ofSize workers).afterAll calls
  have hworking : ¬Stalls workers calls → p.Working := (working_or_stalls workers calls).resolve_right
  refine ⟨⟨fun hw hstalls => hsound.not_working hstalls.stalled hw, hworking⟩, fun hstalls => ?_, ?_⟩
  · exact ⟨hstalls.stalled.ready, hstalls.stalled.waits, hstalls.stalled.still⟩
  · intro hready hnot work q
    have hidle : q.isIdle = true := isIdle_finishAll work hsound (hworking hnot) hready (Nat.le_refl _)
    obtain ⟨later, hlater⟩ := exists_afterAll_eq_finishAll work (p.queue.length + p.active.length) p
    have hattentive' : q.Attentive := by
      rw [show q = p.afterAll later from hlater]
      exact hattentive.afterAll later
    refine ⟨hidle, fun ticket hwaits => ⟨fun hactive => ?_, ?_⟩⟩
    · -- with nothing to run for, no task would wait
      have hbusy := hattentive ticket hwaits
      have hworkers := hsound.workers
      rcases hworking hnot hready with hqueue | hfull
      · simp [isIdle, hqueue, hactive] at hbusy
      · rw [hactive, List.length_nil] at hfull
        omega
    · have hasked : q.Asked ticket := by
        rw [show q = p.afterAll later from hlater]
        exact Asked.afterAll (.inl hwaits) later
      exact hasked.resolve_left fun hwaits' => nomatch hidle.symm.trans (hattentive' ticket hwaits')

/-- Two workers and three tasks: one task waits beside two that run, and somebody waits for the pool to be idle. -/
theorem working_iff_not_stalls_drained :
    let calls : List (PoolCall Nat Nat) := [.setProcessor, .batch [10, 20, 30], .drain]
    let p : TaskPool Nat Nat := (ofSize 2).afterAll calls
    p.ready = true ∧ ¬Stalls 2 calls ∧ p.queue ≠ [] ∧ (1, .idle) ∈ p.waiting ∧ p.active ≠ [] ∧
      (1, .idle) ∈ (p.finishAll (· + 1) (p.queue.length + p.active.length)).replies := by
  intro calls p
  obtain ⟨hiff, -, hdone⟩ := working_iff_not_stalls 2 calls
  have hready : p.ready = true := by decide
  have hwaits : (1, .idle) ∈ p.waiting := by decide
  have hnot : ¬Stalls 2 calls := hiff.mp (by decide)
  exact ⟨hready, hnot, by decide, hwaits, (hdone hready hnot (· + 1)).2 1 hwaits⟩

/-- A task that is queued before there is a processor waits beside a free worker when there is one. Who waits for the
pool to be idle waits for a task that nobody starts, as no task can end. -/
theorem queued_before_processor_waits :
    let p : TaskPool Nat Nat := (ofSize 1).afterAll [.add 7, .setProcessor]
    ¬(p.ready = true → p.queue = [] ∨ p.active.length = p.maxWorkers) ∧ (0, .idle) ∈ (p.after .drain).waiting ∧
      ∀ sequence value, (p.after .drain).after (.complete sequence value) = p.after .drain :=
  ⟨by decide, by decide, fun _ _ => rfl⟩

end TaskPool

end RuleScan
