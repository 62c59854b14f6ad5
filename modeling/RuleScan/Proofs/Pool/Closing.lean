import RuleScan.Proofs.Pool.Idling

/-! A pool that shuts down. From the first call on nothing is queued and nothing starts, so its tasks can only end, and
that call returns as soon as none runs. Main statement: a call that shuts the pool down returns only when the pool has
stopped, unless it comes in while the pool is shutting down already and tasks still run; such a call returns at once. -/
namespace RuleScan

namespace TaskPool

variable {α β : Type} {p : TaskPool α β} {ticket : Nat}

/-- The pool takes no more tasks, and none is queued. -/
structure Closed (p : TaskPool α β) : Prop where
  closing : p.shuttingDown = true
  queue : p.queue = []

namespace Closed

/-- All that a call can do to a closed pool: change a flag, answer its caller at once, let it wait for the pool to be
idle, or end a task. -/
theorem after_cases (h : p.Closed) (c : PoolCall α β) : ∃ ready paused,
    p.after c = { p with ready, paused } ∨
    (∃ r, p.after c = { p.ticket.2.reply p.tickets r with ready, paused }) ∨
    p.after c = { p.ticket.2.await p.tickets .idle with ready, paused } ∨
    ∃ t ∈ p.active, ∃ outcome, p.after c = { p.finish t outcome with ready, paused } := by
  have hsettle : ∀ sequence outcome, p.settle sequence outcome = p ∨
      ∃ t ∈ p.active, p.settle sequence outcome = p.finish t outcome := by
    intro sequence outcome
    refine (p.settle_cases sequence outcome).imp_right ?_
    rintro ⟨t, ht, heq⟩
    have hqueue : (p.finish t outcome).queue = [] := h.queue
    exact ⟨t, ht, heq.trans (fill_of_queue_eq_nil hqueue)⟩
  refine ⟨(p.after c).ready, (p.after c).paused, ?_⟩
  cases c with
  | setProcessor => exact .inl rfl
  | add input =>
    have hrefused : p.after (.add input) = p := by rw [after_add, if_pos h.closing]
    rw [hrefused]
    exact .inl rfl
  | batch inputs =>
    rw [TaskPool.after]
    cases hready : p.ready with
    | false =>
      rw [batch_unready hready]
      exact .inr (.inl ⟨_, rfl⟩)
    | true =>
      rw [batch_eq hready]
      split
      · have hqueue : (p.ticket.2.reply p.tickets (.results [])).queue = [] := h.queue
        rw [fill_of_queue_eq_nil hqueue]
        exact .inr (.inl ⟨_, rfl⟩)
      · rw [if_pos h.closing]
        exact .inr (.inl ⟨_, rfl⟩)
  | complete sequence value =>
    rcases hsettle sequence (.completed value) with heq | ⟨t, ht, heq⟩
    · exact .inl (by rw [TaskPool.after, heq])
    · exact .inr (.inr (.inr ⟨t, ht, _, by rw [TaskPool.after, heq]⟩))
  | fail sequence message =>
    rcases hsettle sequence (.failed message) with heq | ⟨t, ht, heq⟩
    · exact .inl (by rw [TaskPool.after, heq])
    · exact .inr (.inr (.inr ⟨t, ht, _, by rw [TaskPool.after, heq]⟩))
  | cancelPending =>
    have hsame : p.cancelPending = p := by
      rw [cancelPending_eq, cancellations, h.queue]
      cases p
      cases h.queue
      rfl
    rw [TaskPool.after, hsame]
    exact .inl rfl
  | drain =>
    have hdrain : p.after .drain = p.ticket.2.awaitIdle p.tickets := rfl
    rw [hdrain]
    by_cases hidle : p.ticket.2.isIdle = true
    · rw [awaitIdle, if_pos hidle]
      exact .inr (.inl ⟨.idle, rfl⟩)
    · rw [awaitIdle, if_neg hidle]
      exact .inr (.inr (.inl rfl))
  | shutdown =>
    rw [after_shutdown, if_pos h.closing]
    exact .inr (.inl ⟨.idle, rfl⟩)

/-- A closed pool stays closed, no task starts, and those that run can only end. -/
theorem after (h : p.Closed) (c : PoolCall α β) :
    (p.after c).Closed ∧ (p.after c).started = p.started ∧ (p.after c).active ⊆ p.active := by
  obtain ⟨ready, paused, heq | ⟨r, heq⟩ | heq | ⟨t, -, outcome, heq⟩⟩ := h.after_cases c
  · rw [heq]
    exact ⟨⟨h.closing, h.queue⟩, rfl, List.Subset.refl _⟩
  · rw [heq]
    exact ⟨⟨h.closing, h.queue⟩, rfl, List.Subset.refl _⟩
  · rw [heq]
    exact ⟨⟨h.closing, h.queue⟩, rfl, List.Subset.refl _⟩
  · rw [heq]
    exact ⟨⟨h.closing, h.queue⟩, started_announce _ _, List.filter_subset_self _⟩

theorem afterAll (h : p.Closed) (calls : List (PoolCall α β)) :
    (p.afterAll calls).Closed ∧ (p.afterAll calls).started = p.started ∧ (p.afterAll calls).active ⊆ p.active := by
  induction calls generalizing p with
  | nil => exact ⟨h, rfl, List.Subset.refl _⟩
  | cons c calls ih =>
    obtain ⟨hclosed, hstarted, hactive⟩ := h.after c
    obtain ⟨hclosed', hstarted', hactive'⟩ := ih hclosed
    exact ⟨hclosed', hstarted'.trans hstarted, List.Subset.trans hactive' hactive⟩

end Closed

/-- A closed pool that tells the caller with this ticket that it is idle only when nothing runs. -/
structure Truthful (p : TaskPool α β) (ticket : Nat) : Prop where
  closed : p.Closed
  earlier : ticket < p.tickets
  told : (ticket, .idle) ∈ p.replies → p.active = []

theorem Truthful.after (h : p.Truthful ticket) (c : PoolCall α β) : (p.after c).Truthful ticket := by
  refine ⟨(h.closed.after c).1, ?_, ?_⟩
  · obtain ⟨ready, paused, heq | ⟨r, heq⟩ | heq | ⟨t, -, outcome, heq⟩⟩ := h.closed.after_cases c
    · exact heq ▸ h.earlier
    · exact heq ▸ Nat.lt_succ_of_lt h.earlier
    · exact heq ▸ Nat.lt_succ_of_lt h.earlier
    · exact heq ▸ h.earlier
  · intro htold
    have hkept : (ticket, .idle) ∈ p.replies → (p.after c).active = [] := fun hbefore =>
      List.subset_nil.mp (h.told hbefore ▸ (h.closed.after c).2.2)
    obtain ⟨ready, paused, heq | ⟨r, heq⟩ | heq | ⟨t, -, outcome, heq⟩⟩ := h.closed.after_cases c
    · rw [heq] at htold
      exact hkept htold
    · -- the caller that is answered has a ticket of its own
      rw [heq] at htold
      refine hkept ((List.mem_append.mp htold).resolve_right fun hnew => ?_)
      have hticket := congrArg Prod.fst (List.mem_singleton.mp hnew)
      exact absurd hticket (Nat.ne_of_lt h.earlier)
    · rw [heq] at htold
      exact hkept htold
    · have htold' : (ticket, .idle) ∈ (p.finish t outcome).replies := by rwa [heq] at htold
      rcases mem_replies_announce.mp htold' with hbefore | ⟨a, -, ha⟩
      · exact hkept hbefore
      · have hidle := idle_of_observe ha
        rw [heq]
        exact List.isEmpty_iff.mp (Bool.and_eq_true_iff.mp hidle).2

theorem Truthful.afterAll (h : p.Truthful ticket) (calls : List (PoolCall α β)) :
    (p.afterAll calls).Truthful ticket := by
  induction calls generalizing p with
  | nil => exact h
  | cons c calls ih => exact ih (h.after c)

/-- The first call that shuts the pool down cancels what is queued and asks whether the pool is idle. -/
theorem after_first_shutdown (hopen : p.shuttingDown = false) :
    p.after .shutdown = ({ p.ticket.2 with shuttingDown := true }.cancelPending).awaitIdle p.tickets := by
  rw [after_shutdown, if_neg (Bool.eq_false_iff.mp hopen)]

/-- No call that shuts the pool down starts a task or ends one that runs. -/
theorem running_after_shutdown (p : TaskPool α β) :
    (p.after .shutdown).started = p.started ∧ (p.after .shutdown).active = p.active := by
  rw [after_shutdown]
  split
  · exact ⟨rfl, rfl⟩
  · let q : TaskPool α β := { p.ticket.2 with shuttingDown := true }
    obtain ⟨waiting, replies, hidle⟩ := q.cancelPending.awaitIdle_frame p.tickets
    obtain ⟨waiting', replies', history, hcancel⟩ := q.cancelPending_frame
    have hstarted : q.cancelPending.started = p.started := by
      rw [cancelPending_eq, started_announceAll]
      rfl
    have hactive : q.cancelPending.active = p.active := (congrArg TaskPool.active hcancel).trans rfl
    rw [hidle]
    exact ⟨hstarted, hactive⟩

theorem asked_awaitIdle (p : TaskPool α β) (ticket : Nat) : (p.awaitIdle ticket).Asked ticket := by
  unfold awaitIdle
  split
  · exact .inr (List.mem_append_right _ (List.mem_singleton_self _))
  · exact .inl (List.mem_append_right _ (List.mem_singleton_self _))

theorem Sound.closed_after_shutdown (h : p.Sound) : (p.after .shutdown).Closed := by
  have hclosing : (p.after .shutdown).shuttingDown = true := by
    have hterms := (Prod.mk.inj (Prod.mk.inj (p.terms_after_call .shutdown)).2).2
    rwa [PoolCall.isShutdown, Bool.or_true] at hterms
  exact ⟨hclosing, (h.after .shutdown).closed hclosing⟩

/-- The first call that shuts the pool down does not return while a task runs. -/
theorem truthful_after_shutdown (hsound : p.Sound) (hticketed : p.Ticketed) (hopen : p.shuttingDown = false) :
    (p.after .shutdown).Truthful p.tickets := by
  have hticketed' := hticketed.after .shutdown
  have hclosed := hsound.closed_after_shutdown
  obtain ⟨waiting, replies, history, hcancel⟩ := { p.ticket.2 with shuttingDown := true }.cancelPending_frame
  rw [after_first_shutdown hopen] at hticketed' hclosed ⊢
  rw [hcancel] at hticketed' hclosed ⊢
  unfold awaitIdle at hticketed' hclosed ⊢
  split
  · next hidle =>
    have hactive : p.active = [] := List.isEmpty_iff.mp (Bool.and_eq_true_iff.mp hidle).2
    exact ⟨⟨rfl, rfl⟩, Nat.lt_succ_self _, fun _ => hactive⟩
  · next hbusy =>
    rw [if_neg hbusy] at hticketed'
    refine ⟨⟨rfl, rfl⟩, Nat.lt_succ_self _, fun htold => ?_⟩
    have hnone := hticketed'.repliesTo_of_waiting (List.mem_append_right _ (List.mem_singleton_self _))
    rw [hticketed'.repliesTo_of_mem htold] at hnone
    cases hnone

/-- What the first call that shuts the pool down gets: its return, as soon as nothing runs. -/
theorem repliesTo_first_shutdown (hsound : p.Sound) (hticketed : p.Ticketed) (hattentive : p.Attentive)
    (hopen : p.shuttingDown = false) (later : List (PoolCall α β)) :
    (p.afterAll (.shutdown :: later)).repliesTo p.tickets =
      if (p.afterAll (.shutdown :: later)).active = [] then [.idle] else [] := by
  let q := p.afterAll (.shutdown :: later)
  have htruthful : q.Truthful p.tickets := (truthful_after_shutdown hsound hticketed hopen).afterAll later
  have hasked : q.Asked p.tickets := by
    refine Asked.afterAll ?_ later
    rw [after_first_shutdown hopen]
    exact asked_awaitIdle _ _
  have hticketed' : q.Ticketed := hticketed.afterAll _
  show q.repliesTo p.tickets = if q.active = [] then [.idle] else []
  split
  · next hactive =>
    refine hticketed'.repliesTo_of_mem (hasked.resolve_left fun hwaits => ?_)
    have hbusy := hattentive.afterAll (.shutdown :: later) p.tickets hwaits
    simp [isIdle, show (p.afterAll (.shutdown :: later)).active = [] from hactive,
      show (p.afterAll (.shutdown :: later)).queue = [] from htruthful.closed.queue] at hbusy
  · next hactive =>
    exact hticketed'.repliesTo_of_waiting (hasked.resolve_right fun htold => hactive (htruthful.told htold))

/-- A later call that shuts the pool down returns at once. -/
theorem repliesTo_repeated_shutdown (hticketed : p.Ticketed) (hclosing : p.shuttingDown = true)
    (later : List (PoolCall α β)) : (p.afterAll (.shutdown :: later)).repliesTo p.tickets = [.idle] := by
  have hreplied : ∀ {q : TaskPool α β} (calls : List (PoolCall α β)), (p.tickets, .idle) ∈ q.replies →
      (p.tickets, .idle) ∈ (q.afterAll calls).replies := by
    intro q calls hq
    induction calls generalizing q with
    | nil => exact hq
    | cons c calls ih => exact ih (replies_subset_after q c hq)
  refine (hticketed.afterAll _).repliesTo_of_mem (hreplied later ?_)
  rw [after_shutdown, if_pos hclosing]
  exact List.mem_append_right _ (List.mem_singleton_self _)

/-- Once a call that shuts the pool down has returned, which comes in after these calls, nothing is queued or runs, and
nothing ever starts again. -/
def Stops (workers : Int) (before : List (PoolCall α β)) : Prop :=
  let p : TaskPool α β := (ofSize workers).afterAll before
  ∀ later, (p.afterAll (.shutdown :: later)).repliesTo p.tickets ≠ [] → ∀ more,
    let q := p.afterAll (.shutdown :: later ++ more)
    q.queue = [] ∧ q.active = [] ∧ q.started = (p.afterAll (.shutdown :: later)).started

/-- Whatever is asked of a pool: once a call that shuts it down has returned, the pool has stopped for good, exactly if
the call does not come in while tasks still run after an earlier one. From any such call on nothing is queued and nothing
starts. The first one returns when nothing runs, and the others return at once. -/
theorem stops_iff (workers : Int) (before : List (PoolCall α β)) :
    let p : TaskPool α β := (ofSize workers).afterAll before
    (Stops workers before ↔ (before.any (·.isShutdown) = true → p.active = [])) ∧
    ∀ later, let q := p.afterAll (.shutdown :: later)
      q.queue = [] ∧ q.started = p.started ∧
      q.repliesTo p.tickets = if before.any (·.isShutdown) = true ∨ q.active = [] then [.idle] else [] := by
  intro p
  have hsound : p.Sound := (sound_ofSize workers).afterAll before
  have hticketed : p.Ticketed := (ticketed_ofSize workers).afterAll before
  have hattentive : p.Attentive := (attentive_ofSize workers).afterAll before
  have hclosing : p.shuttingDown = before.any (·.isShutdown) := by
    rw [show p.shuttingDown = _ from shuttingDown_afterAll _ before]
    exact Bool.false_or _
  have hclosed := hsound.closed_after_shutdown
  have hreplies : ∀ later, (p.afterAll (.shutdown :: later)).repliesTo p.tickets =
      if before.any (·.isShutdown) = true ∨ (p.afterAll (.shutdown :: later)).active = [] then [.idle] else [] := by
    intro later
    rw [← hclosing]
    cases hshut : p.shuttingDown with
    | true => rw [repliesTo_repeated_shutdown hticketed hshut, if_pos (.inl rfl)]
    | false =>
      rw [repliesTo_first_shutdown hsound hticketed hattentive hshut]
      simp only [Bool.false_eq_true, false_or]
  obtain ⟨hstarted, hactive⟩ := running_after_shutdown p
  refine ⟨⟨fun hstops hshut => ?_, fun hstill later hreturned more => ?_⟩, fun later => ?_⟩
  · have hreturned : (p.afterAll [.shutdown]).repliesTo p.tickets ≠ [] := by
      rw [hreplies, if_pos (.inl hshut)]
      exact nofun
    exact hactive.symm.trans (hstops [] hreturned []).2.1
  · obtain ⟨hlater, -, hended⟩ := hclosed.afterAll later
    have hnone : (p.afterAll (.shutdown :: later)).active = [] := by
      by_contra hrunning
      rw [hreplies, if_neg] at hreturned
      · exact hreturned rfl
      · rintro (hshut | hnone)
        · exact hrunning (List.subset_nil.mp (hstill hshut ▸ hactive ▸ hended))
        · exact hrunning hnone
    obtain ⟨hmore, hstarted', hended'⟩ := hlater.afterAll more
    rw [afterAll_append]
    exact ⟨hmore.queue, List.subset_nil.mp (hnone ▸ hended'), hstarted'⟩
  · obtain ⟨hlater, hstarted', -⟩ := hclosed.afterAll later
    exact ⟨hlater.queue, hstarted'.trans hstarted, hreplies later⟩

/-- A second call comes in when the only task has ended and the first call has returned, and a third one after that. -/
theorem stops_iff_repeated :
    let before : List (PoolCall Nat Nat) := [.setProcessor, .add 10, .shutdown, .complete 0 11, .shutdown]
    let p : TaskPool Nat Nat := (ofSize 1).afterAll before
    (before.any (·.isShutdown) = true → p.active = []) ∧ Stops 1 before := by
  intro before p
  have hnone : p.active = [] := by decide
  exact ⟨fun _ => hnone, (stops_iff 1 before).1.mpr fun _ => hnone⟩

/-- A second call that comes in while the first one waits for a task returns at once, and the task runs on. -/
theorem overlapping_shutdown_returns :
    let before : List (PoolCall Nat Nat) := [.setProcessor, .add 10, .shutdown]
    let p : TaskPool Nat Nat := (ofSize 1).afterAll before
    (p.after .shutdown).repliesTo 0 = [] ∧ (p.after .shutdown).repliesTo 1 = [.idle] ∧
      (p.after .shutdown).active = [⟨0, 10⟩] ∧ ¬Stops 1 before := by
  intro before p
  exact ⟨rfl, rfl, rfl, fun hstops => nomatch (hstops [] nofun []).2.1⟩

end TaskPool

end RuleScan
