import Mathlib.Data.List.Perm.Subperm
import RuleScan.Proofs.Pool.Calls

/-! What the callers of a pool get. A call tells the callers that wait of the tasks that it ends, each of which
ends once, and then answers its own caller or lets it wait. So the caller of a batch gets exactly its tasks, in the
order in which they ended, whatever else is asked of the pool. -/
namespace RuleScan

namespace TaskPool

variable {α β : Type} {p q : TaskPool α β} {inputs : List α}

/-- Nothing has ended between the two pools, and at most one caller has come, who was answered or waits. -/
structure Quiet (p q : TaskPool α β) : Prop where
  history : p.history <+: q.history
  settled : q.settled = p.settled
  callers : q.tickets = p.tickets ∧ q.waiting = p.waiting ∧ q.replies = p.replies ∨
    (∃ r, q.tickets = p.tickets + 1 ∧ q.waiting = p.waiting ∧ q.replies = p.replies ++ [(p.tickets, r)]) ∨
      ∃ a, q.tickets = p.tickets + 1 ∧ q.waiting = p.waiting ++ [(p.tickets, a)] ∧ q.replies = p.replies

namespace Quiet

theorem of_eq (hhistory : q.history = p.history) (htickets : q.tickets = p.tickets) (hwaiting : q.waiting = p.waiting)
    (hreplies : q.replies = p.replies) : Quiet p q :=
  ⟨hhistory ▸ List.prefix_rfl, by simp only [TaskPool.settled, hhistory], .inl ⟨htickets, hwaiting, hreplies⟩⟩

theorem refl (p : TaskPool α β) : Quiet p p := of_eq rfl rfl rfl rfl

theorem fill (h : Quiet p q) : Quiet p q.fill := by
  have hsettled := q.settled_fill
  have hhistory : q.history <+: q.fill.history := by
    unfold TaskPool.fill
    split
    · exact List.prefix_rfl
    · exact List.prefix_append _ _
  obtain ⟨queue, active, history, heq⟩ := q.fill_frame
  rw [heq] at hsettled hhistory ⊢
  exact ⟨h.history.trans hhistory, hsettled.trans h.settled, h.callers⟩

theorem reply (p : TaskPool α β) (r : PoolReply α β) : Quiet p (p.ticket.2.reply p.tickets r) :=
  ⟨List.prefix_rfl, rfl, .inr (.inl ⟨r, rfl, rfl, rfl⟩)⟩

theorem await (p : TaskPool α β) (a : Awaited α β) : Quiet p (p.ticket.2.await p.tickets a) :=
  ⟨List.prefix_rfl, rfl, .inr (.inr ⟨a, rfl, rfl, rfl⟩)⟩

theorem awaitIdle (p : TaskPool α β) : Quiet p (p.ticket.2.awaitIdle p.tickets) := by
  unfold TaskPool.awaitIdle
  split
  · exact reply p .idle
  · exact await p .idle

theorem waiting_subset (h : Quiet p q) : p.waiting ⊆ q.waiting := by
  rcases h.callers with ⟨-, heq, -⟩ | ⟨r, -, heq, -⟩ | ⟨a, -, heq, -⟩ <;> simp [heq]

theorem replies_subset (h : Quiet p q) : p.replies ⊆ q.replies := by
  rcases h.callers with ⟨-, -, heq⟩ | ⟨r, -, -, heq⟩ | ⟨a, -, -, heq⟩ <;> simp [heq]

end Quiet

/-- Telling of tasks does not look at tickets or at what is shut down. -/
theorem announceAll_with (p : TaskPool α β) (ss : List (SettledTask α β)) (tickets : Nat) (shuttingDown : Bool) :
    { p with tickets, shuttingDown }.announceAll ss = { p.announceAll ss with tickets, shuttingDown } := by
  induction ss generalizing p with
  | nil => rfl
  | cons s ss ih => exact ih (p.announce s)

/-- What a call does: it ends some tasks that were queued or running, and is quiet otherwise. -/
theorem exists_quiet (p : TaskPool α β) (c : PoolCall α β) :
    ∃ queue active ss, (ss.map (·.task)).Sublist (p.queue ++ p.active) ∧
      Quiet ({ p with queue, active }.announceAll ss) (p.after c) := by
  have hnothing : Quiet p (p.after c) → ∃ queue active ss, (ss.map (·.task)).Sublist (p.queue ++ p.active) ∧
      Quiet ({ p with queue, active }.announceAll ss) (p.after c) :=
    fun hquiet => ⟨p.queue, p.active, [], List.nil_sublist _, hquiet⟩
  have hsettle : ∀ sequence outcome, ∃ queue active ss, (ss.map (·.task)).Sublist (p.queue ++ p.active) ∧
      Quiet ({ p with queue, active }.announceAll ss) (p.settle sequence outcome) := by
    intro sequence outcome
    rcases p.settle_cases sequence outcome with heq | ⟨t, ht, heq⟩
    · rw [heq]
      exact ⟨p.queue, p.active, [], List.nil_sublist _, Quiet.refl p⟩
    · rw [heq]
      exact ⟨p.queue, _, [⟨t, outcome⟩], List.singleton_sublist.mpr (List.mem_append_right _ ht),
        (Quiet.refl (p.finish t outcome)).fill⟩
  have hcancel : (p.cancellations.map (·.task)).Sublist (p.queue ++ p.active) := by
    have hqueue : p.cancellations.map (·.task) = p.queue := by simp [cancellations, Function.comp_def]
    rw [hqueue]
    exact List.sublist_append_left _ _
  cases c with
  | setProcessor => exact hnothing (Quiet.of_eq rfl rfl rfl rfl)
  | add input =>
    refine hnothing ?_
    rw [after_add]
    split
    · exact Quiet.refl p
    · exact (Quiet.of_eq rfl rfl rfl rfl : Quiet p (p.submit [input])).fill
  | batch inputs =>
    refine hnothing ?_
    rw [TaskPool.after]
    cases hready : p.ready with
    | false =>
      rw [batch_unready hready]
      exact Quiet.reply p _
    | true =>
      rw [batch_eq hready]
      split
      · exact (Quiet.reply p _).fill
      split
      · exact ⟨List.prefix_rfl, rfl, .inr (.inl ⟨_, rfl, rfl, rfl⟩)⟩
      · refine Quiet.fill ?_
        exact ⟨List.prefix_rfl, rfl, .inr (.inr ⟨_, rfl, rfl, rfl⟩)⟩
  | complete sequence value => exact hsettle sequence _
  | fail sequence message => exact hsettle sequence _
  | cancelPending =>
    refine ⟨[], p.active, p.cancellations, hcancel, ?_⟩
    rw [TaskPool.after, cancelPending_eq]
    exact Quiet.refl _
  | drain => exact hnothing (Quiet.awaitIdle p)
  | shutdown =>
    rw [after_shutdown]
    split
    · exact ⟨p.queue, p.active, [], List.nil_sublist _, Quiet.reply p _⟩
    · refine ⟨[], p.active, p.cancellations, hcancel, ?_⟩
      have heq : { p.ticket.2 with shuttingDown := true }.cancelPending =
          { { p with queue := [] }.announceAll p.cancellations with
            tickets := p.tickets + 1, shuttingDown := true } := by
        rw [cancelPending_eq, ← announceAll_with]
        rfl
      obtain ⟨waiting, replies, history, hframe⟩ := announceAll_frame { p with queue := [] } p.cancellations
      rw [heq, hframe]
      have hidle := Quiet.awaitIdle { p with queue := [], waiting, replies, history, shuttingDown := true }
      exact ⟨hidle.history, hidle.settled, hidle.callers⟩

/-- The tasks that a call ends had not ended before. -/
theorem Placed.exists_quiet (h : Placed inputs p) (c : PoolCall α β) :
    ∃ queue active ss, ((p.settled ++ ss).map (·.task.sequence)).Nodup ∧
      Quiet ({ p with queue, active }.announceAll ss) (p.after c) := by
  obtain ⟨queue, active, ss, hended, hquiet⟩ := TaskPool.exists_quiet p c
  have hsequences := h.sequences
  rw [List.map_append] at hsequences
  have hss : (ss.map (·.task.sequence)).Sublist ((p.queue ++ p.active).map (·.sequence)) := by
    have hmap := hended.map (·.sequence)
    rwa [List.map_map] at hmap
  have hsettled : (p.settled.map (·.task.sequence)).Nodup := by
    have hright := hsequences.of_append_right
    rwa [List.map_map] at hright
  refine ⟨queue, active, ss, ?_, hquiet⟩
  rw [List.map_append]
  refine hsettled.append (hsequences.of_append_left.sublist hss) fun n hn hn' => ?_
  refine List.disjoint_of_nodup_append hsequences (hss.subset hn') ?_
  rw [List.map_map]
  exact hn

/-- Every caller has a ticket of its own, with which it waits or was answered, once. -/
def Ticketed (p : TaskPool α β) : Prop :=
  (p.waiting.map (·.1) ++ p.replies.map (·.1)).Perm (List.range p.tickets)

/-- Callers that are told something are answered or go on waiting. -/
theorem perm_getLeft_getRight {γ δ : Type} (seen : List (Nat × (γ ⊕ δ))) :
    ((seen.filterMap fun (ticket, r) => r.getRight?.map (ticket, ·)).map (·.1) ++
      (seen.filterMap fun (ticket, r) => r.getLeft?.map (ticket, ·)).map (·.1)).Perm (seen.map (·.1)) := by
  induction seen with
  | nil => exact List.Perm.refl _
  | cons c seen ih =>
    obtain ⟨ticket, reply | awaited⟩ := c
    · exact List.perm_middle.trans (ih.cons ticket)
    · exact ih.cons ticket

theorem Ticketed.announce (h : p.Ticketed) (s : SettledTask α β) : (p.announce s).Ticketed := by
  let seen := p.waiting.map fun x => (x.1, observe p.isIdle s x.2)
  have hseen : seen.map (·.1) = p.waiting.map (·.1) := by simp [seen, Function.comp_def]
  have hparts := perm_getLeft_getRight seen
  rw [hseen] at hparts
  refine List.Perm.trans ?_ h
  show ((p.announce s).waiting.map (·.1) ++
    (p.replies ++ seen.filterMap fun x => x.2.getLeft?.map (x.1, ·)).map (·.1)).Perm _
  rw [List.map_append]
  refine (List.Perm.append_left _ List.perm_append_comm).trans ?_
  rw [← List.append_assoc]
  exact hparts.append_right _

theorem Ticketed.announceAll (h : p.Ticketed) (ss : List (SettledTask α β)) : (p.announceAll ss).Ticketed := by
  induction ss generalizing p with
  | nil => exact h
  | cons s ss ih => exact ih (h.announce s)

theorem Ticketed.quiet (h : p.Ticketed) (hquiet : Quiet p q) : q.Ticketed := by
  unfold Ticketed at h ⊢
  rcases hquiet.callers with ⟨htickets, hwaiting, hreplies⟩ | ⟨r, htickets, hwaiting, hreplies⟩ |
    ⟨a, htickets, hwaiting, hreplies⟩
  · rwa [htickets, hwaiting, hreplies]
  · rw [htickets, hwaiting, hreplies, List.range_succ, List.map_append, ← List.append_assoc]
    exact h.append_right _
  · rw [htickets, hwaiting, hreplies, List.range_succ, List.map_append, List.append_assoc]
    refine (List.Perm.append_left _ List.perm_append_comm).trans ?_
    rw [← List.append_assoc]
    exact h.append_right _

def repliesTo (p : TaskPool α β) (ticket : Nat) : List (PoolReply α β) :=
  (p.replies.filter (·.1 = ticket)).map (·.2)

theorem Ticketed.nodup (h : p.Ticketed) : (p.waiting.map (·.1) ++ p.replies.map (·.1)).Nodup :=
  h.nodup_iff.mpr List.nodup_range

theorem filter_eq_singleton {κ ι : Type} [DecidableEq κ] {entries : List (κ × ι)} {key : κ} {value : ι}
    (h : (entries.map (·.1)).Nodup) (hmem : (key, value) ∈ entries) :
    entries.filter (·.1 = key) = [(key, value)] := by
  induction entries with
  | nil => cases hmem
  | cons entry entries ih =>
    rw [List.map_cons, List.nodup_cons] at h
    rcases List.mem_cons.mp hmem with rfl | hmem
    · rw [List.filter_cons_of_pos (by simp), List.filter_eq_nil_iff.mpr]
      intro other hother hkey
      refine h.1 (List.mem_map.mpr ⟨other, hother, ?_⟩)
      simpa using hkey
    · have hne : entry.1 ≠ key := fun he => h.1 (he ▸ List.mem_map_of_mem (f := (·.1)) hmem)
      rw [List.filter_cons_of_neg (by simpa using hne)]
      exact ih h.2 hmem

theorem Ticketed.repliesTo_of_mem (h : p.Ticketed) {ticket : Nat} {r : PoolReply α β}
    (hr : (ticket, r) ∈ p.replies) : p.repliesTo ticket = [r] := by
  rw [repliesTo, filter_eq_singleton h.nodup.of_append_right hr, List.map_singleton]

theorem Ticketed.repliesTo_of_waiting (h : p.Ticketed) {ticket : Nat} {a : Awaited α β}
    (ha : (ticket, a) ∈ p.waiting) : p.repliesTo ticket = [] := by
  have hnone : p.replies.filter (·.1 = ticket) = [] := by
    refine List.filter_eq_nil_iff.mpr fun other hother hticket => ?_
    have hreplied : ticket ∈ p.replies.map (·.1) := List.mem_map.mpr ⟨other, hother, by simpa using hticket⟩
    exact List.disjoint_of_nodup_append h.nodup (List.mem_map_of_mem (f := (·.1)) ha) hreplied
  rw [repliesTo, hnone, List.map_nil]

/-- Those of some tasks that have ended, in order. -/
def endedOf (p : TaskPool α β) (sequences : List Nat) : List (SettledTask α β) :=
  p.settled.filter (sequences.contains ·.task.sequence)

/-- The caller with this ticket waits for some tasks and knows of all that have ended, or it got all of them. -/
def Served (p : TaskPool α β) (ticket : Nat) (sequences : List Nat) : Prop :=
  (ticket, .batch sequences (p.endedOf sequences)) ∈ p.waiting ∧ (p.endedOf sequences).length ≠ sequences.length ∨
    (ticket, .results (p.endedOf sequences)) ∈ p.replies ∧ (p.endedOf sequences).length = sequences.length

section Served

variable {ticket : Nat} {sequences : List Nat}

theorem Served.quiet (h : p.Served ticket sequences) (hquiet : Quiet p q) : q.Served ticket sequences := by
  have hended : q.endedOf sequences = p.endedOf sequences := by rw [endedOf, endedOf, hquiet.settled]
  unfold Served
  rw [hended]
  exact h.imp (And.imp_left (hquiet.waiting_subset ·)) (And.imp_left (hquiet.replies_subset ·))

theorem mem_waiting_announce {s : SettledTask α β} {a' : Awaited α β} :
    (ticket, a') ∈ (p.announce s).waiting ↔ ∃ a, (ticket, a) ∈ p.waiting ∧ observe p.isIdle s a = .inr a' := by
  simp [TaskPool.announce]

theorem mem_replies_announce {s : SettledTask α β} {r : PoolReply α β} : (ticket, r) ∈ (p.announce s).replies ↔
    (ticket, r) ∈ p.replies ∨ ∃ a, (ticket, a) ∈ p.waiting ∧ observe p.isIdle s a = .inl r := by
  simp [TaskPool.announce]

theorem mem_settled_of_length (hsettled : (p.settled.map (·.task.sequence)).Nodup)
    (hall : (p.endedOf sequences).length = sequences.length) {n : Nat} (hn : n ∈ sequences) :
    n ∈ p.settled.map (·.task.sequence) := by
  have hsublist : (p.endedOf sequences).Sublist p.settled := List.filter_sublist
  have hsubset : (p.endedOf sequences).map (·.task.sequence) ⊆ sequences := by
    intro m hm
    obtain ⟨s, hs, rfl⟩ := List.mem_map.mp hm
    exact List.contains_iff_mem.mp (List.mem_filter.mp hs).2
  have hnodup := hsettled.sublist (hsublist.map (·.task.sequence))
  have hperm := (hnodup.subperm hsubset).perm_of_length_le (by simp [hall])
  exact (hsublist.map _).subset (hperm.mem_iff.mpr hn)

theorem Served.announce (h : p.Served ticket sequences) {s : SettledTask α β}
    (hnew : ((p.settled ++ [s]).map (·.task.sequence)).Nodup) : (p.announce s).Served ticket sequences := by
  rw [List.map_append] at hnew
  have hended : (p.announce s).endedOf sequences =
      p.endedOf sequences ++ if sequences.contains s.task.sequence then [s] else [] := by
    rw [endedOf, settled_announce, List.filter_append]
    congr 1
    by_cases hs : sequences.contains s.task.sequence
    · rw [if_pos hs]
      exact List.filter_cons_of_pos hs
    · rw [if_neg hs]
      exact List.filter_cons_of_neg hs
  unfold Served
  rw [hended]
  rcases h with ⟨hwaiting, hopen⟩ | ⟨hreplied, hall⟩
  · by_cases hs : sequences.contains s.task.sequence
    · have hobserve : observe p.isIdle s (.batch sequences (p.endedOf sequences)) =
          if (p.endedOf sequences ++ [s]).length = sequences.length then .inl (.results (p.endedOf sequences ++ [s]))
          else .inr (.batch sequences (p.endedOf sequences ++ [s])) := if_pos hs
      rw [if_pos hs]
      by_cases hlast : (p.endedOf sequences ++ [s]).length = sequences.length
      · rw [if_pos hlast] at hobserve
        exact .inr ⟨mem_replies_announce.mpr (.inr ⟨_, hwaiting, hobserve⟩), hlast⟩
      · rw [if_neg hlast] at hobserve
        exact .inl ⟨mem_waiting_announce.mpr ⟨_, hwaiting, hobserve⟩, hlast⟩
    · rw [if_neg hs, List.append_nil]
      exact .inl ⟨mem_waiting_announce.mpr ⟨_, hwaiting, if_neg hs⟩, hopen⟩
  · have hother : ¬sequences.contains s.task.sequence := by
      intro hs
      have hmem := mem_settled_of_length hnew.of_append_left hall (List.contains_iff_mem.mp hs)
      exact List.disjoint_of_nodup_append hnew hmem (List.mem_singleton_self _)
    rw [if_neg hother, List.append_nil]
    exact .inr ⟨List.mem_append_left _ hreplied, hall⟩

theorem Served.announceAll (h : p.Served ticket sequences) {ss : List (SettledTask α β)}
    (hnew : ((p.settled ++ ss).map (·.task.sequence)).Nodup) : (p.announceAll ss).Served ticket sequences := by
  induction ss generalizing p with
  | nil => exact h
  | cons s ss ih =>
    rw [← List.singleton_append, ← List.append_assoc] at hnew
    have hfirst : ((p.settled ++ [s]).map (·.task.sequence)).Nodup := by
      rw [List.map_append] at hnew
      exact hnew.of_append_left
    refine ih (h.announce hfirst) ?_
    rwa [settled_announce]

/-- The caller of a batch is kept informed by every call. -/
theorem Served.after (h : p.Served ticket sequences) (hplaced : Placed inputs p) (c : PoolCall α β) :
    (p.after c).Served ticket sequences := by
  obtain ⟨queue, active, ss, hnew, hquiet⟩ := hplaced.exists_quiet c
  have hsame : ({ p with queue, active } : TaskPool α β).Served ticket sequences := h
  exact (hsame.announceAll hnew).quiet hquiet

end Served

theorem Ticketed.after (h : p.Ticketed) (c : PoolCall α β) : (p.after c).Ticketed := by
  obtain ⟨queue, active, ss, -, hquiet⟩ := p.exists_quiet c
  have hsame : ({ p with queue, active } : TaskPool α β).Ticketed := h
  exact (hsame.announceAll ss).quiet hquiet

theorem Ticketed.afterAll (h : p.Ticketed) (calls : List (PoolCall α β)) : (p.afterAll calls).Ticketed := by
  induction calls generalizing p with
  | nil => exact h
  | cons c calls ih => exact ih (h.after c)

theorem prefix_history_announceAll (p : TaskPool α β) (ss : List (SettledTask α β)) :
    p.history <+: (p.announceAll ss).history := by
  induction ss generalizing p with
  | nil => exact List.prefix_rfl
  | cons s ss ih => exact (List.prefix_append _ _).trans (ih (p.announce s))

theorem replies_subset_announceAll (p : TaskPool α β) (ss : List (SettledTask α β)) :
    p.replies ⊆ (p.announceAll ss).replies := by
  induction ss generalizing p with
  | nil => exact List.Subset.refl _
  | cons s ss ih => exact List.Subset.trans (List.subset_append_left _ _) (ih (p.announce s))

/-- What callers got they keep. -/
theorem replies_subset_after (p : TaskPool α β) (c : PoolCall α β) : p.replies ⊆ (p.after c).replies := by
  obtain ⟨queue, active, ss, -, hquiet⟩ := p.exists_quiet c
  exact List.Subset.trans (replies_subset_announceAll { p with queue, active } ss) hquiet.replies_subset

/-- What has happened stays so. -/
theorem prefix_history_after (p : TaskPool α β) (c : PoolCall α β) : p.history <+: (p.after c).history := by
  obtain ⟨queue, active, ss, -, hquiet⟩ := p.exists_quiet c
  exact (prefix_history_announceAll { p with queue, active } ss).trans hquiet.history

/-- What one call keeps, all keep. -/
theorem Placed.afterAll_induction {I : TaskPool α β → Prop}
    (hstep : ∀ {inputs q} (c : PoolCall α β), Placed inputs q → q.ready = true → I q → I (q.after c))
    (h : Placed inputs p) (hready : p.ready = true) (hI : I p) (calls : List (PoolCall α β)) :
    I (p.afterAll calls) := by
  induction calls generalizing p inputs with
  | nil => exact hI
  | cons c calls ih =>
    have hready' : (p.after c).ready = true := (Prod.mk.inj (Prod.mk.inj (terms_after hready c)).2).1
    exact ih (h.after hready c) hready' (hstep c h hready hI)

inductive Status (β : Type) where
  | pending
  | running
  | ended (outcome : TaskOutcome β)

def HasStatus (p : TaskPool α β) (t : PoolTask α) : Status β → Prop
  | .pending => t ∈ p.queue
  | .running => t ∈ p.active
  | .ended outcome => ⟨t, outcome⟩ ∈ p.settled

section Status

variable {t : PoolTask α}

theorem mem_map_task_iff : t ∈ p.settled.map (·.task) ↔ ∃ outcome, p.HasStatus t (.ended outcome) := by
  constructor
  · intro ht
    obtain ⟨⟨task, outcome⟩, hs, rfl⟩ := List.mem_map.mp ht
    exact ⟨outcome, hs⟩
  · rintro ⟨outcome, hs⟩
    exact List.mem_map_of_mem (f := (·.task)) hs

theorem Placed.status_unique (h : Placed inputs p) {s s' : Status β} (hs : p.HasStatus t s)
    (hs' : p.HasStatus t s') : s = s' := by
  have hnodup : (p.queue ++ p.active ++ p.settled.map (·.task)).Nodup := .of_map _ h.sequences
  have hqueueActive := List.disjoint_of_nodup_append hnodup.of_append_left
  have hsettled := List.disjoint_of_nodup_append hnodup
  have hpending : ∀ {outcome}, t ∈ p.queue → ¬p.HasStatus t (.ended outcome) := fun hq he =>
    hsettled (List.mem_append_left _ hq) (mem_map_task_iff.mpr ⟨_, he⟩)
  have hrunning : ∀ {outcome}, t ∈ p.active → ¬p.HasStatus t (.ended outcome) := fun ha he =>
    hsettled (List.mem_append_right _ ha) (mem_map_task_iff.mpr ⟨_, he⟩)
  cases s with
  | pending =>
    cases s' with
    | pending => rfl
    | running => exact (hqueueActive hs hs').elim
    | ended outcome => exact (hpending hs hs').elim
  | running =>
    cases s' with
    | pending => exact (hqueueActive hs' hs).elim
    | running => rfl
    | ended outcome => exact (hrunning hs hs').elim
  | ended outcome =>
    cases s' with
    | pending => exact (hpending hs' hs).elim
    | running => exact (hrunning hs' hs).elim
    | ended outcome' =>
      have hsame := List.inj_on_of_nodup_map hnodup.of_append_right hs hs' rfl
      rw [(SettledTask.mk.inj hsame).2]

theorem Placed.existsUnique_status (h : Placed inputs p) (ht : t ∈ tasksOf inputs) : ∃! s, p.HasStatus t s := by
  have hplace := h.account.mem_iff.mpr ht
  have hexists : ∃ s, p.HasStatus t s := by
    rcases List.mem_append.mp hplace with hplace | hplace
    · rcases List.mem_append.mp hplace with hplace | hplace
      · exact ⟨.pending, hplace⟩
      · exact ⟨.running, hplace⟩
    · obtain ⟨outcome, hended⟩ := mem_map_task_iff.mp hplace
      exact ⟨.ended outcome, hended⟩
  obtain ⟨s, hs⟩ := hexists
  exact ⟨s, hs, fun s' hs' => h.status_unique hs' hs⟩

/-- A task has started exactly if it is running or has ended otherwise than by being cancelled. -/
theorem Placed.mem_started_iff (h : Placed inputs p) :
    t ∈ p.started ↔
      p.HasStatus t .running ∨ ∃ outcome, outcome.isCancelled = false ∧ p.HasStatus t (.ended outcome) := by
  rw [h.begun.mem_iff, List.mem_append]
  refine or_congr_right ⟨fun ht => ?_, ?_⟩
  · obtain ⟨⟨task, outcome⟩, hs, rfl⟩ := List.mem_map.mp ht
    obtain ⟨hmem, hran⟩ := List.mem_filter.mp hs
    exact ⟨outcome, by simpa using hran, hmem⟩
  · rintro ⟨outcome, hran, hended⟩
    refine List.mem_map.mpr ⟨⟨t, outcome⟩, List.mem_filter.mpr ⟨hended, ?_⟩, rfl⟩
    simp [hran]

end Status

/-- What the caller of a batch has got: nothing as long as some task has not ended, and then one result for each
task, in the order in which they ended. -/
structure Answered (p : TaskPool α β) (ticket : Nat) (tasks : List (PoolTask α)) : Prop where
  before : (∃ t ∈ tasks, t ∉ p.settled.map (·.task)) → p.repliesTo ticket = []
  results : (∀ t ∈ tasks, t ∈ p.settled.map (·.task)) →
    ∃ ended, p.repliesTo ticket = [.results ended] ∧ ended.Sublist p.settled ∧ (ended.map (·.task)).Perm tasks

/-- A batch that is taken is served from the start. -/
theorem Placed.served_batch (h : Placed inputs p) (hready : p.ready = true) {more : List α}
    (htaken : more = [] ∨ p.shuttingDown = false) :
    (p.after (.batch more)).Served p.tickets ((tasksFrom p.submitted more).map (·.sequence)) := by
  have hnone : p.endedOf ((tasksFrom p.submitted more).map (·.sequence)) = [] := by
    refine List.filter_eq_nil_iff.mpr fun s hs hmem => ?_
    have hearlier : s.task ∈ tasksOf inputs :=
      h.account.mem_iff.mp (List.mem_append_right _ (List.mem_map_of_mem (f := (·.task)) hs))
    have hlt := sequence_lt_of_mem_tasksOf hearlier
    rw [tasksFrom_sequence, h.submitted] at hmem
    obtain ⟨i, -, hi⟩ := List.mem_map.mp (List.contains_iff_mem.mp hmem)
    omega
  rw [TaskPool.after, batch_eq hready]
  by_cases hempty : more = []
  · subst hempty
    rw [if_pos rfl]
    refine Served.quiet ?_ (Quiet.fill (Quiet.refl _))
    refine .inr ⟨List.mem_append_right _ ?_, ?_⟩
    · exact List.mem_singleton.mpr (congrArg (p.tickets, PoolReply.results ·) hnone)
    · exact congrArg List.length hnone
  · rw [if_neg hempty, if_neg (by simp [htaken.resolve_left hempty])]
    refine Served.quiet ?_ (Quiet.fill (Quiet.refl _))
    refine .inl ⟨List.mem_append_right _ ?_, ?_⟩
    · exact List.mem_singleton.mpr (congrArg (p.tickets, Awaited.batch _ ·) hnone)
    · show (p.endedOf _).length ≠ _
      rw [hnone]
      simp [tasksFrom, Ne.symm, hempty]

theorem Served.answered {ticket : Nat} {tasks : List (PoolTask α)}
    (h : p.Served ticket (tasks.map (·.sequence))) (hplaced : Placed inputs p) (hticketed : p.Ticketed)
    (htasks : tasks.Sublist (tasksOf inputs)) : p.Answered ticket tasks := by
  let ended := p.endedOf (tasks.map (·.sequence))
  have hsublist : ended.Sublist p.settled := List.filter_sublist
  have hsettled : (p.settled.map (·.task)).Nodup :=
    (List.Nodup.of_map _ hplaced.sequences).of_append_right
  have hnodup : (ended.map (·.task)).Nodup := hsettled.sublist (hsublist.map _)
  have hsubset : ended.map (·.task) ⊆ tasks := by
    intro t ht
    obtain ⟨s, hs, rfl⟩ := List.mem_map.mp ht
    obtain ⟨hmem, hsequence⟩ := List.mem_filter.mp hs
    obtain ⟨t, ht, heq⟩ := List.mem_map.mp (List.contains_iff_mem.mp hsequence)
    have hplace : s.task ∈ tasksOf inputs :=
      hplaced.account.mem_iff.mp (List.mem_append_right _ (List.mem_map_of_mem (f := (·.task)) hmem))
    have hsame : t = s.task := List.inj_on_of_nodup_map (nodup_tasksOf inputs) (htasks.subset ht) hplace heq
    exact hsame ▸ ht
  have hperm : ended.length = (tasks.map (·.sequence)).length → (ended.map (·.task)).Perm tasks := by
    intro hlength
    refine (hnodup.subperm hsubset).perm_of_length_le ?_
    simp only [List.length_map] at hlength ⊢
    omega
  constructor
  · rintro ⟨t, ht, hopen⟩
    have hwaits : ended.length ≠ (tasks.map (·.sequence)).length := by
      intro hlength
      exact hopen ((hsublist.map _).subset ((hperm hlength).mem_iff.mpr ht))
    exact hticketed.repliesTo_of_waiting (h.resolve_right fun hr => hwaits hr.2).1
  · intro hall
    have hended : tasks ⊆ ended.map (·.task) := by
      intro t ht
      obtain ⟨s, hs, rfl⟩ := List.mem_map.mp (hall t ht)
      refine List.mem_map_of_mem (List.mem_filter.mpr ⟨hs, List.contains_iff_mem.mpr ?_⟩)
      exact List.mem_map_of_mem (f := (·.sequence)) ht
    have htasks' : tasks.Nodup := (List.Nodup.of_map _ (nodup_tasksOf inputs)).sublist htasks
    have hlength : ended.length = (tasks.map (·.sequence)).length := by
      have hsame := ((List.perm_ext_iff_of_nodup hnodup htasks').mpr fun t => ⟨(hsubset ·), (hended ·)⟩).length_eq
      rw [List.length_map] at hsame
      rw [hsame, List.length_map]
    have hreplied := (h.resolve_left fun hl => hl.2 hlength).1
    exact ⟨ended, hticketed.repliesTo_of_mem hreplied, hsublist, hperm hlength⟩

/-- A pool of this size that was given a processor and nothing else. -/
def readied (workers : Int) : TaskPool α β := (ofSize workers).setProcessor

theorem placed_readied (workers : Int) : Placed [] (readied workers : TaskPool α β) :=
  ⟨rfl, List.Perm.refl _, Nat.zero_le _, List.Pairwise.nil, List.Perm.refl _⟩

theorem placed_afterAll (workers : Int) (calls : List (PoolCall α β)) :
    Placed (PoolCall.accepted calls) ((readied workers).afterAll calls) ∧
      ((readied workers).afterAll calls).terms = (max 1 workers.toNat, true, calls.any (·.isShutdown)) :=
  (placed_readied workers).afterAll rfl calls

theorem ticketed_ofSize (workers : Int) : (ofSize workers : TaskPool α β).Ticketed := List.Perm.refl _

theorem ticketed_afterAll (workers : Int) (calls : List (PoolCall α β)) :
    ((readied workers).afterAll calls).Ticketed :=
  (ticketed_ofSize workers).afterAll (.setProcessor :: calls)

theorem Placed.ended_afterAll (h : Placed inputs p) (hready : p.ready = true) {t : PoolTask α}
    {outcome : TaskOutcome β} (hended : p.HasStatus t (.ended outcome)) (later : List (PoolCall α β)) :
    (p.afterAll later).HasStatus t (.ended outcome) := by
  refine h.afterAll_induction (I := (·.HasStatus t (.ended outcome))) ?_ hready hended later
  intro inputs q c _ _ hended
  exact ((q.prefix_history_after c).sublist.filterMap _).subset hended

/-- What holds after a call is kept by those that follow. -/
theorem afterAll_keeps {I : TaskPool α β → Prop}
    (hstep : ∀ {inputs q} (c : PoolCall α β), Placed inputs q → q.ready = true → I q → I (q.after c)) (workers : Int)
    {before : List (PoolCall α β)} {c : PoolCall α β} (hI : I (((readied workers).afterAll before).after c))
    (after : List (PoolCall α β)) : I ((readied workers).afterAll (before ++ c :: after)) := by
  obtain ⟨hplaced, hterms⟩ := placed_afterAll workers (before ++ [c])
  have hready := (Prod.mk.inj (Prod.mk.inj hterms).2).1
  rw [afterAll_append] at hplaced hready ⊢
  exact hplaced.afterAll_induction hstep hready hI after

/-- A batch that is taken is answered, whatever follows. -/
theorem answered_batch (workers : Int) (before after : List (PoolCall α β)) {more : List α}
    (htaken : more = [] ∨ before.any (·.isShutdown) = false) :
    ((readied workers).afterAll (before ++ .batch more :: after)).Answered ((readied workers).afterAll before).tickets
      (tasksFrom (PoolCall.accepted before).length more) := by
  obtain ⟨hplaced, hterms⟩ := placed_afterAll workers before
  obtain ⟨-, hready, hclosing⟩ := Prod.mk.inj hterms |>.imp_right Prod.mk.inj
  rw [← hclosing] at htaken
  have hserved := hplaced.served_batch hready htaken
  have hlater := afterAll_keeps (I := (·.Served _ _)) (fun c hq _ h => h.after hq c) workers hserved after
  rw [hplaced.submitted] at hlater
  refine hlater.answered (placed_afterAll workers _).1 (ticketed_afterAll workers _) ?_
  -- the tasks of the batch come right after those taken before it
  rw [PoolCall.accepted_append, ← hclosing]
  rcases htaken with rfl | hopen
  · exact List.nil_sublist _
  · rw [hopen, if_neg Bool.false_ne_true]
    show (tasksFrom _ more).Sublist (tasksOf (PoolCall.accepted before ++ (more ++ PoolCall.accepted after)))
    rw [← List.append_assoc, tasksOf_append, tasksOf_append]
    exact (List.sublist_append_right _ _).trans (List.sublist_append_left _ _)

/-- A batch with tasks is refused once the pool is shut down. -/
theorem repliesTo_refused (workers : Int) {before : List (PoolCall α β)} (after : List (PoolCall α β)) {more : List α}
    (hclosed : before.any (·.isShutdown) = true) (hmore : more ≠ []) :
    ((readied workers).afterAll (before ++ .batch more :: after)).repliesTo
      ((readied workers).afterAll before).tickets = [.refused .shuttingDown] := by
  let q : TaskPool α β := (readied workers).afterAll before
  obtain ⟨hready, hclosing⟩ := Prod.mk.inj (Prod.mk.inj (placed_afterAll workers before).2).2
  have hrefused : (q.tickets, .refused .shuttingDown) ∈ (q.after (.batch more)).replies := by
    rw [TaskPool.after, batch_eq hready, if_neg hmore, if_pos (hclosing.trans hclosed)]
    exact List.mem_append_right _ (List.mem_singleton_self _)
  refine (ticketed_afterAll workers _).repliesTo_of_mem ?_
  exact afterAll_keeps (I := fun p : TaskPool α β => (q.tickets, PoolReply.refused .shuttingDown) ∈ p.replies)
    (fun c _ _ h => replies_subset_after _ c h) workers hrefused after

/-- Whatever is asked of a pool that was given a processor, every task it took is queued, running or ended, and
ends once for good. No more run than there are workers, they start in the order of submission, and those that are
cancelled never started. The caller of a batch gets nothing as long as a task of it has not ended, then a result for
each, in the order in which they ended; only a pool that is shut down refuses it. -/
theorem safe_afterAll (workers : Int) (calls : List (PoolCall α β)) :
    let p : TaskPool α β := (readied workers).afterAll calls
    let tasks := tasksOf (PoolCall.accepted calls)
    (p.queue ++ p.active ++ p.settled.map (·.task)).Perm tasks ∧ (∀ t ∈ tasks, ∃! s, p.HasStatus t s) ∧
    p.active.length ≤ max 1 workers.toNat ∧
    ((p.started ++ p.queue).map (·.sequence)).Pairwise (· < ·) ∧
    (p.settled.map (·.task)).Nodup ∧
    (∀ t, p.HasStatus t (.ended .cancelled) → t ∉ p.started) ∧
    (∀ later t outcome, p.HasStatus t (.ended outcome) →
      ∀ s, (p.afterAll later).HasStatus t s ↔ s = .ended outcome) ∧
    ∀ before inputs after, calls = before ++ .batch inputs :: after →
      let ticket := ((readied workers : TaskPool α β).afterAll before).tickets
      if before.any (·.isShutdown) ∧ inputs ≠ [] then p.repliesTo ticket = [.refused .shuttingDown]
      else p.Answered ticket (tasksFrom (PoolCall.accepted before).length inputs) := by
  intro p tasks
  obtain ⟨hplaced, hterms⟩ := placed_afterAll workers calls
  obtain ⟨hworkers, hready, -⟩ := Prod.mk.inj hterms |>.imp_right Prod.mk.inj
  refine ⟨hplaced.account, fun t ht => hplaced.existsUnique_status ht, ?_, hplaced.inOrder, ?_, ?_, ?_, ?_⟩
  · rw [← hworkers]
    exact hplaced.bounded
  · exact (List.Nodup.of_map _ hplaced.sequences).of_append_right
  · intro t hcancelled hstarted
    rcases hplaced.mem_started_iff.mp hstarted with hrunning | ⟨outcome, hran, hended⟩
    · exact nomatch hplaced.status_unique hrunning hcancelled
    · cases hplaced.status_unique hended hcancelled
      exact nomatch hran
  · intro later t outcome hended s
    have hlater := hplaced.ended_afterAll hready hended later
    have hplaced' := (placed_afterAll workers (calls ++ later)).1
    rw [afterAll_append] at hplaced'
    constructor
    · intro hs
      exact hplaced'.status_unique hs hlater
    · rintro rfl
      exact hlater
  · rintro before inputs after rfl ticket
    split
    · next hrefused => exact repliesTo_refused workers after hrefused.1 hrefused.2
    · next htaken =>
      refine answered_batch workers before after ?_
      by_cases hnone : inputs = []
      · exact .inl hnone
      · right
        simpa [hnone] using htaken

/-- One worker and two batches at a time: a task that waits is cancelled, and one of the other batch runs on. -/
theorem safe_afterAll_batches :
    let p : TaskPool Nat Nat :=
      (readied 1).afterAll [.batch [10, 20], .batch [30], .complete 0 1, .cancelPending, .fail 1 "no"]
    (∀ t ∈ tasksFrom 0 [10, 20], t ∈ p.settled.map (·.task)) ∧
      ∃ ended, p.repliesTo 0 = [.results ended] ∧ ended.Sublist p.settled ∧
        (ended.map (·.task)).Perm (tasksFrom 0 [10, 20]) := by
  intro p
  have hall : ∀ t ∈ tasksFrom 0 [10, 20], t ∈ p.settled.map (·.task) := by decide
  obtain ⟨-, -, -, -, -, -, -, hbatches⟩ :=
    safe_afterAll 1 [.batch [10, 20], .batch [30], .complete 0 1, .cancelPending, .fail 1 "no"] (α := Nat) (β := Nat)
  exact ⟨hall, (hbatches [] [10, 20] _ rfl).results hall⟩

end TaskPool

end RuleScan
