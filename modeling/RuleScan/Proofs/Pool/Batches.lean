import Mathlib.Data.List.Nodup
import RuleScan.Pool.Tasks

/-! A pool with one batch of tasks. Whatever order they end in, each task is queued, running or ended, and the
caller gets the tasks once all have ended, in the order in which they did. -/
namespace RuleScan

namespace TaskPool

variable {α β : Type} {p : TaskPool α β} {tasks : List (PoolTask α)} {ended : List (SettledTask α β)}

/-- The caller of a batch waits and some tasks have ended, or it has got all of them. -/
def Told (p : TaskPool α β) (sequences : List Nat) (ended : List (SettledTask α β)) : Prop :=
  p.waiting = [(0, .batch sequences ended)] ∧ p.replies = [] ∧ ended.length ≠ sequences.length ∨
    p.waiting = [] ∧ p.replies = [(0, .results ended)] ∧ ended.length = sequences.length

/-- The pool works on a batch, of which the tasks in `ended` have ended in this order. -/
structure Batch (tasks : List (PoolTask α)) (p : TaskPool α β) (ended : List (SettledTask α β)) : Prop where
  account : (p.queue ++ p.active ++ ended.map (·.task)).Perm tasks
  told : p.Told (tasks.map (·.sequence)) ended
  ready : p.ready = true
  unpaused : p.paused = false
  workers : 0 < p.maxWorkers

theorem fill_eq (hready : p.ready = true) (hunpaused : p.paused = false) :
    p.fill =
      { p with
        queue := p.queue.drop (p.maxWorkers - p.active.length)
        active := p.active ++ p.queue.take (p.maxWorkers - p.active.length)
        history := p.history ++ (p.queue.take (p.maxWorkers - p.active.length)).map .started } := by
  have hgo : ¬(p.paused || !p.ready) = true := by simp [hready, hunpaused]
  unfold fill
  rw [if_neg hgo, List.splitAt_eq]

theorem Batch.fill (h : Batch tasks p ended) : Batch tasks p.fill ended := by
  rw [fill_eq h.ready h.unpaused]
  refine ⟨?_, h.told, h.ready, h.unpaused, h.workers⟩
  refine List.Perm.trans (List.Perm.append_right _ ?_) h.account
  dsimp only
  refine List.perm_append_comm.trans ?_
  rw [List.append_assoc, List.take_append_drop]
  exact List.perm_append_comm

/-- A caller that is told of a task it waits for waits for one less. -/
theorem Told.announce {sequences : List Nat} {s : SettledTask α β} (h : p.Told sequences ended)
    (hs : s.task.sequence ∈ sequences) (hopen : ended.length ≠ sequences.length) :
    (p.announce s).Told sequences (ended ++ [s]) := by
  rcases h with ⟨hwaiting, hreplies, -⟩ | ⟨-, -, hall⟩
  · have hobserve : observe p.isIdle s (.batch sequences ended) =
        if (ended ++ [s]).length = sequences.length then .inl (.results (ended ++ [s]))
        else .inr (.batch sequences (ended ++ [s])) := by
      rw [observe, if_pos (List.contains_iff_mem.mpr hs)]
    unfold Told TaskPool.announce
    rw [hwaiting, hreplies]
    simp only [List.map_cons, List.map_nil, hobserve]
    split
    · next hlast => exact .inr ⟨rfl, rfl, hlast⟩
    · next hlast => exact .inl ⟨rfl, rfl, hlast⟩
  · exact absurd hall hopen

/-- A task of the batch that has not ended yet keeps the caller waiting. -/
theorem length_ne_of_perm {rest : List (PoolTask α)} {t : PoolTask α}
    (h : (t :: rest ++ ended.map (·.task)).Perm tasks) : ended.length ≠ (tasks.map (·.sequence)).length := by
  have hlength := h.length_eq
  simp only [List.cons_append, List.length_cons, List.length_append, List.length_map] at hlength ⊢
  omega

theorem filter_sequence_ne {ts : List (PoolTask α)} {t : PoolTask α} (hts : (ts.map (·.sequence)).Nodup)
    (ht : t ∈ ts) : ts.Perm (t :: ts.filter (·.sequence ≠ t.sequence)) := by
  induction ts with
  | nil => cases ht
  | cons u ts ih =>
    rw [List.map_cons, List.nodup_cons] at hts
    rcases List.mem_cons.mp ht with rfl | ht
    · have hothers : ts.filter (·.sequence ≠ t.sequence) = ts := by
        refine List.filter_eq_self.mpr fun u hu => decide_eq_true fun he => hts.1 ?_
        exact he ▸ List.mem_map_of_mem hu
      rw [List.filter_cons_of_neg (by simp), hothers]
    · have hne : u.sequence ≠ t.sequence := fun he => hts.1 (he ▸ List.mem_map_of_mem ht)
      rw [List.filter_cons_of_pos (by simpa using hne)]
      exact ((ih hts.2 ht).cons u).trans (List.Perm.swap t u _)

theorem find?_sequence {ts : List (PoolTask α)} {t : PoolTask α} (hts : (ts.map (·.sequence)).Nodup)
    (ht : t ∈ ts) : ts.find? (·.sequence = t.sequence) = some t := by
  induction ts with
  | nil => cases ht
  | cons u ts ih =>
    rw [List.map_cons, List.nodup_cons] at hts
    rcases List.mem_cons.mp ht with rfl | ht
    · exact List.find?_cons_of_pos (by simp)
    · have hne : u.sequence ≠ t.sequence := fun he => hts.1 (he ▸ List.mem_map_of_mem ht)
      rw [List.find?_cons_of_neg (by simpa using hne)]
      exact ih hts.2 ht

theorem Batch.nodup_active (h : Batch tasks p ended) (htasks : (tasks.map (·.sequence)).Nodup) :
    (p.active.map (·.sequence)).Nodup := by
  have hall := (h.account.map (·.sequence)).nodup_iff.mpr htasks
  rw [List.map_append, List.map_append] at hall
  exact hall.of_append_left.of_append_right

/-- The pool after a running task has ended and before others start. -/
def finish (p : TaskPool α β) (t : PoolTask α) (outcome : TaskOutcome β) : TaskPool α β :=
  { p with active := p.active.filter (·.sequence ≠ t.sequence) }.announce ⟨t, outcome⟩

theorem settle_eq {t : PoolTask α} (h : (p.active.map (·.sequence)).Nodup) (ht : t ∈ p.active)
    (outcome : TaskOutcome β) : p.settle t.sequence outcome = (p.finish t outcome).fill := by
  unfold settle
  rw [find?_sequence h ht]
  rfl

theorem Batch.finish (h : Batch tasks p ended) (htasks : (tasks.map (·.sequence)).Nodup) {t : PoolTask α}
    (ht : t ∈ p.active) (outcome : TaskOutcome β) :
    Batch tasks (p.finish t outcome) (ended ++ [⟨t, outcome⟩]) := by
  have hmoved : (t :: (p.queue ++ p.active.filter (·.sequence ≠ t.sequence)) ++ ended.map (·.task)).Perm tasks := by
    refine List.Perm.trans (List.Perm.append_right _ ?_) h.account
    exact List.perm_middle.symm.trans
      (List.Perm.append_left _ (filter_sequence_ne (h.nodup_active htasks) ht).symm)
  have hmem : t.sequence ∈ tasks.map (·.sequence) :=
    List.mem_map_of_mem (h.account.mem_iff.mp (by simp [ht]))
  have htold : ({ p with active := p.active.filter (·.sequence ≠ t.sequence) } : TaskPool α β).Told
      (tasks.map (·.sequence)) ended := h.told
  refine ⟨?_, htold.announce hmem (length_ne_of_perm hmoved), h.ready, h.unpaused, h.workers⟩
  rw [List.map_append, ← List.append_assoc]
  exact List.perm_append_comm.trans hmoved

theorem Batch.settle (h : Batch tasks p ended) (htasks : (tasks.map (·.sequence)).Nodup) {t : PoolTask α}
    (ht : t ∈ p.active) (outcome : TaskOutcome β) :
    Batch tasks (p.settle t.sequence outcome) (ended ++ [⟨t, outcome⟩]) := by
  rw [settle_eq (h.nodup_active htasks) ht]
  exact (h.finish htasks ht outcome).fill

theorem Told.foldl_announce {sequences : List Nat} (ts : List (PoolTask α)) {p : TaskPool α β}
    {ended : List (SettledTask α β)} (h : p.Told sequences ended) (hts : ∀ t ∈ ts, t.sequence ∈ sequences)
    (hlength : ended.length + ts.length ≤ sequences.length) :
    (ts.foldl (fun p t => p.announce ⟨t, .cancelled⟩) p).Told sequences
      (ended ++ ts.map fun t => ⟨t, .cancelled⟩) := by
  induction ts generalizing p ended with
  | nil => simpa using h
  | cons t ts ih =>
    rw [List.length_cons] at hlength
    obtain ⟨ht, hts⟩ := List.forall_mem_cons.mp hts
    have hnext := ih (h.announce (s := ⟨t, .cancelled⟩) ht (by omega)) hts (by simp; omega)
    rw [List.append_assoc] at hnext
    exact hnext

theorem foldl_announce_frame (ts : List (PoolTask α)) (p : TaskPool α β) :
    ∃ waiting replies history, ts.foldl (fun p t => p.announce ⟨t, .cancelled⟩) p =
      { p with waiting, replies, history } := by
  induction ts generalizing p with
  | nil => exact ⟨_, _, _, rfl⟩
  | cons t ts ih =>
    obtain ⟨waiting, replies, history, heq⟩ := ih (p.announce ⟨t, .cancelled⟩)
    exact ⟨waiting, replies, history, heq⟩

theorem Batch.cancelPending (h : Batch tasks p ended) :
    Batch tasks p.cancelPending (ended ++ p.queue.map fun t => ⟨t, .cancelled⟩) := by
  have hlength := h.account.length_eq
  simp only [List.length_append, List.length_map] at hlength
  have htold : ({ p with queue := [] } : TaskPool α β).Told (tasks.map (·.sequence)) ended := h.told
  have hcancelled := htold.foldl_announce p.queue
    (fun t ht => List.mem_map_of_mem (h.account.mem_iff.mp (by simp [ht]))) (by simp only [List.length_map]; omega)
  unfold TaskPool.cancelPending
  obtain ⟨waiting, replies, history, heq⟩ := foldl_announce_frame p.queue { p with queue := [] }
  rw [heq] at hcancelled ⊢
  refine ⟨?_, hcancelled, h.ready, h.unpaused, h.workers⟩
  refine List.Perm.trans ?_ h.account
  simp only [List.nil_append, List.map_append, List.map_map, Function.comp_def, List.map_id']
  rw [← List.append_assoc]
  refine List.perm_append_comm.trans ?_
  rw [List.append_assoc]

def tasksOf (inputs : List α) : List (PoolTask α) := inputs.zipIdx.map fun (input, i) => ⟨i, input⟩

theorem tasksOf_sequence (inputs : List α) : (tasksOf inputs).map (·.sequence) = List.range inputs.length := by
  rw [tasksOf, List.map_map, List.range_eq_range', ← List.zipIdx_map_snd 0 inputs]
  rfl

theorem tasksOf_input (inputs : List α) : (tasksOf inputs).map (·.input) = inputs := by
  rw [tasksOf, List.map_map]
  exact List.zipIdx_map_fst 0 inputs

theorem nodup_tasksOf (inputs : List α) : ((tasksOf inputs).map (·.sequence)).Nodup := by
  rw [tasksOf_sequence]
  exact List.nodup_range

def forBatch (workers : Int) (inputs : List α) : TaskPool α β := ((ofSize workers).setProcessor).batch inputs

/-- The tasks of the batch are queued before the first of them start. -/
theorem exists_forBatch_eq (workers : Int) (inputs : List α) :
    ∃ q : TaskPool α β, forBatch workers inputs = q.fill ∧ Batch (tasksOf inputs) q [] ∧ q.active = [] ∧
      q.queue = tasksOf inputs ∧ q.maxWorkers = max 1 workers.toNat := by
  have hworkers : 0 < max 1 workers.toNat := by omega
  cases inputs with
  | nil =>
    refine ⟨{ maxWorkers := max 1 workers.toNat, ready := true, tickets := 1, replies := [(0, .results [])] },
      rfl, ?_, rfl, rfl, rfl⟩
    exact ⟨List.Perm.refl _, .inr ⟨rfl, rfl, rfl⟩, rfl, rfl, hworkers⟩
  | cons input inputs =>
    let q : TaskPool α β := { maxWorkers := max 1 workers.toNat, ready := true, tickets := 1 }
    let sequences := (List.range (input :: inputs).length).map (0 + ·)
    have hsequences : sequences = (tasksOf (input :: inputs)).map (·.sequence) := by
      simp [sequences, tasksOf_sequence]
    have hqueue : (q.submit (input :: inputs)).queue = tasksOf (input :: inputs) := by
      simp [submit, tasksOf, q]
    refine ⟨(q.submit (input :: inputs)).await 0 (.batch sequences []), rfl, ?_, rfl, hqueue, rfl⟩
    rw [hsequences]
    refine ⟨?_, .inl ⟨rfl, rfl, ?_⟩, rfl, rfl, hworkers⟩
    · rw [List.map_nil, List.append_nil]
      exact (List.append_nil _).trans hqueue ▸ List.Perm.refl _
    · simp [tasksOf_sequence]

theorem batch_forBatch (workers : Int) (inputs : List α) :
    Batch (tasksOf inputs) (forBatch workers inputs : TaskPool α β) [] := by
  obtain ⟨q, heq, hbatch, -⟩ := exists_forBatch_eq (β := β) workers inputs
  rw [heq]
  exact hbatch.fill

/-- The caller gets all tasks of the batch. -/
theorem Batch.results (h : Batch tasks p ended) {settled : List (SettledTask α β)}
    (hreply : (0, PoolReply.results settled) ∈ p.replies) :
    settled = ended ∧ (settled.map (·.task)).Perm tasks := by
  rcases h.told with ⟨-, hnone, -⟩ | ⟨-, hall, hlength⟩
  · rw [hnone] at hreply
    cases hreply
  · rw [hall, List.mem_singleton] at hreply
    cases hreply
    have haccount := h.account.length_eq
    simp only [List.length_append, List.length_map] at haccount hlength
    have hqueue : p.queue = [] := List.length_eq_zero_iff.mp (by omega)
    have hactive : p.active = [] := List.length_eq_zero_iff.mp (by omega)
    have hperm := h.account
    rw [hqueue, hactive] at hperm
    exact ⟨rfl, hperm⟩

/-- The tasks that have not ended are in order, and one is running unless none is left. -/
structure InOrder (p : TaskPool α β) (rest : List (PoolTask α)) : Prop where
  rest : p.active ++ p.queue = rest
  busy : p.active = [] → p.queue = []

theorem Batch.replied (h : Batch tasks p ended) (hnone : p.InOrder []) : (0, .results ended) ∈ p.replies := by
  obtain ⟨hactive, hqueue⟩ := List.append_eq_nil_iff.mp hnone.rest
  have hlength := h.account.length_eq
  rw [hactive, hqueue] at hlength
  rcases h.told with ⟨-, -, hopen⟩ | ⟨-, hall, -⟩
  · simp only [List.append_nil, List.nil_append, List.length_map] at hlength hopen
    exact absurd hlength hopen
  · rw [hall]
    exact List.mem_singleton_self _

theorem InOrder.fill {rest : List (PoolTask α)} (h : Batch tasks p ended) (hrest : p.active ++ p.queue = rest) :
    InOrder p.fill rest := by
  rw [fill_eq h.ready h.unpaused]
  constructor
  · rw [← hrest]
    simp
  · intro hnone
    have hworkers := h.workers
    obtain ⟨hactive, htake⟩ := List.append_eq_nil_iff.mp hnone
    rw [hactive] at htake
    rcases List.take_eq_nil_iff.mp htake with hzero | hqueue
    · simp at hzero
      omega
    · simp [hqueue]

theorem inOrder_forBatch (workers : Int) (inputs : List α) :
    InOrder (forBatch workers inputs : TaskPool α β) (tasksOf inputs) := by
  obtain ⟨q, heq, hbatch, hactive, hqueue, -⟩ := exists_forBatch_eq (β := β) workers inputs
  rw [heq]
  refine .fill hbatch ?_
  rw [hactive, hqueue, List.nil_append]

theorem InOrder.settle {t : PoolTask α} {rest : List (PoolTask α)} (h : Batch tasks p ended)
    (htasks : (tasks.map (·.sequence)).Nodup) (hrest : InOrder p (t :: rest)) (outcome : TaskOutcome β) :
    t ∈ p.active ∧ InOrder (p.settle t.sequence outcome) rest := by
  cases hactive : p.active with
  | nil =>
    have hnone := hrest.rest
    rw [hactive, hrest.busy hactive] at hnone
    cases hnone
  | cons u us =>
    have hcons := hrest.rest
    rw [hactive, List.cons_append] at hcons
    obtain ⟨rfl, hus⟩ := List.cons.inj hcons
    have hmem : u ∈ p.active := hactive ▸ List.mem_cons_self
    have hnodup := h.nodup_active htasks
    refine ⟨List.mem_cons_self, ?_⟩
    rw [settle_eq hnodup hmem]
    refine InOrder.fill (h.finish htasks hmem outcome) ?_
    have hfilter : p.active.filter (·.sequence ≠ u.sequence) = us := by
      rw [hactive, List.map_cons, List.nodup_cons] at hnodup
      rw [hactive, List.filter_cons_of_neg (by simp)]
      exact List.filter_eq_self.mpr fun v hv => decide_eq_true fun he => hnodup.1 (he ▸ List.mem_map_of_mem hv)
    change p.active.filter (·.sequence ≠ u.sequence) ++ p.queue = rest
    rw [hfilter, hus]

structure AllRunning (p : TaskPool α β) (rest : List (PoolTask α)) : Prop where
  queue : p.queue = []
  active : p.active.Perm rest

/-- With a worker for each task, all start at once. -/
theorem allRunning_forBatch (inputs : List α) :
    AllRunning (forBatch inputs.length inputs : TaskPool α β) (tasksOf inputs) := by
  obtain ⟨q, heq, hbatch, hactive, hqueue, hworkers⟩ := exists_forBatch_eq (β := β) inputs.length inputs
  have hroom : (tasksOf inputs).length ≤ q.maxWorkers - ([] : List (PoolTask α)).length := by
    simp only [hworkers, tasksOf, List.length_map, List.length_zipIdx, List.length_nil, Int.toNat_natCast]
    omega
  rw [heq, fill_eq hbatch.ready hbatch.unpaused, hactive, hqueue]
  refine ⟨List.drop_eq_nil_of_le hroom, ?_⟩
  rw [List.take_of_length_le hroom, List.nil_append]

theorem AllRunning.inOrder (h : p.AllRunning []) : p.InOrder [] := by
  refine ⟨?_, fun _ => h.queue⟩
  rw [h.queue, List.perm_nil.mp h.active]
  rfl

theorem AllRunning.settle {t : PoolTask α} {rest : List (PoolTask α)} (h : Batch tasks p ended)
    (htasks : (tasks.map (·.sequence)).Nodup) (hrest : AllRunning p (t :: rest)) (outcome : TaskOutcome β) :
    t ∈ p.active ∧ AllRunning (p.settle t.sequence outcome) rest := by
  have hmem : t ∈ p.active := hrest.active.mem_iff.mpr List.mem_cons_self
  have hfinish := h.finish htasks hmem outcome
  have hqueue : (p.finish t outcome).queue = [] := hrest.queue
  refine ⟨hmem, ?_⟩
  rw [settle_eq (h.nodup_active htasks) hmem, fill_eq hfinish.ready hfinish.unpaused, hqueue]
  refine ⟨List.drop_nil, ?_⟩
  rw [List.take_nil, List.append_nil]
  exact ((filter_sequence_ne (h.nodup_active htasks) hmem).symm.trans hrest.active).cons_inv

end TaskPool

end RuleScan
