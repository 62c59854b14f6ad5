import Mathlib.Data.List.Nodup
import RuleScan.Proofs.Pool.Batches

/-! Pools under any sequence of calls. Every task that was taken is queued, running or ended, tasks start in the
order in which they were submitted, and only tasks that never started are cancelled. -/
namespace RuleScan

/-- Something that is asked of a pool, or that happens to one of its tasks. -/
inductive PoolCall (α β : Type) where
  | setProcessor
  | add (input : α)
  | batch (inputs : List α)
  | complete (sequence : Nat) (value : β)
  | fail (sequence : Nat) (message : String)
  | cancelPending
  | drain
  | shutdown

namespace PoolCall

variable {α β : Type}

def inputs : PoolCall α β → List α
  | .add input => [input]
  | .batch inputs => inputs
  | _ => []

def isShutdown : PoolCall α β → Bool
  | .shutdown => true
  | _ => false

def isSetProcessor : PoolCall α β → Bool
  | .setProcessor => true
  | _ => false

/-- What some calls submit before the pool is shut down. -/
def accepted : List (PoolCall α β) → List α
  | [] => []
  | c :: rest => if c.isShutdown then [] else c.inputs ++ accepted rest

theorem accepted_append (calls later : List (PoolCall α β)) :
    accepted (calls ++ later) = accepted calls ++ if calls.any (·.isShutdown) then [] else accepted later := by
  induction calls with
  | nil => rfl
  | cons c calls ih =>
    by_cases hc : c.isShutdown
    · simp [accepted, hc]
    · simp [accepted, hc, ih]

end PoolCall

def TaskOutcome.isCancelled {β : Type} : TaskOutcome β → Bool
  | .cancelled => true
  | _ => false

namespace PoolEvent

variable {α β : Type}

def started? : PoolEvent α β → Option (PoolTask α)
  | .started t => some t
  | .settled _ => none

def settled? : PoolEvent α β → Option (SettledTask α β)
  | .started _ => none
  | .settled s => some s

@[simp] theorem filterMap_started? (ts : List (PoolTask α)) :
    (ts.map (started (β := β))).filterMap started? = ts := by
  rw [List.filterMap_map]
  exact List.filterMap_some

@[simp] theorem filterMap_settled? (ts : List (PoolTask α)) :
    (ts.map (started (β := β))).filterMap settled? = [] := by
  rw [List.filterMap_map]
  exact List.filterMap_none ts

end PoolEvent

namespace TaskPool

variable {α β : Type} {p : TaskPool α β} {inputs : List α}

/-- The pool after a call. One that is refused with an error leaves it as it is. -/
def after (p : TaskPool α β) : PoolCall α β → TaskPool α β
  | .setProcessor => p.setProcessor
  | .add input => (p.add input).toOption.getD p
  | .batch inputs => p.batch inputs
  | .complete sequence value => p.settle sequence (.completed value)
  | .fail sequence message => p.settle sequence (.failed message)
  | .cancelPending => p.cancelPending
  | .drain => p.drain
  | .shutdown => p.shutdown

def afterAll (p : TaskPool α β) (calls : List (PoolCall α β)) : TaskPool α β := calls.foldl after p

theorem afterAll_append (p : TaskPool α β) (calls later : List (PoolCall α β)) :
    p.afterAll (calls ++ later) = (p.afterAll calls).afterAll later :=
  List.foldl_append

/-- The tasks that have started, in order. -/
def started (p : TaskPool α β) : List (PoolTask α) := p.history.filterMap PoolEvent.started?

/-- The tasks that have ended, in order. -/
def settled (p : TaskPool α β) : List (SettledTask α β) := p.history.filterMap PoolEvent.settled?

/-- The tasks that have ended after they had started. -/
def ran (p : TaskPool α β) : List (PoolTask α) :=
  (p.settled.filter (!·.outcome.isCancelled)).map (·.task)

/-! What the parts of a call do to the events. -/

section Events

variable (p : TaskPool α β) (s : SettledTask α β)

@[simp] theorem settled_announce : (p.announce s).settled = p.settled ++ [s] := by
  simp [settled, announce, PoolEvent.settled?]

@[simp] theorem started_announce : (p.announce s).started = p.started := by
  simp [started, announce, PoolEvent.started?]

@[simp] theorem settled_fill : p.fill.settled = p.settled := by
  unfold fill
  split
  · rfl
  · dsimp only [settled]
    rw [List.filterMap_append, PoolEvent.filterMap_settled?, List.append_nil]

theorem started_fill (hready : p.ready = true) (hunpaused : p.paused = false) :
    p.fill.started = p.started ++ p.queue.take (p.maxWorkers - p.active.length) := by
  rw [fill_eq hready hunpaused]
  dsimp only [started]
  rw [List.filterMap_append, PoolEvent.filterMap_started?]

/-- Starting tasks moves them and is noted; nothing else changes. -/
theorem fill_frame : ∃ queue active history, p.fill = { p with queue, active, history } := by
  unfold fill
  split
  · exact ⟨_, _, _, rfl⟩
  · exact ⟨_, _, _, rfl⟩

end Events

/-- The tasks are told one after another that they have ended. -/
def announceAll (p : TaskPool α β) (ss : List (SettledTask α β)) : TaskPool α β := ss.foldl announce p

def cancellations (p : TaskPool α β) : List (SettledTask α β) := p.queue.map fun t => ⟨t, .cancelled⟩

theorem cancelPending_eq (p : TaskPool α β) :
    p.cancelPending = { p with queue := [] }.announceAll p.cancellations := by
  rw [announceAll, cancellations, List.foldl_map]
  rfl

section AnnounceAll

variable (p : TaskPool α β) (ss : List (SettledTask α β))

theorem settled_announceAll : (p.announceAll ss).settled = p.settled ++ ss := by
  induction ss generalizing p with
  | nil => exact (List.append_nil _).symm
  | cons s ss ih =>
    show ((p.announce s).announceAll ss).settled = p.settled ++ s :: ss
    rw [ih, settled_announce, List.append_assoc, List.singleton_append]

theorem started_announceAll : (p.announceAll ss).started = p.started := by
  induction ss generalizing p with
  | nil => rfl
  | cons s ss ih =>
    show ((p.announce s).announceAll ss).started = p.started
    rw [ih, started_announce]

/-- Telling of tasks changes only what callers wait for, what they get, and the history. -/
theorem announceAll_frame :
    ∃ waiting replies history, p.announceAll ss = { p with waiting, replies, history } := by
  induction ss generalizing p with
  | nil => exact ⟨_, _, _, rfl⟩
  | cons s ss ih =>
    obtain ⟨waiting, replies, history, heq⟩ := ih (p.announce s)
    exact ⟨waiting, replies, history, heq⟩

end AnnounceAll

/-- The tasks of some inputs, numbered from `first` on. -/
def tasksFrom (first : Nat) (inputs : List α) : List (PoolTask α) :=
  inputs.zipIdx.map fun (input, i) => ⟨first + i, input⟩

theorem tasksFrom_sequence (first : Nat) (inputs : List α) :
    (tasksFrom first inputs).map (·.sequence) = (List.range inputs.length).map (first + ·) := by
  rw [tasksFrom, List.map_map, List.range_eq_range', ← List.zipIdx_map_snd 0 inputs, List.map_map]
  rfl

theorem tasksOf_append (inputs more : List α) :
    tasksOf (inputs ++ more) = tasksOf inputs ++ tasksFrom inputs.length more := by
  have hmore : more.zipIdx inputs.length = more.zipIdx.map fun (input, i) => (input, inputs.length + i) := by
    rw [List.zipIdx_eq_map_add]
  simp only [tasksOf, tasksFrom, List.zipIdx_append, List.map_append, Nat.zero_add, hmore, List.map_map,
    Function.comp_def]

theorem sequence_lt_of_mem_tasksOf {t : PoolTask α} (h : t ∈ tasksOf inputs) : t.sequence < inputs.length := by
  have hmem : t.sequence ∈ (tasksOf inputs).map (·.sequence) := List.mem_map_of_mem h
  rw [tasksOf_sequence] at hmem
  exact List.mem_range.mp hmem

/-- Every task that was taken for `inputs` has its place: it is queued, running or ended. Tasks have started in
the order of submission, before those that are queued; they are running or have ended otherwise than by being
cancelled. -/
structure Placed (inputs : List α) (p : TaskPool α β) : Prop where
  submitted : p.submitted = inputs.length
  account : (p.queue ++ p.active ++ p.settled.map (·.task)).Perm (tasksOf inputs)
  bounded : p.active.length ≤ p.maxWorkers
  inOrder : ((p.started ++ p.queue).map (·.sequence)).Pairwise (· < ·)
  begun : p.started.Perm (p.active ++ p.ran)

namespace Placed

theorem sequences (h : Placed inputs p) :
    ((p.queue ++ p.active ++ p.settled.map (·.task)).map (·.sequence)).Nodup :=
  (h.account.map _).nodup_iff.mpr (nodup_tasksOf inputs)

theorem nodup_active (h : Placed inputs p) : (p.active.map (·.sequence)).Nodup := by
  have hall := h.sequences
  rw [List.map_append, List.map_append] at hall
  exact hall.of_append_left.of_append_right

/-- Flags, tickets and callers do not matter. -/
theorem congr {q : TaskPool α β} (h : Placed inputs p) (hsubmitted : q.submitted = p.submitted)
    (hqueue : q.queue = p.queue) (hactive : q.active = p.active) (hworkers : q.maxWorkers = p.maxWorkers)
    (hhistory : q.history = p.history) : Placed inputs q := by
  have hstarted : q.started = p.started := by simp only [started, hhistory]
  have hsettled : q.settled = p.settled := by simp only [settled, hhistory]
  have hran : q.ran = p.ran := by simp only [ran, hsettled]
  constructor
  · rw [hsubmitted, h.submitted]
  · rw [hqueue, hactive, hsettled]
    exact h.account
  · rw [hactive, hworkers]
    exact h.bounded
  · rw [hstarted, hqueue]
    exact h.inOrder
  · rw [hstarted, hactive, hran]
    exact h.begun

theorem fill (h : Placed inputs p) : Placed inputs p.fill := by
  by_cases hgo : p.ready = true ∧ p.paused = false
  · have hstarted := p.started_fill hgo.1 hgo.2
    have hsettled := p.settled_fill
    have hran : p.fill.ran = p.ran := by simp only [ran, hsettled]
    rw [fill_eq hgo.1 hgo.2] at hstarted hsettled hran ⊢
    have hbounded := h.bounded
    constructor
    · exact h.submitted
    · rw [hsettled]
      refine List.Perm.trans (List.Perm.append_right _ ?_) h.account
      dsimp only
      refine List.perm_append_comm.trans ?_
      rw [List.append_assoc, List.take_append_drop]
      exact List.perm_append_comm
    · simp only [List.length_append, List.length_take]
      omega
    · rw [hstarted, List.append_assoc, List.take_append_drop]
      exact h.inOrder
    · rw [hstarted, hran]
      refine (h.begun.append_right _).trans ?_
      simp only [List.append_assoc]
      exact List.Perm.append_left _ List.perm_append_comm
  · have hstays : p.fill = p := by
      unfold TaskPool.fill
      refine if_pos ?_
      cases hready : p.ready <;> cases hpaused : p.paused <;> simp_all
    rwa [hstays]

theorem submit (h : Placed inputs p) (more : List α) : Placed (inputs ++ more) (p.submit more) := by
  have hqueue : (p.submit more).queue = p.queue ++ tasksFrom inputs.length more := by
    rw [← h.submitted]
    rfl
  have hearlier : ∀ t ∈ p.started ++ p.queue, t ∈ tasksOf inputs := by
    intro t ht
    refine h.account.mem_iff.mp ?_
    rcases List.mem_append.mp ht with ht | ht
    · rcases List.mem_append.mp (h.begun.mem_iff.mp ht) with ht | ht
      · simp [ht]
      · obtain ⟨s, hs, rfl⟩ := List.mem_map.mp ht
        have hmem := (List.mem_filter.mp hs).1
        exact List.mem_append_right _ (List.mem_map_of_mem hmem)
    · simp [ht]
  constructor
  · show p.submitted + more.length = _
    rw [h.submitted, List.length_append]
  · rw [hqueue, tasksOf_append]
    show (p.queue ++ _ ++ p.active ++ p.settled.map (·.task)).Perm _
    refine List.Perm.trans ?_ (h.account.append_right _)
    simp only [List.append_assoc]
    refine List.Perm.append_left _ ?_
    rw [← List.append_assoc p.active]
    exact List.perm_append_comm
  · exact h.bounded
  · show ((p.started ++ (p.submit more).queue).map (·.sequence)).Pairwise (· < ·)
    rw [hqueue, ← List.append_assoc, List.map_append, List.pairwise_append, tasksFrom_sequence]
    refine ⟨h.inOrder, ?_, ?_⟩
    · refine List.pairwise_map.mpr (List.pairwise_lt_range.imp ?_)
      intro i j hij
      omega
    · intro i hi j hj
      obtain ⟨t, ht, rfl⟩ := List.mem_map.mp hi
      obtain ⟨k, -, rfl⟩ := List.mem_map.mp hj
      have hlt := sequence_lt_of_mem_tasksOf (hearlier t ht)
      omega
  · exact h.begun

theorem finish (h : Placed inputs p) {t : PoolTask α} (ht : t ∈ p.active) {outcome : TaskOutcome β}
    (hran : outcome.isCancelled = false) : Placed inputs (p.finish t outcome) := by
  have hmoved := filter_sequence_ne h.nodup_active ht
  have hsettled : (p.finish t outcome).settled = p.settled ++ [⟨t, outcome⟩] := settled_announce _ _
  have hstarted : (p.finish t outcome).started = p.started := started_announce _ _
  have hactive : (p.finish t outcome).active = p.active.filter (·.sequence ≠ t.sequence) := rfl
  have hrans : (p.finish t outcome).ran = p.ran ++ [t] := by simp [ran, hsettled, hran]
  constructor
  · exact h.submitted
  · rw [hsettled, hactive, List.map_append, ← List.append_assoc]
    show (p.queue ++ _ ++ _ ++ [t]).Perm _
    refine List.perm_append_comm.trans (List.Perm.trans ?_ h.account)
    show (t :: (p.queue ++ _) ++ _).Perm _
    refine List.Perm.append_right _ ?_
    exact List.perm_middle.symm.trans (List.Perm.append_left _ hmoved.symm)
  · exact Nat.le_trans (List.length_filter_le _ _) h.bounded
  · rw [hstarted]
    exact h.inOrder
  · rw [hstarted, hactive, hrans]
    refine h.begun.trans ((hmoved.append_right _).trans ?_)
    rw [← List.append_assoc]
    exact @List.perm_append_comm _ [t] _

theorem cancelPending (h : Placed inputs p) : Placed inputs p.cancelPending := by
  have hsettled : p.cancelPending.settled = p.settled ++ p.cancellations := by
    rw [cancelPending_eq, settled_announceAll]
    rfl
  have hstarted : p.cancelPending.started = p.started := by
    rw [cancelPending_eq, started_announceAll]
    rfl
  have hran : p.cancelPending.ran = p.ran := by
    simp [ran, hsettled, cancellations, List.filter_map, Function.comp_def, TaskOutcome.isCancelled]
  obtain ⟨waiting, replies, history, heq⟩ := announceAll_frame { p with queue := [] } p.cancellations
  rw [← cancelPending_eq] at heq
  rw [heq] at hsettled hstarted hran ⊢
  constructor
  · exact h.submitted
  · rw [hsettled, List.map_append, ← List.append_assoc]
    refine List.Perm.trans ?_ h.account
    refine List.perm_append_comm.trans ?_
    simp [cancellations, Function.comp_def]
  · exact h.bounded
  · rw [hstarted, List.append_nil]
    have hall := h.inOrder
    rw [List.map_append, List.pairwise_append] at hall
    exact hall.1
  · rw [hstarted, hran]
    exact h.begun

end Placed

/-! What calls are made of. -/

/-- A running task ends and others start; a task that is not running cannot end. -/
theorem settle_cases (p : TaskPool α β) (sequence : Nat) (outcome : TaskOutcome β) :
    p.settle sequence outcome = p ∨ ∃ t ∈ p.active, p.settle sequence outcome = (p.finish t outcome).fill := by
  cases hfind : p.active.find? (·.sequence = sequence) with
  | none =>
    left
    simp only [settle, hfind]
  | some t =>
    have hsequence : t.sequence = sequence := by simpa using List.find?_some hfind
    refine .inr ⟨t, List.mem_of_find?_eq_some hfind, ?_⟩
    subst hsequence
    simp only [settle, hfind]
    rfl

theorem after_add (p : TaskPool α β) (input : α) :
    p.after (.add input) = if p.shuttingDown then p else (p.submit [input]).fill := by
  simp only [after, add]
  split
  · rfl
  · rfl

/-- A batch is refused, or its tasks are queued and its caller waits for them. -/
theorem batch_eq (hready : p.ready = true) (inputs : List α) :
    p.batch inputs =
      if inputs = [] then (p.ticket.2.reply p.tickets (.results [])).fill
      else if p.shuttingDown then { p.ticket.2 with paused := true }.reply p.tickets (.refused .shuttingDown)
      else ((p.ticket.2.submit inputs).await p.tickets
        (.batch ((tasksFrom p.submitted inputs).map (·.sequence)) [])).fill := by
  have hready' : p.ticket.2.ready = true := hready
  have hclosing : p.ticket.2.shuttingDown = p.shuttingDown := rfl
  unfold batch
  rw [tasksFrom_sequence]
  cases inputs with
  | nil => simp [hready']; rfl
  | cons input inputs => simp [hready', hclosing]; rfl

theorem batch_unready (hready : p.ready = false) (inputs : List α) :
    p.batch inputs = p.ticket.2.reply p.tickets (.refused .noProcessor) := by
  have hready' : p.ticket.2.ready = false := hready
  unfold batch
  simp only [hready', Bool.not_false, if_true]
  rfl

theorem after_shutdown (p : TaskPool α β) :
    p.after .shutdown =
      if p.shuttingDown then p.ticket.2.reply p.tickets .idle
      else ({ p.ticket.2 with shuttingDown := true }.cancelPending).awaitIdle p.tickets :=
  rfl

theorem awaitIdle_frame (p : TaskPool α β) (ticket : Nat) :
    ∃ waiting replies, p.awaitIdle ticket = { p with waiting, replies } := by
  unfold awaitIdle
  split
  · exact ⟨_, _, rfl⟩
  · exact ⟨_, _, rfl⟩

theorem cancelPending_frame (p : TaskPool α β) :
    ∃ waiting replies history, p.cancelPending = { p with queue := [], waiting, replies, history } := by
  rw [cancelPending_eq]
  exact announceAll_frame _ _

/-- What only a few calls change. -/
def terms (p : TaskPool α β) : Nat × Bool × Bool := (p.maxWorkers, p.ready, p.shuttingDown)

theorem terms_fill (p : TaskPool α β) : p.fill.terms = p.terms := by
  obtain ⟨queue, active, history, heq⟩ := p.fill_frame
  rw [heq]
  rfl

theorem terms_settle (p : TaskPool α β) (sequence : Nat) (outcome : TaskOutcome β) :
    (p.settle sequence outcome).terms = p.terms := by
  rcases p.settle_cases sequence outcome with heq | ⟨t, -, heq⟩
  · rw [heq]
  · rw [heq, terms_fill]
    rfl

theorem terms_awaitIdle (p : TaskPool α β) (ticket : Nat) : (p.awaitIdle ticket).terms = p.terms := by
  obtain ⟨waiting, replies, heq⟩ := p.awaitIdle_frame ticket
  rw [heq]
  rfl

theorem terms_cancelPending (p : TaskPool α β) : p.cancelPending.terms = p.terms := by
  obtain ⟨waiting, replies, history, heq⟩ := p.cancelPending_frame
  rw [heq]
  rfl

/-- No call changes the number of workers or takes the processor away, and a pool shuts down for good. -/
theorem terms_after_call (p : TaskPool α β) (c : PoolCall α β) :
    (p.after c).terms = (p.maxWorkers, p.ready || c.isSetProcessor, p.shuttingDown || c.isShutdown) := by
  have hkept : c.isSetProcessor = false → c.isShutdown = false →
      (p.maxWorkers, p.ready || c.isSetProcessor, p.shuttingDown || c.isShutdown) = p.terms := by
    intro hset hshut
    rw [hset, hshut, Bool.or_false, Bool.or_false]
    rfl
  cases c with
  | setProcessor => simp [after, setProcessor, terms, PoolCall.isSetProcessor, PoolCall.isShutdown]
  | add input =>
    rw [after_add, hkept rfl rfl]
    split
    · rfl
    · exact terms_fill _
  | batch inputs =>
    rw [after, hkept rfl rfl]
    cases hready : p.ready with
    | false =>
      rw [batch_unready hready]
      rfl
    | true =>
      rw [batch_eq hready]
      split
      · exact terms_fill _
      split
      · rfl
      · exact terms_fill _
  | complete sequence value =>
    rw [hkept rfl rfl]
    exact terms_settle _ _ _
  | fail sequence message =>
    rw [hkept rfl rfl]
    exact terms_settle _ _ _
  | cancelPending =>
    rw [hkept rfl rfl]
    exact terms_cancelPending _
  | drain =>
    rw [hkept rfl rfl]
    exact terms_awaitIdle _ _
  | shutdown =>
    have hready : (p.ready || (.shutdown : PoolCall α β).isSetProcessor) = p.ready := Bool.or_false _
    rw [after_shutdown, PoolCall.isShutdown, Bool.or_true, hready]
    split
    · next hclosing =>
      rw [← hclosing]
      rfl
    · rw [terms_awaitIdle, terms_cancelPending]
      rfl

theorem terms_after (hready : p.ready = true) (c : PoolCall α β) :
    (p.after c).terms = (p.maxWorkers, true, p.shuttingDown || c.isShutdown) := by
  rw [terms_after_call, hready, Bool.true_or]

theorem shuttingDown_afterAll (p : TaskPool α β) (calls : List (PoolCall α β)) :
    (p.afterAll calls).shuttingDown = (p.shuttingDown || calls.any (·.isShutdown)) := by
  induction calls generalizing p with
  | nil => exact (Bool.or_false _).symm
  | cons c calls ih =>
    have hafter : (p.after c).shuttingDown = (p.shuttingDown || c.isShutdown) :=
      (Prod.mk.inj (Prod.mk.inj (p.terms_after_call c)).2).2
    rw [List.any_cons, ← Bool.or_assoc, ← hafter]
    exact ih (p.after c)

/-- The calls submit what they are asked to, up to the time when the pool is shut down. -/
theorem Placed.after (h : Placed inputs p) (hready : p.ready = true) (c : PoolCall α β) :
    Placed (inputs ++ if p.shuttingDown then [] else c.inputs) (p.after c) := by
  have hnothing : c.inputs = [] → (inputs ++ if p.shuttingDown then [] else c.inputs) = inputs := by
    intro hnone
    rw [hnone, ite_self, List.append_nil]
  have hsettle : ∀ sequence (outcome : TaskOutcome β), outcome.isCancelled = false →
      Placed inputs (p.settle sequence outcome) := by
    intro sequence outcome hran
    rcases p.settle_cases sequence outcome with heq | ⟨t, ht, heq⟩
    · rwa [heq]
    · rw [heq]
      exact (h.finish ht hran).fill
  have hidle : ∀ {q : TaskPool α β} ticket, Placed inputs q → Placed inputs (q.awaitIdle ticket) := by
    intro q ticket hq
    obtain ⟨waiting, replies, heq⟩ := q.awaitIdle_frame ticket
    rw [heq]
    exact hq.congr rfl rfl rfl rfl rfl
  cases c with
  | setProcessor =>
    rw [hnothing rfl]
    exact h.congr rfl rfl rfl rfl rfl
  | add input =>
    rw [after_add]
    split
    · rwa [List.append_nil]
    · exact (h.submit [input]).fill
  | batch more =>
    rw [TaskPool.after, batch_eq hready]
    have hticket : Placed inputs p.ticket.2 := h.congr rfl rfl rfl rfl rfl
    by_cases hnone : more = []
    · rw [if_pos hnone, hnothing hnone]
      exact (hticket.congr (q := p.ticket.2.reply p.tickets (.results [])) rfl rfl rfl rfl rfl).fill
    · rw [if_neg hnone]
      split
      · rw [List.append_nil]
        exact hticket.congr rfl rfl rfl rfl rfl
      · refine Placed.fill ?_
        exact (hticket.submit more).congr rfl rfl rfl rfl rfl
  | complete sequence value =>
    rw [hnothing rfl]
    exact hsettle sequence _ rfl
  | fail sequence message =>
    rw [hnothing rfl]
    exact hsettle sequence _ rfl
  | cancelPending =>
    rw [hnothing rfl]
    exact h.cancelPending
  | drain =>
    rw [hnothing rfl]
    exact hidle _ (h.congr rfl rfl rfl rfl rfl)
  | shutdown =>
    rw [hnothing rfl, after_shutdown]
    split
    · exact h.congr rfl rfl rfl rfl rfl
    · refine hidle _ (Placed.cancelPending ?_)
      exact h.congr rfl rfl rfl rfl rfl

/-- What holds for a pool with a processor after one call holds after all. -/
theorem Placed.afterAll (h : Placed inputs p) (hready : p.ready = true) (calls : List (PoolCall α β)) :
    Placed (inputs ++ if p.shuttingDown then [] else PoolCall.accepted calls) (p.afterAll calls) ∧
      (p.afterAll calls).terms = (p.maxWorkers, true, p.shuttingDown || calls.any (·.isShutdown)) := by
  induction calls generalizing p inputs with
  | nil =>
    constructor
    · rw [PoolCall.accepted, ite_self, List.append_nil]
      exact h
    · simp [TaskPool.afterAll, terms, hready]
  | cons c calls ih =>
    obtain ⟨hworkers, hready', hclosing⟩ := Prod.mk.inj (terms_after hready c) |>.imp_right Prod.mk.inj
    obtain ⟨hplaced, hterms⟩ := ih (h.after hready c) hready'
    rw [hworkers, hclosing, Bool.or_assoc] at hterms
    rw [hclosing] at hplaced
    refine ⟨?_, hterms⟩
    have hinputs : (inputs ++ if p.shuttingDown then [] else c.inputs) ++
        (if (p.shuttingDown || c.isShutdown) then [] else PoolCall.accepted calls) =
          inputs ++ if p.shuttingDown then [] else PoolCall.accepted (c :: calls) := by
      rw [List.append_assoc]
      cases hshut : p.shuttingDown with
      | true => simp
      | false =>
        cases c <;> simp [PoolCall.accepted, PoolCall.isShutdown, PoolCall.inputs]
    rw [hinputs] at hplaced
    exact hplaced

end TaskPool

end RuleScan
