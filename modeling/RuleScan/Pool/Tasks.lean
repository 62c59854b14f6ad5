/-! A pool that works on a bounded number of tasks at a time. Tasks start in the order in which they are
submitted; callers wait for a batch of them or for the pool to be idle. -/

namespace RuleScan

structure PoolTask (α : Type) where
  /-- The place in the order of submission. -/
  sequence : Nat
  input : α
  deriving DecidableEq

def PoolTask.id {α : Type} (t : PoolTask α) : String := "task-" ++ toString t.sequence

inductive TaskOutcome (β : Type) where
  | completed (value : β)
  | failed (message : String)
  /-- It never started. -/
  | cancelled
  deriving DecidableEq

structure SettledTask (α β : Type) where
  task : PoolTask α
  outcome : TaskOutcome β
  deriving DecidableEq

inductive PoolEvent (α β : Type) where
  | started (t : PoolTask α)
  | settled (s : SettledTask α β)
  deriving DecidableEq

inductive PoolError where
  | shuttingDown
  | noProcessor
  deriving DecidableEq

def PoolError.message : PoolError → String
  | .shuttingDown => "Cannot add tasks while shutting down"
  | .noProcessor => "No processor set. Call setProcessor() first."

inductive Awaited (α β : Type) where
  /-- The tasks of a batch, with those that ended so far in order. -/
  | batch (sequences : List Nat) (ended : List (SettledTask α β))
  /-- That nothing is queued or running. -/
  | idle
  deriving DecidableEq

/-- What a caller that waited gets. -/
inductive PoolReply (α β : Type) where
  | results (ended : List (SettledTask α β))
  | idle
  | refused (e : PoolError)

structure TaskPool (α β : Type) where
  maxWorkers : Nat
  /-- Whether there is something to work on tasks. -/
  ready : Bool := false
  /-- Whether tasks are kept from starting. -/
  paused : Bool := false
  shuttingDown : Bool := false
  /-- The number of tasks submitted so far. -/
  submitted : Nat := 0
  queue : List (PoolTask α) := []
  /-- The running tasks in order of their start. -/
  active : List (PoolTask α) := []
  /-- The number of callers that waited or wait. -/
  tickets : Nat := 0
  waiting : List (Nat × Awaited α β) := []
  /-- What callers got, in order. -/
  replies : List (Nat × PoolReply α β) := []
  /-- All that happened, in order. -/
  history : List (PoolEvent α β) := []

namespace TaskPool

variable {α β : Type}

def ofSize (n : Int) : TaskPool α β := { maxWorkers := max 1 n.toNat }

def isIdle (p : TaskPool α β) : Bool := p.queue.isEmpty && p.active.isEmpty

/-- Starts queued tasks as long as there are workers. -/
def fill (p : TaskPool α β) : TaskPool α β :=
  if p.paused || !p.ready then p
  else
    let (now, later) := p.queue.splitAt (p.maxWorkers - p.active.length)
    { p with queue := later, active := p.active ++ now, history := p.history ++ now.map PoolEvent.started }

/-- What a waiting caller makes of a task that ended: the reply it was waiting for, or what it still
waits for. -/
def observe (idle : Bool) (s : SettledTask α β) : Awaited α β → Sum (PoolReply α β) (Awaited α β)
  | .batch sequences ended =>
    if sequences.contains s.task.sequence then
      let ended := ended ++ [s]
      if ended.length = sequences.length then .inl (.results ended) else .inr (.batch sequences ended)
    else .inr (.batch sequences ended)
  | .idle => if idle then .inl .idle else .inr .idle

/-- Tells all waiting callers that a task ended. -/
def announce (p : TaskPool α β) (s : SettledTask α β) : TaskPool α β :=
  let seen := p.waiting.map fun (ticket, a) => (ticket, observe p.isIdle s a)
  { p with
    history := p.history ++ [.settled s]
    replies := p.replies ++ seen.filterMap fun (ticket, r) => r.getLeft?.map (ticket, ·)
    waiting := seen.filterMap fun (ticket, r) => r.getRight?.map (ticket, ·) }

/-- A running task ends; then others start. -/
def settle (p : TaskPool α β) (sequence : Nat) (outcome : TaskOutcome β) : TaskPool α β :=
  match p.active.find? (·.sequence = sequence) with
  | none => p
  | some task =>
    let p := { p with active := p.active.filter (·.sequence ≠ sequence) }
    (p.announce ⟨task, outcome⟩).fill

/-- From now on there is something to work on tasks. Those queued start with the next one that is added
or ends. -/
def setProcessor (p : TaskPool α β) : TaskPool α β := { p with ready := true }

def submit (p : TaskPool α β) (inputs : List α) : TaskPool α β :=
  let tasks := inputs.zipIdx.map fun (input, i) => (⟨p.submitted + i, input⟩ : PoolTask α)
  { p with submitted := p.submitted + inputs.length, queue := p.queue ++ tasks }

/-- Adds one task, which starts as soon as a worker is free. -/
def add (p : TaskPool α β) (input : α) : Except PoolError (TaskPool α β) :=
  if p.shuttingDown then .error .shuttingDown else .ok (p.submit [input]).fill

/-- Answers a caller at once. -/
def reply (p : TaskPool α β) (ticket : Nat) (r : PoolReply α β) : TaskPool α β :=
  { p with replies := p.replies ++ [(ticket, r)] }

def await (p : TaskPool α β) (ticket : Nat) (a : Awaited α β) : TaskPool α β :=
  { p with waiting := p.waiting ++ [(ticket, a)] }

def ticket (p : TaskPool α β) : Nat × TaskPool α β := (p.tickets, { p with tickets := p.tickets + 1 })

/-- Adds a batch of tasks and waits until all have ended. The pool is paused while they are queued. -/
def batch (p : TaskPool α β) (inputs : List α) : TaskPool α β :=
  let (ticket, p) := p.ticket
  if !p.ready then p.reply ticket (.refused .noProcessor)
  else if p.shuttingDown && !inputs.isEmpty then { p with paused := true }.reply ticket (.refused .shuttingDown)
  else if inputs.isEmpty then (p.reply ticket (.results [])).fill
  else
    let sequences := (List.range inputs.length).map (p.submitted + ·)
    ((p.submit inputs).await ticket (.batch sequences [])).fill

def cancelPending (p : TaskPool α β) : TaskPool α β :=
  p.queue.foldl (fun p t => p.announce ⟨t, .cancelled⟩) { p with queue := [] }

/-- Waits, under a ticket, until nothing is queued or running. -/
def awaitIdle (p : TaskPool α β) (ticket : Nat) : TaskPool α β :=
  if p.isIdle then p.reply ticket .idle else p.await ticket .idle

def drain (p : TaskPool α β) : TaskPool α β :=
  let (ticket, p) := p.ticket
  p.awaitIdle ticket

/-- Cancels all queued tasks, waits for those running, and takes no more. A second call returns at
once. -/
def shutdown (p : TaskPool α β) : TaskPool α β :=
  let (ticket, p) := p.ticket
  if p.shuttingDown then p.reply ticket .idle
  else ({ p with shuttingDown := true }.cancelPending).awaitIdle ticket

/-- Completes running tasks in the order of their start until none is left; `fuel` bounds their number. -/
def finishAll (work : α → β) : Nat → TaskPool α β → TaskPool α β
  | 0, p => p
  | fuel + 1, p =>
    match p.active with
    | [] => p
    | t :: _ => finishAll work fuel (p.settle t.sequence (.completed (work t.input)))

end TaskPool

end RuleScan
