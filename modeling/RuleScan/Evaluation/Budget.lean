/-! Step and time limits of one evaluation, and the surroundings in which they are checked. -/

namespace RuleScan

/-- What a run sees of the world: the time at each reading of the clock, in milliseconds, and at each
look whether someone asks it to stop. -/
structure Surroundings where
  time : Nat → Int
  stop : Nat → Bool
  readings : Nat := 0
  looks : Nat := 0

namespace Surroundings

/-- A clock that stands still, and nobody who asks to stop. -/
def still (now : Int) : Surroundings := { time := fun _ => now, stop := fun _ => false }

/-- A clock that moves on by `step` at each reading. -/
def ticking (now step : Int) : Surroundings := { time := fun n => now + n * step, stop := fun _ => false }

def readClock (s : Surroundings) : Int × Surroundings :=
  (s.time s.readings, { s with readings := s.readings + 1 })

def look (s : Surroundings) : Bool × Surroundings := (s.stop s.looks, { s with looks := s.looks + 1 })

/-- From now on a stop is asked for, or no longer. -/
def setStop (s : Surroundings) (value : Bool) : Surroundings := { s with stop := fun _ => value }

def setClock (s : Surroundings) (now : Int) : Surroundings := { s with time := fun _ => now }

end Surroundings

inductive CancelReason where
  | aborted
  | budgetExceeded
  deriving DecidableEq

namespace CancelReason

def word : CancelReason → String
  | .aborted => "aborted"
  | .budgetExceeded => "budget-exceeded"

def message : CancelReason → String
  | .aborted => "Analysis was cancelled"
  | .budgetExceeded => "Analysis time budget exceeded"

end CancelReason

/-- What an evaluation may use: steps, and the times after which it, or the whole run, is out of time. -/
structure Budget where
  maxSteps : Int
  deadline : Option Int := none
  runDeadline : Option Int := none

namespace Budget

/-- The number of steps between two looks at the surroundings. -/
def checkpointInterval : Nat := 256

end Budget

inductive Halt where
  | stepLimit (limit : Int) (steps : Nat) (elapsed : Int)
  | timeLimit (steps : Nat) (elapsed : Int)
  | cancelled (reason : CancelReason)
  deriving DecidableEq

/-- Counts the steps of one evaluation against its budget. -/
structure Tracker where
  budget : Budget
  world : Surroundings
  startedAt : Int
  steps : Nat

namespace Tracker

/-- Starts counting; the clock is read once. -/
def start (budget : Budget) (world : Surroundings) : Tracker :=
  let (now, world) := world.readClock
  { budget, world, startedAt := now, steps := 0 }

def elapsed (t : Tracker) : Int × Tracker :=
  let (now, world) := t.world.readClock
  (now - t.startedAt, { t with world })

/-- Looks at the surroundings: a stop asked for comes before the end of the run's time, and that
before the end of the evaluation's own. -/
def checkpoint (t : Tracker) : Option Halt × Tracker :=
  let (stop, world) := t.world.look
  if stop then (some (.cancelled .aborted), { t with world })
  else
    let (now, world) := world.readClock
    let t := { t with world }
    if t.budget.runDeadline.any (· < now) then (some (.cancelled .budgetExceeded), t)
    else if t.budget.deadline.any (· < now) then (some (.timeLimit t.steps (now - t.startedAt)), t)
    else (none, t)

/-- Takes one step; every 256th looks at the surroundings. -/
def step (t : Tracker) : Option Halt × Tracker :=
  let t := { t with steps := t.steps + 1 }
  if t.budget.maxSteps < (t.steps : Int) then
    let (elapsed, t) := t.elapsed
    (some (.stepLimit t.budget.maxSteps t.steps elapsed), t)
  else if t.steps % Budget.checkpointInterval = 0 then t.checkpoint
  else (none, t)

end Tracker

end RuleScan
