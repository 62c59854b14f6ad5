/-! The life cycle of a pool of threads: it is set up before the first task and torn down once. Setting
up and tearing down take time, in which other calls can come in. -/

namespace RuleScan

inductive ThreadPoolError where
  | setUpDestroyed
  | destroyed
  | notSetUp
  /-- The task itself failed. -/
  | taskFailed (message : String)
  deriving DecidableEq

def ThreadPoolError.message : ThreadPoolError → String
  | .setUpDestroyed => "Cannot initialize a destroyed pool"
  | .destroyed => "Pool has been destroyed"
  | .notSetUp => "Pool not initialized. Call initialize() first."
  | .taskFailed message => message

/-- A pool of threads. Its sets of threads are numbered in the order in which they are made. -/
structure ThreadPool where
  /-- The set of threads in use. -/
  current : Option Nat := none
  destroyed : Bool := false
  /-- The number of sets made so far. -/
  made : Nat := 0
  /-- The number of calls that are setting up. -/
  settingUp : Nat := 0
  /-- The sets that are being torn down. -/
  tearingDown : List Nat := []
  /-- The sets that are gone. -/
  gone : List Nat := []
  deriving DecidableEq

namespace ThreadPool

/-- Starts setting up, unless there is a set in use. -/
def beginSetUp (p : ThreadPool) : Except ThreadPoolError ThreadPool :=
  if p.current.isSome then .ok p
  else if p.destroyed then .error .setUpDestroyed
  else .ok { p with settingUp := p.settingUp + 1 }

/-- Ends one call that is setting up: a new set is made and used. -/
def endSetUp (p : ThreadPool) : ThreadPool :=
  match p.settingUp with
  | 0 => p
  | n + 1 => { p with settingUp := n, current := some p.made, made := p.made + 1 }

/-- Sets up while no other call comes in. -/
def setUp (p : ThreadPool) : Except ThreadPoolError ThreadPool := p.beginSetUp.map endSetUp

/-- Starts tearing down; a second call returns at once. -/
def beginTearDown (p : ThreadPool) : ThreadPool :=
  if p.destroyed then p
  else { p with destroyed := true, tearingDown := p.tearingDown ++ p.current.toList }

/-- A set that is being torn down is gone, and none is in use. -/
def endTearDown (p : ThreadPool) : ThreadPool :=
  match p.tearingDown with
  | [] => p
  | set :: rest => { p with tearingDown := rest, gone := p.gone ++ [set], current := none }

/-- Tears down while no other call comes in. -/
def tearDown (p : ThreadPool) : ThreadPool := p.beginTearDown.endTearDown

def run {α β : Type} (p : ThreadPool) (work : α → Except String β) (task : α) : Except ThreadPoolError β :=
  if p.destroyed then .error .destroyed
  else if p.current.isNone then .error .notSetUp
  else (work task).mapError .taskFailed

end ThreadPool

end RuleScan
