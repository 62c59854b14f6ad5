import RuleScan.Evaluation.Budget
import RuleScan.Evaluation.Match
import RuleScan.Query.Basic
import RuleScan.Regex.Basic

/-! Computations that count their steps and may fail. The count is kept when they fail. -/

namespace RuleScan

/-- Why an evaluation ended without matches. -/
inductive EvalError where
  | halted (h : Halt)
  | query (e : Query.SyntaxFault)
  | regex (e : Regex.CompileError)
  /-- A guard stood outside an 'all' clause, or a clause was of no known type. -/
  | misplaced (type : String)
  | noPositive
  | noNode (e : NoNode)
  | readOnly (e : ReadOnly)

/-- A computation under a budget. -/
abbrev Counted := EStateM EvalError Tracker

namespace Counted

/-- Applies a tracker operation, failing when it halts. -/
def track (f : Tracker → Option Halt × Tracker) : Counted Unit := fun t =>
  match f t with
  | (none, t) => .ok () t
  | (some h, t) => .error (.halted h) t

def step : Counted Unit := track Tracker.step

def checkpoint : Counted Unit := track Tracker.checkpoint

/-- Takes over a result that may be an error. -/
def ofExcept {ε α : Type} (wrap : ε → EvalError) : Except ε α → Counted α
  | .ok a => pure a
  | .error e => throw (wrap e)

end Counted

end RuleScan
