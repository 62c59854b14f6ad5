import RuleScan.Evaluation.Counted
import RuleScan.Number.Shortest
import RuleScan.Rule.Violation
import RuleScan.Value.Basic

/-! Errors in the form in which reports and callers get them: a name, a text and, for the errors of the
analysis itself, a code, whether the run can go on, and the circumstances. -/

namespace RuleScan

structure Fault where
  name : String
  message : String
  code : Option String := none
  recoverable : Bool := true
  context : Members := []

namespace Fault

/-- An error without a code. -/
def plain (name message : String) : Fault := { name, message }

def toValue (f : Fault) : Value :=
  Value.object
    [("name", f.name), ("code", Value.orNull (f.code.map .str)), ("message", f.message),
      ("recoverable", .bool f.recoverable), ("context", .obj f.context)]

end Fault

/-- A whole number in the text of a message. -/
def Number.intText (n : Int) : String := (Number.ofInt n).render

def Query.SyntaxFault.fault (e : Query.SyntaxFault) : Fault :=
  { name := "QuerySyntaxError", message := e.message, code := some "query-syntax"
    context := [("offset", Value.ofNat e.offset)] }

def Regex.CompileError.fault (e : Regex.CompileError) : Fault := .plain "SyntaxError" e.message

def NoNode.fault (e : NoNode) : Fault := .plain "TypeError" e.message

def ReadOnly.fault (e : ReadOnly) : Fault := .plain "TypeError" e.message

namespace Halt

def message : Halt → String
  | .stepLimit limit _ _ => "Step budget of " ++ Number.intText limit ++ " exceeded"
  | .timeLimit _ elapsed => "Evaluation exceeded its time limit after " ++ Number.intText elapsed ++ "ms"
  | .cancelled reason => reason.message

def timeout (message : String) (steps : Nat) (elapsed : Int) : Fault :=
  { name := "EvaluationTimeoutError", message, code := some "rule-timeout"
    context := [("steps", Value.ofNat steps), ("elapsedMs", Value.ofInt elapsed)] }

def fault (h : Halt) : Fault :=
  match h with
  | .stepLimit _ steps elapsed => timeout h.message steps elapsed
  | .timeLimit steps elapsed => timeout h.message steps elapsed
  | .cancelled reason =>
    { name := "EvaluationCancelledError", message := h.message, code := some "cancelled"
      context := [("reason", reason.word)] }

end Halt

namespace EvalError

/-- A clause that cannot be evaluated where it stands. -/
def failed (message : String) : Fault :=
  { name := "EvaluationError", message, code := some "evaluation-failed" }

def fault : EvalError → Fault
  | .halted h => h.fault
  | .query e => e.fault
  | .regex e => e.fault
  | .misplaced type => failed ("'" ++ type ++ "' clauses are only allowed inside an 'all' clause")
  | .noPositive => failed "An 'all' clause needs at least one positive clause"
  | .noNode e => e.fault
  | .readOnly e => e.fault

end EvalError

def FixError.fault (e : FixError) : Fault :=
  { name := "FixApplicationError", message := e.message, code := some "fix-conflict"
    context :=
      match e with
      | .outside start stop length =>
        [("startOffset", Value.ofInt start), ("endOffset", Value.ofInt stop), ("length", Value.ofNat length)]
      | .overlap start stop => [("startOffset", Value.ofInt start), ("endOffset", Value.ofInt stop)] }

end RuleScan
