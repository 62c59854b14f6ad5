import RuleScan.Analysis.Basic
import RuleScan.Value.Basic

/-! Messages about how far the analysis of a file has come, and how long to wait for one. -/

namespace RuleScan

namespace UnitEvent

/-- Whether a value is such a message: the start of a rule with its id and place, or its end with an
outcome. -/
def isMessage (v : Value) : Bool :=
  match (v.get? "type").bind Value.str? with
  | some "rule-start" => ((v.get? "ruleId").bind Value.str?).isSome && ((v.get? "index").bind Value.num?).isSome
  | some "rule-end" => (v.get? "evaluation").isSome
  | _ => false

end UnitEvent

namespace UnitSettings

def leastGraceMs : Number := 250

/-- The time in milliseconds after which an evaluation that has not returned is given up: its limit and
the same again as grace. -/
def hardTimeoutMs (limit : Number) : Number :=
  limit.add (if leastGraceMs.lt limit then limit else leastGraceMs)

end UnitSettings

end RuleScan
