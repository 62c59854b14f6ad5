import RuleScan.Rule.Basic
import RuleScan.Value.Printer
import RuleScan.Digest.Sha256

/-! Rules as decoded values, and the checksum of a rule's patterns. -/

namespace RuleScan

def optionalText (s : Option String) : Option Value := s.map .str

def optionalCount (n : Option Nat) : Option Value := n.map Value.ofNat

def Constraint.toValue (c : Constraint) : Value :=
  Value.record
    [("capture", some c.capture), ("matches", optionalText c.mustMatch),
      ("notMatches", optionalText c.mustNotMatch), ("equals", optionalText c.equals),
      ("notEquals", optionalText c.notEquals), ("kinds", c.kinds.map Value.strings)]

def constraintsValue (cs : Option (List Constraint)) : Option Value :=
  cs.map fun cs => .arr (cs.map Constraint.toValue)

mutual

def Clause.toValue : Clause → Value
  | .structural query focus constraints =>
    Value.record
      [("type", some "structural"), ("query", some query), ("focus", optionalText focus),
        ("where", constraintsValue constraints)]
  | .textual regex flags constraints =>
    Value.record
      [("type", some "textual"), ("regex", some regex), ("flags", optionalText flags),
        ("where", constraintsValue constraints)]
  | .all clauses => Value.object [("type", "all"), ("clauses", .arr (Clause.toValues clauses))]
  | .any clauses => Value.object [("type", "any"), ("clauses", .arr (Clause.toValues clauses))]
  | .guard kind clause => Value.object [("type", kind.word), ("clause", Clause.toValue clause)]
  | .shared _ clause => Clause.toValue clause
  | .other type => Value.object [("type", type)]

def Clause.toValues : List Clause → List Value
  | [] => []
  | c :: rest => Clause.toValue c :: Clause.toValues rest

end

def Value.checksum (v : Value) : String := Sha256.hex v.canonical

def Clause.checksum (patterns : List Clause) : String := (Value.arr (Clause.toValues patterns)).checksum

def EditTemplate.toValue (e : EditTemplate) : Value :=
  Value.record
    [("type", some e.kind.word), ("target", optionalText e.target), ("content", optionalText e.content)]

def FixTemplate.toValue (f : FixTemplate) : Value :=
  Value.record
    [("edits", some (.arr (f.edits.map EditTemplate.toValue))), ("description", optionalText f.description)]

def Expected.toValue (e : Expected) : Value :=
  Value.record
    [("line", some (Value.ofNat e.line)), ("column", optionalCount e.column),
      ("endLine", optionalCount e.endLine), ("endColumn", optionalCount e.endColumn),
      ("ruleId", optionalText e.ruleId)]

def Fixture.toValue (f : Fixture) : Value :=
  Value.record
    [("code", some f.code), ("expected", some (.arr (f.expected.map Expected.toValue))),
      ("name", optionalText f.name), ("filename", optionalText f.filename)]

def Rule.toValue (r : Rule) : Value :=
  Value.record
    [("id", some r.id), ("languages", some (Value.strings (r.languages.map (·.name)))),
      ("severity", some r.severity.word), ("message", some r.message),
      ("patterns", some (.arr (Clause.toValues r.patterns))), ("name", optionalText r.name),
      ("description", optionalText r.description), ("category", optionalText r.category),
      ("fix", r.fix.map FixTemplate.toValue), ("tests", r.tests.map fun ts => .arr (ts.map Fixture.toValue)),
      ("tags", r.tags.map Value.strings), ("checksum", optionalText r.checksum)]

end RuleScan
