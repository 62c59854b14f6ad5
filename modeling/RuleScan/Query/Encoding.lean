import RuleScan.Query.Basic
import RuleScan.Value.Basic

/-! Queries as decoded values. -/

namespace RuleScan

namespace Query

/-- The members that every pattern ends with. -/
def tailMembers (q : Quantifier) (captures : List String) : Members :=
  [("quantifier", .str q.word), ("captures", Value.strings captures)]

mutual

def Pattern.toValue : Pattern → Value
  | .wildcard q cs => Value.object (("type", .str "wildcard") :: tailMembers q cs)
  | .literal v q cs => Value.object (("type", .str "string") :: ("value", .str v) :: tailMembers q cs)
  | .alternation alternatives q cs =>
    Value.object (("type", .str "alternation") :: ("alternatives", .arr (patternValues alternatives)) ::
      tailMembers q cs)
  | .node kind elements absent q cs =>
    Value.object (("type", .str "node") :: ("kind", Value.orNull (kind.map .str)) ::
      ("children", .arr (elementValues elements)) :: ("absentFields", Value.strings absent) :: tailMembers q cs)

def patternValues : List Pattern → List Value
  | [] => []
  | p :: rest => Pattern.toValue p :: patternValues rest

def elementValues : List (Option String × Pattern) → List Value
  | [] => []
  | (field, p) :: rest =>
    Value.object [("field", Value.orNull (field.map .str)), ("pattern", Pattern.toValue p)] :: elementValues rest

end

def Argument.toValue : Argument → Value
  | .capture name => Value.object [("type", "capture"), ("name", name)]
  | .string value => Value.object [("type", "string"), ("value", value)]

def Predicate.toValue (p : Predicate) : Value :=
  Value.object
    [("name", p.name), ("args", .arr (p.args.map Argument.toValue)), ("offset", Value.ofNat p.offset)]

end Query

def Query.toValue (q : Query) : Value :=
  Value.object
    [("source", q.source), ("pattern", q.pattern.toValue),
      ("predicates", .arr (q.predicates.map Query.Predicate.toValue)),
      ("captureNames", Value.strings q.captureNames)]

end RuleScan
