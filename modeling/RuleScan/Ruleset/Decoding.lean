import RuleScan.Rule.Decoding
import RuleScan.Ruleset.Registry

/-! Ruleset sources and registries as decoded values. -/

namespace RuleScan

namespace RulesetSource

/-- Reads a source: a text as on the command line, or a record of its kind. -/
def ofValue : Value → RulesetSource
  | .str s => ofText s
  | v =>
    match v.textAt "kind" with
    | "file" => .file (v.textAt "path")
    | "directory" => .directory (v.textAt "path")
    | "inline" => .inline (v.textAt "name") (v.get? "document")
    | _ => .registry (v.textAt "name")

def toValue : RulesetSource → Value
  | .file path => Value.object [("kind", "file"), ("path", path)]
  | .directory path => Value.object [("kind", "directory"), ("path", path)]
  | .inline name document =>
    Value.record [("kind", some "inline"), ("name", some name), ("document", document)]
  | .registry name => Value.object [("kind", "registry"), ("name", name)]

end RulesetSource

/-- Reads a registry; what is no record is none. -/
def Registry.ofValue? (v : Value) : Option Registry :=
  v.obj?.map fun _ =>
    { url := v.textAt "url", headers := ((v.get? "headers").bind Value.obj?).getD []
      timeoutMs := (v.natAt? "timeoutMs").getD 10000 }

end RuleScan
