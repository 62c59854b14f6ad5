import RuleScan.Parsing.CompilerTree
import RuleScan.Parsing.GrammarTree
import RuleScan.Tree.Decoding

/-! Reading the trees of compilers and grammars from decoded values. -/

namespace RuleScan

namespace CompilerNode

/-- Reads a node; children nested deeper than `fuel` are left out. -/
def ofValueWithin : Nat → Value → CompilerNode
  | 0, _ => default
  | fuel + 1, v =>
    let property (p : Value) : Option (String × List Nat) :=
      match p with
      | .arr [.str name, .arr places] => some (name, places.filterMap fun i => i.num?.bind Number.toNat?)
      | _ => none
    { kind := v.numberAt "kind", names := (v.textsAt? "names").getD [], start := v.intAt "start"
      stop := v.intAt "end", properties := (v.listAt "props").filterMap property
      children := (v.listAt "children").map (ofValueWithin fuel) }

def ofValue (v : Value) : CompilerNode := ofValueWithin v.depth v

end CompilerNode

def CompilerDiagnostic.ofValue (v : Value) : CompilerDiagnostic :=
  ⟨v.textAt "message", v.intAt "start", v.intAt "length"⟩

namespace GrammarNode

/-- Reads a node; children nested deeper than `fuel` are left out. -/
def ofValueWithin : Nat → Value → GrammarNode
  | 0, _ => default
  | fuel + 1, v =>
    { type := v.textAt "type", start := v.intAt "start", stop := v.intAt "end", named := v.flagAt "named"
      missing := v.boolAt "missing", field := v.textAt? "field"
      children := (v.listAt "children").map (ofValueWithin fuel) }

def ofValue (v : Value) : GrammarNode := ofValueWithin v.depth v

end GrammarNode

end RuleScan
