import RuleScan.Rule.Decoding
import RuleScan.Tree.Basic
import RuleScan.Value.Basic

/-! Reading trees from decoded values. -/

namespace RuleScan

namespace Value

mutual

/-- The number of values on the longest way inwards. -/
def depth : Value → Nat
  | .arr items => depthOfItems items + 1
  | .obj members => depthOfMembers members + 1
  | _ => 1

def depthOfItems : List Value → Nat
  | [] => 0
  | v :: rest => max (depth v) (depthOfItems rest)

def depthOfMembers : List (String × Value) → Nat
  | [] => 0
  | (_, v) :: rest => max (depth v) (depthOfMembers rest)

end

end Value

/-- The language that a record names; TypeScript if it names none. -/
def Language.ofRecord (v : Value) : Language := ((v.textAt? "language").bind Language.ofName?).getD .typescript

namespace Value

/-- The member at a key; one that is missing is null. -/
def memberAt (v : Value) (key : String) : Value := (v.get? key).getD .null

def countAt (v : Value) (key : String) : Nat := (v.natAt? key).getD 0

def intAt (v : Value) (key : String) : Int := (v.intAt? key).getD 0

def numberAt (v : Value) (key : String) : Number := ((v.get? key).bind num?).getD 0

/-- A flag that is set unless it is said not to be. -/
def flagAt (v : Value) (key : String) : Bool := ((v.get? key).bind bool?).getD true

end Value

namespace Draft

/-- Reads a node; children nested deeper than `fuel` are left out. -/
def ofValueWithin : Nat → Value → Draft
  | 0, v => { kind := v.textAt "kind", start := v.intAt "start", stop := v.intAt "end", children := [] }
  | fuel + 1, v =>
    { kind := v.textAt "kind", start := v.intAt "start", stop := v.intAt "end", named := v.flagAt "named"
      field := v.textAt? "field", hasError := v.boolAt "error"
      children := (v.listAt "children").map (ofValueWithin fuel) }

def ofValue (v : Value) : Draft := ofValueWithin v.depth v

end Draft

/-- Reads a source with its draft and finishes the tree. -/
def Tree.ofValue (v : Value) : Tree :=
  Tree.ofDraft (.ofRecord v) (Units.ofString (v.textAt "source")) (.ofValue (v.memberAt "root"))
    ((v.listAt "diagnostics").map fun d => ⟨d.textAt "message", d.intAt "start", d.intAt "end"⟩)

end RuleScan
