import RuleScan.Rule.Basic

/-! Reading rules back from decoded values, without checking them. Parts of the wrong shape are left out. -/

namespace RuleScan

namespace Value

def textAt (v : Value) (key : String) : String := ((v.get? key).bind str?).getD ""

def textAt? (v : Value) (key : String) : Option String := (v.get? key).bind str?

def listAt (v : Value) (key : String) : List Value := ((v.get? key).bind arr?).getD []

def textsAt? (v : Value) (key : String) : Option (List String) :=
  ((v.get? key).bind arr?).map fun items => items.filterMap str?

def intAt? (v : Value) (key : String) : Option Int := ((v.get? key).bind num?).bind Number.toInt?

def natAt? (v : Value) (key : String) : Option Nat := ((v.get? key).bind num?).bind Number.toNat?

def boolAt (v : Value) (key : String) : Bool := ((v.get? key).bind bool?).getD false

end Value

def Constraint.ofValue (v : Value) : Constraint :=
  { capture := v.textAt "capture", mustMatch := v.textAt? "matches", mustNotMatch := v.textAt? "notMatches"
    equals := v.textAt? "equals", notEquals := v.textAt? "notEquals", kinds := v.textsAt? "kinds" }

/-- Reads a clause; `shared` holds the clauses that others stand for by naming their key in `use`. Clauses
nested deeper than `fuel` are of no known type. -/
def Clause.ofValue (shared : Members) : Nat → Value → Clause
  | 0, _ => .other ""
  | fuel + 1, v =>
    let constraints := ((v.get? "where").bind Value.arr?).map (·.map Constraint.ofValue)
    let inner := (v.listAt "clauses").map (Clause.ofValue shared fuel)
    let guarded := Clause.ofValue shared fuel ((v.get? "clause").getD .null)
    match v.textAt? "use" with
    | some key => .shared key (Clause.ofValue shared fuel ((shared.get? key).getD .null))
    | none =>
      match v.textAt? "type" with
      | some "structural" => .structural (v.textAt "query") (v.textAt? "focus") constraints
      | some "textual" => .textual (v.textAt "regex") (v.textAt? "flags") constraints
      | some "all" => .all inner
      | some "any" => .any inner
      | some "not" => .guard .not guarded
      | some "inside" => .guard .inside guarded
      | some "not-inside" => .guard .notInside guarded
      | some type => .other type
      | none => .other "undefined"

/-- The nesting that is read back. -/
def Clause.readDepth : Nat := 64

def EditTemplate.ofValue (v : Value) : EditTemplate :=
  ⟨((v.textAt? "type").bind EditKind.ofWord?).getD .unknown, v.textAt? "target", v.textAt? "content"⟩

def FixTemplate.ofValue (v : Value) : FixTemplate :=
  ⟨v.textAt? "description", (v.listAt "edits").map EditTemplate.ofValue⟩

def Expected.ofValue (v : Value) : Expected :=
  ⟨(v.natAt? "line").getD 0, v.natAt? "column", v.natAt? "endLine", v.natAt? "endColumn", v.textAt? "ruleId"⟩

def Fixture.ofValue (v : Value) : Fixture :=
  ⟨v.textAt? "name", v.textAt? "filename", v.textAt "code", (v.listAt "expected").map Expected.ofValue⟩

def Rule.ofValue (v : Value) : Rule :=
  { id := v.textAt "id", name := v.textAt? "name", description := v.textAt? "description"
    languages := (v.listAt "languages").filterMap fun l => l.str?.bind Language.ofName?
    severity := ((v.textAt? "severity").bind Severity.ofWord?).getD .error, category := v.textAt? "category"
    message := v.textAt "message", patterns := (v.listAt "patterns").map (Clause.ofValue [] Clause.readDepth)
    fix := (v.get? "fix").map FixTemplate.ofValue
    tests := ((v.get? "tests").bind Value.arr?).map (·.map Fixture.ofValue), tags := v.textsAt? "tags"
    checksum := v.textAt? "checksum" }

end RuleScan
