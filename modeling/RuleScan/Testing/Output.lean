import RuleScan.Report.Document
import RuleScan.Report.Table
import RuleScan.Testing.Basic

/-! Test reports as documents and as text for a reader. -/

namespace RuleScan

namespace Document

/-- An expectation with every field present. -/
def expected (e : Expected) : Value :=
  Value.object
    [("line", Value.ofNat e.line), ("column", Value.orNull (optionalCount e.column)),
      ("endLine", Value.orNull (optionalCount e.endLine)), ("endColumn", Value.orNull (optionalCount e.endColumn)),
      ("ruleId", Value.orNull (optionalText e.ruleId))]

def fixture (f : FixtureResult) : Value :=
  let found (vs : List Violation) : Value := .arr (vs.map fun v => violation v.toValue)
  Value.object
    [("name", f.name), ("filename", f.filename), ("passed", .bool f.passed),
      ("expected", .arr (f.expected.map expected)), ("actual", found f.actual),
      ("missing", .arr (f.missing.map expected)), ("unexpected", found f.unexpected),
      ("errors", .arr (f.errors.map fun e => error e.toValue))]

def ruleTest (t : RuleTest) : Value :=
  Value.object [("ruleId", t.ruleId), ("passed", .bool t.passed), ("fixtures", .arr (t.fixtures.map fixture))]

end Document

namespace TestReport

def documentMembers (r : TestReport) : Members :=
  [("schemaVersion", .str Document.schemaVersion), ("passed", .bool r.passed),
    ("summary", Value.object
      [("rules", Value.ofNat r.rules.length), ("untested", Value.ofNat r.untestedCount),
        ("fixtures", Value.ofNat r.fixtures.length), ("passed", Value.ofNat r.passedCount),
        ("failed", Value.ofNat r.failedCount)]),
    ("rules", .arr (r.rules.map Document.ruleTest))]

def document (r : TestReport) : Value := .obj r.documentMembers

def documentWith (r : TestReport) (errors : List LoadFailure) : Value :=
  .obj (r.documentMembers ++ [("loadErrors", .arr (errors.map fun e => Document.loadError e.toValue))])

end TestReport

namespace Table

/-- A tick or a cross. -/
def mark (colored passed : Bool) : String :=
  if passed then Style.green.paint colored "✔" else Style.red.paint colored "✖"

/-- The lines of a fixture: what is missing, what is unexpected and what failed. -/
def fixtureLines (colored : Bool) (f : FixtureResult) : List String :=
  let red := Style.red.paint colored
  ("    " ++ mark colored f.passed ++ " " ++ f.name ++ " " ++ Style.dim.paint colored f.filename) ::
    f.missing.map (fun e =>
      red ("        - expected violation at " ++ toString e.line ++ e.column.elim "" fun c => ":" ++ toString c)) ++
    f.unexpected.map (fun v =>
      red ("        + unexpected violation at " ++ toString v.location.line ++ ":" ++ toString v.location.column ++
        " (" ++ v.ruleId ++ ")")) ++
    f.errors.map fun e => red ("        ! " ++ e.code ++ ": " ++ e.message)

def ruleTestLines (colored : Bool) (t : RuleTest) : List String :=
  if t.fixtures.isEmpty then
    [Style.gray.paint colored "○" ++ " " ++ t.ruleId ++ " " ++ Style.dim.paint colored "(no fixtures)"]
  else (mark colored t.passed ++ " " ++ t.ruleId) :: t.fixtures.flatMap (fixtureLines colored)

def ofTests (colored : Bool) (r : TestReport) (errors : List LoadFailure) : String :=
  let notLoaded := loadErrors colored errors
  let summary := plural r.rules.length "rule" ++ ", " ++ plural r.fixtures.length "fixture" ++ ": " ++
    toString r.passedCount ++ " passed, " ++ toString r.failedCount ++ " failed, " ++
    toString r.untestedCount ++ " untested"
  let lines := r.rules.flatMap (ruleTestLines colored) ++
    (if notLoaded.isEmpty then [] else "" :: notLoaded) ++ ["", summary]
  "\n".intercalate lines ++ "\n"

end Table

end RuleScan
