import RuleScan.Analysis.Run

/-! Testing rules: each fixture of a rule is analyzed as a file of its own, and the violations found are
compared with those expected. -/

namespace RuleScan

/-- Whether a violation is one that is expected; what the expectation leaves out is not compared, except
that the rule is then the one under test. -/
def Expected.accepts (e : Expected) (ruleId : String) (v : Violation) : Bool :=
  e.line = v.location.line && e.column.all (· = v.location.column) && e.endLine.all (· = v.location.endLine) &&
    e.endColumn.all (· = v.location.endColumn) && e.ruleId.getD ruleId = v.ruleId

namespace Fixture

/-- The items at other places than these, in order. -/
def besides {α : Type} (places : List Nat) (xs : List (α × Nat)) : List α := (xs.filter (·.2 ∉ places)).map (·.1)

/-- The entries that found no violation, and the places of the violations that are taken. -/
structure Pairing where
  missing : List Expected := []
  used : List Nat := []

/-- Pairs an entry with the first violation that it accepts and that is not taken. -/
def Pairing.add (ruleId : String) (vs : List (Violation × Nat)) (p : Pairing) (e : Expected) : Pairing :=
  match vs.find? fun (v, place) => place ∉ p.used ∧ e.accepts ruleId v with
  | some (_, place) => { p with used := place :: p.used }
  | none => { p with missing := p.missing ++ [e] }

/-- Pairs the entries in order. The result is the entries that found no violation, and the violations left over. -/
def diff (ruleId : String) (es : List Expected) (vs : List Violation) : List Expected × List Violation :=
  let pairing := es.foldl (Pairing.add ruleId vs.zipIdx) {}
  (pairing.missing, besides pairing.used vs.zipIdx)

def extension : Language → String
  | .typescript => ".ts"
  | .javascript => ".js"
  | .python => ".py"
  | .java => ".java"
  | .go => ".go"

/-- The file that a fixture is analyzed as: under its own name, or in the first language of the rule. -/
def input (f : Fixture) (rule : Rule) : SourceInput :=
  match f.filename.filter (· ≠ "") with
  | some path => { path, content := some (.text f.code) }
  | none =>
    let language := rule.languages.headD .typescript
    { path := "fixture" ++ extension language, content := some (.text f.code), language := some language }

end Fixture

structure FixtureResult where
  name : String
  filename : String
  expected : List Expected
  actual : List Violation
  missing : List Expected
  unexpected : List Violation
  errors : List AnalysisError

/-- A fixture passes if exactly what is expected was found and nothing failed. -/
def FixtureResult.passed (r : FixtureResult) : Bool :=
  r.missing.isEmpty && r.unexpected.isEmpty && r.errors.isEmpty

/-- The outcome of the fixtures of one rule. -/
structure RuleTest where
  ruleId : String
  fixtures : List FixtureResult

def RuleTest.passed (t : RuleTest) : Bool := t.fixtures.all (·.passed)

namespace RuleTest

/-- Analyzes one fixture. One without a name is called by its place. -/
def runFixture (rule : Rule) (options : RunOptions) (tools : UnitTools) (world : Surroundings) (index : Nat)
    (f : Fixture) : FixtureResult × Surroundings :=
  let input := f.input rule
  let outcome := AnalysisRun.run [input] [rule] options [] .inProcess tools world
  let (missing, unexpected) := Fixture.diff rule.id f.expected outcome.report.violations
  ({ name := f.name.getD ("#" ++ toString index), filename := input.path, expected := f.expected
     actual := outcome.report.violations, missing, unexpected, errors := outcome.report.errors }, outcome.world)

/-- Analyzes some fixtures in order, the first under this index. -/
def runFixtures (rule : Rule) (options : RunOptions) (tools : UnitTools) :
    Nat → List Fixture → Surroundings → List FixtureResult × Surroundings
  | _, [], world => ([], world)
  | index, f :: rest, world =>
    let (result, world) := runFixture rule options tools world index f
    let (results, world) := runFixtures rule options tools (index + 1) rest world
    (result :: results, world)

def runAll (options : RunOptions) (tools : UnitTools) : List Rule → Surroundings → List RuleTest × Surroundings
  | [], world => ([], world)
  | rule :: rest, world =>
    let (fixtures, world) := runFixtures rule options tools 0 (rule.tests.getD []) world
    let (tests, world) := runAll options tools rest world
    ({ ruleId := rule.id, fixtures } :: tests, world)

end RuleTest

structure TestReport where
  rules : List RuleTest

namespace TestReport

def passed (r : TestReport) : Bool := r.rules.all (·.passed)

def fixtures (r : TestReport) : List FixtureResult := r.rules.flatMap (·.fixtures)

def passedCount (r : TestReport) : Nat := r.fixtures.countP (·.passed)

def failedCount (r : TestReport) : Nat := r.fixtures.length - r.passedCount

def untestedCount (r : TestReport) : Nat := r.rules.countP (·.fixtures.isEmpty)

def run (rules : List Rule) (options : RunOptions) (tools : UnitTools) (world : Surroundings) :
    TestReport × Surroundings :=
  let (tests, world) := RuleTest.runAll options tools rules world
  ({ rules := tests }, world)

end TestReport

end RuleScan
