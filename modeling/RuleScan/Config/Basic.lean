import RuleScan.Evaluation.Budget
import RuleScan.Log.Basic
import RuleScan.Value.Basic

/-! The configuration of a workspace. -/

namespace RuleScan

/-- What becomes of trees that hold syntax errors. -/
inductive SyntaxPolicy where
  | tolerate
  | reject
  deriving DecidableEq, Inhabited

namespace SyntaxPolicy

def all : List SyntaxPolicy := [.tolerate, .reject]

def word : SyntaxPolicy → String
  | .tolerate => "tolerate"
  | .reject => "reject"

def ofWord? (s : String) : Option SyntaxPolicy := all.find? (·.word == s)

end SyntaxPolicy

/-- The limits of a run; a missing one does not bind. -/
structure AnalysisSettings where
  maxWorkers : Option Nat := none
  ruleTimeoutMs : Nat := 5000
  maxSteps : Nat := 2000000
  maxDurationMs : Option Nat := none
  maxFileSizeBytes : Nat := 1048576
  syntaxErrors : SyntaxPolicy := .tolerate
  deriving DecidableEq

/-- Where named rulesets are fetched from. -/
structure RegistrySettings where
  url : Option String := none
  timeoutMs : Nat := 10000
  deriving DecidableEq

/-- A complete configuration. The field defaults are the configuration of a workspace without one. -/
structure Config where
  rulesets : List String := []
  included : List String := []
  ignore : List String := []
  disabledRules : List String := []
  analysis : AnalysisSettings := {}
  registry : RegistrySettings := {}
  baseline : Option String := none
  logLevel : LogLevel := .info
  deriving DecidableEq

/-- A count that may be missing, written as null. -/
def Value.ofNat? (n : Option Nat) : Value := Value.orNull (n.map Value.ofNat)

/-- A text that may be missing, written as null. -/
def Value.ofText? (s : Option String) : Value := Value.orNull (s.map .str)

def AnalysisSettings.toValue (a : AnalysisSettings) : Value :=
  Value.object
    [("maxWorkers", .ofNat? a.maxWorkers), ("ruleTimeoutMs", Value.ofNat a.ruleTimeoutMs),
      ("maxSteps", Value.ofNat a.maxSteps), ("maxDurationMs", .ofNat? a.maxDurationMs),
      ("maxFileSizeBytes", Value.ofNat a.maxFileSizeBytes), ("syntaxErrors", a.syntaxErrors.word)]

def RegistrySettings.toValue (r : RegistrySettings) : Value :=
  Value.object [("url", .ofText? r.url), ("timeoutMs", Value.ofNat r.timeoutMs)]

def Config.toValue (c : Config) : Value :=
  Value.object
    [("rulesets", Value.strings c.rulesets), ("include", Value.strings c.included),
      ("ignore", Value.strings c.ignore), ("disabledRules", Value.strings c.disabledRules),
      ("analysis", c.analysis.toValue), ("registry", c.registry.toValue),
      ("baseline", .ofText? c.baseline), ("logLevel", c.logLevel.word)]

end RuleScan
