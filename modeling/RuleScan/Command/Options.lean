import RuleScan.Analysis.Baseline
import RuleScan.Analysis.Workspace
import RuleScan.Command.Basic

/-! The options of an analysis: those of the configuration, with the command line on top. -/

namespace RuleScan

namespace Config

/-- Where named rulesets are fetched from, if an address is set. -/
def registry? (c : Config) : Option Registry :=
  (c.registry.url.filter (· ≠ "")).map fun url => { url, timeoutMs := c.registry.timeoutMs }

/-- The ruleset sources: those given, or the configured ones if none is. -/
def sourcesOr (c : Config) (given : List String) : List String := if given.isEmpty then c.rulesets else given

end Config

/-- A limit as a whole number; one that is out of range does not bind. -/
def Number.limit (n : Number) : Int := n.toInt?.getD (Int.pow 10 400)

namespace AnalyzeCommand

/-- The file of the fingerprints that are not reported. -/
def baselineFile? (a : AnalyzeCommand) (c : Config) : Option String := (a.baseline.or c.baseline).filter (· ≠ "")

/-- The options of the analysis, without the baseline. -/
def optionsFor (a : AnalyzeCommand) (c : Config) : WorkspaceOptions :=
  let settings := c.analysis
  { excludeRuleIds := c.disabledRules, included := c.included, ignore := c.ignore ++ a.ignore
    ruleTimeoutMs := a.timeoutMs.elim (settings.ruleTimeoutMs : Int) Number.limit
    maxSteps := settings.maxSteps, maxFileSizeBytes := settings.maxFileSizeBytes
    syntaxErrors := settings.syntaxErrors, collectStatistics := a.statistics
    ruleIds := if a.ruleIds.isEmpty then none else some a.ruleIds
    maxWorkers := a.workers.or (settings.maxWorkers.map Number.ofNat)
    maxDurationMs := (a.maxDurationMs.map Number.limit).or (settings.maxDurationMs.map Int.ofNat)
    registry := c.registry? }

/-- The options of the analysis of a workspace; the baseline is read from it. -/
def workspaceOptions (a : AnalyzeCommand) (c : Config) (disk : Disk) (root : String) :
    Except BaselineError WorkspaceOptions :=
  match a.baselineFile? c with
  | none => .ok (a.optionsFor c)
  | some file => do
    let prints ← Baseline.read disk (Path.resolve root file)
    return { a.optionsFor c with baseline := some prints }

end AnalyzeCommand

/-- Options as a value; what is not set is left out. -/
def WorkspaceOptions.toValue (o : WorkspaceOptions) : Value :=
  Value.record
    [("excludeRuleIds", some (Value.strings o.excludeRuleIds)), ("include", some (Value.strings o.included)),
      ("ignore", some (Value.strings o.ignore)), ("ruleTimeoutMs", some (Value.ofInt o.ruleTimeoutMs)),
      ("maxSteps", some (Value.ofInt o.maxSteps)), ("maxFileSizeBytes", some (Value.ofInt o.maxFileSizeBytes)),
      ("syntaxErrors", some o.syntaxErrors.word), ("collectStatistics", some (.bool o.collectStatistics)),
      ("ruleIds", o.ruleIds.map Value.strings), ("maxWorkers", o.maxWorkers.map .num),
      ("maxDurationMs", o.maxDurationMs.map Value.ofInt),
      ("registry", o.registry.map fun r =>
        Value.object [("url", r.url), ("timeoutMs", Value.ofNat r.timeoutMs)]),
      ("baseline", o.baseline.map Value.strings)]

end RuleScan
