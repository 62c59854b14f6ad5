import RuleScan.Command.Arguments
import RuleScan.Config.Loading
import RuleScan.Report.Output

/-! The commands and what can be asked of them. -/

namespace RuleScan

/-- Runs rulesets over a workspace. -/
structure AnalyzeCommand where
  directory : Option String := none
  rules : Option (List String) := none
  format : OutputFormat := .table
  output : Option String := none
  ignore : List String := []
  ruleIds : List String := []
  workers : Option Number := none
  timeoutMs : Option Number := none
  maxDurationMs : Option Number := none
  baseline : Option String := none
  writeBaseline : Option String := none
  failOn : FailOn := some .error
  statistics : Bool := false
  debug : Bool := false

structure TestCommand where
  sources : List String := []
  directory : Option String := none
  json : Bool := false
  ruleIds : List String := []
  debug : Bool := false

structure RulesCommand where
  sources : List String := []
  directory : Option String := none
  json : Bool := false
  debug : Bool := false

inductive Invocation where
  | version
  /-- An explanation: asked for, or given because nothing else was said. -/
  | help (askedFor : Bool)
  | analyze (c : AnalyzeCommand)
  | test (c : TestCommand)
  | rules (c : RulesCommand)

namespace Invocation

def positiveInteger (value : String) : Option String :=
  if (Number.positiveDecimal? value).isSome then none else some "Expected a positive integer."

def globalOptions : List CommandOption := [{ short := some 'V', long := "version" }]

def debugOption : CommandOption := { long := "debug" }

def directoryOption : CommandOption :=
  { short := some 'd', long := "dir", arity := .one, placeholder := "directory" }

def formatOption (words : List String) : CommandOption :=
  { short := some 'f', long := "format", arity := .one, placeholder := "format"
    refusal := CommandOption.oneOf words }

def numberOption (long placeholder : String) : CommandOption :=
  { long, arity := .one, placeholder, refusal := positiveInteger }

/-- The words for the lowest severity that fails a run. -/
def failOnWords : List String := ["error", "warning", "notice", "none"]

def analyzeOptions : List CommandOption :=
  [{ short := some 'r', long := "rules", arity := .many, placeholder := "sources" },
    formatOption (OutputFormat.all.map OutputFormat.word),
    { short := some 'o', long := "output", arity := .one, placeholder := "file" },
    { long := "ignore", arity := .many, placeholder := "globs" },
    { long := "rule", arity := .many, placeholder := "ids" },
    numberOption "workers" "n", numberOption "timeout" "ms", numberOption "max-duration" "ms",
    { long := "baseline", arity := .one, placeholder := "file" },
    { long := "write-baseline", arity := .one, placeholder := "file" },
    { long := "fail-on", arity := .one, placeholder := "severity", refusal := CommandOption.oneOf failOnWords },
    { long := "stats" }, debugOption]

def testOptions : List CommandOption :=
  [directoryOption, formatOption ["table", "json"], { long := "rule", arity := .many, placeholder := "ids" },
    debugOption]

def rulesOptions : List CommandOption := [directoryOption, { long := "json" }, debugOption]

def commands : List (String × List CommandOption) :=
  [("analyze", analyzeOptions), ("test", testOptions), ("rules", rulesOptions)]

def ofAnalyze (a : Arguments) : AnalyzeCommand :=
  let number (long : String) : Option Number := (a.value? long).bind Number.positiveDecimal?
  { directory := a.operands.head?, rules := a.values? "rules"
    format := ((a.value? "format").bind OutputFormat.ofWord?).getD .table, output := a.value? "output"
    ignore := (a.values? "ignore").getD [], ruleIds := (a.values? "rule").getD []
    workers := number "workers", timeoutMs := number "timeout", maxDurationMs := number "max-duration"
    baseline := a.value? "baseline", writeBaseline := a.value? "write-baseline"
    failOn := (a.value? "fail-on").elim (some .error) Severity.ofWord?
    statistics := a.has "stats", debug := a.has "debug" }

def ofTest (a : Arguments) : TestCommand :=
  { sources := a.operands, directory := a.value? "dir", json := a.value? "format" = some "json"
    ruleIds := (a.values? "rule").getD [], debug := a.has "debug" }

def ofRules (a : Arguments) : RulesCommand :=
  { sources := a.operands, directory := a.value? "dir", json := a.has "json", debug := a.has "debug" }

def asksForHelp (args : List String) : Bool := args.contains "--help" || args.contains "-h"

def optionNames (options : List CommandOption) : List String := options.map (·.long) ++ ["help"]

/-- Reads a command line: options for all commands first, then the command and its own options. -/
def ofArguments (args : List String) : Except UsageError Invocation := do
  let outer ← Arguments.read globalOptions args
  if outer.has "version" then return .version
  match outer.operands with
  | [] =>
    if asksForHelp outer.unknown then return .help true
    match outer.unknown with
    | [] => return .help false
    | flag :: _ => throw (.unknownOption flag (optionNames globalOptions))
  | name :: operands =>
    match commands.lookup name with
    | none =>
      if name = "help" then return .help (operands.head?.all fun topic => (commands.lookup topic).isSome)
      if asksForHelp outer.unknown then return .help true
      throw (.unknownCommand name (commands.map (·.1) ++ ["help"]))
    | some options =>
      let inner ← Arguments.read options outer.unknown
      if asksForHelp inner.unknown then return .help true
      match inner.unknown with
      | flag :: _ => throw (.unknownOption flag (optionNames options ++ optionNames globalOptions))
      | [] =>
        let a := { inner with operands := operands ++ inner.operands }
        if name = "analyze" then return .analyze (ofAnalyze a)
        else if name = "test" then return .test (ofTest a)
        else return .rules (ofRules a)

end Invocation

end RuleScan
