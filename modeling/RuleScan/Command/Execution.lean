import RuleScan.Command.Options
import RuleScan.Testing.Output

/-! What the commands do: what they write, which files they leave behind and how they exit. Reports go to
the standard output, everything else to the standard error. -/

namespace RuleScan

structure Station where
  directory : String
  environment : Environment := []
  disk : Disk
  network : Network := fun _ => .answered 404 "Not Found" ""
  parsers : ParserRegistry
  world : Surroundings

structure Session where
  exitCode : Nat := 0
  stdout : String := ""
  stderr : String := ""
  disk : Disk
  /-- The files written. -/
  written : List String := []
  requests : List Request := []

namespace Session

def exitOk : Nat := 0

/-- Violations or failures were found, or the command line is refused. -/
def exitFailure : Nat := 1

/-- The command could not do its work. -/
def exitError : Nat := 2

def version : String := Sarif.toolVersion

def exit (s : Session) (code : Nat) : Session := { s with exitCode := code }

/-- Writes a line to the standard error. -/
def note (s : Session) (line : String) : Session := { s with stderr := s.stderr ++ line ++ "\n" }

def success (s : Session) (text : String) : Session := s.note ("✔ " ++ text)

def failure (s : Session) (text : String) : Session := s.note ("✖ " ++ text)

def warning (s : Session) (text : String) : Session := s.note ("⚠ " ++ text)

def logAll (s : Session) (level : LogLevel) (lines : List LogLine) : Session :=
  (LogLine.passing level lines).foldl (fun s l => s.note (l.render LogLine.defaultLead)) s

def print (s : Session) (text : String) : Session := { s with stdout := s.stdout ++ text }

/-- An error that no command expects. -/
def crash (s : Session) (e : SystemError) : Session := (s.note ("Error: " ++ e.message)).exit exitError

/-- Writes a text file, making the directories it lies in. -/
def writeFile (s : Session) (path text : String) : Except SystemError Session := do
  let disk ← s.disk.makeDirectory (Path.parent path)
  let disk ← disk.write path text
  return { s with disk, written := s.written ++ [path] }

/-- The workspace of a command with its configuration. -/
structure Context where
  root : String
  config : Config
  level : LogLevel

/-- Loads the configuration of the workspace in a directory. -/
def context [UrlReader] (station : Station) (directory : Option String) (debug : Bool) :
    Except Config.LoadError Context := do
  let root := Path.resolve station.directory (directory.getD "")
  let loaded ← Config.load station.disk root station.environment
  return { root, config := loaded.config, level := if debug then .debug else loaded.config.logLevel }

/-- Writes a finished report to its file, or prints it. -/
def writeReport (s : Session) (station : Station) (a : AnalyzeCommand) (report : Report) :
    Except SystemError Session :=
  let rendered := report.render false a.format
  match a.output.filter (· ≠ "") with
  | none => .ok (s.print rendered)
  | some file => do
    let target := Path.resolve station.directory file
    let s ← s.writeFile target rendered
    return s.success ("Report written to " ++ target)

/-- Says that a run was cancelled, if it was. -/
def noteCancellation (s : Session) (report : Report) : Session :=
  if report.cancelled then
    s.warning ("Analysis cancelled (" ++ (report.reason.getD .aborted).word ++
      "); the report covers completed files only")
  else s

/-- Writes a baseline of what was reported, if one is wanted, and exits. -/
def writeBaseline (s : Session) (a : AnalyzeCommand) (root : String) (report : Report) : Session :=
  match a.writeBaseline.filter (· ≠ "") with
  | none => s.exit (report.exitCode a.failOn)
  | some file =>
    let target := Path.resolve root file
    let prints := Baseline.ofViolations report.violations
    match Baseline.write s.disk target prints with
    | .error e => s.crash e
    | .ok disk =>
      let s := { s with disk, written := s.written ++ [target] }
      (s.success ("Baseline of " ++ toString prints.length ++ " fingerprints written to " ++ target)).exit
        (report.exitCode a.failOn)

/-- Writes a finished report, then what there is to say about the run, then a baseline if one is wanted. -/
def finish (s : Session) (station : Station) (a : AnalyzeCommand) (root : String) (report : Report) : Session :=
  match s.writeReport station a report with
  | .error e => s.crash e
  | .ok s => (s.noteCancellation report).writeBaseline a root report

def analyze [UrlReader] (station : Station) (a : AnalyzeCommand) : Session :=
  let s : Session := { disk := station.disk }
  match context station a.directory a.debug with
  | .error e => (s.failure e.message).exit exitError
  | .ok c =>
    let sources := c.config.sourcesOr (a.rules.getD [])
    if sources.isEmpty then
      (s.failure "No rulesets given. Pass --rules or set \"rulesets\" in .codeprobe/config.json").exit exitError
    else
      match a.workspaceOptions c.config station.disk c.root with
      | .error e => (s.failure e.message).exit exitError
      | .ok options =>
        let spinning := a.format = .table
        let tools : Workspace.Tools :=
          { parsers := station.parsers, disk := station.disk, network := station.network }
        let outcome := Workspace.analyze c.root none (sources.map RulesetSource.ofText) options tools station.world
        let s := if spinning then s.note "- Analyzing..." else s
        let s := { s.logAll c.level outcome.log with requests := outcome.requests }
        match outcome.result with
        | .error e =>
          let s := if spinning then s.failure e.message else s
          (s.failure (e.message ++ (e.code?.elim "" fun code => " (" ++ code ++ ")"))).exit exitError
        | .ok report =>
          let s :=
            if spinning then
              s.success ("Analyzed " ++ toString report.summary.filesAnalyzed ++ " files with " ++
                toString report.summary.rulesLoaded ++ " rules")
            else s
          s.finish station a c.root report

/-- Loads the given rulesets, or the configured ones. -/
def loadRules (station : Station) (c : Context) (given : List String) (s : Session) :
    Session × Option LoadedRules :=
  let sources := c.config.sourcesOr given
  if sources.isEmpty then
    ((s.failure "No rulesets given. Pass sources or set \"rulesets\" in .codeprobe/config.json").exit exitError, none)
  else
    let loaded := LoadedRules.load
      { disk := station.disk, base := c.root, registry := c.config.registry?, network := station.network }
      (sources.map RulesetSource.ofText)
    ({ s.logAll c.level loaded.log with requests := loaded.requests }, some loaded)

def rules [UrlReader] (station : Station) (r : RulesCommand) : Session :=
  let s : Session := { disk := station.disk }
  match context station r.directory r.debug with
  | .error e => (s.failure e.message).exit exitError
  | .ok c =>
    match loadRules station c r.sources s with
    | (s, none) => s
    | (s, some loaded) =>
      let text :=
        if r.json then Document.render (Document.ofRules loaded.rules loaded.errors)
        else Table.ofRules false loaded.rules loaded.errors
      (s.print text).exit (if loaded.errors.isEmpty then exitOk else exitFailure)

def test [UrlReader] (station : Station) (t : TestCommand) : Session :=
  let s : Session := { disk := station.disk }
  match context station t.directory t.debug with
  | .error e => (s.failure e.message).exit exitError
  | .ok c =>
    match loadRules station c t.sources s with
    | (s, none) => s
    | (s, some loaded) =>
      let rules := if t.ruleIds.isEmpty then loaded.rules else loaded.rules.filter (t.ruleIds.contains ·.id)
      if rules.isEmpty then (s.failure "No rule to test").exit exitError
      else
        let (report, _) := TestReport.run rules {} { parsers := station.parsers, disk := station.disk } station.world
        let s :=
          if t.json then s.print (Document.render (report.documentWith loaded.errors))
          else
            ((s.note "- Running rule fixtures...").success
              ("Ran " ++ toString report.fixtures.length ++ " fixtures")).print (Table.ofTests false report loaded.errors)
        s.exit (if report.passed && loaded.errors.isEmpty then exitOk else exitFailure)

def run [UrlReader] (station : Station) (args : List String) : Session :=
  let s : Session := { disk := station.disk }
  match Invocation.ofArguments args with
  | .error e => (s.note e.message).exit exitFailure
  | .ok .version => s.print (version ++ "\n")
  | .ok (.help askedFor) => s.exit (if askedFor then exitOk else exitFailure)
  | .ok (.analyze a) => analyze station a
  | .ok (.test t) => test station t
  | .ok (.rules r) => rules station r

end Session

end RuleScan
