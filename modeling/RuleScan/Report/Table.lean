import RuleScan.Analysis.Report
import RuleScan.Number.Shortest
import RuleScan.Report.Style
import RuleScan.Text.Blank

/-! Reports as tables for a reader. -/

namespace RuleScan

namespace Table

/-- The larger of two widths at each place; a longer list keeps its rest. -/
def widest : List Nat → List Nat → List Nat
  | [], ws => ws
  | ws, [] => ws
  | a :: as, b :: bs => max a b :: widest as bs

def widths (rows : List (List String)) : List Nat :=
  rows.foldl (fun ws row => widest ws (row.map Text.length)) []

/-- Fills up every cell of a row but the last. -/
def alignRow : List Nat → List String → List String
  | _, [] => []
  | _, [cell] => [cell]
  | [], cell :: rest => cell :: alignRow [] rest
  | w :: ws, cell :: rest => Text.padRight w cell :: alignRow ws rest

/-- Fills up every cell but the last of its row to the width of its column. -/
def align (rows : List (List String)) : List (List String) := rows.map (alignRow (widths rows))

/-- A string without the white space at its end. -/
def trimEnd (s : String) : String := String.ofList (s.toList.reverse.dropWhile Text.isBlank).reverse

def joinRow (row : List String) : String := "  ".intercalate row

def render (colored : Bool) (header : List String) (rows : List (List String)) : List String :=
  match align (header :: rows) with
  | [] => []
  | head :: body =>
    let rule := "──".intercalate (head.map fun cell => "".pushn '─' (Text.length cell))
    Style.bold.paint colored (trimEnd (joinRow head)) :: rule :: body.map fun row => trimEnd (joinRow row)

def plural (count : Nat) (word : String) : String :=
  toString count ++ " " ++ word ++ (if count = 1 then "" else "s")

/-- The paragraph about rules that could not be loaded. -/
def loadErrors (colored : Bool) (errors : List LoadFailure) : List String :=
  if errors.isEmpty then []
  else
    let rows := errors.map fun e =>
      [e.source, e.position.elim "" fun p => "#" ++ toString p, e.ruleId.getD "", e.message]
    Style.bold.paint colored "Ruleset errors" :: (align rows).map fun row => "  " ++ joinRow row

def severityStyle : Severity → Style
  | .error => .red
  | .warning => .yellow
  | .notice => .blue

/-- The files of some violations, in order of their first one. -/
def files (vs : List Violation) : List String := (vs.map (·.file)).eraseDups

def fileLines (colored : Bool) (file : String) (vs : List Violation) : List String :=
  let rows := align (vs.map fun v =>
    [toString v.location.line ++ ":" ++ toString v.location.column, v.severity.word, v.message, v.ruleId])
  let line (row : List String) (v : Violation) : String :=
    match row with
    | [position, level, message, ruleId] =>
      "  " ++ Style.dim.paint colored position ++ "  " ++ (severityStyle v.severity).paint colored level ++ "  " ++
        message ++ "  " ++ Style.dim.paint colored ruleId
    | _ => ""
  Style.underline.paint colored file :: (rows.zip vs).map (fun (row, v) => line row v) ++ [""]

def errorLines (colored : Bool) (errors : List AnalysisError) : List String :=
  if errors.isEmpty then []
  else
    let rows := errors.map fun e => [e.kind.word, e.file, e.ruleId.getD "", e.message]
    Style.bold.paint colored "Analysis errors" :: (align rows).map (fun row => "  " ++ joinRow row) ++ [""]

def statisticsLines (colored : Bool) (statistics : List RuleStatistics) : List String :=
  if statistics.isEmpty then []
  else
    Style.bold.paint colored "Rule statistics" ::
      render colored ["rule", "files", "violations", "errors", "timeouts", "time (ms)"]
        (statistics.map fun s =>
          [s.ruleId, toString s.files, toString s.violations, toString s.errors, toString s.timeouts,
            s.executionTimeMs.fixed 1]) ++ [""]

def summaryLine (colored : Bool) (s : RunSummary) : String :=
  if s.violations = 0 then Style.green.paint colored ("✔ No problems found in " ++ plural s.filesAnalyzed "file")
  else
    Style.red.paint colored ("✖ " ++ plural s.violations "problem" ++ " (" ++ plural s.bySeverity.error "error" ++
      ", " ++ plural s.bySeverity.warning "warning" ++ ", " ++ plural s.bySeverity.notice "notice" ++ ")")

/-- A report for a reader: violations by file, errors, statistics and a summary. -/
def ofReport (colored : Bool) (r : Report) : String :=
  let byFile := (files r.violations).flatMap fun file =>
    fileLines colored file (r.violations.filter (·.file = file))
  let notLoaded := loadErrors colored r.loadErrors
  let cancelled :=
    if r.cancelled then
      [Style.yellow.paint colored ("⚠ Analysis cancelled (" ++ (r.reason.getD .aborted).word ++
        "); results are partial")]
    else []
  let lines := byFile ++ errorLines colored r.errors ++
    (if notLoaded.isEmpty then [] else notLoaded ++ [""]) ++
    statisticsLines colored (r.statistics.getD []) ++ cancelled ++ [summaryLine colored r.summary]
  "\n".intercalate lines ++ "\n"

/-- A list of rules for a reader, one row each, and what could not be loaded. -/
def ofRules (colored : Bool) (rules : List Rule) (errors : List LoadFailure) : String :=
  let lines :=
    if rules.isEmpty then ["No rules loaded."]
    else
      render colored ["id", "severity", "languages", "category", "fixtures"]
        (rules.map fun r =>
          [r.id, r.severity.word, ", ".intercalate (r.languages.map Language.name), r.category.getD "",
            toString (r.tests.getD []).length])
  let notLoaded := loadErrors colored errors
  "\n".intercalate (lines ++ if notLoaded.isEmpty then [] else "" :: notLoaded) ++ "\n"

end Table

end RuleScan
