import RuleScan.Evaluation.Textual
import RuleScan.Query.Parser
import RuleScan.Rule.Encoding
import RuleScan.Rule.Template

/-! Validating rules. A check returns the normalized part together with every issue it found; a rule is
accepted exactly when there is none. -/

namespace RuleScan

inductive IssueCode where
  | invalidRule
  | missingId
  | duplicateId
  | invalidLanguages
  | invalidSeverity
  | missingMessage
  | missingPatterns
  | invalidPattern
  | unknownCapture
  | invalidFix
  | invalidTests
  | invalidField
  | checksumMismatch
  deriving DecidableEq

def IssueCode.word : IssueCode → String
  | .invalidRule => "invalid-rule"
  | .missingId => "missing-id"
  | .duplicateId => "duplicate-id"
  | .invalidLanguages => "invalid-languages"
  | .invalidSeverity => "invalid-severity"
  | .missingMessage => "missing-message"
  | .missingPatterns => "missing-patterns"
  | .invalidPattern => "invalid-pattern"
  | .unknownCapture => "unknown-capture"
  | .invalidFix => "invalid-fix"
  | .invalidTests => "invalid-tests"
  | .invalidField => "invalid-field"
  | .checksumMismatch => "checksum-mismatch"

/-- One problem found in a rule: where, of what kind, and what was expected and found. -/
structure Issue where
  path : String
  code : IssueCode
  message : String
  expected : Option String := none
  actual : Option Value := none

namespace Issue

def toValue (i : Issue) : Value :=
  Value.record
    [("path", some i.path), ("code", some i.code.word), ("message", some i.message),
      ("expected", optionalText i.expected), ("actual", i.actual)]

/-- The issue in short, after the path if there is one. -/
def render (i : Issue) : String := if i.path.isEmpty then i.message else i.path ++ ": " ++ i.message

end Issue

namespace Validation

/-- The outcome of a check: the part it accepts and the issues it found. -/
structure Checked (α : Type) where
  result : α
  issues : List Issue := []

/-- A string with something other than white space in it. -/
def text? : Option Value → Option String
  | some (.str s) => if (Text.trim s).isEmpty then none else some s
  | _ => none

def count? : Option Value → Option Nat
  | some (.num n) =>
    match n.toNat? with
    | some 0 => none
    | other => other
  | _ => none

def describe (v : Option Value) : Option Value := some (.str (Value.describe v))

def entry (path : String) (index : Nat) : String := path ++ "[" ++ toString index ++ "]"

/-- Runs a check on each item, with its index, and joins the issues in order. -/
def each {α β : Type} (items : List α) (check : α → Nat → Checked (Option β)) : Checked (List β) :=
  let outcomes := items.zipIdx.map fun (x, i) => check x i
  ⟨outcomes.filterMap (·.result), outcomes.flatMap (·.issues)⟩

/-- What a message offers instead of an unknown capture. -/
def captureChoice (names : List String) : String :=
  let joined := " | ".intercalate names
  if joined.isEmpty then "a declared capture" else joined

def checkExpression (path key : String) (raw : Option Value) : Checked (Option String) :=
  match raw with
  | none => ⟨none, []⟩
  | some (.str source) =>
    match Regex.compile source "" with
    | .ok _ => ⟨some source, []⟩
    | .error e =>
      ⟨none, [{ path := path ++ "." ++ key, code := .invalidPattern
                message := "Invalid regular expression: " ++ e.message, actual := some (.str source) }]⟩
  | some _ =>
    ⟨none, [{ path := path ++ "." ++ key, code := .invalidPattern, message := key ++ " must be a string"
              actual := describe raw }]⟩

def checkText (path key : String) (raw : Option Value) : Checked (Option String) :=
  match raw with
  | none => ⟨none, []⟩
  | some (.str s) => ⟨some s, []⟩
  | some _ =>
    ⟨none, [{ path := path ++ "." ++ key, code := .invalidPattern, message := key ++ " must be a string"
              actual := describe raw }]⟩

def checkKinds (path : String) (raw : Option Value) : Checked (Option (List String)) :=
  match raw with
  | none => ⟨none, []⟩
  | some v =>
    let kinds := (v.arr?.getD []).filterMap fun k => text? (some k)
    match v with
    | .arr items =>
      if items.isEmpty || kinds.length ≠ items.length then issue v else ⟨some kinds, []⟩
    | _ => issue v
where
  issue (v : Value) : Checked (Option (List String)) :=
    ⟨none, [{ path := path ++ ".kinds", code := .invalidPattern
              message := "kinds must be a non-empty array of node kinds", expected := some "string[]"
              actual := some v }]⟩

def checkConstraint (path : String) (declared : List String) (raw : Value) (index : Nat) : Checked (Option Constraint) :=
  let path := entry path index
  match text? (raw.get? "capture") with
  | none =>
    ⟨none, [{ path, code := .invalidPattern, message := "A where constraint needs a capture name"
              expected := some "\x7b capture: string, ... \x7d", actual := some raw }]⟩
  | some capture =>
    let unknown : List Issue :=
      if declared.contains capture then []
      else
        [{ path := path ++ ".capture", code := .unknownCapture
           message := "where references capture \"" ++ capture ++ "\" which the clause does not declare"
           expected := some (captureChoice declared), actual := some (.str capture) }]
    let mustMatch := checkExpression path "matches" (raw.get? "matches")
    let mustNotMatch := checkExpression path "notMatches" (raw.get? "notMatches")
    let equals := checkText path "equals" (raw.get? "equals")
    let notEquals := checkText path "notEquals" (raw.get? "notEquals")
    let kinds := checkKinds path (raw.get? "kinds")
    ⟨some ⟨capture, mustMatch.result, mustNotMatch.result, equals.result, notEquals.result, kinds.result⟩,
      unknown ++ mustMatch.issues ++ mustNotMatch.issues ++ equals.issues ++ notEquals.issues ++ kinds.issues⟩

def checkWhere (path : String) (declared : List String) (raw : Option Value) : Checked (Option (List Constraint)) :=
  match raw with
  | none => ⟨none, []⟩
  | some (.arr items) =>
    let checked := each items (checkConstraint path declared)
    ⟨some checked.result, checked.issues⟩
  | some _ =>
    ⟨none, [{ path, code := .invalidPattern, message := "where must be an array of constraints"
              expected := some "WhereConstraint[]", actual := describe raw }]⟩

/-- The outcome of checking a clause: the clause, the issues, and the captures that a match can bind. -/
structure ClauseCheck where
  clause : Option Clause
  issues : List Issue := []
  captures : List String := []

def refuse (issue : Issue) : ClauseCheck := { clause := none, issues := [issue] }

inductive Place where
  | top
  | inAll
  | elsewhere
  deriving DecidableEq

/-- The types of clauses, in the order in which messages list them. -/
def clauseTypes : List String := ["structural", "textual", "all", "any", "not", "inside", "not-inside"]

def checkStructural (path : String) (raw : Value) : ClauseCheck :=
  match text? (raw.get? "query") with
  | none =>
    refuse
      { path := path ++ ".query", code := .invalidPattern, message := "A structural clause needs a query"
        expected := some "string", actual := describe (raw.get? "query") }
  | some query =>
    match Query.parse query with
    | .error e =>
      refuse
        { path := path ++ ".query", code := .invalidPattern, message := "Invalid query: " ++ e.message
          actual := some (.str query) }
    | .ok parsed =>
      let names := parsed.captureNames
      let focus := raw.get? "focus"
      let chosen := (text? focus).filter names.contains
      let focusIssues : List Issue :=
        if focus.isSome && chosen.isNone then
          [{ path := path ++ ".focus", code := .unknownCapture
             message := "focus must name a capture declared by the query"
             expected := some (captureChoice names), actual := focus }]
        else []
      let constraints := checkWhere (path ++ ".where") names (raw.get? "where")
      { clause := some (.structural query chosen constraints.result)
        issues := focusIssues ++ constraints.issues, captures := names }

def checkTextual (path : String) (raw : Value) : ClauseCheck :=
  match text? (raw.get? "regex") with
  | none =>
    refuse
      { path := path ++ ".regex", code := .invalidPattern, message := "A textual clause needs a regex"
        expected := some "string", actual := describe (raw.get? "regex") }
  | some regex =>
    let compiled (flags : Option String) : ClauseCheck :=
      match Regex.compile regex (Textual.flags flags) with
      | .error e =>
        refuse
          { path := path ++ ".regex", code := .invalidPattern
            message := "Invalid regular expression: " ++ e.message, actual := some (.str regex) }
      | .ok _ =>
        let groups := Textual.groupNames regex
        let constraints := checkWhere (path ++ ".where") groups (raw.get? "where")
        { clause := some (.textual regex flags constraints.result), issues := constraints.issues
          captures := groups }
    match raw.get? "flags" with
    | none => compiled none
    | some (.str flags) => compiled (some flags)
    | flags =>
      refuse
        { path := path ++ ".flags", code := .invalidPattern, message := "flags must be a string"
          actual := describe flags }

/-- Puts checked clauses under an 'all' or 'any' clause; all of them have to be sound. -/
def checkComposite (path type : String) (conjunction : Bool) (outcomes : List ClauseCheck) : ClauseCheck :=
  let clauses := outcomes.filterMap (·.clause)
  let issues := outcomes.flatMap (·.issues)
  let captures := outcomes.flatMap (·.captures)
  if clauses.length ≠ outcomes.length then { clause := none, issues, captures }
  else if conjunction && clauses.all (·.isGuard) then
    { clause := none, captures
      issues := issues ++
        [{ path, code := .invalidPattern
           message := "An '" ++ type ++ "' clause needs at least one positive clause" }] }
  else { clause := some (if conjunction then .all clauses else .any clauses), issues, captures }

/-- Checks a clause with room for so many levels of nesting from it on. What guards capture is not
bound by a match. -/
def checkClause : Nat → Option Value → String → Place → ClauseCheck
  | room, raw, path, place =>
    match raw with
    | some (.obj members) =>
      let value := Value.obj members
      let type := value.get? "type"
      match type with
      | some (.str word) =>
        if !clauseTypes.contains word then unknownType path type
        else
          match room with
          | 0 =>
            refuse
              { path, code := .invalidPattern
                message := "Clauses may be nested at most " ++ toString Clause.maxDepth ++ " levels deep"
                actual := some (Value.ofNat (Clause.maxDepth + 1)) }
          | room + 1 =>
            if word = "structural" then checkStructural path value
            else if word = "textual" then checkTextual path value
            else if word = "all" || word = "any" then
              let inner := value.get? "clauses"
              match inner with
              | some (.arr (first :: rest)) =>
                checkComposite path word (word = "all") <|
                  (first :: rest).zipIdx.map fun (c, i) =>
                    checkClause room (some c) (entry (path ++ ".clauses") i)
                      (if word = "all" then .inAll else .elsewhere)
              | _ =>
                refuse
                  { path := path ++ ".clauses", code := .invalidPattern
                    message := "An '" ++ word ++ "' clause needs a non-empty clauses array"
                    actual := describe inner }
            else if place ≠ .inAll then
              refuse
                { path, code := .invalidPattern
                  message := "'" ++ word ++ "' clauses are only allowed inside an 'all' clause" }
            else
              let kind : GuardKind :=
                if word = "not" then .not else if word = "inside" then .inside else .notInside
              let inner := checkClause room (value.get? "clause") (path ++ ".clause") .elsewhere
              { clause := inner.clause.map (.guard kind), issues := inner.issues }
      | _ => unknownType path type
    | _ =>
      refuse
        { path, code := .invalidPattern, message := "A pattern clause must be an object", actual := describe raw }
where
  unknownType (path : String) (type : Option Value) : ClauseCheck :=
    refuse
      { path := path ++ ".type", code := .invalidPattern, message := "Unknown clause type"
        expected := some (" | ".intercalate clauseTypes), actual := type }

def distinctLanguages (languages : List Language) : List Language :=
  languages.foldl (fun acc l => if acc.contains l then acc else acc ++ [l]) []

/-- The languages in the form in which messages list them. -/
def languageChoice : String := " | ".intercalate (Language.all.map (·.name))

def checkLanguage (raw : Value) (index : Nat) : Checked (Option Language) :=
  match raw.str?.bind Language.ofName? with
  | some l => ⟨some l, []⟩
  | none =>
    ⟨none, [{ path := entry "languages" index, code := .invalidLanguages, message := "Unrecognized language"
              expected := some languageChoice, actual := some raw }]⟩

def checkLanguages (raw : Option Value) : Checked (List Language) :=
  match raw with
  | some (.arr (first :: rest)) =>
    let checked := each (first :: rest) checkLanguage
    ⟨distinctLanguages checked.result, checked.issues⟩
  | _ =>
    ⟨[], [{ path := "languages", code := .invalidLanguages
            message := "A rule needs a non-empty array of languages"
            expected := some ("Array<" ++ languageChoice ++ ">"), actual := describe raw }]⟩

/-- Every placeholder has to name a capture or the whole match. -/
def checkTemplate (path : String) (captures : List String) (template : String) : List Issue :=
  (Template.placeholders template).filterMap fun name =>
    if name = Template.matchName || captures.contains name then none
    else
      some
        { path, code := .unknownCapture
          message := "Placeholder \x7b\x7b" ++ name ++ "\x7d\x7d does not name a capture declared by the patterns"
          actual := some (.str name) }

def checkEdit (captures : List String) (raw : Value) (index : Nat) : Checked (Option EditTemplate) :=
  let path := entry "fix.edits" index
  match (raw.get? "type").bind (·.str?) |>.bind EditKind.ofWord? with
  | none =>
    ⟨none, [{ path := path ++ ".type", code := .invalidFix, message := "Unknown edit type"
              expected := some (" | ".intercalate (EditKind.all.map (·.word)))
              actual := if raw.isObj then raw.get? "type" else describe (some raw) }]⟩
  | some kind =>
    let rawTarget := raw.get? "target"
    let target := (rawTarget.bind (·.str?)).filter captures.contains
    let targetIssues : List Issue :=
      if rawTarget.isSome && target.isNone then
        [{ path := path ++ ".target", code := .unknownCapture
           message := "target must name a capture declared by the patterns", actual := rawTarget }]
      else []
    if kind = .remove then ⟨some ⟨kind, target, none⟩, targetIssues⟩
    else
      match raw.get? "content" with
      | some (.str content) =>
        ⟨some ⟨kind, target, some content⟩,
          targetIssues ++ checkTemplate (path ++ ".content") captures content⟩
      | content =>
        ⟨some ⟨kind, target, none⟩,
          targetIssues ++
            [{ path := path ++ ".content", code := .invalidFix
               message := "A '" ++ kind.word ++ "' edit needs content", expected := some "string"
               actual := describe content }]⟩

def checkFix (captures : List String) (raw : Option Value) : Checked (Option FixTemplate) :=
  match raw with
  | none => ⟨none, []⟩
  | some fix =>
    match fix.get? "edits" with
    | some (.arr (first :: rest)) =>
      let description : Checked (Option String) :=
        match fix.get? "description" with
        | none => ⟨none, []⟩
        | some (.str d) => ⟨some d, checkTemplate "fix.description" captures d⟩
        | d =>
          ⟨none, [{ path := "fix.description", code := .invalidFix, message := "description must be a string"
                    actual := describe d }]⟩
      let edits := each (first :: rest) (checkEdit captures)
      ⟨some ⟨description.result, edits.result⟩, description.issues ++ edits.issues⟩
    | _ =>
      ⟨none, [{ path := "fix", code := .invalidFix, message := "A fix needs a non-empty edits array"
                expected := some "\x7b description?: string, edits: FixEdit[] \x7d", actual := describe raw }]⟩

/-- Checks an optional count of an expected violation. -/
def checkCount (path key : String) (raw : Option Value) : Checked (Option Nat) :=
  match raw, count? raw with
  | none, _ => ⟨none, []⟩
  | some _, some n => ⟨some n, []⟩
  | some v, none =>
    ⟨none, [{ path := path ++ "." ++ key, code := .invalidTests, message := key ++ " must be a positive integer"
              actual := some v }]⟩

def checkExpected (path : String) (raw : Value) (index : Nat) : Checked (Option Expected) :=
  let path := entry (path ++ ".expected") index
  match count? (raw.get? "line") with
  | none =>
    ⟨none, [{ path, code := .invalidTests, message := "An expected violation needs a one-based line"
              actual := some raw }]⟩
  | some line =>
    let column := checkCount path "column" (raw.get? "column")
    let endLine := checkCount path "endLine" (raw.get? "endLine")
    let endColumn := checkCount path "endColumn" (raw.get? "endColumn")
    ⟨some ⟨line, column.result, endLine.result, endColumn.result, (raw.get? "ruleId").bind (·.str?)⟩,
      column.issues ++ endLine.issues ++ endColumn.issues⟩

def checkFixture (raw : Value) (index : Nat) : Checked (Option Fixture) :=
  let path := entry "tests" index
  match raw.get? "code", raw.get? "expected" with
  | some (.str code), some (.arr items) =>
    let expected := each items (checkExpected path)
    ⟨some ⟨(raw.get? "name").bind (·.str?), (raw.get? "filename").bind (·.str?), code, expected.result⟩,
      expected.issues⟩
  | _, _ =>
    ⟨none, [{ path, code := .invalidTests, message := "A fixture needs code and an expected array"
              expected := some "\x7b code: string, expected: ExpectedViolation[] \x7d"
              actual := describe (some raw) }]⟩

def checkTests (raw : Option Value) : Checked (Option (List Fixture)) :=
  match raw with
  | none => ⟨none, []⟩
  | some (.arr items) =>
    let checked := each items checkFixture
    ⟨some checked.result, checked.issues⟩
  | some _ =>
    ⟨none, [{ path := "tests", code := .invalidTests, message := "tests must be an array of fixtures"
              actual := describe raw }]⟩

def checkTags (raw : Option Value) : Checked (Option (List String)) :=
  match raw with
  | none => ⟨none, []⟩
  | some v =>
    let issue : Issue :=
      { path := "tags", code := .invalidField, message := "tags must be an array of strings", actual := some v }
    match v with
    | .arr items =>
      let tags := items.filterMap (·.str?)
      ⟨some tags, if tags.length = items.length then [] else [issue]⟩
    | _ => ⟨none, [issue]⟩

def checkOptionalText (raw : Value) (key : String) : Checked (Option String) :=
  match raw.get? key with
  | none => ⟨none, []⟩
  | some (.str s) => ⟨some s, []⟩
  | v =>
    ⟨none, [{ path := key, code := .invalidField, message := key ++ " must be a string", actual := describe v }]⟩

/-- A checksum, if given, has to be that of the patterns, in either case of letters. -/
def checkChecksum (patterns : List Clause) (checksum : Option String) : List Issue :=
  match checksum with
  | none => []
  | some given =>
    let actual := Clause.checksum patterns
    if given.toLower = actual then []
    else
      [{ path := "checksum", code := .checksumMismatch, message := "checksum does not match the rule patterns"
         expected := some actual, actual := some (.str given) }]

structure RuleCheck where
  rule : Option Rule
  ruleId : Option String := none
  issues : List Issue := []

def checkRule (given : Option Value) : RuleCheck :=
  let raw := Value.orNull given
  if !raw.isObj then
    { rule := none
      issues := [{ path := "", code := .invalidRule, message := "A rule must be an object"
                   actual := describe given }] }
  else
    let id := (text? (raw.get? "id")).map Text.trim
    let idIssues : List Issue :=
      if id.isSome then []
      else
        [{ path := "id", code := .missingId, message := "A rule needs a non-empty id", expected := some "string"
           actual := describe (raw.get? "id") }]
    let languages := checkLanguages (raw.get? "languages")
    let rawSeverity := raw.get? "severity"
    let severity := (rawSeverity.bind (·.str?)).bind Severity.ofWord?
    let severityIssues : List Issue :=
      if severity.isSome then []
      else
        [{ path := "severity", code := .invalidSeverity, message := "Unknown severity"
           expected := some (" | ".intercalate (Severity.all.map (·.word))), actual := rawSeverity }]
    let rawMessage := raw.get? "message"
    let messageIssues : List Issue :=
      if (text? rawMessage).isSome then []
      else
        [{ path := "message", code := .missingMessage, message := "A rule needs a non-empty message"
           expected := some "string", actual := describe rawMessage }]
    let rawPatterns := raw.get? "patterns"
    let clauses : List ClauseCheck :=
      match rawPatterns with
      | some (.arr (first :: rest)) =>
        (first :: rest).zipIdx.map fun (c, i) => checkClause Clause.maxDepth (some c) (entry "patterns" i) .top
      | _ =>
        [refuse
          { path := "patterns", code := .missingPatterns, message := "A rule needs at least one pattern clause"
            actual := describe rawPatterns }]
    let patterns := clauses.filterMap (·.clause)
    let captures := clauses.flatMap (·.captures)
    let templateIssues :=
      match rawMessage with
      | some (.str message) => checkTemplate "message" captures message
      | _ => []
    let fix := checkFix captures (raw.get? "fix")
    let tests := checkTests (raw.get? "tests")
    let tags := checkTags (raw.get? "tags")
    let name := checkOptionalText raw "name"
    let description := checkOptionalText raw "description"
    let category := checkOptionalText raw "category"
    let checksum := checkOptionalText raw "checksum"
    let issues :=
      idIssues ++ languages.issues ++ severityIssues ++ messageIssues ++ clauses.flatMap (·.issues) ++
        templateIssues ++ fix.issues ++ tests.issues ++ tags.issues ++ name.issues ++ description.issues ++
        category.issues ++ checksum.issues
    let issues := if issues.isEmpty then checkChecksum patterns checksum.result else issues
    match issues, id, severity, rawMessage with
    | [], some id, some severity, some (.str message) =>
      { rule := some
          { id, name := name.result, description := description.result, languages := languages.result, severity
            category := category.result, message, patterns, fix := fix.result, tests := tests.result
            tags := tags.result, checksum := checksum.result }
        ruleId := some id }
    | issues, id, _, _ => { rule := none, ruleId := id, issues }

structure Failure where
  /-- The index in the list. -/
  position : Nat
  ruleId : Option String
  issues : List Issue

def Failure.toValue (f : Failure) : Value :=
  Value.record
    [("position", some (Value.ofNat f.position)), ("ruleId", optionalText f.ruleId),
      ("issues", some (.arr (f.issues.map Issue.toValue)))]

/-- The outcome of validating a list: the accepted rules with their indices, and the refused ones. -/
structure RulesCheck where
  rules : List (Rule × Nat) := []
  failures : List Failure := []

/-- Adds the outcome for the rule at an index; an id may be used once. -/
def RulesCheck.add (acc : RulesCheck) (checked : RuleCheck) (position : Nat) : RulesCheck :=
  match checked.rule with
  | some rule =>
    if acc.rules.any (·.1.id == rule.id) then
      { acc with
        failures := acc.failures ++
          [⟨position, some rule.id,
            [{ path := "id", code := .duplicateId
               message := "Rule id \"" ++ rule.id ++ "\" is already used in this ruleset"
               actual := some (.str rule.id) }]⟩] }
    else { acc with rules := acc.rules ++ [(rule, position)] }
  | none => { acc with failures := acc.failures ++ [⟨position, checked.ruleId, checked.issues⟩] }

def checkRules (raw : List Value) : RulesCheck :=
  raw.zipIdx.foldl (fun acc (r, i) => acc.add (checkRule (some r)) i) {}

end Validation

end RuleScan
