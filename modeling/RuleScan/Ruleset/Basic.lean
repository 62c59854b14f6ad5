import RuleScan.Rule.Encoding
import RuleScan.Rule.Validation

/-! Rulesets: rules with the places where they were declared, and what could not be loaded. -/

namespace RuleScan

/-- A rule, or a whole source, that could not be loaded. -/
structure LoadFailure where
  /-- The source as shown to a reader. -/
  source : String
  /-- The index of the rule in its ruleset; none if the whole source failed. -/
  position : Option Nat := none
  ruleId : Option String := none
  code : String
  message : String
  issues : List Value := []

namespace LoadFailure

/-- A failure as a value; without an id it has none. -/
def toValue (f : LoadFailure) : Value :=
  Value.record
    [("source", some f.source), ("position", some (Value.orNull (f.position.map Value.ofNat))),
      ("ruleId", f.ruleId.map .str), ("code", some f.code), ("message", some f.message),
      ("issues", some (.arr f.issues))]

end LoadFailure

structure Origin where
  source : String
  position : Nat
  deriving DecidableEq

def Origin.toValue (o : Origin) : Value :=
  Value.object [("source", o.source), ("position", Value.ofNat o.position)]

structure Ruleset where
  source : String
  name : String
  description : Option String := none
  rules : List (Rule × Origin) := []
  errors : List LoadFailure := []

namespace Ruleset

def toValue (r : Ruleset) : Value :=
  Value.record
    [("source", some r.source), ("name", some r.name),
      ("rules", some (.arr (r.rules.map (·.1.toValue)))), ("origins", some (.arr (r.rules.map (·.2.toValue)))),
      ("errors", some (.arr (r.errors.map LoadFailure.toValue))), ("description", r.description.map .str)]

def failed (source name code message : String) : Ruleset :=
  { source, name, errors := [{ source, code, message }] }

/-- The failure of a rule that did not pass validation. -/
def ofFailure (source : String) (f : Validation.Failure) : LoadFailure :=
  { source, position := some f.position, ruleId := f.ruleId
    code := (f.issues.head?.map (·.code.word)).getD "invalid-rule"
    message := "; ".intercalate (f.issues.map Issue.render), issues := f.issues.map Issue.toValue }

/-- The ruleset of a decoded document: a list of rules, or an object with such a list. -/
def ofDocument (source fallback : String) (document : Option Value) : Ruleset :=
  let (entries, name, description) : Option Value × String × Option String :=
    match document with
    | some (.arr items) => (some (.arr items), fallback, none)
    | some (.obj m) =>
      (Members.get? m "rules",
        (((Members.get? m "name").bind Value.str?).filter (· ≠ "")).getD fallback,
        (Members.get? m "description").bind Value.str?)
    | _ => (none, fallback, none)
  match entries with
  | some (.arr items) =>
    let checked := Validation.checkRules items
    { source, name, description
      rules := checked.rules.map fun (rule, position) => (rule, ⟨source, position⟩)
      errors := checked.failures.map (ofFailure source) }
  | _ =>
    failed source name "invalid-ruleset" "A ruleset must be a list of rules or an object with a rules list"

def taken (id owner : String) (origin : Origin) : LoadFailure :=
  { source := origin.source, position := some origin.position, ruleId := some id, code := "duplicate-id"
    message := "Rule id \"" ++ id ++ "\" is already defined by " ++ owner }

/-- What a merge has come to: the rules that were taken over, beside them their origins, what could not be, and for
each id the source that has it. -/
structure Merging (α : Type) where
  rules : List α := []
  origins : List Origin := []
  errors : List LoadFailure := []
  owners : List (String × String) := []

namespace Merging

variable {α : Type}

/-- Takes over an entry unless its id is taken. -/
def add (idOf : α → String) (m : Merging α) (entry : α × Origin) : Merging α :=
  match m.owners.lookup (idOf entry.1) with
  | some owner => { m with errors := m.errors ++ [taken (idOf entry.1) owner entry.2] }
  | none =>
    { m with
      rules := m.rules ++ [entry.1], origins := m.origins ++ [entry.2]
      owners := (idOf entry.1, entry.2.source) :: m.owners }

/-- The errors of a ruleset come before the ids of it that are taken. -/
def addPart (idOf : α → String) (m : Merging α) (part : List LoadFailure × List (α × Origin)) : Merging α :=
  part.2.foldl (add idOf) { m with errors := m.errors ++ part.1 }

end Merging

/-- Merges the entries of several rulesets in order; of one id the first stays. -/
def merge {α : Type} (idOf : α → String) (parts : List (List LoadFailure × List (α × Origin))) :
    List (α × Origin) × List LoadFailure :=
  let merged := parts.foldl (Merging.addPart idOf) {}
  (merged.rules.zip merged.origins, merged.errors)

def mergeAll (sets : List Ruleset) : List (Rule × Origin) × List LoadFailure :=
  merge Rule.id (sets.map fun s => (s.errors, s.rules))

end Ruleset

end RuleScan
