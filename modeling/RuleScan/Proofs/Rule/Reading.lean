import Mathlib.Data.List.Forall2
import RuleScan.Proofs.Rule.Acceptance
import RuleScan.Proofs.Rule.Deduplication

/-! When a decoded value stands for a rule. The relations follow the data of a rule: lists are read item by item,
in order, and a member that may be missing is there exactly if the part of the rule is. -/
namespace RuleScan

/-- There is something other than white space in the text. -/
def Text.NonBlank (s : String) : Prop := ∃ c ∈ s.toList, isBlank c = false

namespace Value

def IsText (v : Value) (s : String) : Prop := v = .str s

/-- A whole number from one on. -/
def IsCount (v : Value) (n : Nat) : Prop := ∃ x : Number, v = .num x ∧ x.toNat? = some n ∧ 0 < n

/-- A list whose items stand for these, one by one and in order. -/
def IsList {α : Type} (reads : Value → α → Prop) (v : Value) (as : List α) : Prop :=
  ∃ items, v = .arr items ∧ List.Forall₂ reads items as

def IsExpression (v : Value) (source : String) : Prop :=
  v.IsText source ∧ ∃ program, Regex.compile source "" = .ok program

def IsName (names : List String) (v : Value) (name : String) : Prop := v.IsText name ∧ name ∈ names

/-- A template whose placeholders stand for the whole match or for one of these names. -/
def IsTemplate (names : List String) (v : Value) (template : String) : Prop :=
  v.IsText template ∧ Template.Within names template

end Value

structure Constraint.Reads (declared : List String) (v : Value) (c : Constraint) : Prop where
  capture : ∃ w, v.get? "capture" = some w ∧ w.IsName declared c.capture
  mustMatch : Option.Rel Value.IsExpression (v.get? "matches") c.mustMatch
  mustNotMatch : Option.Rel Value.IsExpression (v.get? "notMatches") c.mustNotMatch
  equals : Option.Rel Value.IsText (v.get? "equals") c.equals
  notEquals : Option.Rel Value.IsText (v.get? "notEquals") c.notEquals
  kinds : Option.Rel (fun w kinds => w.IsList (fun w kind => w.IsText kind ∧ Text.NonBlank kind) kinds ∧ kinds ≠ [])
    (v.get? "kinds") c.kinds

namespace Clause

/-- A query that parses, with a focus and constraints on its captures. -/
def ReadsStructural (v : Value) (query : String) (focus : Option String) (constraints : Option (List Constraint)) :
    Prop :=
  v.get? "query" = some (.str query) ∧
    ∃ q, Query.parse query = .ok q ∧ Option.Rel (Value.IsName q.captureNames) (v.get? "focus") focus ∧
      Option.Rel (Value.IsList (Constraint.Reads q.captureNames)) (v.get? "where") constraints

/-- An expression that is not blank and compiles with its flags, with constraints on its groups. -/
def ReadsTextual (v : Value) (regex : String) (flags : Option String) (constraints : Option (List Constraint)) :
    Prop :=
  v.get? "regex" = some (.str regex) ∧ Text.NonBlank regex ∧ Option.Rel Value.IsText (v.get? "flags") flags ∧
    (∃ program, Regex.compile regex (Textual.flags flags) = .ok program) ∧
    Option.Rel (Value.IsList (Constraint.Reads (Textual.groupNames regex))) (v.get? "where") constraints

/-- A clause at a place with room for so many levels of nesting, itself included. Guards stand directly under an
'all' clause, which has another clause too. -/
def Reads : Nat → Validation.Place → Value → Clause → Prop
  | 0, _, _, _ => False
  | _ + 1, _, v, .structural query focus constraints =>
    v.get? "type" = some (.str "structural") ∧ ReadsStructural v query focus constraints
  | _ + 1, _, v, .textual regex flags constraints =>
    v.get? "type" = some (.str "textual") ∧ ReadsTextual v regex flags constraints
  | room + 1, _, v, .all clauses =>
    v.get? "type" = some (.str "all") ∧
      (∃ w, v.get? "clauses" = some w ∧ w.IsList (Reads room .inAll) clauses) ∧ ∃ c ∈ clauses, c.isGuard = false
  | room + 1, _, v, .any clauses =>
    v.get? "type" = some (.str "any") ∧
      (∃ w, v.get? "clauses" = some w ∧ w.IsList (Reads room .elsewhere) clauses) ∧ clauses ≠ []
  | room + 1, place, v, .guard kind clause =>
    v.get? "type" = some (.str kind.word) ∧ place = .inAll ∧
      ∃ w, v.get? "clause" = some w ∧ Reads room .elsewhere w clause
  | _ + 1, _, _, .shared _ _ => False
  | _ + 1, _, _, .other _ => False

mutual

/-- The names that a match can bind: those declared outside of all guards. -/
def bindable : Clause → List String
  | .structural query _ _ =>
    match Query.parse query with
    | .ok q => q.captureNames
    | .error _ => []
  | .textual regex _ _ => Textual.groupNames regex
  | .all clauses => bindableEach clauses
  | .any clauses => bindableEach clauses
  | .guard _ _ => []
  | .shared _ clause => clause.bindable
  | .other _ => []

def bindableEach : List Clause → List String
  | [] => []
  | c :: rest => c.bindable ++ bindableEach rest

end

end Clause

/-- An edit of the whole match or of a name; all but removals have a content, and that of a removal is not looked
at. -/
structure EditTemplate.Reads (names : List String) (v : Value) (e : EditTemplate) : Prop where
  kind : e.kind ∈ EditKind.all ∧ v.get? "type" = some (.str e.kind.word)
  target : Option.Rel (Value.IsName names) (v.get? "target") e.target
  content : if e.kind = .remove then e.content = none
    else ∃ w text, v.get? "content" = some w ∧ e.content = some text ∧ w.IsTemplate names text

structure FixTemplate.Reads (names : List String) (v : Value) (f : FixTemplate) : Prop where
  description : Option.Rel (Value.IsTemplate names) (v.get? "description") f.description
  edits : (∃ w, v.get? "edits" = some w ∧ w.IsList (EditTemplate.Reads names) f.edits) ∧ f.edits ≠ []

structure Expected.Reads (v : Value) (e : Expected) : Prop where
  line : ∃ w, v.get? "line" = some w ∧ w.IsCount e.line
  column : Option.Rel Value.IsCount (v.get? "column") e.column
  endLine : Option.Rel Value.IsCount (v.get? "endLine") e.endLine
  endColumn : Option.Rel Value.IsCount (v.get? "endColumn") e.endColumn
  ruleId : e.ruleId = (v.get? "ruleId").bind Value.str?

structure Fixture.Reads (v : Value) (f : Fixture) : Prop where
  code : v.get? "code" = some (.str f.code)
  expected : ∃ w, v.get? "expected" = some w ∧ w.IsList Expected.Reads f.expected
  name : f.name = (v.get? "name").bind Value.str?
  filename : f.filename = (v.get? "filename").bind Value.str?

/-- The names that a match of a rule can bind. -/
def Rule.bindable (rule : Rule) : List String := Clause.bindableEach rule.patterns

/-- A rule with an id, a language, a known severity, a message and well-formed clauses; its templates and edits
are about names that a match can bind, and a checksum is that of the clauses. -/
structure Rule.Reads (v : Value) (rule : Rule) : Prop where
  id : ∃ id, v.get? "id" = some (.str id) ∧ Text.NonBlank id ∧ rule.id = Text.trim id
  languages : ∃ w named, v.get? "languages" = some w ∧ w.IsList (fun w (l : Language) => w.IsText l.name) named ∧
    named ≠ [] ∧ rule.languages = named.eraseDups
  severity : v.get? "severity" = some (.str rule.severity.word)
  message : (∃ w, v.get? "message" = some w ∧ w.IsTemplate rule.bindable rule.message) ∧ Text.NonBlank rule.message
  patterns : (∃ w, v.get? "patterns" = some w ∧ w.IsList (Clause.Reads Clause.maxDepth .top) rule.patterns) ∧
    rule.patterns ≠ []
  fix : Option.Rel (FixTemplate.Reads rule.bindable) (v.get? "fix") rule.fix
  tests : Option.Rel (Value.IsList Fixture.Reads) (v.get? "tests") rule.tests
  tags : Option.Rel (Value.IsList Value.IsText) (v.get? "tags") rule.tags
  name : Option.Rel Value.IsText (v.get? "name") rule.name
  description : Option.Rel Value.IsText (v.get? "description") rule.description
  category : Option.Rel Value.IsText (v.get? "category") rule.category
  checksum : Option.Rel Value.IsText (v.get? "checksum") rule.checksum
  checksum_eq : ∀ sum ∈ rule.checksum, sum.toLower = Clause.checksum rule.patterns

end RuleScan
