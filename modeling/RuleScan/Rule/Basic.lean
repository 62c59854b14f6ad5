import RuleScan.Source.Language
import RuleScan.Value.Basic

/-! Rules as data: what to look for, what to say about it, how to fix it, and fixtures that show it. -/

namespace RuleScan

inductive Severity where
  | error
  | warning
  | notice
  deriving DecidableEq, Inhabited

namespace Severity

/-- Every severity, the gravest first. -/
def all : List Severity := [.error, .warning, .notice]

def word : Severity → String
  | .error => "error"
  | .warning => "warning"
  | .notice => "notice"

def ofWord? (s : String) : Option Severity := all.find? (·.word == s)

/-- A graver severity has a higher rank. -/
def rank : Severity → Nat
  | .error => 3
  | .warning => 2
  | .notice => 1

end Severity

/-- A condition on the text or the kind of a captured node. -/
structure Constraint where
  capture : String
  /-- An expression that has to match the text. -/
  mustMatch : Option String := none
  /-- An expression that must not match the text. -/
  mustNotMatch : Option String := none
  equals : Option String := none
  notEquals : Option String := none
  /-- The kinds the node may have. -/
  kinds : Option (List String) := none
  deriving DecidableEq

/-- What a guard demands of the matches of its clause. -/
inductive GuardKind where
  | not
  | inside
  | notInside
  deriving DecidableEq

def GuardKind.word : GuardKind → String
  | .not => "not"
  | .inside => "inside"
  | .notInside => "not-inside"

inductive Clause where
  /-- A query over the tree; the focus is the capture to report. -/
  | structural (query : String) (focus : Option String) (constraints : Option (List Constraint))
  /-- A regular expression over the text. -/
  | textual (regex : String) (flags : Option String) (constraints : Option (List Constraint))
  /-- Candidates that all clauses agree on and no guard refuses. -/
  | all (clauses : List Clause)
  /-- The matches of any of the clauses. -/
  | any (clauses : List Clause)
  | guard (kind : GuardKind) (clause : Clause)
  /-- A clause that stands at several places under one key and is evaluated once. -/
  | shared (key : String) (clause : Clause)
  /-- A clause of no known type. -/
  | other (type : String)
  deriving Inhabited

namespace Clause

/-- What a clause demands as a guard, if it is one. -/
def guardKind? : Clause → Option GuardKind
  | .guard kind _ => some kind
  | .shared _ c => c.guardKind?
  | _ => none

def isGuard (c : Clause) : Bool := c.guardKind?.isSome

/-- The deepest nesting of clauses that a rule may have. -/
def maxDepth : Nat := 8

end Clause

inductive EditKind where
  | replace
  | insertBefore
  | insertAfter
  | remove
  /-- An edit of no known kind, which changes nothing. -/
  | unknown
  deriving DecidableEq

namespace EditKind

/-- The kinds a rule may use. -/
def all : List EditKind := [.replace, .insertBefore, .insertAfter, .remove]

def word : EditKind → String
  | .replace => "replace"
  | .insertBefore => "insert-before"
  | .insertAfter => "insert-after"
  | .remove => "remove"
  | .unknown => "unknown"

def ofWord? (s : String) : Option EditKind := all.find? (·.word == s)

end EditKind

/-- One edit of a fix: of a capture, or of the whole match. -/
structure EditTemplate where
  kind : EditKind
  target : Option String := none
  content : Option String := none
  deriving DecidableEq

structure FixTemplate where
  description : Option String := none
  edits : List EditTemplate
  deriving DecidableEq

/-- A violation that a fixture expects; what is left out is not compared. Lines and columns start at one. -/
structure Expected where
  line : Nat
  column : Option Nat := none
  endLine : Option Nat := none
  endColumn : Option Nat := none
  ruleId : Option String := none
  deriving DecidableEq

/-- A piece of code with the violations that a rule has to find in it. -/
structure Fixture where
  name : Option String := none
  filename : Option String := none
  code : String
  expected : List Expected
  deriving DecidableEq

structure Rule where
  id : String
  name : Option String := none
  description : Option String := none
  languages : List Language
  severity : Severity
  category : Option String := none
  message : String
  patterns : List Clause
  fix : Option FixTemplate := none
  tests : Option (List Fixture) := none
  tags : Option (List String) := none
  checksum : Option String := none
  deriving Inhabited

end RuleScan
