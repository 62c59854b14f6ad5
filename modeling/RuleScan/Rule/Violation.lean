import RuleScan.Digest.Sha256
import RuleScan.Evaluation.Match
import RuleScan.Rule.Basic
import RuleScan.Rule.Template

/-! Violations: where a rule found something, what it says about it and how to fix it. -/

namespace RuleScan

/-- A place in a file. Lines and columns start at one, the end is exclusive; offsets start at zero. -/
structure Location where
  line : Nat
  column : Nat
  endLine : Nat
  endColumn : Nat
  startOffset : Int
  endOffset : Int
  deriving DecidableEq, Inhabited

namespace Location

def ofSpan (s : Span) : Location :=
  ⟨s.startPosition.row + 1, s.startPosition.column + 1, s.stopPosition.row + 1, s.stopPosition.column + 1,
    s.start, s.stop⟩

/-- The empty place at a position. -/
def point (p : Position) (offset : Nat) : Location :=
  ⟨p.row + 1, p.column + 1, p.row + 1, p.column + 1, offset, offset⟩

def render (l : Location) : String :=
  toString l.line ++ ":" ++ toString l.column ++ "-" ++ toString l.endLine ++ ":" ++ toString l.endColumn

end Location

/-- A replacement of a stretch of text. -/
structure Edit where
  location : Location
  content : String
  deriving DecidableEq

structure Fix where
  description : String
  edits : List Edit
  deriving DecidableEq

structure Violation where
  ruleId : String
  file : String
  language : Language
  severity : Severity
  category : Option String
  message : String
  location : Location
  fix : Option Fix
  fingerprint : String
  deriving DecidableEq, Inhabited

/-- The identity of a violation across runs: rule, file, place and matched text. -/
def fingerprintOf (ruleId file : String) (location : Location) (text : String) : String :=
  Sha256.hex ("\x00".intercalate [ruleId, file, location.render, Sha256.hex text])

def Text.order (a b : String) : Ordering := if a = b then .eq else if Text.lt a b then .lt else .gt

namespace Violation

/-- Report order: file, line, column, rule, end, fingerprint. -/
def order (a b : Violation) : Ordering :=
  (Text.order a.file b.file).then <|
  (compare a.location.line b.location.line).then <|
  (compare a.location.column b.location.column).then <|
  (Text.order a.ruleId b.ruleId).then <|
  (compare a.location.endOffset b.location.endOffset).then <|
  Text.order a.fingerprint b.fingerprint

def le (a b : Violation) : Bool := (order a b).isLE

def sort (vs : List Violation) : List Violation := vs.mergeSort le

end Violation

namespace FixTemplate

def defaultDescription : String := "Apply suggested fix"

/-- The span an edit is about, if its target is bound; `part` is what is asked of the target first. -/
def targetSpan (part : String) (m : Match) (target : Option String) : Except NoNode (Option Span) :=
  match target with
  | none => .ok (some m.span)
  | some name =>
    match m.meaning name with
    | .node node => .ok (some node.span)
    | .nothing => .ok none
    | .noNode => .error ⟨part⟩

/-- The part of a target that an edit asks for first. -/
def firstPart : EditKind → String
  | .insertAfter => "endPosition"
  | _ => "startPosition"

/-- The edit at a span, if its kind makes one. -/
def editAt? (kind : EditKind) (span : Span) (content : String) : Option Edit :=
  match kind with
  | .replace => some ⟨Location.ofSpan span, content⟩
  | .remove => some ⟨Location.ofSpan span, ""⟩
  | .insertBefore => some ⟨Location.point span.startPosition span.start, content⟩
  | .insertAfter => some ⟨Location.point span.stopPosition span.stop, content⟩
  | .unknown => none

/-- Renders the edits in order; there is no fix when a target is not bound. -/
def renderEdits (m : Match) (source : Units) (matchText : String) :
    List EditTemplate → Except NoNode (Option (List Edit))
  | [] => .ok (some [])
  | e :: rest => do
    let content (_ : Unit) : Except NoNode String :=
      match e.content with
      | none => .ok ""
      | some template => Template.render template m.bindings source matchText m.base
    match targetSpan (firstPart e.kind) m e.target with
    | .ok none => .ok none
    | .ok (some span) =>
      let text ← content ()
      match ← renderEdits m source matchText rest with
      | some edits => .ok (some ((editAt? e.kind span text).toList ++ edits))
      | none => .ok none
    | .error noNode =>
      let _ ← content ()
      .error noNode

def render (template : FixTemplate) (m : Match) (source : Units) : Except NoNode (Option Fix) := do
  let matchText := (source.slice m.span.start m.span.stop).toText
  match ← renderEdits m source matchText template.edits with
  | none => .ok none
  | some edits =>
    let description ←
      match template.description with
      | none => .ok defaultDescription
      | some d => Template.render d m.bindings source matchText m.base
    .ok (some ⟨description, edits⟩)

end FixTemplate

inductive FixError where
  | outside (start stop : Int) (length : Nat)
  | overlap (start stop : Int)
  deriving DecidableEq

namespace FixError

def message : FixError → String
  | .outside start stop _ => s!"Edit {start}-{stop} is outside the content"
  | .overlap start stop => s!"Edit {start}-{stop} overlaps a previous edit"

end FixError

namespace Fix

def editOrder (a b : Edit) : Bool :=
  ((compare a.location.startOffset b.location.startOffset).then
    (compare a.location.endOffset b.location.endOffset)).isLE

/-- The first flaw of some sorted edits of a text of this length; none may start before `lowest`. -/
def flaw? (length : Nat) (lowest : Int) : List Edit → Option FixError
  | [] => none
  | e :: rest =>
    let start := e.location.startOffset
    let stop := e.location.endOffset
    if start < 0 || (length : Int) < stop || stop < start then some (.outside start stop length)
    else if start < lowest then some (.overlap start stop)
    else flaw? length stop rest

/-- Copies the text from `cursor` on, with the edits put in. -/
def spliceFrom (content : Units) (cursor : Nat) : List Edit → Units
  | [] => content.slice cursor content.size
  | e :: rest =>
    content.slice cursor e.location.startOffset.toNat ++ Units.ofString e.content ++
      spliceFrom content e.location.endOffset.toNat rest

def apply (fix : Fix) (content : Units) : Except FixError Units :=
  let edits := fix.edits.mergeSort editOrder
  match flaw? content.size 0 edits with
  | some e => .error e
  | none => .ok (spliceFrom content 0 edits)

end Fix

/-- The violation that a match of a rule in a file stands for. -/
def Violation.ofMatch (path : String) (language : Language) (content : Units) (rule : Rule) (m : Match) :
    Except NoNode Violation := do
  let location := Location.ofSpan m.span
  let text := (content.slice m.span.start m.span.stop).toText
  let message ← Template.render rule.message m.bindings content text m.base
  let fix ←
    match rule.fix with
    | none => .ok none
    | some template => template.render m content
  .ok
    { ruleId := rule.id, file := path, language, severity := rule.severity, category := rule.category
      message, location, fix, fingerprint := fingerprintOf rule.id path location text }

/-- The fingerprints already seen in each file, and how many violations were dropped for them. -/
structure Collector where
  seen : List (String × List String) := []
  collapsed : Nat := 0
  deriving Inhabited

namespace Collector

def seenIn (c : Collector) (path : String) : List String := (c.seen.lookup path).getD []

/-- Adds a fingerprint to those of a file. -/
def mark (c : Collector) (path print : String) : Collector :=
  { c with seen := (path, print :: c.seenIn path) :: c.seen.filter (·.1 != path) }

/-- Turns matches into violations, dropping fingerprints seen before in the file. What was seen is
kept also when a match cannot be turned into a violation. -/
def collect (path : String) (language : Language) (content : Units) (rule : Rule) :
    List Match → Collector → Except NoNode (List Violation) × Collector
  | [], c => (.ok [], c)
  | m :: rest, c =>
    match Violation.ofMatch path language content rule m with
    | .error e => (.error e, c)
    | .ok v =>
      if (c.seenIn path).contains v.fingerprint then
        collect path language content rule rest { c with collapsed := c.collapsed + 1 }
      else
        match collect path language content rule rest (c.mark path v.fingerprint) with
        | (.ok vs, c) => (.ok (v :: vs), c)
        | (.error e, c) => (.error e, c)

end Collector

end RuleScan
