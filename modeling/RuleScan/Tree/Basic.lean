import RuleScan.Source.Language
import RuleScan.Source.Span

/-! Syntax trees: drafts that carry offsets only, and finished trees whose spans lie in the source,
whose leaves carry their text and whose error flags reach up to the root. -/

namespace RuleScan

/-- A node of a finished tree. Exactly the nodes without children carry their text. -/
structure Node where
  kind : String
  /-- Whether the grammar names the node; tokens are anonymous. -/
  named : Bool
  /-- The field of the parent that holds the node. -/
  field : Option String
  span : Span
  children : List Node
  text : Option Units
  /-- Whether the node is or contains a syntax error. -/
  hasError : Bool
  deriving Inhabited

/-- A syntax error that the parser recovered from. -/
structure Diagnostic where
  message : String
  span : Span
  deriving Inhabited

structure Tree where
  language : Language
  source : Units
  root : Node
  diagnostics : List Diagnostic
  deriving Inhabited

/-- A node under construction, with offsets that may lie outside the source. -/
structure Draft where
  kind : String
  named : Bool := true
  field : Option String := none
  start : Int
  stop : Int
  hasError : Bool := false
  children : List Draft
  deriving Inhabited

structure DraftDiagnostic where
  message : String
  start : Int
  stop : Int
  deriving Inhabited

namespace Node

def textIn (source : Units) (node : Node) : Units :=
  node.text.getD (source.slice node.span.start node.span.stop)

end Node

namespace Draft

mutual

def finish (source : Units) (lines : LineIndex) : Draft → Node
  | ⟨kind, named, field, start, stop, hasError, children⟩ =>
    let span := lines.span start stop
    let inner := finishAll source lines children
    { kind, named, field, span
      children := inner
      text := if inner.isEmpty then some (source.slice span.start span.stop) else none
      hasError := hasError || inner.any (·.hasError) }

def finishAll (source : Units) (lines : LineIndex) : List Draft → List Node
  | [] => []
  | d :: rest => finish source lines d :: finishAll source lines rest

end

end Draft

namespace Tree

def ofDraft (language : Language) (source : Units) (root : Draft)
    (diagnostics : List DraftDiagnostic) : Tree :=
  let lines := LineIndex.ofText source
  { language, source
    root := root.finish source lines
    diagnostics := diagnostics.map fun d => ⟨d.message, lines.span d.start d.stop⟩ }

end Tree

end RuleScan
