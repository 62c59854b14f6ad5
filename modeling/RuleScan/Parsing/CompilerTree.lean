import RuleScan.Number.Shortest
import RuleScan.Tree.Basic

/-! Trees of the TypeScript compiler as drafts. A kind has several names in the compiler's enumeration;
a child stands in a property of its parent; punctuation is anonymous. -/

namespace RuleScan

structure CompilerNode where
  kind : Number
  /-- The names of the kind, in the order of the enumeration. -/
  names : List String
  start : Int
  stop : Int
  /-- The properties that hold children, each with the numbers of those it holds. -/
  properties : List (String × List Nat)
  children : List CompilerNode
  deriving Inhabited

/-- A syntax error found by the compiler. -/
structure CompilerDiagnostic where
  message : String
  start : Int
  length : Int

namespace CompilerNode

/-- Whether a name marks an end of a range of kinds, or their number. -/
def isMarker (name : String) : Bool :=
  let marks (word : String) : Bool :=
    name.startsWith word && ((name.toList.drop word.length).head?.any fun c => 'A' ≤ c && c ≤ 'Z')
  marks "First" || marks "Last" || name = "Count"

/-- The name of a kind: the first that is no marker. -/
def kindName (kind : Number) (names : List String) : String :=
  (names.find? (!isMarker ·)).getD ("Kind" ++ kind.render)

/-- Tokens without a name of their own. -/
def isPunctuation (kind : Number) : Bool :=
  kind.toNat?.any fun k => (19 ≤ k && k ≤ 79) || k = 1

/-- Properties that refer to nodes that are no children. -/
def foreignProperties : List String :=
  ["parent", "original", "symbol", "localSymbol", "locals", "nextContainer", "flowNode", "endFlowNode",
    "returnFlowNode", "emitNode", "jsDoc", "jsDocCache", "externalModuleIndicator",
    "commonJsModuleIndicator", "imports", "moduleAugmentations"]

/-- The property that holds the child of a number: the first that does. -/
def fieldOf (properties : List (String × List Nat)) (child : Nat) : Option String :=
  (properties.find? fun (name, held) => !foreignProperties.contains name && held.contains child).map (·.1)

mutual

def toDraft (field : Option String) : CompilerNode → Draft
  | ⟨kind, names, start, stop, properties, children⟩ =>
    { kind := kindName kind names, named := !isPunctuation kind, field, start, stop
      children := toDrafts properties 0 children }

/-- The children of a node, from the `index`-th on. -/
def toDrafts (properties : List (String × List Nat)) (index : Nat) : List CompilerNode → List Draft
  | [] => []
  | n :: rest => toDraft (fieldOf properties index) n :: toDrafts properties (index + 1) rest

end

end CompilerNode

namespace Draft

mutual

/-- Flags the innermost node around an offset; at each node the first child around it counts. -/
def flagAt (offset : Int) : Draft → Draft
  | ⟨kind, named, field, start, stop, hasError, children⟩ =>
    match flagFirst offset children with
    | some inner => ⟨kind, named, field, start, stop, hasError, inner⟩
    | none => ⟨kind, named, field, start, stop, true, children⟩

def flagFirst (offset : Int) : List Draft → Option (List Draft)
  | [] => none
  | d :: rest =>
    if d.start ≤ offset && offset < d.stop then some (flagAt offset d :: rest)
    else (flagFirst offset rest).map (d :: ·)

end

end Draft

namespace Tree

/-- The tree of a source as the compiler sees it. The root covers the whole source. -/
def ofCompiler (language : Language) (source : String) (root : CompilerNode)
    (diagnostics : List CompilerDiagnostic) : Tree :=
  let units := Units.ofString source
  let draft : Draft :=
    { kind := CompilerNode.kindName root.kind root.names, start := 0, stop := units.size
      children := CompilerNode.toDrafts root.properties 0 root.children }
  let flagged := diagnostics.foldl (fun d diagnostic => d.flagAt diagnostic.start) draft
  Tree.ofDraft language units flagged (diagnostics.map fun d => ⟨d.message, d.start, d.start + d.length⟩)

end Tree

end RuleScan
