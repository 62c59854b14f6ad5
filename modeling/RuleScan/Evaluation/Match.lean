import RuleScan.Tree.Basic
import RuleScan.Value.Basic

/-! Matches: a node, its span and the nodes captured under names. -/

namespace RuleScan

/-- Captured nodes by name; a name occurs once. -/
abbrev Bindings := List (String × Node)

namespace Bindings

/-- The names that every record answers to by itself. A capture of such a name that is not bound is
met as something that is no node. -/
def inherent : List String :=
  ["constructor", "__defineGetter__", "__defineSetter__", "hasOwnProperty", "__lookupGetter__",
    "__lookupSetter__", "isPrototypeOf", "propertyIsEnumerable", "toString", "valueOf", "__proto__",
    "toLocaleString"]

/-- The name under which a record is asked for its base, and given one. -/
def baseName : String := "__proto__"

/-- The members of a node, each with whether it counts as true. -/
def members (n : Node) : List (String × Bool) :=
  [("kind", n.kind != ""), ("named", n.named), ("field", n.field.any (· != "")), ("span", true), ("children", true),
    ("text", n.text.any (·.size != 0)), ("hasError", n.hasError)]

/-- What a name stands for. -/
inductive Meaning where
  | node (n : Node)
  | nothing
  | noNode

/-- What a record answers to a name that is not bound in it. If a node is its base, the members of that node are found as
well, and are no nodes. -/
def inherited (base : Option Node) (name : String) : Meaning :=
  match base with
  | none => if inherent.contains name then .noNode else .nothing
  | some n =>
    if name = baseName then .node n
    else if inherent.contains name || (members n).lookup name = some true then .noNode
    else .nothing

def meaning (b : Bindings) (name : String) (base : Option Node := none) : Meaning :=
  match b.lookup name with
  | some n => .node n
  | none => inherited base name

end Bindings

/-- Something that is no node was asked for a part of one. -/
structure NoNode where
  /-- The part that was asked for. -/
  part : String
  deriving DecidableEq

def NoNode.message (e : NoNode) : String :=
  "Cannot read properties of undefined (reading '" ++ e.part ++ "')"

/-- A name was to be bound that a member of the base has. -/
structure ReadOnly where
  name : String
  deriving DecidableEq

def ReadOnly.message (e : ReadOnly) : String :=
  "Cannot assign to read only property '" ++ e.name ++ "' of object '#<Object>'"

structure Match where
  span : Span
  node : Node
  bindings : Bindings
  /-- The node that the record of the bindings has as its base. -/
  base : Option Node := none

namespace Match

def meaning (m : Match) (name : String) : Bindings.Meaning := m.bindings.meaning name m.base

end Match

namespace Bindings

/-- Adds the bindings of `b` that `a` lacks, in order; two nodes of one name must have the same span. -/
def mergeOnto (a : Bindings) : Bindings → Except NoNode (Option Bindings)
  | [] => .ok (some a)
  | (name, node) :: rest =>
    match a.meaning name with
    | .node existing => if existing.span.same node.span then mergeOnto a rest else .ok none
    | .nothing => mergeOnto (a ++ [(name, node)]) rest
    | .noNode => .error ⟨"startIndex"⟩

/-- The bindings in the order in which they are walked: index names first, ascending. -/
def walked (b : Bindings) : Bindings := b.foldl (fun placed x => placeKey x.1 x.2 placed) []

/-- The union of two sets of bindings, unless they disagree on a name. Those of `b` are added as they are walked. -/
def merge (a b : Bindings) : Except NoNode (Option Bindings) := a.mergeOnto b.walked

end Bindings

end RuleScan
