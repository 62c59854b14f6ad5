import RuleScan.Query.Token

/-! Structural queries: a pattern for a node and its children, and predicates on what it captures. -/

namespace RuleScan

namespace Query

/-- How often a child pattern occurs. -/
inductive Quantifier where
  | one
  | optional
  | zeroOrMore
  | oneOrMore
  deriving DecidableEq, Inhabited

def Quantifier.word : Quantifier → String
  | .one => "one"
  | .optional => "optional"
  | .zeroOrMore => "zero-or-more"
  | .oneOrMore => "one-or-more"

/-- A pattern for a node, with its quantifier and the names that capture the node. -/
inductive Pattern where
  /-- Any node, named or anonymous. -/
  | wildcard (quantifier : Quantifier) (captures : List String)
  /-- A node of this kind, or a leaf with this text. -/
  | literal (value : String) (quantifier : Quantifier) (captures : List String)
  /-- A node that one of the alternatives matches. -/
  | alternation (alternatives : List Pattern) (quantifier : Quantifier) (captures : List String)
  /-- A named node of a kind, or of any kind, with child elements in order and fields that no child
  may carry. An element without a field takes any child. -/
  | node (kind : Option String) (elements : List (Option String × Pattern)) (absent : List String)
      (quantifier : Quantifier) (captures : List String)
  deriving Inhabited

/-- A child pattern and the field its child has to carry. -/
abbrev Element := Option String × Pattern

namespace Pattern

def quantifier : Pattern → Quantifier
  | .wildcard q _ => q
  | .literal _ q _ => q
  | .alternation _ q _ => q
  | .node _ _ _ q _ => q

def captures : Pattern → List String
  | .wildcard _ cs => cs
  | .literal _ _ cs => cs
  | .alternation _ _ cs => cs
  | .node _ _ _ _ cs => cs

def quantified (q : Quantifier) : Pattern → Pattern
  | .wildcard _ cs => .wildcard q cs
  | .literal v _ cs => .literal v q cs
  | .alternation as _ cs => .alternation as q cs
  | .node k es fs _ cs => .node k es fs q cs

/-- Adds capture names after those already there. -/
def capturing (names : List String) : Pattern → Pattern
  | .wildcard q cs => .wildcard q (cs ++ names)
  | .literal v q cs => .literal v q (cs ++ names)
  | .alternation as q cs => .alternation as q (cs ++ names)
  | .node k es fs q cs => .node k es fs q (cs ++ names)

end Pattern

/-- What a predicate compares a capture with. -/
inductive Argument where
  | capture (name : String)
  | string (value : String)
  deriving DecidableEq

inductive Relation where
  | eq
  | isMatch
  | anyOf
  | empty
  deriving DecidableEq

/-- A predicate on captured nodes, possibly negated. -/
structure Predicate where
  relation : Relation
  negated : Bool
  args : List Argument
  offset : Nat
  deriving DecidableEq

namespace Predicate

def Relation.word : Relation → String
  | .eq => "eq?"
  | .isMatch => "match?"
  | .anyOf => "any-of?"
  | .empty => "empty?"

def nameOf (relation : Relation) (negated : Bool) : String :=
  (if negated then "not-" else "") ++ Relation.word relation

def name (p : Predicate) : String := nameOf p.relation p.negated

/-- The relations with and without negation. -/
def forms : List (Relation × Bool) :=
  [(.eq, false), (.eq, true), (.isMatch, false), (.isMatch, true), (.anyOf, false), (.anyOf, true),
    (.empty, false), (.empty, true)]

/-- The relation and the negation that a name stands for. -/
def form? (name : String) : Option (Relation × Bool) := forms.find? fun f => nameOf f.1 f.2 == name

end Predicate

end Query

structure Query where
  source : String
  pattern : Query.Pattern
  predicates : List Query.Predicate
  /-- Every name the query captures, in order of first appearance. -/
  captureNames : List String

end RuleScan
