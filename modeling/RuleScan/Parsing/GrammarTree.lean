import RuleScan.Parsing.Basic

/-! Trees of incremental grammars as drafts. A grammar shows its tree through a cursor, which stands on one node and
moves to its first child, its next sibling or its parent. Nodes of the type `ERROR` and missing nodes are syntax
errors; they stay in the tree and are reported in pre-order. -/

namespace RuleScan

structure GrammarNode where
  type : String
  start : Int
  stop : Int
  named : Bool
  missing : Bool
  field : Option String
  children : List GrammarNode
  deriving Inhabited

/-- What a cursor shows of the node on which it stands. -/
structure GrammarLabel where
  type : String
  start : Int
  stop : Int
  named : Bool
  missing : Bool
  field : Option String

namespace GrammarLabel

def isFlaw (l : GrammarLabel) : Bool := l.type = "ERROR" || l.missing

def message (l : GrammarLabel) : String :=
  if l.type = "ERROR" then "Unexpected syntax" else "Missing " ++ l.type

/-- The syntax error that the node itself is. -/
def report? (l : GrammarLabel) : Option DraftDiagnostic :=
  if l.isFlaw then some ⟨l.message, l.start, l.stop⟩ else none

/-- The node as a draft without children; an empty field name counts as none. -/
def toDraft (l : GrammarLabel) : Draft :=
  { kind := l.type, named := l.named, field := l.field.filter (· ≠ ""), start := l.start, stop := l.stop
    hasError := l.isFlaw, children := [] }

end GrammarLabel

namespace GrammarNode

def label (n : GrammarNode) : GrammarLabel := ⟨n.type, n.start, n.stop, n.named, n.missing, n.field⟩

mutual

def size : GrammarNode → Nat
  | ⟨_, _, _, _, _, _, children⟩ => 1 + sizeAll children

def sizeAll : List GrammarNode → Nat
  | [] => 0
  | n :: rest => size n + sizeAll rest

end

theorem size_eq (n : GrammarNode) : n.size = 1 + sizeAll n.children := by
  cases n
  rw [size]

/-- The most code units handed to a grammar at once. -/
def chunkSize : Nat := 16384

/-- The text handed to a grammar that asks for it from an offset on; none at the end. -/
def chunkAt? (source : Units) (offset : Nat) : Option Units :=
  if offset < source.size then some (source.slice offset (offset + chunkSize)) else none

/-- The lengths of the pieces in which a text of this length is handed over. -/
def chunkLengths (length : Nat) : List Nat :=
  if length = 0 then [] else min length chunkSize :: chunkLengths (length - chunkSize)
  termination_by length
  decreasing_by simp only [chunkSize]; omega

end GrammarNode

/-- A place in a grammar's tree: a node, the siblings after it, and the nodes above it, the nearest first, each with
the siblings after it. -/
structure GrammarPlace where
  node : GrammarNode
  after : List GrammarNode
  above : List (GrammarNode × List GrammarNode)

namespace GrammarPlace

def root (n : GrammarNode) : GrammarPlace := ⟨n, [], []⟩

def firstChild? (p : GrammarPlace) : Option GrammarPlace :=
  match p.node.children with
  | [] => none
  | child :: rest => some ⟨child, rest, (p.node, p.after) :: p.above⟩

def nextSibling? (p : GrammarPlace) : Option GrammarPlace :=
  match p.after with
  | [] => none
  | next :: rest => some ⟨next, rest, p.above⟩

def parent? (p : GrammarPlace) : Option GrammarPlace :=
  match p.above with
  | [] => none
  | (node, after) :: rest => some ⟨node, after, rest⟩

/-- The number of nodes that come after the subtree of a place. -/
def owed (p : GrammarPlace) : Nat :=
  GrammarNode.sizeAll p.after + p.above.foldr (fun (_, after) owed => GrammarNode.sizeAll after + owed) 0

variable {p q : GrammarPlace}

theorem owed_of_firstChild? (h : p.firstChild? = some q) :
    q.node.size + q.owed + 1 = p.node.size + p.owed ∧ q.above.length = p.above.length + 1 := by
  unfold firstChild? at h
  split at h
  · cases h
  · next child rest hchildren =>
    cases h
    simp only [owed, GrammarNode.size_eq p.node, hchildren, GrammarNode.sizeAll, List.foldr_cons,
      List.length_cons, and_true]
    omega

theorem owed_of_nextSibling? (h : p.nextSibling? = some q) :
    q.node.size + q.owed = p.owed ∧ q.above.length = p.above.length := by
  unfold nextSibling? at h
  split at h
  · cases h
  · next next rest hafter =>
    cases h
    simp only [owed, hafter, GrammarNode.sizeAll, and_true]
    omega

theorem owed_of_parent? (h : p.parent? = some q) : q.owed ≤ p.owed ∧ q.above.length < p.above.length := by
  unfold parent? at h
  split at h
  · cases h
  · next node after rest habove =>
    cases h
    simp only [owed, habove, List.foldr_cons, List.length_cons, Nat.lt_succ_self, and_true]
    omega

end GrammarPlace

/-- A cursor on the trees of a grammar. Its states stand for places: it shows the node of its place and moves as
places do. Where there is no node to move to, it stays. -/
structure GrammarCursor (σ : Type) where
  /-- A cursor on the root of a tree. -/
  walk : GrammarNode → σ
  label : σ → GrammarLabel
  firstChild? : σ → Option σ
  nextSibling? : σ → Option σ
  parent? : σ → Option σ
  place : σ → GrammarPlace
  place_walk : ∀ n, place (walk n) = .root n
  label_eq : ∀ s, label s = (place s).node.label
  map_firstChild? : ∀ s, (firstChild? s).map place = (place s).firstChild?
  map_nextSibling? : ∀ s, (nextSibling? s).map place = (place s).nextSibling?
  map_parent? : ∀ s, (parent? s).map place = (place s).parent?

/-- Puts a node behind the other children. -/
def Draft.adopt (parent child : Draft) : Draft := { parent with children := parent.children ++ [child] }

namespace GrammarCursor

variable {σ : Type} (c : GrammarCursor σ)

theorem place_of_firstChild? {s t : σ} (h : c.firstChild? s = some t) : (c.place s).firstChild? = some (c.place t) := by
  rw [← c.map_firstChild?, h, Option.map_some]

theorem place_of_nextSibling? {s t : σ} (h : c.nextSibling? s = some t) :
    (c.place s).nextSibling? = some (c.place t) := by
  rw [← c.map_nextSibling?, h, Option.map_some]

theorem place_of_parent? {s t : σ} (h : c.parent? s = some t) : (c.place s).parent? = some (c.place t) := by
  rw [← c.map_parent?, h, Option.map_some]

mutual

/-- Goes on from a node that is not in the draft yet. The draft `parent` of the node above is open, and so are the
drafts `outer` of those further up; each is put under the next one when it is left. -/
def visit (s : σ) (parent : Draft) (outer : List Draft) (found : List DraftDiagnostic) :
    Draft × List DraftDiagnostic :=
  let draft := (c.label s).toDraft
  let found := found ++ (c.label s).report?.toList
  match _hchild : c.firstChild? s with
  | some child => visit child draft (parent :: outer) found
  | none => leave s (parent.adopt draft) outer found
  -- a node is gone into once and left once, and leaving to the node above takes one frame off
  termination_by 2 * ((c.place s).node.size + (c.place s).owed) + (c.place s).above.length
  decreasing_by
  · have := GrammarPlace.owed_of_firstChild? (c.place_of_firstChild? _hchild)
    omega
  · have := GrammarNode.size_eq (c.place s).node
    omega

/-- Goes on from a node whose subtree is in the draft. -/
def leave (s : σ) (parent : Draft) (outer : List Draft) (found : List DraftDiagnostic) :
    Draft × List DraftDiagnostic :=
  match _hnext : c.nextSibling? s with
  | some next => visit next parent outer found
  | none =>
    match _habove : c.parent? s with
    | none => (outer.foldl (fun inner around => around.adopt inner) parent, found)
    | some above =>
      match outer with
      | [] => (parent, found)
      | around :: rest => leave above (around.adopt parent) rest found
  termination_by 2 * (c.place s).owed + (c.place s).above.length + 1
  decreasing_by
  · have := GrammarPlace.owed_of_nextSibling? (c.place_of_nextSibling? _hnext)
    omega
  · have := GrammarPlace.owed_of_parent? (c.place_of_parent? _habove)
    omega

end

/-- The draft of the tree under a cursor, and its syntax errors. -/
def convert (s : σ) : Draft × List DraftDiagnostic :=
  let draft := (c.label s).toDraft
  let found := (c.label s).report?.toList
  match c.firstChild? s with
  | some child => c.visit child draft [] found
  | none => (draft, found)

end GrammarCursor

/-- The cursor that is its place. -/
def GrammarPlace.cursor : GrammarCursor GrammarPlace where
  walk := root
  label p := p.node.label
  firstChild? := firstChild?
  nextSibling? := nextSibling?
  parent? := parent?
  place := id
  place_walk _ := rfl
  label_eq _ := rfl
  map_firstChild? _ := Option.map_id_apply
  map_nextSibling? _ := Option.map_id_apply
  map_parent? _ := Option.map_id_apply

namespace Tree

def ofCursor {σ : Type} (c : GrammarCursor σ) (s : σ) (language : Language) (source : String) : Tree :=
  let (root, diagnostics) := c.convert s
  Tree.ofDraft language (Units.ofString source) root diagnostics

def ofGrammar (language : Language) (source : String) (root : GrammarNode) : Tree :=
  ofCursor GrammarPlace.cursor (GrammarPlace.root root) language source

end Tree

/-- The parser of a language that asks a grammar for its trees and reads them through a cursor. -/
def Parser.ofGrammar {σ : Type} (c : GrammarCursor σ) (language : Language) (unavailable : Option String)
    (grammar : String → Except String GrammarNode) : Parser :=
  { language, extensions := usualExtensions language, unavailable
    build := fun source _ => (grammar source).map fun root => Tree.ofCursor c (c.walk root) language source }

end RuleScan
