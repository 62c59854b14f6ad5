import RuleScan.Evaluation.Counted
import RuleScan.Query.Parser
import RuleScan.Regex.Matcher
import RuleScan.Tree.Walk

/-! Matching a query against a tree. Every node is tried in pre-order. The elements of a node pattern
take children in order, with gaps; repetition prefers one more child over stopping. A search hands each
solution to `accept` as it is found and ends with the first that is accepted. -/

namespace RuleScan.Query

/-- What the captures of a query are bound to on the way. -/
abbrev Environment := Bindings

/-- Whether an element with this pattern takes anonymous children. -/
def Pattern.acceptsAnonymous : Pattern → Bool
  | .wildcard _ _ => true
  | .literal _ _ _ => true
  | .alternation alternatives _ _ => anyAccepts alternatives
  | .node _ _ _ _ _ => false
where
  anyAccepts : List Pattern → Bool
    | [] => false
    | p :: rest => p.acceptsAnonymous || anyAccepts rest

/-- Binds names to a node; a name already bound keeps its node and must have the same text. -/
def bind (source : Units) (node : Node) : List String → Environment → Option Environment
  | [], env => some env
  | name :: rest, env =>
    match env.lookup name with
    | some existing =>
      if existing.textIn source = node.textIn source then bind source node rest env else none
    | none => bind source node rest (env ++ [(name, node)])

/-- Whether an element may take a child. -/
def admits (field : Option String) (anonymous : Bool) (child : Node) : Bool :=
  match field with
  | some f => child.field = some f
  | none => anonymous || child.named

section Search

variable {β : Type}

/-- Tries the admitted children from left to right. -/
def occurrences (fits : Node → Bool) (attempt : Node → (Environment → Counted (Option β)) → Counted (Option β))
    (next : List Node → Environment → Counted (Option β)) : List Node → Counted (Option β)
  | [] => pure none
  | c :: rest =>
    if fits c then do
      match ← attempt c (next rest) with
      | some b => pure (some b)
      | none => occurrences fits attempt next rest
    else occurrences fits attempt next rest

/-- Takes admitted children as often as possible. The first one taken, when `first`, decides what is
bound; `stop` goes on with what is bound, from where the last one was taken. -/
def repeats (fits : Node → Bool) (attempt : Node → (Environment → Counted (Option β)) → Counted (Option β))
    (next : List Node → Environment → Counted (Option β)) :
    List Node → (first : Bool) → Environment → (stop : Counted (Option β)) → Counted (Option β)
  | [], _, _, stop => stop
  | c :: rest, first, env, stop =>
    if fits c then do
      let taken ← attempt c fun matched =>
        let kept := if first then matched else env
        repeats fits attempt next rest false kept (next rest kept)
      match taken with
      | some b => pure (some b)
      | none => repeats fits attempt next rest first env stop
    else repeats fits attempt next rest first env stop

def whenBound (env : Option Environment) (accept : Environment → Counted (Option β)) : Counted (Option β) :=
  match env with
  | some e => accept e
  | none => pure none

mutual

def solve (source : Units) : Pattern → Node → Environment → (Environment → Counted (Option β)) → Counted (Option β)
  | .wildcard _ captures, node, env, accept => do
    Counted.step
    whenBound (bind source node captures env) accept
  | .literal value _ captures, node, env, accept => do
    Counted.step
    if node.kind = value || (node.children.isEmpty && node.textIn source = Units.ofString value) then
      whenBound (bind source node captures env) accept
    else pure none
  | .alternation alternatives _ captures, node, env, accept => do
    Counted.step
    solveAny source alternatives node env fun inner => whenBound (bind source node captures inner) accept
  | .node kind elements absent _ captures, node, env, accept => do
    Counted.step
    if !node.named || kind.any (· ≠ node.kind) then pure none
    else if absent.any fun f => node.children.any (·.field = some f) then pure none
    else
      whenBound (bind source node captures env) fun bound =>
        solveElements source elements node.children bound accept

/-- Searches the alternatives in order. -/
def solveAny (source : Units) : List Pattern → Node → Environment → (Environment → Counted (Option β)) → Counted (Option β)
  | [], _, _, _ => pure none
  | p :: rest, node, env, accept => do
    match ← solve source p node env accept with
    | some b => pure (some b)
    | none => solveAny source rest node env accept

/-- Searches the ways in which elements take children, in order. -/
def solveElements (source : Units) :
    List Element → List Node → Environment → (Environment → Counted (Option β)) → Counted (Option β)
  | [], _, env, accept => accept env
  | (field, p) :: rest, children, env, accept =>
    let fits := admits field p.acceptsAnonymous
    let attempt := fun c => solve source p c env
    let next := fun left env => solveElements source rest left env accept
    match p.quantifier with
    | .one => occurrences fits attempt next children
    | .optional => do
      match ← occurrences fits attempt next children with
      | some b => pure (some b)
      | none => next children env
    | .zeroOrMore => repeats fits attempt next children true env (next children env)
    | .oneOrMore => repeats fits attempt next children true env (pure none)

end

end Search

/-- A predicate with its compiled expression, if it has one. -/
structure Check where
  predicate : Predicate
  program : Option Regex.Program

namespace Check

def ofPredicate (p : Predicate) : Except Regex.CompileError Check :=
  match p.relation, p.args with
  | .isMatch, _ :: .string source :: _ => (Regex.compile source "").map fun program => ⟨p, some program⟩
  | _, _ => .ok ⟨p, none⟩

/-- Whether what the predicate asks is so of a node; `none` when the other side is not bound. -/
def asks (source : Units) (env : Environment) (c : Check) (node : Node) (others : List Argument) : Option Bool :=
  let text := node.textIn source
  match c.predicate.relation with
  | .eq =>
    match others.head? with
    | some (.capture name) => (env.lookup name).map fun other => text = other.textIn source
    | some (.string value) => some (text = Units.ofString value)
    | none => none
  | .isMatch => some (c.program.any (·.test text))
  | .anyOf =>
    some <| others.any fun
      | .string value => Units.ofString value = text
      | .capture _ => false
  | .empty => some !(node.children.any (·.named))

/-- Whether a predicate holds. Where a capture is not bound, exactly the negated ones do. -/
def holds (source : Units) (env : Environment) (c : Check) : Bool :=
  match c.predicate.args with
  | .capture name :: others =>
    match env.lookup name with
    | none => c.predicate.negated
    | some node =>
      match c.asks source env node others with
      | none => c.predicate.negated
      | some b => b != c.predicate.negated
  | _ => c.predicate.negated

end Check

/-- Checks predicates in order up to the first that fails, one step each. -/
def checkAll (source : Units) (env : Environment) : List Check → Counted Bool
  | [] => pure true
  | c :: rest => do
    Counted.step
    if c.holds source env then checkAll source env rest else pure false

/-- A query ready to be matched. -/
structure Compiled where
  pattern : Pattern
  checks : List Check

def compile (q : Query) : Except Regex.CompileError Compiled := do
  let checks ← q.predicates.mapM Check.ofPredicate
  .ok ⟨q.pattern, checks⟩

namespace Compiled

/-- The first solution at a node that passes the predicates and the caller's test. -/
def solveAt (c : Compiled) (source : Units) (accept : Bindings → Counted Bool) (node : Node) :
    Counted (Option Bindings) :=
  solve source c.pattern node [] fun env => do
    if ← checkAll source env c.checks then
      if ← accept env then pure (some env) else pure none
    else pure none

/-- The matched nodes among some nodes, in order; one step for each node tried. -/
def findAmong (c : Compiled) (source : Units) (accept : Bindings → Counted Bool) :
    List Node → Array (Node × Bindings) → Counted (Array (Node × Bindings))
  | [], found => pure found
  | node :: rest, found => do
    Counted.step
    match ← c.solveAt source accept node with
    | some env => findAmong c source accept rest (found.push (node, env))
    | none => findAmong c source accept rest found

/-- All matches of a query in a tree in pre-order, at most one for each node. -/
def findMatches (c : Compiled) (tree : Tree) (accept : Bindings → Counted Bool) : Counted (List (Node × Bindings)) := do
  let found ← c.findAmong tree.source accept tree.root.preorder #[]
  pure found.toList

end Compiled

end RuleScan.Query
