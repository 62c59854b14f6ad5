import RuleScan.Evaluation.Textual
import RuleScan.Query.Matcher
import RuleScan.Rule.Basic

/-! Evaluating clauses over a tree. A list of clauses, like an 'any' clause, gives the union of its
matches. An 'all' clause narrows the candidates of its first positive clause by the other positive
clauses, then by its guards, each in order. Matches come by start, the wider one first. -/

namespace RuleScan

namespace Match

/-- A name and the offsets of the node bound to it, in short. -/
def bindingKey (x : String × Node) : String :=
  x.1 ++ "@" ++ toString x.2.span.start ++ "-" ++ toString x.2.span.stop

/-- What tells matches apart in a union: the offsets of the span, and those under each name in order. -/
def key (m : Match) : String :=
  let named := m.bindings.mergeSort fun a b => Text.le a.1 b.1
  toString m.span.start ++ ":" ++ toString m.span.stop ++ "|" ++ ",".intercalate (named.map bindingKey)

def distinct : List Match → List String → List Match
  | [], _ => []
  | m :: rest, seen => if seen.contains m.key then distinct rest seen else m :: distinct rest (m.key :: seen)

def union (results : List (List Match)) : List Match :=
  distinct (results.flatten.mergeSort fun a b => a.span.le b.span) []

end Match

/-- A constraint with its compiled expressions; one that does not compile fails when it is reached. -/
structure Constraint.Test where
  constraint : Constraint
  mustMatch : Option (Except Regex.CompileError Regex.Program)
  mustNotMatch : Option (Except Regex.CompileError Regex.Program)

namespace Constraint

def compile (c : Constraint) : Test :=
  ⟨c, c.mustMatch.map (Regex.compile · ""), c.mustNotMatch.map (Regex.compile · "")⟩

namespace Test

def matchesText (text : Units) (program : Except Regex.CompileError Regex.Program) : Except EvalError Bool :=
  match program with
  | .ok p => .ok (p.test text)
  | .error e => .error (.regex e)

/-- Whether a bound node satisfies the constraint, tested part by part. -/
def holdsOf (t : Test) (text : Units) (kind : String) : Except EvalError Bool := do
  if let some p := t.mustMatch then
    unless ← matchesText text p do return false
  if let some p := t.mustNotMatch then
    if ← matchesText text p then return false
  if t.constraint.equals.any (Units.ofString · ≠ text) then return false
  if t.constraint.notEquals.any (Units.ofString · = text) then return false
  return !t.constraint.kinds.any fun kinds => !kinds.contains kind

/-- Whether some bindings satisfy the constraint. A capture that is not bound satisfies it if it only
forbids. -/
def holds (source : Units) (bindings : Bindings) (t : Test) (base : Option Node := none) : Except EvalError Bool :=
  match bindings.meaning t.constraint.capture base with
  | .node node => t.holdsOf (node.textIn source) node.kind
  | .nothing =>
    .ok (t.constraint.mustMatch.isNone && t.constraint.equals.isNone && t.constraint.kinds.isNone)
  | .noNode => .error (.noNode ⟨"startIndex"⟩)

/-- Whether all constraints hold, tested in order up to the first that fails. -/
def allHold (source : Units) (bindings : Bindings) (tests : List Test) (base : Option Node := none) :
    Except EvalError Bool :=
  match tests with
  | [] => .ok true
  | t :: rest =>
    match t.holds source bindings base with
    | .ok true => allHold source bindings rest base
    | other => other

end Test

end Constraint

namespace Clause

/-- What a remembered result is of: a shared clause, or the clause that a shared guard holds. -/
inductive Remembered where
  | clause (key : String)
  | guarded (key : String)
  deriving DecidableEq

/-- The results of the shared clauses evaluated so far. -/
abbrev Memo := List (Remembered × List Match)

/-- The match to report: of the focus, if there is one. -/
def focused (focus : Option String) (node : Node) (bindings : Bindings) : Except NoNode Match :=
  match focus with
  | none => .ok { span := node.span, node, bindings }
  | some name =>
    match bindings.meaning name with
    | .node target => .ok { span := target.span, node := target, bindings }
    | .nothing => .ok { span := node.span, node, bindings }
    | .noNode => .error ⟨"startIndex"⟩

def focusBound (focus : Option String) (bindings : Bindings) : Bool :=
  match focus with
  | none => true
  | some name =>
    match bindings.meaning name with
    | .nothing => false
    | _ => true

/-- The matches of a query that bind its focus and satisfy its constraints. -/
def structuralMatches (tree : Tree) (query : String) (focus : Option String) (constraints : List Constraint) :
    Counted (List Match) := do
  let parsed ← Counted.ofExcept .query (Query.parse query)
  let compiled ← Counted.ofExcept .regex (Query.compile parsed)
  let tests := constraints.map Constraint.compile
  let found ← compiled.findMatches tree fun bindings =>
    if focusBound focus bindings then
      Counted.ofExcept id (Constraint.Test.allHold tree.source bindings tests)
    else pure false
  Counted.ofExcept .noNode (found.mapM fun (node, bindings) => focused focus node bindings)

/-- The matches of an expression among some found ones: not empty, and satisfying the constraints. One
step for each. -/
def textualMatches (tree : Tree) (lines : LineIndex) (tests : List Constraint.Test) :
    List Regex.Found → Counted (List Match)
  | [] => pure []
  | found :: rest => do
    Counted.step
    if found.stop = found.start then textualMatches tree lines tests rest
    else
      let (bindings, base) ← Counted.ofExcept .readOnly (Textual.bindings tree.source lines found)
      if ← Counted.ofExcept id (Constraint.Test.allHold tree.source bindings tests base) then
        let node := Textual.node tree.source lines found.start found.stop
        return { span := node.span, node, bindings, base } :: (← textualMatches tree lines tests rest)
      else textualMatches tree lines tests rest

/-- The first of some matches with the candidate's span whose bindings agree with the candidate's. The record of the
merged bindings is a new one. -/
def joinFirst (candidate : Match) : List Match → Except NoNode (Option Match)
  | [] => .ok none
  | m :: rest =>
    if m.span.same candidate.span then
      match candidate.bindings.merge m.bindings with
      | .ok (some merged) => .ok (some { candidate with bindings := merged, base := none })
      | .ok none => joinFirst candidate rest
      | .error e => .error e
    else joinFirst candidate rest

/-- Keeps the candidates that can be joined with one of the other matches. One step for each. -/
def narrow (others : List Match) : List Match → Counted (List Match)
  | [] => pure []
  | candidate :: rest => do
    Counted.step
    match ← Counted.ofExcept .noNode (joinFirst candidate others) with
    | some joined => return joined :: (← narrow others rest)
    | none => narrow others rest

def admitsSpan (kind : GuardKind) (others : List Match) (span : Span) : Bool :=
  match kind with
  | .not => !others.any fun o => o.span.same span
  | .inside => others.any fun o => o.span.contains span
  | .notInside => !others.any fun o => o.span.contains span

/-- Keeps the candidates that a guard lets pass. One step for each. -/
def guardPass (kind : GuardKind) (others : List Match) : List Match → Counted (List Match)
  | [] => pure []
  | candidate :: rest => do
    Counted.step
    let kept ← guardPass kind others rest
    return if admitsSpan kind others candidate.span then candidate :: kept else kept

mutual

def evaluate (tree : Tree) (lines : LineIndex) : Clause → Memo → Counted (List Match × Memo)
  | .structural query focus constraints, memo => do
    return (← structuralMatches tree query focus (constraints.getD []), memo)
  | .textual regex flags constraints, memo => do
    let program ← Counted.ofExcept .regex (Regex.compile regex (Textual.flags flags))
    let tests := (constraints.getD []).map Constraint.compile
    return (← textualMatches tree lines tests (program.all tree.source), memo)
  | .any clauses, memo => do
    let (results, memo) ← evaluateEach tree lines clauses memo
    return (Match.union results, memo)
  | .all clauses, memo => do
    match ← evaluatePositives tree lines clauses none memo with
    | (none, _) => throw .noPositive
    | (some candidates, memo) => evaluateGuards tree lines clauses candidates memo
  | .guard kind _, _ => throw (.misplaced kind.word)
  | .other type, _ => throw (.misplaced type)
  | .shared key clause, memo =>
    match memo.lookup (.clause key) with
    | some result => pure (result, memo)
    | none => do
      let (result, memo) ← evaluate tree lines clause memo
      return (result, (.clause key, result) :: memo)

def evaluateEach (tree : Tree) (lines : LineIndex) : List Clause → Memo → Counted (List (List Match) × Memo)
  | [], memo => pure ([], memo)
  | c :: rest, memo => do
    let (result, memo) ← evaluate tree lines c memo
    let (results, memo) ← evaluateEach tree lines rest memo
    return (result :: results, memo)

/-- Evaluates the clauses that are no guards, narrowing the candidates of the first. -/
def evaluatePositives (tree : Tree) (lines : LineIndex) :
    List Clause → Option (List Match) → Memo → Counted (Option (List Match) × Memo)
  | [], candidates, memo => pure (candidates, memo)
  | c :: rest, candidates, memo =>
    if c.isGuard then evaluatePositives tree lines rest candidates memo
    else
      match candidates with
      | none => do
        let (first, memo) ← evaluate tree lines c memo
        evaluatePositives tree lines rest (some first) memo
      | some [] => pure (some [], memo)
      | some candidates => do
        let (others, memo) ← evaluate tree lines c memo
        let narrowed ← narrow others candidates
        evaluatePositives tree lines rest (some narrowed) memo

/-- Applies the guards in order while candidates are left. -/
def evaluateGuards (tree : Tree) (lines : LineIndex) :
    List Clause → List Match → Memo → Counted (List Match × Memo)
  | [], candidates, memo => pure (candidates, memo)
  | c :: rest, candidates, memo =>
    if candidates.isEmpty then pure ([], memo)
    else do
      match ← guardMatches tree lines c memo with
      | (none, memo) => evaluateGuards tree lines rest candidates memo
      | (some (kind, others), memo) => do
        let kept ← guardPass kind others candidates
        evaluateGuards tree lines rest kept memo

/-- The kind of a guard and the matches of its clause; no other clause is evaluated. -/
def guardMatches (tree : Tree) (lines : LineIndex) :
    Clause → Memo → Counted (Option (GuardKind × List Match) × Memo)
  | .guard kind clause, memo => do
    let (others, memo) ← evaluate tree lines clause memo
    return (some (kind, others), memo)
  | .shared key clause, memo =>
    match memo.lookup (.guarded key), clause.guardKind? with
    | some others, some kind => pure (some (kind, others), memo)
    | _, _ => do
      let (result, memo) ← guardMatches tree lines clause memo
      return (result, (result.map fun (_, others) => (.guarded key, others)).toList ++ memo)
  | _, memo => pure (none, memo)

end

def evaluateAll (tree : Tree) (clauses : List Clause) : Counted (List Match) := do
  Counted.checkpoint
  let (results, _) ← evaluateEach tree (LineIndex.ofText tree.source) clauses []
  return Match.union results

end Clause

end RuleScan
