import RuleScan.Query.Basic
import RuleScan.Regex.Parser

/-! Reading a query from its tokens: one pattern, then predicates. -/

namespace RuleScan.Query

/-- What is left to read, and what was gathered on the way. -/
structure Reader where
  tokens : List Token
  /-- The offset of the end of the text. -/
  stop : Nat
  predicates : List Predicate := []
  captureNames : List String := []

namespace Reader

/-- The token `n` places ahead. -/
def ahead (r : Reader) (n : Nat) : Token := r.tokens.getD n ⟨.eof, "", r.stop⟩

def peek (r : Reader) : Token := r.ahead 0

/-- Passes one token; the end is never passed. -/
def advance (r : Reader) : Reader := { r with tokens := r.tokens.drop 1 }

def fail {α : Type} (flaw : Flaw) (offset : Nat) : Except SyntaxFault α := .error ⟨flaw, offset⟩

def expect (r : Reader) (kind : TokenKind) : Except SyntaxFault (Token × Reader) :=
  let t := r.peek
  if t.kind = kind then .ok (t, r.advance) else fail (.expectedToken kind t) t.offset

def atPredicate (r : Reader) : Bool := r.peek.kind = .lparen && (r.ahead 1).kind = .predicate

end Reader

/-- The problem with the arguments of a predicate, if there is one: the first is a capture, and each
relation takes its own kind and number of others. -/
def argumentProblem? (relation : Relation) (args : List Argument) : Option String :=
  match args with
  | .capture _ :: rest =>
    match relation, rest with
    | .eq, [_] => none
    | .eq, _ => some "takes exactly two arguments"
    | .isMatch, [.string source] =>
      match Regex.compile source "" with
      | .ok _ => none
      | .error e => some ("has an invalid regular expression: " ++ e.message)
    | .isMatch, _ => some "takes a capture and a regular expression string"
    | .anyOf, rest =>
      if rest.isEmpty || rest.any (fun | .capture _ => true | .string _ => false) then
        some "takes a capture and one or more strings"
      else none
    | .empty, [] => none
    | .empty, _ => some "takes exactly one capture"
  | _ => some "takes a capture as its first argument"

/-- Reads the arguments of a predicate up to its closing parenthesis. -/
def readArguments (stop : Nat) : List Token → List Argument → Except SyntaxFault (List Argument × List Token)
  | [], _ => .error ⟨.unexpectedInPredicate ⟨.eof, "", stop⟩, stop⟩
  | t :: rest, acc =>
    match t.kind with
    | .rparen => .ok (acc.reverse, rest)
    | .capture => readArguments stop rest (.capture t.value :: acc)
    | .string => readArguments stop rest (.string t.value :: acc)
    | _ => .error ⟨.unexpectedInPredicate t, t.offset⟩

/-- Reads a predicate and adds it to those gathered. -/
def readPredicate (r : Reader) : Except SyntaxFault Reader := do
  let (_, r) ← r.expect .lparen
  let (name, r) ← r.expect .predicate
  match Predicate.form? name.value with
  | none => .error ⟨.unknownPredicate name.value, name.offset⟩
  | some (relation, negated) =>
    let (args, rest) ← readArguments r.stop r.tokens []
    match argumentProblem? relation args with
    | some problem => .error ⟨.predicateArguments name.value problem, name.offset⟩
    | none =>
      .ok { r with tokens := rest, predicates := r.predicates ++ [⟨relation, negated, args, name.offset⟩] }

/-- Reads the predicates that follow; `fuel` bounds their number. -/
def readPredicates : Nat → Reader → Except SyntaxFault Reader
  | 0, r => .ok r
  | fuel + 1, r =>
    if r.atPredicate then
      match readPredicate r with
      | .ok r => readPredicates fuel r
      | .error e => .error e
    else .ok r

def quantifierOf (value : String) : Quantifier :=
  if value = "?" then .optional
  else if value = "*" then .zeroOrMore
  else if value = "+" then .oneOrMore
  else .one

def addName (names : List String) (name : String) : List String :=
  if names.contains name then names else names ++ [name]

/-- Reads the quantifier and the captures after a pattern. -/
def readSuffix (p : Pattern) (r : Reader) : Pattern × Reader :=
  let (p, r) :=
    if r.peek.kind = .quantifier then (p.quantified (quantifierOf r.peek.value), r.advance) else (p, r)
  let names := (r.tokens.takeWhile (·.kind = .capture)).map (·.value)
  (p.capturing names,
    { r with
      tokens := r.tokens.dropWhile (·.kind = .capture)
      captureNames := names.foldl addName r.captureNames })

mutual

/-- Reads a pattern with its quantifier and captures. `fuel` bounds the depth of reading. -/
def readPattern : Nat → Reader → Except SyntaxFault (Pattern × Reader)
  | 0, r => .error ⟨.unexpectedEnd, r.stop⟩
  | fuel + 1, r => do
    let t := r.peek
    match t.kind with
    | .lparen =>
      let (p, r) ← readParenthesized fuel t.offset r.advance
      .ok (readSuffix p r)
    | .lbracket =>
      let (alternatives, r) ← readAlternatives fuel t.offset r.advance []
      if alternatives.isEmpty then .error ⟨.emptyAlternation, t.offset⟩
      else .ok (readSuffix (.alternation alternatives .one []) r)
    | .string => .ok (readSuffix (.literal t.value .one []) r.advance)
    | .identifier =>
      if t.value = "_" then .ok (readSuffix (.wildcard .one []) r.advance)
      else .error ⟨.bareKind t.value, t.offset⟩
    | _ => .error ⟨.expectedPattern t, t.offset⟩

/-- Reads what follows an opening parenthesis: a kind with its elements, or a pattern that is only
grouped with predicates. -/
def readParenthesized : Nat → Nat → Reader → Except SyntaxFault (Pattern × Reader)
  | 0, _, r => .error ⟨.unexpectedEnd, r.stop⟩
  | fuel + 1, openOffset, r => do
    let head := r.peek
    match head.kind with
    | .lparen | .lbracket | .string =>
      let (inner, r) ← readPattern fuel r
      let r ← readPredicates r.tokens.length r
      if r.peek.kind = .rparen then .ok (inner, r.advance) else .error ⟨.groupSize, r.peek.offset⟩
    | .identifier =>
      let (elements, absent, r) ← readElements fuel openOffset r.advance [] []
      .ok (.node (if head.value = "_" then none else some head.value) elements absent .one [], r)
    | _ => .error ⟨.missingKind, head.offset⟩

/-- Reads the elements, absent fields and predicates of a node up to its closing parenthesis, onto
those read in reverse. -/
def readElements : Nat → Nat → Reader → List Element → List String →
    Except SyntaxFault (List Element × List String × Reader)
  | 0, _, r, _, _ => .error ⟨.unexpectedEnd, r.stop⟩
  | fuel + 1, openOffset, r, elements, absent => do
    let t := r.peek
    if t.kind = .rparen then .ok (elements.reverse, absent.reverse, r.advance)
    else if t.kind = .eof then .error ⟨.unclosedParen, openOffset⟩
    else if r.atPredicate then
      let r ← readPredicate r
      readElements fuel openOffset r elements absent
    else if t.kind = .bang then
      let (name, r) ← r.advance.expect .identifier
      readElements fuel openOffset r elements (name.value :: absent)
    else if t.kind = .identifier && (r.ahead 1).kind = .colon then
      let (p, r) ← readPattern fuel r.advance.advance
      readElements fuel openOffset r ((some t.value, p) :: elements) absent
    else
      let (p, r) ← readPattern fuel r
      readElements fuel openOffset r ((none, p) :: elements) absent

/-- Reads the alternatives up to the closing bracket, onto those read in reverse. -/
def readAlternatives : Nat → Nat → Reader → List Pattern → Except SyntaxFault (List Pattern × Reader)
  | 0, _, r, _ => .error ⟨.unexpectedEnd, r.stop⟩
  | fuel + 1, openOffset, r, alternatives => do
    let t := r.peek
    if t.kind = .rbracket then .ok (alternatives.reverse, r.advance)
    else if t.kind = .eof then .error ⟨.unclosedBracket, openOffset⟩
    else
      let (p, r) ← readPattern fuel r
      readAlternatives fuel openOffset r (p :: alternatives)

end

/-- The first capture argument of some predicates that is not among the names. -/
def undeclared? (names : List String) (predicates : List Predicate) : Option SyntaxFault :=
  predicates.findSome? fun p =>
    p.args.findSome? fun
      | .capture name => if names.contains name then none else some ⟨.undeclaredCapture name, p.offset⟩
      | .string _ => none

def ofTokens (source : String) (tokens : List Token) : Except SyntaxFault Query := do
  let start : Reader := { tokens, stop := Text.length source }
  if tokens.isEmpty then .error ⟨.empty, 0⟩
  else
    let (pattern, r) ← readPattern (4 * tokens.length + 4) start
    let r ← readPredicates r.tokens.length r
    if !r.tokens.isEmpty then .error ⟨.severalPatterns, r.peek.offset⟩
    else if pattern.quantifier ≠ .one then .error ⟨.quantifiedTop, 0⟩
    else
      match undeclared? r.captureNames r.predicates with
      | some e => .error e
      | none => .ok ⟨source, pattern, r.predicates, r.captureNames⟩

def parse (source : String) : Except SyntaxFault Query := do
  let tokens ← scan source
  ofTokens source tokens

end RuleScan.Query
