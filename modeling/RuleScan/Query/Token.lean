import RuleScan.Text.Blank

/-! The tokens of a structural query, such as `(CatchClause block: (Block) @body (#empty? @body))`. -/

namespace RuleScan.Query

inductive TokenKind where
  | lparen
  | rparen
  | lbracket
  | rbracket
  | colon
  | bang
  | quantifier
  | capture
  | predicate
  | string
  | identifier
  | eof
  deriving DecidableEq, Inhabited

def TokenKind.word : TokenKind → String
  | .lparen => "lparen"
  | .rparen => "rparen"
  | .lbracket => "lbracket"
  | .rbracket => "rbracket"
  | .colon => "colon"
  | .bang => "bang"
  | .quantifier => "quantifier"
  | .capture => "capture"
  | .predicate => "predicate"
  | .string => "string"
  | .identifier => "identifier"
  | .eof => "eof"

/-- A token with its value and the offset of its first code unit. -/
structure Token where
  kind : TokenKind
  value : String
  offset : Nat
  deriving DecidableEq, Inhabited

namespace Token

/-- How messages show a token: its value, or the word for its kind when it has none. -/
def shown (t : Token) : String := if t.value.isEmpty then t.kind.word else t.value

end Token

inductive Flaw where
  | unterminatedString
  | unknownEscape (shown : String)
  | missingCaptureName
  | missingPredicateName
  | unexpectedChar (c : Char)
  | empty
  | severalPatterns
  | quantifiedTop
  | bareKind (kind : String)
  | expectedPattern (found : Token)
  | groupSize
  | missingKind
  | unclosedParen
  | unclosedBracket
  | emptyAlternation
  | unknownPredicate (name : String)
  | unexpectedInPredicate (found : Token)
  | expectedToken (kind : TokenKind) (found : Token)
  | predicateArguments (name : String) (problem : String)
  | undeclaredCapture (name : String)
  | unexpectedEnd
  deriving DecidableEq

def Flaw.message : Flaw → String
  | .unterminatedString => "Unterminated string"
  | .unknownEscape shown => "Unknown escape sequence \\" ++ shown
  | .missingCaptureName => "Expected a capture name after @"
  | .missingPredicateName => "Expected a predicate name after #"
  | .unexpectedChar c => "Unexpected character '" ++ Units.first c.toString ++ "'"
  | .empty => "Query is empty"
  | .severalPatterns => "A query holds exactly one top-level pattern"
  | .quantifiedTop => "The top-level pattern cannot be quantified"
  | .bareKind kind => "Node kinds must be parenthesized: (" ++ kind ++ ")"
  | .expectedPattern found => "Expected a pattern but found '" ++ found.shown ++ "'"
  | .groupSize => "A group holds exactly one pattern"
  | .missingKind => "Expected a node kind after ("
  | .unclosedParen => "Unclosed ("
  | .unclosedBracket => "Unclosed ["
  | .emptyAlternation => "An alternation needs at least one pattern"
  | .unknownPredicate name => "Unknown predicate #" ++ name
  | .unexpectedInPredicate found => "Unexpected '" ++ found.shown ++ "' in predicate"
  | .expectedToken kind found => "Expected " ++ kind.word ++ " but found '" ++ found.shown ++ "'"
  | .predicateArguments name problem => "#" ++ name ++ " " ++ problem
  | .undeclaredCapture name => "Predicate references undeclared capture @" ++ name
  | .unexpectedEnd => "Unexpected end of query"

structure SyntaxFault where
  flaw : Flaw
  offset : Nat
  deriving DecidableEq

def SyntaxFault.message (e : SyntaxFault) : String :=
  e.flaw.message ++ " at offset " ++ toString e.offset

def isLetter (c : Char) : Bool := ('a' ≤ c && c ≤ 'z') || ('A' ≤ c && c ≤ 'Z')

def isNumeral (c : Char) : Bool := '0' ≤ c && c ≤ '9'

def isIdentifierStart (c : Char) : Bool := isLetter c || c = '_'

def isIdentifierPart (c : Char) : Bool := isLetter c || isNumeral c || c = '_' || c = '$' || c = '-'

def isCapturePart (c : Char) : Bool := isLetter c || isNumeral c || c = '_' || c = '.' || c = '-'

def isPredicatePart (c : Char) : Bool := ('a' ≤ c && c ≤ 'z') || c = '-'

def singleKind? (c : Char) : Option TokenKind :=
  match c with
  | '(' => some .lparen
  | ')' => some .rparen
  | '[' => some .lbracket
  | ']' => some .rbracket
  | ':' => some .colon
  | '!' => some .bang
  | '?' => some .quantifier
  | '*' => some .quantifier
  | '+' => some .quantifier
  | _ => none

/-- The character that an escape in a string stands for. -/
def unescape? (c : Char) : Option Char :=
  match c with
  | 'n' => some '\n'
  | 't' => some '\t'
  | 'r' => some '\r'
  | '"' => some '"'
  | '\\' => some '\\'
  | _ => none

def widthOf (cs : List Char) : Nat := cs.foldl (fun n c => n + Units.width c) 0

/-- Reads a string after its opening quote: its value in reverse, what follows it and the offset
there. `start` is the offset of the opening quote. -/
def readQuoted (start : Nat) :
    List Char → Nat → List Char → Except SyntaxFault (List Char × List Char × Nat)
  | [], _, _ => .error ⟨.unterminatedString, start⟩
  | '"' :: rest, offset, acc => .ok (acc, rest, offset + 1)
  | ['\\'], offset, _ => .error ⟨.unknownEscape "", offset⟩
  | '\\' :: c :: rest, offset, acc =>
    match unescape? c with
    | some e => readQuoted start rest (offset + 2) (e :: acc)
    | none => .error ⟨.unknownEscape (Units.first c.toString), offset⟩
  | c :: rest, offset, acc => readQuoted start rest (offset + Units.width c) (c :: acc)

theorem length_readQuoted {start : Nat} {cs : List Char} {offset : Nat} {acc value rest : List Char}
    {after : Nat} (h : readQuoted start cs offset acc = .ok (value, rest, after)) :
    rest.length < cs.length := by
  fun_induction readQuoted start cs offset acc <;> grind

theorem length_dropWhile_le (p : Char → Bool) (cs : List Char) :
    (cs.dropWhile p).length ≤ cs.length :=
  (List.dropWhile_sublist p).length_le

/-- The end of a predicate name: a question mark belongs to it. -/
def splitPredicate (cs : List Char) : List Char × List Char :=
  let name := cs.takeWhile isPredicatePart
  match cs.dropWhile isPredicatePart with
  | '?' :: rest => (name ++ ['?'], rest)
  | rest => (name, rest)

theorem length_splitPredicate_le (cs : List Char) : (splitPredicate cs).2.length ≤ cs.length := by
  have h := length_dropWhile_le isPredicatePart cs
  unfold splitPredicate
  split <;> grind

/-- Scans the tokens of a text that starts at `offset`, without the one for its end. -/
def scanFrom (offset : Nat) (cs : List Char) : Except SyntaxFault (List Token) :=
  match cs with
  | [] => .ok []
  | c :: rest =>
    if Text.isBlank c then scanFrom (offset + Units.width c) rest
    else if c = ';' then
      scanFrom (offset + 1 + widthOf (rest.takeWhile (· != '\n'))) (rest.dropWhile (· != '\n'))
    else
      match singleKind? c with
      | some kind => (scanFrom (offset + 1) rest).map (⟨kind, c.toString, offset⟩ :: ·)
      | none =>
        if c = '"' then
          match _h : readQuoted offset rest (offset + 1) [] with
          | .error e => .error e
          | .ok (value, after, next) =>
            (scanFrom next after).map (⟨.string, String.ofList value.reverse, offset⟩ :: ·)
        else if c = '@' then
          let name := rest.takeWhile isCapturePart
          if name.isEmpty then .error ⟨.missingCaptureName, offset⟩
          else
            (scanFrom (offset + 1 + name.length) (rest.dropWhile isCapturePart)).map
              (⟨.capture, String.ofList name, offset⟩ :: ·)
        else if c = '#' then
          let name := (splitPredicate rest).1
          if name.isEmpty then .error ⟨.missingPredicateName, offset⟩
          else
            (scanFrom (offset + 1 + name.length) (splitPredicate rest).2).map
              (⟨.predicate, String.ofList name, offset⟩ :: ·)
        else if isIdentifierStart c then
          let tail := rest.takeWhile isIdentifierPart
          (scanFrom (offset + 1 + tail.length) (rest.dropWhile isIdentifierPart)).map
            (⟨.identifier, String.ofList (c :: tail), offset⟩ :: ·)
        else .error ⟨.unexpectedChar c, offset⟩
termination_by cs.length
decreasing_by
  · simp
  · have := length_dropWhile_le (· != '\n') rest
    simp only [List.length_cons]; omega
  · simp
  · have := length_readQuoted _h
    simp only [List.length_cons]; omega
  · have := length_dropWhile_le isCapturePart rest
    simp only [List.length_cons]; omega
  · have := length_splitPredicate_le rest
    simp only [List.length_cons]; omega
  · have := length_dropWhile_le isIdentifierPart rest
    simp only [List.length_cons]; omega

def endToken (source : String) : Token := ⟨.eof, "", Text.length source⟩

/-- The tokens of a text, without the one for its end. -/
def scan (source : String) : Except SyntaxFault (List Token) := scanFrom 0 source.toList

/-- The tokens of a text; the last one marks its end. -/
def tokenize (source : String) : Except SyntaxFault (List Token) :=
  (scan source).map (· ++ [endToken source])

end RuleScan.Query
