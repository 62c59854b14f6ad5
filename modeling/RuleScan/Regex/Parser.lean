import RuleScan.Regex.Basic
import RuleScan.Text.Emoji
import RuleScan.Text.Identifier

/-! Reading regular expressions, from left to right; the first flaw met is the one reported. Outside
Unicode mode unfinished quantifiers, lone brackets and unknown escapes stand for themselves. -/

namespace RuleScan.Regex

def code (c : Char) : Nat := c.toNat

/-- What a look over the whole text finds before reading starts. -/
structure Survey where
  groups : Nat := 0
  hasNames : Bool := false

def skipClass : List Nat → List Nat
  | [] => []
  | c :: rest =>
    if c = code '\\' then
      match rest with
      | _ :: rest => skipClass rest
      | [] => []
    else if c = code ']' then rest
    else skipClass rest

theorem length_skipClass_le (cs : List Nat) : (skipClass cs).length ≤ cs.length := by
  fun_induction skipClass cs <;> grind

/-- Skips the rest of a class in set notation, which stands in `depth` others. -/
def skipNested (depth : Nat) : List Nat → List Nat
  | [] => []
  | c :: rest =>
    if c = code '\\' then
      match rest with
      | _ :: rest => skipNested depth rest
      | [] => []
    else if c = code '[' then skipNested (depth + 1) rest
    else if c = code ']' then
      match depth with
      | 0 => rest
      | outer + 1 => skipNested outer rest
    else skipNested depth rest

theorem length_skipNested_le (depth : Nat) (cs : List Nat) : (skipNested depth cs).length ≤ cs.length := by
  fun_induction skipNested depth cs <;> grind

/-- Counts capturing groups and looks for named ones, skipping escapes and classes. -/
def surveyFrom (sets : Bool) (s : Survey) : List Nat → Survey
  | [] => s
  | c :: rest =>
    if c = code '\\' then surveyFrom sets s (rest.drop 1)
    else if c = code '[' then surveyFrom sets s (if sets then skipNested 0 rest else skipClass rest)
    else if c = code '(' then
      if rest.head? = some (code '?') then
        let after := (rest.drop 1).drop 1
        if (rest.drop 1).head? = some (code '<') then
          if after.head? = some (code '=') || after.head? = some (code '!') then surveyFrom sets s after
          else surveyFrom sets { groups := s.groups + 1, hasNames := true } after
        else surveyFrom sets s (rest.drop 1)
      else surveyFrom sets { s with groups := s.groups + 1 } rest
    else surveyFrom sets s rest
termination_by cs => cs.length
decreasing_by all_goals grind [length_skipClass_le, length_skipNested_le]

/-- How the text is read. -/
structure Mode where
  flags : Flags
  survey : Survey

def Mode.unicode (mode : Mode) : Bool := mode.flags.codePoints

/-- Whether classes are in set notation. -/
def Mode.sets (mode : Mode) : Bool := mode.flags.unicodeSets

/-- The groups opened and the names given so far, and the names referred to. -/
structure Progress where
  groups : Nat := 0
  names : List (String × Nat) := []
  refs : List String := []

/-- What was read, and the text after it. -/
abbrev Rest (α : Type) := α × List Nat

def isDigitCode (c : Nat) : Bool := 48 ≤ c && c ≤ 57

def isOctalCode (c : Nat) : Bool := 48 ≤ c && c ≤ 55

def hexValue? (c : Nat) : Option Nat :=
  if 48 ≤ c && c ≤ 57 then some (c - 48)
  else if 97 ≤ c && c ≤ 102 then some (c - 87)
  else if 65 ≤ c && c ≤ 70 then some (c - 55)
  else none

/-- Reads exactly `n` hexadecimal digits. -/
def readHex : Nat → Nat → List Nat → Option (Nat × List Nat)
  | 0, value, rest => some (value, rest)
  | _ + 1, _, [] => none
  | n + 1, value, c :: rest =>
    match hexValue? c with
    | some d => readHex n (value * 16 + d) rest
    | none => none

/-- Reads hexadecimal digits up to a closing brace; the value stays below 0x110000. -/
def readBraced (value : Nat) (started : Bool) : List Nat → Option (Nat × List Nat)
  | [] => none
  | c :: rest =>
    if c = code '\x7d' then if started then some (value, rest) else none
    else
      match hexValue? c with
      | some d =>
        let v := value * 16 + d
        if 0x10FFFF < v then none else readBraced v true rest
      | none => none

def isHighCode (n : Nat) : Bool := 0xD800 ≤ n && n ≤ 0xDBFF

def isLowCode (n : Nat) : Bool := 0xDC00 ≤ n && n ≤ 0xDFFF

def joinCodes (hi lo : Nat) : Nat := 0x10000 + (hi - 0xD800) * 0x400 + (lo - 0xDC00)

/-- Reads what follows the letter of a Unicode escape; in Unicode mode two escapes may form a pair and
braces may be used. -/
def readUnicodeEscape (unicode : Bool) (rest : List Nat) : Option (Nat × List Nat) :=
  if unicode && rest.head? == some (code '\x7b') then readBraced 0 false (rest.drop 1)
  else
    match readHex 4 0 rest with
    | none => none
    | some (v, after) =>
      if unicode && isHighCode v then
        match after with
        | b :: u :: more =>
          if b = code '\\' && u = code 'u' then
            match readHex 4 0 more with
            | some (lo, done) => if isLowCode lo then some (joinCodes v lo, done) else some (v, after)
            | none => some (v, after)
          else some (v, after)
        | _ => some (v, after)
      else some (v, after)

/-- The next code point; outside Unicode mode a pair of units is joined. -/
def nextPoint? : List Nat → Option (Nat × List Nat)
  | [] => none
  | [c] => some (c, [])
  | c :: d :: rest =>
    if isHighCode c && isLowCode d then some (joinCodes c d, rest) else some (c, d :: rest)

/-- Reads a group name up to its closing angle bracket; `fuel` bounds its length. -/
def readName : Nat → List Char → List Nat → Except Flaw (Rest String)
  | 0, _, _ => .error .invalidGroupName
  | fuel + 1, acc, rest =>
    match nextPoint? rest with
    | none => .error .invalidGroupName
    | some (c, after) =>
      if c = code '>' && !acc.isEmpty then .ok (String.ofList acc.reverse, after)
      else if c = code '\\' then
        match after with
        | u :: more =>
          if u = code 'u' then
            match readUnicodeEscape true more with
            | none => .error .invalidUnicodeEscape
            | some (v, done) =>
              if if acc.isEmpty then Text.isIdStart v else Text.isIdPart v then
                readName fuel (Char.ofNat v :: acc) done
              else .error .invalidGroupName
          else .error .invalidGroupName
        | [] => .error .invalidGroupName
      else if if acc.isEmpty then Text.isIdStart c else Text.isIdPart c then
        readName fuel (Char.ofNat c :: acc) after
      else .error .invalidGroupName

/-- Reads one to three octal digits with a value below 256. -/
def readOctal : List Nat → Nat × List Nat
  | a :: b :: c :: rest =>
    let x := a - 48
    if isOctalCode b then
      let y := x * 8 + (b - 48)
      if y < 32 && isOctalCode c then (y * 8 + (c - 48), rest) else (y, c :: rest)
    else (x, b :: c :: rest)
  | [a, b] => if isOctalCode b then ((a - 48) * 8 + (b - 48), []) else (a - 48, [b])
  | [a] => (a - 48, [])
  | [] => (0, [])

/-- The characters that have a meaning of their own, and the slash. -/
def isSyntaxCode (c : Nat) : Bool := "^$\\.*+?()[]\x7b\x7d|/".toList.any fun s => s.toNat == c

/-- Reads the character that an escape stands for; `rest` starts after the backslash. -/
def readCharEscape (mode : Mode) (inClass : Bool) (rest : List Nat) : Except Flaw (Rest Nat) :=
  match rest with
  | [] => .error .escapeAtEnd
  | c :: after =>
    if c = code 'f' then .ok (12, after)
    else if c = code 'n' then .ok (10, after)
    else if c = code 'r' then .ok (13, after)
    else if c = code 't' then .ok (9, after)
    else if c = code 'v' then .ok (11, after)
    else if c = code 'c' then
      match after with
      | l :: more =>
        if (65 ≤ l && l ≤ 90) || (97 ≤ l && l ≤ 122) then .ok (l % 32, more)
        else if mode.unicode then .error .invalidUnicodeEscape
        else if inClass && (isDigitCode l || l = code '_') then .ok (l % 32, more)
        else .ok (code '\\', rest)
      | [] => if mode.unicode then .error .invalidUnicodeEscape else .ok (code '\\', rest)
    else if c = code '0' && !(after.head?.any isDigitCode) then .ok (0, after)
    else if isOctalCode c then
      if mode.unicode then .error .invalidClassEscape else .ok (readOctal rest)
    else if c = code 'x' then
      match readHex 2 0 after with
      | some r => .ok r
      | none => if mode.unicode then .error .invalidEscape else .ok (c, after)
    else if c = code 'u' then
      match readUnicodeEscape mode.unicode after with
      | some r => .ok r
      | none => if mode.unicode then .error .invalidUnicodeEscape else .ok (c, after)
    else if mode.unicode then if isSyntaxCode c then .ok (c, after) else .error .invalidEscape
    else if c = code 'k' && mode.survey.hasNames then .error .invalidEscape
    else .ok (c, after)

def classEscape? (c : Nat) : Option ClassItem :=
  if c = code 'd' then some (.digit false)
  else if c = code 'D' then some (.digit true)
  else if c = code 'w' then some (.word false)
  else if c = code 'W' then some (.word true)
  else if c = code 's' then some (.blank false)
  else if c = code 'S' then some (.blank true)
  else none

/-- The characters that the names of properties are made of. -/
def isPropertyCode (c : Nat) : Bool :=
  (48 ≤ c && c ≤ 57) || (65 ≤ c && c ≤ 90) || c = code '_' || (97 ≤ c && c ≤ 122)

def textOf (codes : List Nat) : String := String.ofList (codes.map Char.ofNat)

/-- Reads the braces after the letter of a property escape: a name, or a name and a value. -/
def readPropertyName? (rest : List Nat) : Option ((String × Option String) × List Nat) :=
  match rest with
  | b :: tail =>
    if b = code '\x7b' then
      let name := textOf (tail.takeWhile isPropertyCode)
      match tail.dropWhile isPropertyCode with
      | e :: after =>
        if e = code '\x7d' then some ((name, none), after)
        else if e = code '=' then
          match after.dropWhile isPropertyCode with
          | d :: done =>
            if d = code '\x7d' then some ((name, some (textOf (after.takeWhile isPropertyCode))), done) else none
          | [] => none
        else none
      | [] => none
    else none
  | [] => none

/-- Reads a property escape after its letter. A property of strings exists in set notation only, and has no
complement. -/
def readProperty? (mode : Mode) (negated : Bool) (rest : List Nat) : Option (Text.StringSet × List Nat) :=
  match readPropertyName? rest with
  | none => none
  | some ((name, value), done) =>
    match Text.property? name value with
    | some ranges => some (⟨ranges, []⟩, done)
    | none =>
      if mode.sets && !negated && value.isNone then (Text.stringProperties.lookup name).map fun s => (s, done)
      else none

def escapeTerm (mode : Mode) (i : ClassItem) : Regex := if mode.sets then .member (.item i) else .set false [i]

/-- A class escape or a single character. -/
inductive ClassAtom where
  | item (i : ClassItem)
  | char (c : Nat)

def ClassAtom.toItem : ClassAtom → ClassItem
  | .item i => i
  | .char c => .range c c

def readClassAtom (mode : Mode) : List Nat → Except Flaw (Rest ClassAtom)
  | [] => .error .unterminatedClass
  | c :: rest =>
    if c = code '\\' then
      match rest with
      | [] => .error .escapeAtEnd
      | e :: after =>
        if e = code 'b' then .ok (.char 8, after)
        else if e = code '-' && mode.unicode then .ok (.char e, after)
        else if mode.unicode && (e = code 'p' || e = code 'P') then
          match readProperty? mode (e = code 'P') after with
          | some (s, done) => .ok (.item (.within (e = code 'P') s.ranges), done)
          | none => .error .invalidClassPropertyName
        else
          match classEscape? e with
          | some i => .ok (.item i, after)
          | none => (readCharEscape mode true rest).map fun (v, r) => (.char v, r)
    else .ok (.char c, rest)

/-- Reads the members of a class up to its closing bracket, onto those read in reverse. -/
def readClass (mode : Mode) : Nat → List ClassItem → List Nat → Except Flaw (Rest (List ClassItem))
  | 0, _, _ => .error .unterminatedClass
  | fuel + 1, acc, rest =>
    match rest with
    | [] => .error .unterminatedClass
    | c :: tail =>
      if c = code ']' then .ok (acc.reverse, tail)
      else do
        let (first, after) ← readClassAtom mode rest
        match after with
        | d :: next =>
          if d != code '-' then readClass mode fuel (first.toItem :: acc) after
          else if next.isEmpty then .error .unterminatedClass
          else if next.head? = some (code ']') then
            .ok ((.range 45 45 :: first.toItem :: acc).reverse, next.drop 1)
          else
            let (second, done) ← readClassAtom mode next
            match first, second with
            | .char lo, .char hi =>
              if hi < lo then .error .rangeOutOfOrder else readClass mode fuel (.range lo hi :: acc) done
            | _, _ =>
              if mode.unicode then .error .invalidClass
              else readClass mode fuel (second.toItem :: .range 45 45 :: first.toItem :: acc) done
        | [] => .error .unterminatedClass

/-- The characters that stand for themselves in a class in set notation only after a backslash. -/
def isSetSyntaxCode (c : Nat) : Bool := "()[]\x7b\x7d/-\\|".toList.any fun s => s.toNat == c

/-- The characters that may not be doubled in a class in set notation. -/
def isDoubledCode (c : Nat) : Bool := "&!#$%*+,.:;<=>?@^`~".toList.any fun s => s.toNat == c

/-- The other characters that may stand after a backslash in a class in set notation. -/
def isReservedCode (c : Nat) : Bool := "&-!#%,:;<=>@`~".toList.any fun s => s.toNat == c

def readSetChar (mode : Mode) : List Nat → Except Flaw (Rest Nat)
  | [] => .error .unterminatedClass
  | c :: tail =>
    if c = code '\\' then
      match tail with
      | [] => .error .escapeAtEnd
      | e :: after =>
        if e = code 'b' then .ok (8, after)
        else if isReservedCode e then .ok (e, after)
        else readCharEscape mode true tail
    else if isSetSyntaxCode c then .error .invalidClassCharacter
    else if isDoubledCode c && tail.head? = some c then .error .invalidSetOperation
    else .ok (c, tail)

/-- Reads the strings of a class up to a closing brace, onto those read and the characters of the one that is being
read, both in reverse. -/
def readSetStrings (mode : Mode) :
    Nat → List (List Nat) → List Nat → List Nat → Except Flaw (Rest (List (List Nat)))
  | 0, _, _, _ => .error .unterminatedClass
  | fuel + 1, read, current, rest =>
    match rest with
    | [] => .error .unterminatedClass
    | c :: tail =>
      if c = code '\x7d' then .ok ((current.reverse :: read).reverse, tail)
      else if c = code '|' then readSetStrings mode fuel (current.reverse :: read) [] tail
      else do
        let (v, done) ← readSetChar mode rest
        readSetStrings mode fuel read (v :: current) done

/-- An operand of a class in set notation. A character may begin a range. -/
inductive SetOperand where
  | char (c : Nat)
  | set (s : ClassSet)

def SetOperand.toSet : SetOperand → ClassSet
  | .char c => .char c
  | .set s => s

mutual

def readSetOperand (mode : Mode) : Nat → List Nat → Except Flaw (Rest SetOperand)
  | 0, _ => .error .unterminatedClass
  | _ + 1, [] => .error .unterminatedClass
  | fuel + 1, c :: tail =>
    if c = code '[' then (readSetClass mode fuel tail).map fun (s, done) => (.set s, done)
    else if c = code '\\' then
      match tail with
      | [] => .error .escapeAtEnd
      | e :: after =>
        if e = code 'q' then
          match after with
          | b :: body =>
            if b = code '\x7b' then
              (readSetStrings mode (body.length + 1) [] [] body).map fun (read, done) => (.set (.strings read), done)
            else .error .invalidEscape
          | [] => .error .invalidEscape
        else if e = code 'p' || e = code 'P' then
          match readProperty? mode (e = code 'P') after with
          | some (s, done) => .ok (.set (.ofProperty (e = code 'P') s), done)
          | none => .error .invalidClassPropertyName
        else
          match classEscape? e with
          | some i => .ok (.set (.item i), after)
          | none => (readSetChar mode (c :: tail)).map fun (v, done) => (.char v, done)
    else (readSetChar mode (c :: tail)).map fun (v, done) => (.char v, done)

/-- Reads a class in set notation after its opening bracket. -/
def readSetClass (mode : Mode) : Nat → List Nat → Except Flaw (Rest ClassSet)
  | 0, _ => .error .unterminatedClass
  | fuel + 1, rest => do
    let negated := rest.head? = some (code '^')
    let (body, done) ← readSetBody mode fuel negated (if negated then rest.drop 1 else rest)
    if !negated then .ok (body, done)
    else if body.mayHoldStrings then .error .negatedStrings
    else .ok (.compl body, done)

/-- Reads what a class in set notation holds, up to its closing bracket. The first operand is followed by others, or by
operations of one kind. -/
def readSetBody (mode : Mode) : Nat → Bool → List Nat → Except Flaw (Rest ClassSet)
  | 0, _, _ => .error .unterminatedClass
  | fuel + 1, negated, rest =>
    if rest.head? = some (code ']') then .ok (.empty, rest.drop 1)
    else do
      let (first, after) ← readSetOperand mode fuel rest
      match after with
      | a :: b :: _ =>
        if a = b && (a = code '-' || a = code '&') then
          -- What is left of strings after a difference counts as strings whatever is taken away.
          if a = code '-' && negated && first.toSet.mayHoldStrings then .error .negatedStrings
          else readSetOperations mode fuel a first.toSet after
        else readSetUnion mode fuel .empty (some first) after
      | _ => readSetUnion mode fuel .empty (some first) after

/-- Reads further operands onto those read. The last one is held back, as it may begin a range. -/
def readSetUnion (mode : Mode) :
    Nat → ClassSet → Option SetOperand → List Nat → Except Flaw (Rest ClassSet)
  | 0, _, _, _ => .error .unterminatedClass
  | _ + 1, _, _, [] => .error .unterminatedClass
  | fuel + 1, read, last, c :: tail =>
    let all := (last.map fun operand => ClassSet.union read operand.toSet).getD read
    if c = code ']' then .ok (all, tail)
    else if c = code '-' then
      if tail.head? = some (code '-') then .error .invalidSetOperation
      else if tail.isEmpty then .error .unterminatedClass
      else
        match last with
        | some (.char low) => do
          let (second, done) ← readSetOperand mode fuel tail
          match second with
          | .char high =>
            if high < low then .error .rangeOutOfOrder
            else readSetUnion mode fuel (.union read (.item (.range low high))) none done
          | .set _ => .error .invalidClass
        | _ => .error .invalidClass
    else do
      let (next, done) ← readSetOperand mode fuel (c :: tail)
      readSetUnion mode fuel all (some next) done

/-- Reads further operations of one kind, written as a sign twice. -/
def readSetOperations (mode : Mode) : Nat → Nat → ClassSet → List Nat → Except Flaw (Rest ClassSet)
  | 0, _, _, _ => .error .unterminatedClass
  | _ + 1, _, _, [] => .error .unterminatedClass
  | fuel + 1, sign, read, c :: tail =>
    if c = code ']' then .ok (read, tail)
    else if c = sign && tail.head? = some sign then
      if sign = code '&' && (tail.drop 1).head? = some sign then .error .invalidClassCharacter
      else do
        let (operand, done) ← readSetOperand mode fuel (tail.drop 1)
        let all := if sign = code '&' then ClassSet.inter read operand.toSet else .diff read operand.toSet
        readSetOperations mode fuel sign all done
    else .error .invalidSetOperation

end

def digitsOf (cs : List Nat) : Nat := cs.foldl (fun n c => n * 10 + (c - 48)) 0

/-- Reads a count in braces; `rest` starts after the opening brace. -/
def readInterval? (rest : List Nat) : Option ((Nat × Option Nat) × List Nat) :=
  let ds := rest.takeWhile isDigitCode
  let low := digitsOf ds
  if ds.isEmpty then none
  else
    match rest.dropWhile isDigitCode with
    | c :: after =>
      if c = code '\x7d' then some ((low, some low), after)
      else if c = code ',' then
        let es := after.takeWhile isDigitCode
        match after.dropWhile isDigitCode with
        | d :: done =>
          if d = code '\x7d' then some ((low, if es.isEmpty then none else some (digitsOf es)), done) else none
        | [] => none
      else none
    | [] => none

/-- The kinds of terms that differ in what may follow them. -/
inductive TermKind where
  | plain
  | ahead
  | behind
  deriving DecidableEq

/-- Reads the quantifier after a term, if there is one. -/
def quantify (mode : Mode) (kind : TermKind) (low high : Nat) (term : Regex) (rest : List Nat) :
    Except Flaw (Rest Regex) :=
  let finish (min : Nat) (max : Option Nat) (after : List Nat) : Except Flaw (Rest Regex) :=
    let (greedy, done) := if after.head? = some (code '?') then (false, after.drop 1) else (true, after)
    if kind = .behind || (kind = .ahead && mode.unicode) then .error .invalidQuantifier
    else .ok (.repeated min max greedy low high term, done)
  match rest with
  | [] => .ok (term, [])
  | c :: after =>
    if c = code '*' then finish 0 none after
    else if c = code '+' then finish 1 none after
    else if c = code '?' then finish 0 (some 1) after
    else if c = code '\x7b' then
      match readInterval? after with
      | some ((min, max), done) =>
        if max.any (· < min) then .error .countsOutOfOrder else finish min max done
      | none => if mode.unicode then .error .incompleteQuantifier else .ok (term, rest)
    else .ok (term, rest)

/-- Reads the digits of a back reference, if there are that many groups. -/
def readBackref? (mode : Mode) (rest : List Nat) : Option (Nat × List Nat) :=
  let n := digitsOf (rest.takeWhile isDigitCode)
  if n ≤ 65535 && n ≤ mode.survey.groups then some (n, rest.dropWhile isDigitCode) else none

/-- Reads the term of an escape; `rest` starts after the backslash. -/
def readEscape (mode : Mode) (st : Progress) (rest : List Nat) : Except Flaw (Rest (Regex × Progress)) :=
  let asChar : Except Flaw (Rest (Regex × Progress)) :=
    (readCharEscape mode false rest).map fun (v, r) => ((.char v, st), r)
  match rest with
  | [] => .error .escapeAtEnd
  | c :: after =>
    if 49 ≤ c && c ≤ 57 then
      match readBackref? mode rest with
      | some (n, done) => .ok ((.backref n, st), done)
      | none =>
        if mode.unicode then .error .invalidEscape
        else if c = code '8' || c = code '9' then .ok ((.char c, st), after)
        else
          let (v, done) := readOctal rest
          .ok ((.char v, st), done)
    else if c = code '0' then
      if mode.unicode && after.head?.any isDigitCode then .error .invalidDecimalEscape
      else
        let (v, done) := readOctal rest
        .ok ((.char v, st), done)
    else if mode.unicode && (c = code 'p' || c = code 'P') then
      match readProperty? mode (c = code 'P') after with
      | some (s, done) =>
        .ok ((if mode.sets then (ClassSet.ofProperty (c = code 'P') s).toRegex mode.flags
          else .set false [.within (c = code 'P') s.ranges], st), done)
      | none => .error .invalidPropertyName
    else if c = code 'k' && (mode.unicode || mode.survey.hasNames) then
      match after with
      | l :: more =>
        if l = code '<' then do
          let (name, done) ← readName (more.length + 1) [] more
          .ok ((.namedRef name, { st with refs := name :: st.refs }), done)
        else .error .invalidNamedReference
      | [] => .error .invalidNamedReference
    else
      match classEscape? c with
      | some i => .ok ((escapeTerm mode i, st), after)
      | none => asChar

/-- What an opening parenthesis starts. -/
inductive Opening where
  | plain
  | look (behind negated : Bool)
  | capture (name : Option String)

def readOpening (rest : List Nat) : Except Flaw (Rest Opening) :=
  match rest with
  | q :: k :: after =>
    if q != code '?' then .ok (.capture none, rest)
    else if k = code ':' then .ok (.plain, after)
    else if k = code '=' then .ok (.look false false, after)
    else if k = code '!' then .ok (.look false true, after)
    else if k = code '<' then
      match after with
      | c :: more =>
        if c = code '=' then .ok (.look true false, more)
        else if c = code '!' then .ok (.look true true, more)
        else (readName (after.length + 1) [] after).map fun (name, done) => (.capture (some name), done)
      | [] => .error .invalidGroupName
    else .error .invalidGroup
  | [q] => if q = code '?' then .error .invalidGroup else .ok (.capture none, rest)
  | [] => .ok (.capture none, rest)

/-- Joins terms kept in reverse. -/
def seqOf (terms : List Regex) : Regex :=
  match terms with
  | [] => .empty
  | last :: before => before.foldl (fun acc t => .seq t acc) last

/-- Whether a quantifier may not follow, because the term is an assertion of one character. -/
def assertion? (rest : List Nat) : Option (Regex × List Nat) :=
  match rest with
  | c :: tail =>
    if c = code '^' then some (.lineStart, tail)
    else if c = code '$' then some (.lineEnd, tail)
    else if c = code '\\' then
      match tail with
      | e :: after =>
        if e = code 'b' then some (.wordEdge false, after)
        else if e = code 'B' then some (.wordEdge true, after)
        else none
      | [] => none
    else none
  | [] => none

/-- Reads a term that is neither a group nor an assertion. -/
def readAtom (mode : Mode) (st : Progress) (c : Nat) (tail : List Nat) : Except Flaw (Rest (Regex × Progress)) :=
  if c = code '*' || c = code '+' || c = code '?' then .error .nothingToRepeat
  else if c = code '.' then .ok ((.any, st), tail)
  else if c = code '[' && mode.sets then
    (readSetClass mode (3 * tail.length + 3) tail).map fun (s, r) => ((s.toRegex mode.flags, st), r)
  else if c = code '[' then
    let (negated, body) := if tail.head? = some (code '^') then (true, tail.drop 1) else (false, tail)
    (readClass mode (body.length + 1) [] body).map fun (items, r) => ((.set negated items, st), r)
  else if c = code '\\' then readEscape mode st tail
  else if c = code '\x7b' && (readInterval? tail).isSome then .error .nothingToRepeat
  else if mode.unicode && (c = code '\x7b' || c = code '\x7d' || c = code ']') then .error .loneBracket
  else .ok ((.char c, st), tail)

def closeGroup (opening : Opening) (index : Nat) (st : Progress) (body : Regex) :
    Except Flaw (Regex × TermKind × Progress) :=
  match opening with
  | .plain => .ok (body, .plain, st)
  | .look behind negated => .ok (.look behind negated body, if behind then .behind else .ahead, st)
  | .capture none => .ok (.group index body, .plain, st)
  | .capture (some name) =>
    if st.names.any (·.1 == name) then .error .duplicateGroupName
    else .ok (.group index body, .plain, { st with names := (name, index) :: st.names })

/-- Reads alternatives up to the end of the text, or of the group when `inside` one; `acc` holds the
terms of the current alternative in reverse. -/
def readAlternatives (mode : Mode) (inside : Bool) :
    Nat → Progress → List Regex → List Nat → Except Flaw (Rest (Regex × Progress))
  | 0, _, _, _ => .error .unterminatedGroup
  | fuel + 1, st, acc, rest =>
    match rest with
    | [] => if inside then .error .unterminatedGroup else .ok ((seqOf acc, st), [])
    | c :: tail =>
      if c = code ')' then if inside then .ok ((seqOf acc, st), tail) else .error .unmatchedParen
      else if c = code '|' then do
        let ((right, st), done) ← readAlternatives mode inside fuel st [] tail
        .ok ((.alt (seqOf acc) right, st), done)
      else if c = code '(' then do
        let (opening, body) ← readOpening tail
        let index := st.groups + 1
        let opened :=
          match opening with
          | .capture _ => { st with groups := index }
          | _ => st
        let ((inner, closed), after) ← readAlternatives mode true fuel opened [] body
        let (term, kind, closed) ← closeGroup opening index closed inner
        let (term, done) ← quantify mode kind st.groups closed.groups term after
        readAlternatives mode inside fuel closed (term :: acc) done
      else
        match assertion? rest with
        | some (term, after) => readAlternatives mode inside fuel st (term :: acc) after
        | none => do
          let ((term, st), after) ← readAtom mode st c tail
          let (term, done) ← quantify mode .plain st.groups st.groups term after
          readAlternatives mode inside fuel st (term :: acc) done

/-- The characters of a source text: code points in Unicode mode, code units otherwise. -/
def sourceCodes (unicode : Bool) (source : String) : List Nat :=
  if unicode then source.toList.map (·.toNat) else (Units.ofString source).toList.map (·.toNat)

/-- Reads a whole expression. Every name referred to must be the name of a group. -/
def parse (flags : Flags) (source : String) : Except Flaw Program := do
  let codes := sourceCodes flags.codePoints source
  let mode : Mode := ⟨flags, surveyFrom flags.unicodeSets {} codes⟩
  let ((body, st), _) ← readAlternatives mode false (codes.length + 1) {} [] codes
  if st.refs.all fun name => st.names.any (·.1 == name) then
    .ok ⟨body, flags, st.groups, st.names.mergeSort fun a b => a.2 ≤ b.2⟩
  else .error .unknownGroupName

def compile (source : String) (flagWord : String) : Except CompileError Program :=
  match Flags.parse? flagWord with
  | none => .error (.badFlags flagWord)
  | some flags =>
    match parse flags source with
    | .ok p => .ok p
    | .error flaw => .error (.badPattern source flags flaw)

end RuleScan.Regex
