import RuleScan.Glob.CharSet
import RuleScan.Regex.Matcher

/-! Patterns for one segment of a path: `*` and `?`, sets, and groups such as `@(a|b)`. -/

namespace RuleScan.Glob

/-- How often the alternatives of a group may occur. -/
inductive GroupKind where
  | exactlyOne
  | atMostOne
  | oneOrMore
  | zeroOrMore
  /-- Anything but the alternatives. -/
  | noneOf
  deriving DecidableEq

namespace GroupKind

def mark : GroupKind → Char
  | .exactlyOne => '@'
  | .atMostOne => '?'
  | .oneOrMore => '+'
  | .zeroOrMore => '*'
  | .noneOf => '!'

def ofMark? (c : Char) : Option GroupKind :=
  [GroupKind.exactlyOne, .atMostOne, .oneOrMore, .zeroOrMore, .noneOf].find? (·.mark = c)

end GroupKind

inductive Part where
  | text (cs : List Char)
  /-- A group; it is open-ended if no text stands before its closing parenthesis. -/
  | group (kind : GroupKind) (openEnded : Bool) (alternatives : List (List Part))
  deriving Inhabited

namespace Part

/-- Where a reader stands with respect to brackets. -/
inductive Bracket where
  | outside
  /-- Just behind the opening bracket. -/
  | opened
  /-- Just behind the sign of negation. -/
  | negated
  | inside
  deriving DecidableEq

/-- Reads one more character; a bracket that comes first in a set does not close it. -/
def Bracket.next (b : Bracket) (c : Char) : Bracket :=
  match b with
  | .outside => if c = '[' then .opened else .outside
  | .opened => if c = '^' || c = '!' then .negated else .inside
  | .negated => .inside
  | .inside => if c = ']' then .outside else .inside

/-- An escape, after which no sign of negation is looked for. -/
def Bracket.skip : Bracket → Bracket
  | .outside => .outside
  | _ => .inside

/-- Parts with some text behind them; an empty one is not kept. -/
def push (parts : List Part) (acc : List Char) : List Part :=
  if acc.isEmpty then parts else parts ++ [.text acc.reverse]

/-- Reads the alternatives of a group up to its closing parenthesis. The result is the alternatives,
whether the last one ends without text, and the rest. -/
def readGroup : Nat → List Char → Bool → Bracket → List Char → List Part → List (List Part) →
    Option (List (List Part) × Bool × List Char)
  | 0, _, _, _, _, _, _ => none
  | _, [], _, _, _, _, _ => none
  | fuel + 1, c :: rest, escaped, bracket, acc, parts, alternatives =>
    if escaped || c = '\\' then readGroup fuel rest (!escaped) bracket.skip (c :: acc) parts alternatives
    else if bracket ≠ .outside || c = '[' then
      readGroup fuel rest false (bracket.next c) (c :: acc) parts alternatives
    else
      match GroupKind.ofMark? c, rest with
      | some kind, '(' :: inner =>
        match readGroup fuel inner false .outside [] [] [] with
        | none => none
        | some (inners, openEnded, rest) =>
          readGroup fuel rest false .outside [] (push parts acc ++ [.group kind openEnded inners]) alternatives
      | _, _ =>
        if c = '|' then readGroup fuel rest false .outside [] [] (alternatives ++ [push parts acc])
        else if c = ')' then some (alternatives ++ [push parts acc], acc.isEmpty, rest)
        else readGroup fuel rest false .outside (c :: acc) parts alternatives

/-- Reads a segment. A group that is not closed is text to the end. -/
def readAll : Nat → List Char → Bool → Bracket → List Char → List Part → List Part
  | 0, _, _, _, acc, parts => push parts acc
  | _, [], _, _, acc, parts => push parts acc
  | fuel + 1, c :: rest, escaped, bracket, acc, parts =>
    if escaped || c = '\\' then readAll fuel rest (!escaped) bracket.skip (c :: acc) parts
    else if bracket ≠ .outside || c = '[' then readAll fuel rest false (bracket.next c) (c :: acc) parts
    else
      match GroupKind.ofMark? c, rest with
      | some kind, '(' :: inner =>
        match readGroup fuel inner false .outside [] [] [] with
        | none => push parts acc ++ [.text (c :: rest)]
        | some (inners, openEnded, rest) =>
          readAll fuel rest false .outside [] (push parts acc ++ [.group kind openEnded inners])
      | _, _ => readAll fuel rest false .outside (c :: acc) parts

def read (s : String) : List Part := readAll (s.length + 1) s.toList false .outside [] []

mutual

def source : Part → List Char
  | .text cs => cs
  | .group kind _ alternatives => kind.mark :: '(' :: sourceOfAlternatives alternatives ++ [')']

def sourceOfParts : List Part → List Char
  | [] => []
  | p :: rest => source p ++ sourceOfParts rest

def sourceOfAlternatives : List (List Part) → List Char
  | [] => []
  | [parts] => sourceOfParts parts
  | parts :: rest => sourceOfParts parts ++ '|' :: sourceOfAlternatives rest

end

/-- A part as it stands behind an alternative that must not match. -/
def asTail : Part → Part
  | .group kind _ alternatives => .group kind false alternatives
  | p => p

mutual

/-- Puts behind each alternative that must not match all that follows its group; `tail` is what follows
the part. -/
def withTails (tail : List Part) : Part → Part
  | .text cs => .text cs
  | .group kind openEnded alternatives => .group kind openEnded (alternativesWithTails (kind = .noneOf) tail alternatives)

def partsWithTails (tail : List Part) : List Part → List Part
  | [] => []
  | p :: rest =>
    let rest := partsWithTails tail rest
    withTails (rest ++ tail) p :: rest

def alternativesWithTails (refused : Bool) (tail : List Part) : List (List Part) → List (List Part)
  | [] => []
  | parts :: rest =>
    (partsWithTails tail parts ++ if refused then tail.map asTail else []) :: alternativesWithTails refused tail rest

end

end Part

/-- A piece of text in a pattern. -/
inductive Element where
  | literal (c : Char)
  | anyOne
  | anyRun
  | set (s : CharSet)
  /-- What no name matches. -/
  | nothing

namespace Element

/-- Reads text; a bracket without a partner stands for itself. -/
def readAll : Nat → List Char → List Element
  | 0, _ => []
  | _, [] => []
  | _, ['\\'] => [.literal '\\']
  | fuel + 1, '\\' :: c :: rest => .literal c :: readAll fuel rest
  | fuel + 1, '[' :: rest =>
    match CharSet.read rest with
    | .unclosed => .literal '[' :: readAll fuel rest
    | .hopeless => [.nothing]
    | .set s rest => .set s :: readAll fuel rest
  | fuel + 1, '*' :: rest => .anyRun :: readAll fuel rest
  | fuel + 1, '?' :: rest => .anyOne :: readAll fuel rest
  | fuel + 1, c :: rest => .literal c :: readAll fuel rest

def read (cs : List Char) : List Element := readAll (cs.length + 1) cs

/-- Whether characters are code points where this element stands. -/
def isUnicode : Element → Bool
  | .set s => s.unicode && s.single?.isNone
  | _ => false

/-- Whether the element can stand for a dot without being one. -/
def isWild : Element → Bool
  | .anyOne | .anyRun => true
  | .set s => s.single?.isNone && (s.inverted.isEmpty || s.entries.isEmpty)
  | _ => false

def isDot : Element → Bool
  | .literal c => c = '.'
  | .set s => s.single? = some 46
  | _ => false

end Element

namespace Part

/-- Any character; a segment holds no slash. -/
def anyChar : Regex := .set true []

def anyRun (min : Nat) : Regex := .repeated min none false 0 0 anyChar

def literal (unicode : Bool) (c : Char) : Regex :=
  if unicode then .char c.toNat
  else (Units.ofScalar c.toNat).foldr (fun u r => .seq (.char u.toNat) r) .empty

def elementRegex (unicode : Bool) : Element → Regex
  | .literal c => literal unicode c
  | .anyOne => anyChar
  | .anyRun => anyRun 0
  | .set s => (s.single?.map Regex.char).getD s.toRegex
  | .nothing => .set false []

/-- The expression of some text. A star that is a whole segment matches no empty name. -/
def textRegex (unicode whole : Bool) (cs : List Char) : Regex :=
  if whole && cs = ['*'] then anyRun 1
  else (Element.read cs).foldr (fun e r => .seq (elementRegex unicode e) r) .empty

/-- Refuses the names `.` and `..`. -/
def noDots : Regex :=
  .look false true (.seq .lineStart (.seq (.char 46) (.seq (.repeated 0 (some 1) true 0 0 (.char 46)) .lineEnd)))

/-- Whether a pattern that starts with this text could match `.` or `..` without saying so. -/
def mayBeDots (es : List Element) : Bool :=
  match es with
  | a :: rest =>
    a.isWild || (a.isDot &&
      match rest with
      | b :: rest => b.isWild || (b.isDot && rest.head?.any Element.isWild)
      | [] => false)
  | [] => false

def guard : List Part → Regex
  | .text cs :: .text ds :: _ => if mayBeDots (Element.read (cs ++ ds)) then noDots else .empty
  | .text cs :: _ => if mayBeDots (Element.read cs) then noDots else .empty
  | _ => .empty

def choice : List Regex → Regex
  | [] => .empty
  | [r] => r
  | r :: rest => .alt r (choice rest)

/-- The expression of a group around those of its alternatives. -/
def groupBody (kind : GroupKind) (body : Regex) : Regex :=
  match kind with
  | .exactlyOne => body
  | .atMostOne => .repeated 0 (some 1) true 0 0 body
  | .oneOrMore => .repeated 1 none true 0 0 body
  | .zeroOrMore => .repeated 0 none true 0 0 body
  | .noneOf => .seq (.look false true body) (anyRun 0)

mutual

/-- The expression of a part. `first` and `last` say whether the segment starts and ends with it, `whole`
whether the parts around it make up the segment. -/
def regex (unicode whole first last : Bool) : Part → Regex
  | .text cs => textRegex unicode whole cs
  | .group kind openEnded alternatives =>
    if kind = .noneOf && openEnded then anyRun 1
    else
      let entire := first && last && kind ≠ .noneOf
      if entire && alternatives.all List.isEmpty then
        (kind.mark :: '(' :: (List.replicate (alternatives.length - 1) '|' ++ [')'])).foldr
          (fun c r => .seq (literal unicode c) r) .empty
      else
        let last := last || kind = .noneOf
        groupBody kind (choice (alternativesRegex unicode entire (kind = .noneOf) first last alternatives))

def partsRegex (unicode whole first last : Bool) : List Part → Regex
  | [] => .empty
  | p :: rest =>
    let negation :=
      match p with
      | .group .noneOf _ _ => true
      | _ => false
    .seq (regex unicode whole first (last && rest.isEmpty) p)
      (partsRegex unicode whole (first && negation) last rest)

/-- The expressions of alternatives; those that are empty are left out if the group is the segment, and
those that must not match reach to the end. -/
def alternativesRegex (unicode entire refused first last : Bool) : List (List Part) → List Regex
  | [] => []
  | parts :: rest =>
    let others := alternativesRegex unicode entire refused first last rest
    if entire && parts.isEmpty then others
    else
      .seq (if first then guard parts else .empty)
        (.seq (partsRegex unicode (first && last) first last parts) (if refused then .lineEnd else .empty)) :: others

end

mutual

def isUnicode : Part → Bool
  | .text cs => (Element.read cs).any Element.isUnicode
  | .group _ _ alternatives => anyAlternativeUnicode alternatives

def anyUnicode : List Part → Bool
  | [] => false
  | p :: rest => isUnicode p || anyUnicode rest

def anyAlternativeUnicode : List (List Part) → Bool
  | [] => false
  | parts :: rest => anyUnicode parts || anyAlternativeUnicode rest

end

/-- The expression that a whole segment has to match. -/
def program (parts : List Part) : Regex.Program :=
  let unicode := anyUnicode parts
  let parts := partsWithTails [] parts
  { body := .seq (guard parts) (.seq (partsRegex unicode true true true parts) .lineEnd)
    flags := { unicode }, groups := 0, names := [] }

end Part

/-- A pattern for one segment, or for any number of them. -/
inductive Segment where
  /-- Any number of segments. -/
  | anyDepth
  | anyName
  /-- Names that end in a text, taken as it stands. -/
  | ending (suffix : String)
  /-- Names of a length that end in a text. -/
  | sized (length : Nat) (suffix : String)
  /-- Names with a dot in them. -/
  | dotted
  /-- Names that start with a dot. -/
  | hidden
  | pattern (p : Regex.Program)

namespace Segment

/-- Whether a text can follow stars or question marks as it stands. -/
def isPlain (cs : List Char) : Bool := !cs.any fun c => ['+', '@', '!', '?', '*', '[', '('].contains c

def isStar (c : Char) : Bool := c = '*'

def ofText (s : String) : Segment :=
  let cs := s.toList
  let behindStars := cs.dropWhile isStar
  let behindMarks := cs.dropWhile (· = '?')
  if s = "**" then .anyDepth
  else if !cs.isEmpty && behindStars.isEmpty then .anyName
  else if cs.head? = some '*' && isPlain behindStars then .ending (String.ofList behindStars)
  else if cs.head? = some '?' && isPlain behindMarks then .sized (Text.length s) (String.ofList behindMarks)
  else if cs.head? = some '*' && behindStars.head? = some '.' && 1 < behindStars.length &&
      (behindStars.drop 1).all isStar then .dotted
  else if cs.head? = some '.' && 1 < cs.length && (cs.drop 1).all isStar then .hidden
  else .pattern (Part.program (Part.read s))

def isDots (name : String) : Bool := name = "." || name = ".."

def accepts (name : String) : Segment → Bool
  | .anyDepth => !isDots name
  | .anyName => name ≠ "" && !isDots name
  | .ending suffix => name.endsWith suffix
  | .sized length suffix => Text.length name = length && !isDots name && name.endsWith suffix
  | .dotted => !isDots name && name.toList.contains '.'
  | .hidden => !isDots name && name.startsWith "."
  | .pattern p => (p.matchAt? (Units.ofString name) 0).isSome

end Segment

end RuleScan.Glob
