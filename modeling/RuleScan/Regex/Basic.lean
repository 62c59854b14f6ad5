import RuleScan.Text.CaseMapping
import RuleScan.Text.Emoji
import RuleScan.Text.Units

/-! Regular expressions: their form, their flags and the flaws that keep a text from being one. -/

namespace RuleScan

inductive ClassItem where
  | range (lo hi : Nat)
  | digit (negated : Bool)
  | word (negated : Bool)
  | blank (negated : Bool)
  /-- A property, by the characters that have it. -/
  | within (negated : Bool) (ranges : Text.Ranges)
  deriving DecidableEq

/-- A class in set notation. It may hold strings of other lengths than one. -/
inductive ClassSet where
  | item (i : ClassItem)
  | strings (alternatives : List (List Nat))
  | union (first second : ClassSet)
  | inter (first second : ClassSet)
  | diff (first second : ClassSet)
  | compl (body : ClassSet)
  deriving DecidableEq

namespace ClassSet

def empty : ClassSet := .strings []

def char (c : Nat) : ClassSet := .item (.range c c)

/-- Whether the class is not written as one of single characters. -/
def mayHoldStrings : ClassSet → Bool
  | .item _ => false
  | .strings alternatives => alternatives.any fun s => s.length != 1
  | .union first second => first.mayHoldStrings || second.mayHoldStrings
  | .inter first second => first.mayHoldStrings && second.mayHoldStrings
  | .diff first _ => first.mayHoldStrings
  | .compl _ => false

/-- The strings in a class that are not single characters, in the form in which they are compared. -/
def longer (fold : Nat → Nat) : ClassSet → List (List Nat)
  | .item _ => []
  | .strings alternatives => (alternatives.filter fun s => s.length != 1).map (·.map fold)
  | .union first second => first.longer fold ++ second.longer fold
  | .inter first second => (first.longer fold).filter (second.longer fold).contains
  | .diff first second => (first.longer fold).removeAll (second.longer fold)
  | .compl _ => []

end ClassSet

/-- The form of a regular expression. Characters are code points, or code units when the expression
is not in Unicode mode. -/
inductive Regex where
  | empty
  | char (code : Nat)
  | any
  | set (negated : Bool) (items : List ClassItem)
  /-- One character of a class in set notation. -/
  | member (body : ClassSet)
  | seq (first second : Regex)
  | alt (first second : Regex)
  /-- A capturing group. -/
  | group (index : Nat) (body : Regex)
  | backref (index : Nat)
  | namedRef (name : String)
  | lineStart
  | lineEnd
  | wordEdge (negated : Bool)
  /-- A lookahead or lookbehind. -/
  | look (behind negated : Bool) (body : Regex)
  /-- A repetition; the groups after `low` up to `high` are forgotten before each turn. -/
  | repeated (min : Nat) (max : Option Nat) (greedy : Bool) (low high : Nat) (body : Regex)
  deriving DecidableEq

namespace Regex

structure Flags where
  indices : Bool := false
  everywhere : Bool := false
  ignoreCase : Bool := false
  multiline : Bool := false
  dotAll : Bool := false
  unicode : Bool := false
  unicodeSets : Bool := false
  sticky : Bool := false
  deriving DecidableEq, Inhabited

namespace Flags

/-- Sets the flag of a letter that is not yet set. -/
def set? (f : Flags) (c : Char) : Option Flags :=
  match c with
  | 'd' => if f.indices then none else some { f with indices := true }
  | 'g' => if f.everywhere then none else some { f with everywhere := true }
  | 'i' => if f.ignoreCase then none else some { f with ignoreCase := true }
  | 'm' => if f.multiline then none else some { f with multiline := true }
  | 's' => if f.dotAll then none else some { f with dotAll := true }
  | 'u' => if f.unicode || f.unicodeSets then none else some { f with unicode := true }
  | 'v' => if f.unicode || f.unicodeSets then none else some { f with unicodeSets := true }
  | 'y' => if f.sticky then none else some { f with sticky := true }
  | _ => none

def ofChars? : List Char → Flags → Option Flags
  | [], f => some f
  | c :: rest, f =>
    match f.set? c with
    | some g => ofChars? rest g
    | none => none

/-- Reads a flag word; a letter may stand once. -/
def parse? (s : String) : Option Flags := ofChars? s.toList {}

def codePoints (f : Flags) : Bool := f.unicode || f.unicodeSets

/-- The form in which characters are compared. -/
def canonical (f : Flags) (c : Nat) : Nat :=
  if !f.ignoreCase then c
  else if f.codePoints then Text.mapCase Text.foldRuns c
  else Text.mapCase Text.upperRuns c

/-- The flag letters in alphabetical order. -/
def render (f : Flags) : String :=
  String.ofList <|
    ([('d', f.indices), ('g', f.everywhere), ('i', f.ignoreCase), ('m', f.multiline), ('s', f.dotAll),
      ('u', f.unicode), ('v', f.unicodeSets), ('y', f.sticky)].filter (·.2)).map (·.1)

end Flags

end Regex

namespace ClassSet

def ofProperty (negated : Bool) (s : Text.StringSet) : ClassSet :=
  if s.strings.isEmpty then .item (.within negated s.ranges)
  else .union (.item (.within negated s.ranges)) (.strings s.strings)

/-- The expression that takes one string of a class: the longest that is there. -/
def toRegex (flags : Regex.Flags) (body : ClassSet) : Regex :=
  let longer := (body.longer flags.canonical).mergeSort fun a b => b.length ≤ a.length
  longer.foldr (fun s after =>
    if s.isEmpty then .alt after .empty else .alt (s.foldr (fun c next => .seq (.char c) next) .empty) after)
    (.member body)

end ClassSet

namespace Regex

/-- Why a text is not a regular expression. -/
inductive Flaw where
  | unterminatedGroup
  | unmatchedParen
  | escapeAtEnd
  | nothingToRepeat
  | loneBracket
  | incompleteQuantifier
  | countsOutOfOrder
  | invalidQuantifier
  | invalidGroup
  | invalidGroupName
  | duplicateGroupName
  | invalidNamedReference
  | unknownGroupName
  | invalidEscape
  | invalidClassEscape
  | invalidDecimalEscape
  | invalidUnicodeEscape
  | invalidPropertyName
  | invalidClassPropertyName
  | invalidClass
  | invalidClassCharacter
  | invalidSetOperation
  | negatedStrings
  | unterminatedClass
  | rangeOutOfOrder
  deriving DecidableEq

def Flaw.message : Flaw → String
  | .unterminatedGroup => "Unterminated group"
  | .unmatchedParen => "Unmatched ')'"
  | .escapeAtEnd => "\\ at end of pattern"
  | .nothingToRepeat => "Nothing to repeat"
  | .loneBracket => "Lone quantifier brackets"
  | .incompleteQuantifier => "Incomplete quantifier"
  | .countsOutOfOrder => "numbers out of order in \x7b\x7d quantifier"
  | .invalidQuantifier => "Invalid quantifier"
  | .invalidGroup => "Invalid group"
  | .invalidGroupName => "Invalid capture group name"
  | .duplicateGroupName => "Duplicate capture group name"
  | .invalidNamedReference => "Invalid named reference"
  | .unknownGroupName => "Invalid named capture referenced"
  | .invalidEscape => "Invalid escape"
  | .invalidClassEscape => "Invalid class escape"
  | .invalidDecimalEscape => "Invalid decimal escape"
  | .invalidUnicodeEscape => "Invalid Unicode escape"
  | .invalidPropertyName => "Invalid property name"
  | .invalidClassPropertyName => "Invalid property name in character class"
  | .invalidClass => "Invalid character class"
  | .invalidClassCharacter => "Invalid character in character class"
  | .invalidSetOperation => "Invalid set operation in character class"
  | .negatedStrings => "Negated character class may contain strings"
  | .unterminatedClass => "Unterminated character class"
  | .rangeOutOfOrder => "Range out of order in character class"

inductive CompileError where
  | badFlags (word : String)
  | badPattern (source : String) (flags : Flags) (flaw : Flaw)
  deriving DecidableEq

def CompileError.message : CompileError → String
  | .badFlags word => s!"Invalid flags supplied to RegExp constructor '{word}'"
  | .badPattern source flags flaw =>
    "Invalid regular expression: /" ++ source ++ "/" ++ flags.render ++ ": " ++ flaw.message

end Regex

structure Regex.Program where
  body : Regex
  flags : Regex.Flags
  /-- The number of capturing groups. -/
  groups : Nat
  /-- The named groups with their indices, in order of index. -/
  names : List (String × Nat)

end RuleScan
