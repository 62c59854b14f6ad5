import RuleScan.Regex.Basic
import RuleScan.Text.Category

/-! Character sets in patterns: `[a-z]`, `[!x]` and named classes such as `[[:digit:]]`. -/

namespace RuleScan.Glob

structure NamedClass where
  name : String
  items : List ClassItem
  /-- The class holds what the items do not. -/
  inverted : Bool := false
  /-- Characters are code points where this class stands. -/
  unicode : Bool := true

def categories (names : List String) : List ClassItem := names.map fun name => .within false (Text.category name)

def NamedClass.all : List NamedClass :=
  [{ name := "alnum", items := categories ["L", "Nl", "Nd"] },
    { name := "alpha", items := categories ["L", "Nl"] },
    { name := "ascii", items := [.range 0 0x7f], unicode := false },
    { name := "blank", items := categories ["Zs"] ++ [.range 9 9] },
    { name := "cntrl", items := [.range 0 0x1f, .range 0x7f 0x9f] },
    { name := "digit", items := categories ["Nd"] },
    { name := "graph", items := categories ["Z", "C"], inverted := true },
    { name := "lower", items := categories ["Ll"] },
    { name := "print", items := categories ["C"] },
    { name := "punct", items := categories ["P"] },
    { name := "space", items := categories ["Z"] ++ [.range 9 13] },
    { name := "upper", items := categories ["Lu"] },
    { name := "word", items := categories ["L", "Nl", "Nd", "Pc"] },
    { name := "xdigit", items := [.range 65 70, .range 97 102, .range 48 57], unicode := false }]

/-- The class written at the start of a text, with what follows it. -/
def NamedClass.read? (cs : List Char) : Option (NamedClass × List Char) :=
  NamedClass.all.findSome? fun n =>
    let mark := ("[:" ++ n.name ++ ":]").toList
    if mark.isPrefixOf cs then some (n, cs.drop mark.length) else none

/-- A set as it is read. Each entry is one character, range or class. -/
structure CharSet where
  negated : Bool := false
  entries : List (List ClassItem) := []
  /-- Items of inverted classes. -/
  inverted : List ClassItem := []
  unicode : Bool := false

namespace CharSet

def ofChar (c : Char) : List ClassItem := (Units.ofScalar c.toNat).map fun u => .range u.toNat u.toNat

def add (s : CharSet) (entry : List ClassItem) : CharSet := { s with entries := s.entries ++ [entry] }

def addNamed (s : CharSet) (n : NamedClass) : CharSet :=
  let s := { s with unicode := s.unicode || n.unicode }
  if n.inverted then { s with inverted := s.inverted ++ n.items } else s.add n.items

/-- The one character of a set that holds nothing else. -/
def single? (s : CharSet) : Option Nat :=
  match s.negated, s.inverted, s.entries with
  | false, [], [[.range lo hi]] => if lo = hi && lo ≠ 10 && lo ≠ 13 then some lo else none
  | _, _, _ => none

/-- What a text that starts with a bracket says. -/
inductive Reading where
  /-- There is no closing bracket. -/
  | unclosed
  /-- The set can hold nothing, and no name matches. -/
  | hopeless
  | set (s : CharSet) (rest : List Char)

def finish (s : CharSet) (rest : List Char) : Reading :=
  if s.entries.isEmpty && s.inverted.isEmpty then .hopeless else .set s rest

/-- Reads the entries of a set. `first` says that none was met yet, `escaped` that the next character
stands for itself, and `low` is the lower end of a range whose upper end comes next. -/
def readEntries : Nat → Bool → Bool → Option Char → CharSet → List Char → Reading
  | 0, _, _, _, _, _ => .unclosed
  | _, _, _, _, _, [] => .unclosed
  | fuel + 1, first, escaped, low, s, c :: rest =>
    if c = ']' && !first && !escaped then finish s rest
    else if c = '\\' && !escaped then readEntries fuel false true low s rest
    else
      match if c = '[' && !escaped then NamedClass.read? (c :: rest) else none with
      | some (n, rest) => if low.isSome then .hopeless else readEntries fuel false false none (s.addNamed n) rest
      | none =>
        match low with
        | some a =>
          let s :=
            if a < c then s.add [.range a.toNat c.toNat] else if a = c then s.add (ofChar c) else s
          readEntries fuel false false none s rest
        | none =>
          match rest with
          | '-' :: ']' :: _ => readEntries fuel false false none (s.add (ofChar c ++ ofChar '-')) (rest.drop 1)
          | '-' :: rest => readEntries fuel false false (some c) s rest
          | _ => readEntries fuel false false none (s.add (ofChar c)) rest

/-- Reads a set behind its opening bracket. -/
def read (cs : List Char) : Reading :=
  match cs with
  | '!' :: rest | '^' :: rest => readEntries (cs.length + 1) true false none { negated := true } rest
  | _ => readEntries (cs.length + 1) true false none {} cs

def toRegex (s : CharSet) : Regex :=
  let positive := Regex.set s.negated s.entries.flatten
  let negative := Regex.set (!s.negated) s.inverted
  if s.inverted.isEmpty then positive else if s.entries.isEmpty then negative else .alt positive negative

end CharSet

end RuleScan.Glob
