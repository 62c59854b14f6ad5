import RuleScan.Number.Shortest
import RuleScan.Value.Basic

/-! JSON text of a value: on one line, indented by two blanks, or canonical with sorted keys. -/

namespace RuleScan.Value

/-- The digits of a code below 32 after `\u00`. -/
def hexPair (n : Nat) : List Char := [Nat.digitChar (n / 16), Nat.digitChar (n % 16)]

/-- The escaped form of one character inside a quoted string. -/
def escapeChar (c : Char) : List Char :=
  if c = '"' then ['\\', '"']
  else if c = '\\' then ['\\', '\\']
  else if c = '\n' then ['\\', 'n']
  else if c = '\r' then ['\\', 'r']
  else if c = '\t' then ['\\', 't']
  else if c.toNat = 8 then ['\\', 'b']
  else if c.toNat = 12 then ['\\', 'f']
  else if c.toNat < 32 then '\\' :: 'u' :: '0' :: '0' :: hexPair c.toNat
  else [c]

def quote (s : String) : String := "\"" ++ String.ofList (s.toList.flatMap escapeChar) ++ "\""

/-- The text of a number; an infinity has none and is written as null. -/
def numberText : Number → String
  | .infinite _ => "null"
  | n => n.render

mutual

/-- JSON on one line, without blanks. -/
def compact : Value → String
  | .null => "null"
  | .bool b => if b then "true" else "false"
  | .num n => numberText n
  | .str s => quote s
  | .arr items => "[" ++ ",".intercalate (compactItems items) ++ "]"
  | .obj members => "\x7b" ++ ",".intercalate (compactMembers members) ++ "\x7d"

def compactItems : List Value → List String
  | [] => []
  | v :: rest => compact v :: compactItems rest

def compactMembers : List (String × Value) → List String
  | [] => []
  | (k, v) :: rest => (quote k ++ ":" ++ compact v) :: compactMembers rest

end

/-- Joins the lines of an array or object between its brackets; an empty one stays on one line. -/
def block (opening closing pad : String) (parts : List String) : String :=
  if parts.isEmpty then opening ++ closing
  else opening ++ "\n" ++ ",\n".intercalate (parts.map (pad ++ "  " ++ ·)) ++ "\n" ++ pad ++ closing

mutual

/-- JSON indented by two blanks a level; `pad` is the indentation of the line it starts on. -/
def prettyAt (pad : String) : Value → String
  | .arr items => block "[" "]" pad (prettyItems (pad ++ "  ") items)
  | .obj members => block "\x7b" "\x7d" pad (prettyMembers (pad ++ "  ") members)
  | v => compact v

def prettyItems (pad : String) : List Value → List String
  | [] => []
  | v :: rest => prettyAt pad v :: prettyItems pad rest

def prettyMembers (pad : String) : List (String × Value) → List String
  | [] => []
  | (k, v) :: rest => (quote k ++ ": " ++ prettyAt pad v) :: prettyMembers pad rest

end

/-- JSON indented by two blanks. -/
def pretty (v : Value) : String := prettyAt "" v

mutual

/-- JSON on one line with the keys of every object in code unit order. -/
def canonical : Value → String
  | .arr items => "[" ++ ",".intercalate (canonicalItems items) ++ "]"
  | .obj members =>
    let sorted := (canonicalMembers members).mergeSort fun a b => Text.le a.1 b.1
    "\x7b" ++ ",".intercalate (sorted.map (·.2)) ++ "\x7d"
  | v => compact v

def canonicalItems : List Value → List String
  | [] => []
  | v :: rest => canonical v :: canonicalItems rest

def canonicalMembers : List (String × Value) → List (String × String)
  | [] => []
  | (k, v) :: rest => (k, quote k ++ ":" ++ canonical v) :: canonicalMembers rest

end

end RuleScan.Value
