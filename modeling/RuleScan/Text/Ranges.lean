/-! Sets of characters as ranges of codes, and how tables of them are written. -/

namespace RuleScan.Text

/-- Ranges of codes, each with its first and its last. -/
abbrev Ranges := List (Nat × Nat)

def inRanges (ranges : Ranges) (n : Nat) : Bool := ranges.any fun r => r.1 ≤ n && n ≤ r.2

namespace Ranges

def all : Ranges := [(0, 0x10FFFF)]

def without (ranges : Ranges) (cut : Nat × Nat) : Ranges :=
  ranges.flatMap fun (a, b) =>
    if b < cut.1 || cut.2 < a then [(a, b)]
    else (if a < cut.1 then [(a, cut.1 - 1)] else []) ++ (if cut.2 < b then [(cut.2 + 1, b)] else [])

def minus (ranges cuts : Ranges) : Ranges := cuts.foldl without ranges

def digitValue (c : Char) : Nat := if c.toNat < 97 then c.toNat - 48 else c.toNat - 87

/-- Reads ranges from `next` on. Each is the number of codes that are passed, and after a point the number of codes
that follow its first one. -/
def readText (next passed : Nat) (following : Option Nat) : List Char → Ranges
  | [] => [(next + passed, next + passed + following.getD 0)]
  | c :: rest =>
    if c = ' ' then
      let last := next + passed + following.getD 0
      (next + passed, last) :: readText (last + 1) 0 none rest
    else if c = '.' then readText next passed (some 0) rest
    else
      match following with
      | none => readText next (passed * 36 + digitValue c) none rest
      | some n => readText next passed (some (n * 36 + digitValue c)) rest

/-- The ranges that a text lists, with numbers in base 36. -/
def ofText (s : String) : Ranges := readText 0 0 none s.toList

def ofLines (lines : List String) : Ranges := ofText (" ".intercalate lines)

end Ranges

/-- A set of characters under its names. -/
structure NamedRanges where
  names : List String
  ranges : Ranges

def NamedRanges.find? (sets : List NamedRanges) (name : String) : Option Ranges :=
  (sets.find? (·.names.contains name)).map (·.ranges)

end RuleScan.Text
