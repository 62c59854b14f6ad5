/-! Text measured in UTF-16 code units, the unit in which every offset, column and width counts. -/

namespace RuleScan

/-- Text as a sequence of UTF-16 code units. -/
abbrev Units := Array UInt16

namespace Units

/-- The number of code units a character takes. -/
def width (c : Char) : Nat := if c.toNat < 0x10000 then 1 else 2

/-- The code units of a scalar value: one, or a high and a low surrogate. -/
def ofScalar (n : Nat) : List UInt16 :=
  if n < 0x10000 then [n.toUInt16]
  else [(0xD800 + (n - 0x10000) / 0x400).toUInt16, (0xDC00 + (n - 0x10000) % 0x400).toUInt16]

def ofString (s : String) : Units :=
  s.toList.foldl (fun acc c => (ofScalar c.toNat).foldl Array.push acc) #[]

def isHigh (u : UInt16) : Bool := 0xD800 ≤ u && u ≤ 0xDBFF

def isLow (u : UInt16) : Bool := 0xDC00 ≤ u && u ≤ 0xDFFF

/-- The scalar value that a high and a low surrogate stand for. -/
def joinPair (hi lo : UInt16) : Nat := 0x10000 + (hi.toNat - 0xD800) * 0x400 + (lo.toNat - 0xDC00)

/-- The character of one code unit; a surrogate that stands alone reads as U+FFFD. -/
def charOf (u : UInt16) : Char := if isHigh u || isLow u then '\uFFFD' else Char.ofNat u.toNat

/-- Reads pairs of surrogates as one character, onto the characters already read. -/
def decodeList : List UInt16 → String → String
  | [], acc => acc
  | [u], acc => acc.push (charOf u)
  | u :: v :: rest, acc =>
    if isHigh u && isLow v then decodeList rest (acc.push (Char.ofNat (joinPair u v)))
    else decodeList (v :: rest) (acc.push (charOf u))

def toText (t : Units) : String := decodeList t.toList ""

/-- The code units from `start` up to `stop`. -/
def slice (t : Units) (start stop : Nat) : Units := t.extract start stop

def first (s : String) : String := toText ((ofString s).slice 0 1)

end Units

namespace Text

def length (s : String) : Nat := s.toList.foldl (fun n c => n + Units.width c) 0

/-- Whether `a` comes before `b` in code unit order. -/
def lt (a b : String) : Bool :=
  List.lex (Units.ofString a).toList (Units.ofString b).toList (· < ·)

def le (a b : String) : Bool := !lt b a

def sort (xs : List String) : List String := xs.mergeSort le

/-- Fills up with blanks on the right to `n` code units. -/
def padRight (n : Nat) (s : String) : String := s ++ "".pushn ' ' (n - length s)

def lines (s : String) : List String := s.splitOn "\n"

end Text

end RuleScan
