import RuleScan.Text.CaseMapping
import RuleScan.Text.Property

/-! Texts in lower case. -/

namespace RuleScan.Text

/-- The lower case of a character where it is one character. Letters fold to lower case but for those of Cherokee,
which fold to upper case. -/
def lowerCode (n : Nat) : Nat :=
  if 0x13a0 ≤ n && n ≤ 0x13ef then n + 0x97d0
  else if 0x13f0 ≤ n && n ≤ 0x13f5 then n + 8
  else if inRanges changedByLowering n then mapCase foldRuns n
  else n

/-- Whether a word goes on with a letter that has case. -/
def meetsCased (cs : List Char) : Bool :=
  ((cs.dropWhile fun c => inRanges caseIgnorable c.toNat).head?).any fun c => inRanges cased c.toNat

/-- The lower case of a character between others, the ones before it in reverse. A sigma at the end of a word is of
another form. -/
def lowerChar (before : List Char) (c : Char) (after : List Char) : List Char :=
  if c.toNat < 0x80 then [c.toLower]
  else if c = 'İ' then ['i', '\u0307']
  else if c = 'Σ' then [if meetsCased before && !meetsCased after then 'ς' else 'σ']
  else [Char.ofNat (lowerCode c.toNat)]

def lowerChars (before : List Char) : List Char → List Char
  | [] => []
  | c :: rest => lowerChar before c rest ++ lowerChars (c :: before) rest

def lower (s : String) : String := String.ofList (lowerChars [] s.toList)

end RuleScan.Text
