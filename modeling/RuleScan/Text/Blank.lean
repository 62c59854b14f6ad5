import RuleScan.Text.Units

/-! White space: the characters that are trimmed, skipped between tokens and matched by `\s`. -/

namespace RuleScan.Text

/-- White space is the tab, the line terminators, the byte order mark and the space separators. -/
def isBlankCode (n : Nat) : Bool :=
  (0x09 ≤ n && n ≤ 0x0D) || n == 0x20 || n == 0xA0 || n == 0x1680 || (0x2000 ≤ n && n ≤ 0x200A) ||
    n == 0x2028 || n == 0x2029 || n == 0x202F || n == 0x205F || n == 0x3000 || n == 0xFEFF

def isBlank (c : Char) : Bool := isBlankCode c.toNat

/-- A string without the white space at its two ends. -/
def trim (s : String) : String :=
  String.ofList ((s.toList.dropWhile isBlank).reverse.dropWhile isBlank).reverse

end RuleScan.Text
