import RuleScan.Text.Units

/-! Coloured text for terminals. -/

namespace RuleScan

/-- A way to show text: the codes that turn it on and off. -/
structure Style where
  on : Nat
  off : Nat

namespace Style

def bold : Style := ⟨1, 22⟩

def dim : Style := ⟨2, 22⟩

def underline : Style := ⟨4, 24⟩

def red : Style := ⟨31, 39⟩

def green : Style := ⟨32, 39⟩

def yellow : Style := ⟨33, 39⟩

def blue : Style := ⟨34, 39⟩

def gray : Style := ⟨90, 39⟩

def sequence (code : Nat) : String := "\x1b[" ++ toString code ++ "m"

/-- Closes the style before each line break and opens it again after it. -/
def acrossLines (style : Style) : List Char → List Char
  | [] => []
  | '\r' :: '\n' :: rest =>
    (sequence style.off).toList ++ '\r' :: '\n' :: (sequence style.on).toList ++ acrossLines style rest
  | '\n' :: rest => (sequence style.off).toList ++ '\n' :: (sequence style.on).toList ++ acrossLines style rest
  | c :: rest => c :: acrossLines style rest

/-- Shows a text in a style. A text that is empty stays so; where the text itself turns the style off
it is turned on again. -/
def paint (style : Style) (colored : Bool) (text : String) : String :=
  if !colored || text.isEmpty then text
  else
    let off := sequence style.off
    let on := sequence style.on
    let kept := (off ++ on).intercalate (text.splitOn off)
    on ++ String.ofList (acrossLines style kept.toList) ++ off

end Style

end RuleScan
