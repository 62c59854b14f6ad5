import RuleScan.Evaluation.Match
import RuleScan.Text.Blank

/-! Templates of messages and fixes. A placeholder is a name in double braces: `$match` stands for the
whole match, any other name for the text of that capture, or for nothing. -/

namespace RuleScan.Template

/-- The placeholder of the whole match. -/
def matchName : String := "$match"

def isNameStart (c : Char) : Bool := ('a' ≤ c && c ≤ 'z') || ('A' ≤ c && c ≤ 'Z') || c = '_'

def isNamePart (c : Char) : Bool := isNameStart c || ('0' ≤ c && c ≤ '9') || c = '.' || c = '-'

/-- Reads a name, with a dollar sign before it or not. -/
def readName : List Char → Option (List Char × List Char)
  | '$' :: c :: rest =>
    if isNameStart c then some ('$' :: c :: rest.takeWhile isNamePart, rest.dropWhile isNamePart) else none
  | c :: rest => if isNameStart c then some (c :: rest.takeWhile isNamePart, rest.dropWhile isNamePart) else none
  | [] => none

/-- Reads a placeholder: two opening braces, a name, two closing braces, with blanks around the name. -/
def readPlaceholder : List Char → Option (String × List Char)
  | '\x7b' :: '\x7b' :: rest =>
    match readName (rest.dropWhile Text.isBlank) with
    | some (name, after) =>
      match after.dropWhile Text.isBlank with
      | '\x7d' :: '\x7d' :: done => some (String.ofList name, done)
      | _ => none
    | none => none
  | _ => none

inductive Piece where
  | char (c : Char)
  | placeholder (name : String)

/-- Splits a template into its pieces, from left to right; `fuel` bounds its length. -/
def piecesFrom : Nat → List Char → List Piece → List Piece
  | 0, _, acc => acc.reverse
  | _ + 1, [], acc => acc.reverse
  | fuel + 1, c :: rest, acc =>
    match readPlaceholder (c :: rest) with
    | some (name, after) => piecesFrom fuel after (.placeholder name :: acc)
    | none => piecesFrom fuel rest (.char c :: acc)

def pieces (template : String) : List Piece :=
  let cs := template.toList
  piecesFrom cs.length cs []

def addNew (names : List String) : Piece → List String
  | .char _ => names
  | .placeholder name => if names.contains name then names else names ++ [name]

/-- The names in the placeholders, each once, in order of appearance. -/
def placeholders (template : String) : List String := (pieces template).foldl addNew []

def captures (template : String) : List String := (placeholders template).filter (!·.startsWith "$")

def renderPiece (bindings : Bindings) (source : Units) (matchText : String) (base : Option Node := none) :
    Piece → Except NoNode String
  | .char c => .ok c.toString
  | .placeholder name =>
    if name = matchName then .ok matchText
    else
      match bindings.meaning name base with
      | .node node => .ok (node.textIn source).toText
      | .nothing => .ok ""
      | .noNode => .error ⟨"startIndex"⟩

/-- Renders a template. Inserted text is not read again. -/
def render (template : String) (bindings : Bindings) (source : Units) (matchText : String)
    (base : Option Node := none) : Except NoNode String := do
  let parts ← (pieces template).mapM (renderPiece bindings source matchText base)
  .ok (String.join parts)

end RuleScan.Template
