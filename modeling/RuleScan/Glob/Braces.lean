/-! Brace sets in patterns: `a{b,c}` stands for `ab` and `ac`, and `{1..3}` for the numbers from 1 to 3. -/

namespace RuleScan.Braces

/-- A character of a pattern. One that was escaped is kept: it is no mark of a set. -/
inductive Token where
  | char (c : Char)
  | kept (c : Char)
  deriving DecidableEq

abbrev Tokens := List Token

def opening : Token := .char '{'

def closing : Token := .char '}'

def comma : Token := .char ','

/-- The characters whose escape is taken away. -/
def isMark (c : Char) : Bool := ['\\', '{', '}', ',', '.'].contains c

def tokens : List Char → Tokens
  | '\\' :: c :: rest => if isMark c then .kept c :: tokens rest else .char '\\' :: tokens (c :: rest)
  | c :: rest => .char c :: tokens rest
  | [] => []

def Token.value : Token → Char
  | .char c | .kept c => c

def text (ts : Tokens) : String := String.ofList (ts.map Token.value)

/-- The places of the braces of the first set: the outermost pair, or the leftmost complete one if an
opening brace is left over. `open_` holds the opening braces met so far and `best` the leftmost pair. -/
def findPair : Tokens → Nat → List Nat → Option (Nat × Nat) → Option (Nat × Nat)
  | [], _, open_, best => if open_.isEmpty then none else best
  | t :: rest, i, open_, best =>
    if t = opening then findPair rest (i + 1) (i :: open_) best
    else if t = closing then
      match open_ with
      | [] => findPair rest (i + 1) [] best
      | [start] => some (start, i)
      | start :: outer =>
        findPair rest (i + 1) outer (if best.all fun b => start < b.1 then some (start, i) else best)
    else findPair rest (i + 1) open_ best

/-- What stands before the first set, in it and after it. -/
def split? (ts : Tokens) : Option (Tokens × Tokens × Tokens) :=
  (findPair ts 0 [] none).map fun (start, stop) =>
    (ts.take start, (ts.take stop).drop (start + 1), ts.drop (stop + 1))

/-- The members of a set: its text cut at the commas outside inner sets. -/
def members : Nat → Tokens → Tokens → List Tokens
  | _, acc, [] => [acc.reverse]
  | depth, acc, t :: rest =>
    if t = comma && depth = 0 then acc.reverse :: members 0 [] rest
    else
      let depth := if t = opening then depth + 1 else if t = closing then depth - 1 else depth
      members depth (t :: acc) rest

/-- A text cut at each `..`. -/
def cutDots : List Char → List Char → List (List Char)
  | acc, [] => [acc.reverse]
  | acc, '.' :: '.' :: rest => acc.reverse :: cutDots [] rest
  | acc, c :: rest => cutDots (c :: acc) rest

def digits? (cs : List Char) : Option Nat :=
  if cs.isEmpty || !cs.all Char.isDigit then none
  else some (cs.foldl (fun n c => n * 10 + (c.toNat - 48)) 0)

/-- A whole number with an optional minus sign. -/
def integer? : List Char → Option Int
  | '-' :: cs => (digits? cs).map fun n => -(n : Int)
  | cs => (digits? cs).map Int.ofNat

def letter? : List Char → Option Nat
  | [c] => if c.isAlpha then some c.toNat else none
  | _ => none

/-- The numbers from one to another, up or down, in steps. -/
def terms (first last : Int) (step : Nat) : List Int :=
  let step := max step 1
  (List.range ((last - first).natAbs / step + 1)).map fun k =>
    if last < first then first - ((k * step : Nat) : Int) else first + ((k * step : Nat) : Int)

/-- A bound with a leading zero asks for terms of equal width. -/
def isPadded : List Char → Bool
  | '-' :: '0' :: c :: _ => c.isDigit
  | '0' :: c :: _ => c.isDigit
  | _ => false

/-- A number filled up with zeros behind its sign. -/
def padded (width : Nat) (n : Int) : String :=
  let digits := toString n.natAbs
  let sign := if n < 0 then "-" else ""
  sign ++ "".pushn '0' (width - (sign ++ digits).length) ++ digits

/-- The letter of a code; a backslash is left out. -/
def letterText (n : Int) : String := if n = 92 then "" else String.singleton (Char.ofNat n.toNat)

/-- The terms of a set that is a sequence of numbers or letters. -/
def sequence? (body : Tokens) : Option (List String) := do
  let cs ← body.mapM fun
    | .char c => some c
    | .kept _ => none
  let bounds := cutDots [] cs
  let (first, last, step) ← match bounds with
    | [a, b] => some (a, b, 1)
    | [a, b, s] => (integer? s).map fun n => (a, b, n.natAbs)
    | _ => none
  match integer? first, integer? last with
  | some x, some y =>
    let width := if bounds.any isPadded then max first.length last.length else 0
    some ((terms x y step).map (padded width))
  | _, _ =>
    let x ← letter? first
    let y ← letter? last
    some ((terms x y step).map letterText)

/-- Whether a comma that no other follows stands before a closing brace. -/
def closesLater : Tokens → Bool
  | [] => false
  | t :: rest => (t = comma && rest.head? ≠ some comma && rest.contains closing) || closesLater rest

def embrace (ts : Tokens) : Tokens := opening :: ts ++ [closing]

/-- The texts that a pattern stands for; `fuel` bounds the number of its closing braces. -/
def expand : Nat → Bool → Tokens → List Tokens
  | 0, _, ts => [ts]
  | fuel + 1, top, ts =>
    match split? ts with
    | none => [ts]
    | some (before, body, after) =>
      let tails := expand fuel false after
      let join (keepEmpty : Bool) (choices : List Tokens) : List Tokens :=
        (choices.flatMap fun c => tails.map fun t => before ++ c ++ t).filter (keepEmpty || !·.isEmpty)
      if before.getLast? = some (.char '$') then tails.map fun t => before ++ embrace body ++ t
      else
        match sequence? body with
        | some terms => join true (terms.map fun s => s.toList.map Token.char)
        | none =>
          if !body.contains comma then
            if closesLater after then expand fuel false (before ++ opening :: body ++ .kept '}' :: after) else [ts]
          else
            match members 0 [] body with
            | [single] =>
              match (expand fuel false single).map embrace with
              | [only] => tails.map fun t => before ++ only ++ t
              | several => join (!top) (several.flatMap (expand fuel false))
            | several => join (!top) (several.flatMap (expand fuel false))

/-- Whether a closing brace follows an opening one on its line. -/
def hasSet : Bool → List Char → Bool
  | _, [] => false
  | inside, c :: rest =>
    if c = '{' then hasSet true rest
    else if c = '}' then inside || hasSet false rest
    else hasSet (inside && c ≠ '\n') rest

def expansions (pattern : String) : List String :=
  let cs := pattern.toList
  if !hasSet false cs then [pattern]
  else
    let ts :=
      match cs with
      | '{' :: '}' :: rest => .kept '{' :: .kept '}' :: tokens rest
      | _ => tokens cs
    (expand (ts.count closing) true ts).map text

end RuleScan.Braces
