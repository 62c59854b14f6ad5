import RuleScan.Number.Rounding
import RuleScan.Value.Basic

/-! Reading JSON text. A text that is not JSON has no value; where it fails is not reported. -/

namespace RuleScan.Value

def isJsonBlank (c : Char) : Bool := c = ' ' || c = '\n' || c = '\r' || c = '\t'

def skipBlanks (cs : List Char) : List Char := cs.dropWhile isJsonBlank

def hexDigit? (c : Char) : Option Nat :=
  if '0' ≤ c && c ≤ '9' then some (c.toNat - 48)
  else if 'a' ≤ c && c ≤ 'f' then some (c.toNat - 87)
  else if 'A' ≤ c && c ≤ 'F' then some (c.toNat - 55)
  else none

/-- The code unit of four hexadecimal digits. -/
def hex4? (a b c d : Char) : Option UInt16 := do
  let n := (← hexDigit? a) * 4096 + (← hexDigit? b) * 256 + (← hexDigit? c) * 16 + (← hexDigit? d)
  some n.toUInt16

def escape? (c : Char) : Option Char :=
  match c with
  | '"' => some '"'
  | '\\' => some '\\'
  | '/' => some '/'
  | 'b' => some (Char.ofNat 8)
  | 'f' => some (Char.ofNat 12)
  | 'n' => some '\n'
  | 'r' => some '\r'
  | 't' => some '\t'
  | _ => none

/-- The code units written by `\u` escapes and still waiting to be joined, in reverse, are flushed
before the next plain character. -/
def flush (pending : List UInt16) (acc : String) : String :=
  if pending.isEmpty then acc else Units.decodeList pending.reverse acc

/-- Reads the inside of a string up to its closing quote. -/
def readString : List Char → List UInt16 → String → Option (String × List Char)
  | [], _, _ => none
  | '"' :: rest, pending, acc => some (flush pending acc, rest)
  | '\\' :: 'u' :: a :: b :: c :: d :: rest, pending, acc =>
    match hex4? a b c d with
    | some u => readString rest (u :: pending) acc
    | none => none
  | '\\' :: c :: rest, pending, acc =>
    match escape? c with
    | some e => readString rest [] ((flush pending acc).push e)
    | none => none
  | c :: rest, pending, acc =>
    if c = '\\' || c.toNat < 32 then none else readString rest [] ((flush pending acc).push c)

def isDigit (c : Char) : Bool := '0' ≤ c && c ≤ '9'

/-- The number that a run of digits spells, after the digits already read. -/
def digitsValue (cs : List Char) (start : Nat) : Nat := cs.foldl (fun n c => n * 10 + (c.toNat - 48)) start

/-- The digits after a point, if there is one; a point needs a digit. -/
def readFraction : List Char → Option (List Char × List Char)
  | '.' :: rest =>
    let ds := rest.takeWhile isDigit
    if ds.isEmpty then none else some (ds, rest.dropWhile isDigit)
  | rest => some ([], rest)

/-- The exponent, if there is one; its mark needs a digit. -/
def readExponent : List Char → Option (Int × List Char)
  | c :: rest =>
    if c = 'e' || c = 'E' then
      let (negative, body) :=
        match rest with
        | '-' :: r => (true, r)
        | '+' :: r => (false, r)
        | r => (false, r)
      let ds := body.takeWhile isDigit
      if ds.isEmpty then none
      else
        let n : Int := digitsValue ds 0
        some (if negative then -n else n, body.dropWhile isDigit)
    else some (0, c :: rest)
  | [] => some (0, [])

def readNumber (negative : Bool) (cs : List Char) : Option (Number × List Char) := do
  let whole := cs.takeWhile isDigit
  if whole.isEmpty || (whole.length != 1 && whole.head? == some '0') then none
  else
    let (frac, rest) ← readFraction (cs.dropWhile isDigit)
    let (e, rest) ← readExponent rest
    some (Number.ofDecimal negative (digitsValue frac (digitsValue whole 0)) (e - frac.length), rest)

def readWord (word : String) (v : Value) (cs : List Char) : Option (Value × List Char) :=
  let w := word.toList
  if w.isPrefixOf cs then some (v, cs.drop w.length) else none

mutual

/-- Reads one value; `fuel` bounds the number of values read inside one another. -/
def readValue : Nat → List Char → Option (Value × List Char)
  | 0, _ => none
  | fuel + 1, cs =>
    match skipBlanks cs with
    | '"' :: rest => (readString rest [] "").map fun (s, r) => (.str s, r)
    | '[' :: rest =>
      match skipBlanks rest with
      | ']' :: r => some (.arr [], r)
      | r => readItems fuel r []
    | '\x7b' :: rest =>
      match skipBlanks rest with
      | '\x7d' :: r => some (.obj [], r)
      | r => readMembers fuel r []
    | '-' :: rest => (readNumber true rest).map fun (n, r) => (.num n, r)
    | 't' :: rest => readWord "true" (.bool true) ('t' :: rest)
    | 'f' :: rest => readWord "false" (.bool false) ('f' :: rest)
    | 'n' :: rest => readWord "null" .null ('n' :: rest)
    | rest => (readNumber false rest).map fun (n, r) => (.num n, r)

/-- Reads the items of an array up to its closing bracket, onto those already read in reverse. -/
def readItems : Nat → List Char → List Value → Option (Value × List Char)
  | 0, _, _ => none
  | fuel + 1, cs, acc =>
    match readValue fuel cs with
    | none => none
    | some (v, rest) =>
      match skipBlanks rest with
      | ',' :: r => readItems fuel r (v :: acc)
      | ']' :: r => some (.arr (v :: acc).reverse, r)
      | _ => none

/-- Reads the members of an object up to its closing brace. -/
def readMembers : Nat → List Char → List (String × Value) → Option (Value × List Char)
  | 0, _, _ => none
  | fuel + 1, cs, acc =>
    match skipBlanks cs with
    | '"' :: rest =>
      match readString rest [] "" with
      | none => none
      | some (key, rest) =>
        match skipBlanks rest with
        | ':' :: rest =>
          match readValue fuel rest with
          | none => none
          | some (v, rest) =>
            match skipBlanks rest with
            | ',' :: r => readMembers fuel r ((key, v) :: acc)
            | '\x7d' :: r => some (object ((key, v) :: acc).reverse, r)
            | _ => none
        | _ => none
    | _ => none

end

/-- The value that a JSON text spells. -/
def parse? (s : String) : Option Value :=
  let cs := s.toList
  match readValue (2 * cs.length + 2) cs with
  | some (v, rest) => if (skipBlanks rest).isEmpty then some v else none
  | none => none

end RuleScan.Value
