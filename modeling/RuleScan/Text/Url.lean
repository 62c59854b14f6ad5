import RuleScan.Text.Utf8

/-! Which texts are absolute `http` or `https` addresses: a scheme, a host and perhaps a port, read
as leniently as browsers read them. -/

namespace RuleScan

namespace Url

/-- Drops controls and blanks at both ends, and tabs and line breaks everywhere. -/
def clean (s : String) : List Char :=
  let low (c : Char) : Bool := c.toNat ≤ 0x20
  let cs := (s.toList.dropWhile low).reverse.dropWhile low
  cs.reverse.filter fun c => c ≠ '\t' && c ≠ '\n' && c ≠ '\r'

/-- The rest after one of the two schemes and its colon, in any case. -/
def afterScheme? (cs : List Char) : Option (List Char) :=
  let scheme := (cs.takeWhile (· ≠ ':')).map Char.toLower
  let rest := cs.dropWhile (· ≠ ':')
  if rest.isEmpty then none
  else if scheme = "http".toList || scheme = "https".toList then some (rest.drop 1)
  else none

def isSlash (c : Char) : Bool := c = '/' || c = '\\'

/-- Splits at every occurrence of a character; there is always a first piece. -/
def splitAt (sep : Char) : List Char → List (List Char)
  | [] => [[]]
  | c :: rest =>
    match splitAt sep rest with
    | [] => [[]]
    | piece :: more => if c = sep then [] :: piece :: more else (c :: piece) :: more

/-- The part after the last occurrence of a character, if it occurs. -/
def afterLast? (sep : Char) (cs : List Char) : Option (List Char) :=
  match splitAt sep cs with
  | [_] => none
  | pieces => pieces.getLast?

/-- Host and port: the colon that divides them stands outside brackets. -/
def hostAndPort : Bool → List Char → List Char × Option (List Char)
  | _, [] => ([], none)
  | inside, c :: rest =>
    if c = ':' && !inside then ([], some rest)
    else
      let (host, port) := hostAndPort (if c = '[' then true else if c = ']' then false else inside) rest
      (c :: host, port)

/-- A port is empty or a number of 16 bits. -/
def portOk (cs : List Char) : Bool :=
  cs.all Char.isDigit && cs.foldl (fun n c => n * 10 + (c.toNat - 48)) 0 ≤ 65535

def hexValue? (c : Char) : Option Nat :=
  if c.isDigit then some (c.toNat - 48)
  else if 'a' ≤ c.toLower && c.toLower ≤ 'f' then some (c.toLower.toNat - 87)
  else none

/-- The bytes of a host with `%hh` read as a byte. -/
def percentDecode : List Char → List UInt8
  | [] => []
  | c :: rest =>
    let plain := (String.singleton c).toUTF8.toList
    if c = '%' then
      match rest with
      | a :: b :: more =>
        match hexValue? a, hexValue? b with
        | some x, some y => (x * 16 + y).toUInt8 :: percentDecode more
        | _, _ => plain ++ percentDecode (a :: b :: more)
      | other => plain ++ percentDecode other
    else plain ++ percentDecode rest
  termination_by cs => cs.length

/-- Characters that no host name has. -/
def forbidden (c : Char) : Bool :=
  c.toNat ≤ 0x20 || c.toNat = 0x7F || c = '\uFFFD' || "#/:<>?@[\\]^|%".toList.contains c

/-- The number a part of a dotted address stands for: hexadecimal after `0x`, octal after `0`. -/
def addressPart? (cs : List Char) : Option Nat :=
  let number (base : Nat) (digits : List Char) : Option Nat :=
    digits.foldl (fun n c => do
      let n ← n
      let d ← hexValue? c
      if d < base then some (n * base + d) else none) (some 0)
  match cs with
  | [] => none
  | '0' :: 'x' :: rest => number 16 rest
  | '0' :: 'X' :: rest => number 16 rest
  | '0' :: c :: rest => number 8 (c :: rest)
  | other => number 10 other

/-- The parts of a dotted address; an empty one at the end does not count. -/
def addressParts (cs : List Char) : List (List Char) :=
  let parts := splitAt '.' cs
  if 1 < parts.length && parts.getLast? = some [] then parts.dropLast else parts

/-- Whether a host is meant as a dotted address: its last part is a number. -/
def endsInNumber (cs : List Char) : Bool :=
  match (addressParts cs).getLast? with
  | none => false
  | some last => (!last.isEmpty && last.all Char.isDigit) || (addressPart? last).isSome

/-- A dotted address has at most four parts, each a byte and the last filling the bytes left. -/
def dottedOk (cs : List Char) : Bool :=
  let parts := addressParts cs
  match parts.mapM addressPart? with
  | none => false
  | some numbers =>
    numbers.length ≤ 4 && numbers.dropLast.all (· ≤ 255) &&
      numbers.getLastD 0 < Nat.pow 256 (5 - numbers.length)

def decimalByte (cs : List Char) : Bool :=
  !cs.isEmpty && cs.length ≤ 3 && cs.all Char.isDigit && (cs.length = 1 || cs.head? ≠ some '0') &&
    cs.foldl (fun n c => n * 10 + (c.toNat - 48)) 0 ≤ 255

/-- The number of 16-bit pieces that one side of `::` spells; a dotted tail counts two. -/
def pieces? (cs : List Char) (tailAllowed : Bool) : Option Nat :=
  if cs.isEmpty then some 0
  else
    let parts := splitAt ':' cs
    let hex (p : List Char) : Bool := !p.isEmpty && p.length ≤ 4 && p.all fun c => (hexValue? c).isSome
    let last := parts.getLastD []
    if parts.all hex then some parts.length
    else if tailAllowed && parts.dropLast.all hex && (splitAt '.' last).length = 4 &&
        (splitAt '.' last).all decimalByte then some (parts.length + 1)
    else none

/-- Splits at the first `::`. -/
def splitDouble : List Char → Option (List Char × List Char)
  | ':' :: ':' :: rest => some ([], rest)
  | c :: rest => (splitDouble rest).map fun (a, b) => (c :: a, b)
  | [] => none

/-- An address in brackets has eight pieces, or fewer with one `::`. -/
def bracketedOk (cs : List Char) : Bool :=
  match splitDouble cs with
  | none => pieces? cs true = some 8
  | some (a, b) =>
    match pieces? a false, pieces? b true with
    | some n, some m => n + m ≤ 7
    | _, _ => false

def hostOk (cs : List Char) : Bool :=
  match cs with
  | [] => false
  | '[' :: rest => rest.getLast? = some ']' && bracketedOk rest.dropLast
  | _ =>
    let name := (Utf8.decode (percentDecode cs)).toList
    !name.isEmpty && !name.any forbidden && (!endsInNumber name || dottedOk name)

/-- Whether a text is an absolute `http` or `https` address. -/
def isHttp (s : String) : Bool :=
  match afterScheme? (clean s) with
  | none => false
  | some rest =>
    let authority := (rest.dropWhile isSlash).takeWhile fun c => !isSlash c && c ≠ '?' && c ≠ '#'
    let place := (afterLast? '@' authority).getD authority
    let (host, port) := hostAndPort false place
    hostOk host && portOk (port.getD [])

end Url

/-- What tells addresses of the web from other texts. The empty text is none. -/
class UrlReader where
  isHttp : String → Bool
  isHttp_empty : isHttp "" = false

/-- Addresses read as they are written; names of hosts are not mapped to ASCII before. -/
instance Url.asWritten : UrlReader := ⟨Url.isHttp, by decide⟩

end RuleScan
