import RuleScan.Number.Rounding

/-! The decimal text of a number: the fewest digits that read back as the same binary64 value, the
nearest such digits, positional from 1e-6 below 1e21. A count of decimal places can be asked for. -/

namespace RuleScan.Number

/-- The mantissa and exponent of a positive value on the binary64 grid: 53 bits, or the least exponent. -/
def onGrid (n : Nat) (e : Int) : Nat × Int :=
  let q := max ((n.log2 : Int) + e - 52) (-1074)
  (n * Nat.pow 2 (e - q).toNat, q)

/-- The reals that round to `m * 2 ^ q`, as numerators over one denominator: value, lower end, upper
end. The gap below a power of two is half as wide. -/
structure Interval where
  value : Nat
  lower : Nat
  upper : Nat
  den : Nat
  closed : Bool

def interval (m : Nat) (q : Int) : Interval :=
  let below := if m = Nat.pow 2 52 && -1074 < q then 1 else 2
  let v := 4 * m
  if 0 ≤ q then
    let p := Nat.pow 2 q.toNat
    ⟨v * p, (v - below) * p, (v + 2) * p, 4, m % 2 == 0⟩
  else ⟨v, v - below, v + 2, 4 * Nat.pow 2 (-q).toNat, m % 2 == 0⟩

/-- Whether `c * 10 ^ e` lies in the interval. -/
def Interval.holds (i : Interval) (c : Nat) (e : Int) : Bool :=
  let (x, k) := if 0 ≤ e then (c * Nat.pow 10 e.toNat * i.den, 1) else (c * i.den, Nat.pow 10 (-e).toNat)
  if i.closed then i.lower * k ≤ x && x ≤ i.upper * k else i.lower * k < x && x < i.upper * k

/-- The two neighbours of the value among the multiples of `10 ^ e`, and whether the upper one is
nearer, a tie going to the even one. -/
def Interval.neighbours (i : Interval) (e : Int) : Nat × Nat × Bool :=
  let (num, den) := if 0 ≤ e then (i.value, i.den * Nat.pow 10 e.toNat) else (i.value * Nat.pow 10 (-e).toNat, i.den)
  let s := num / den
  let r := num % den
  (s, s + 1, if 2 * r < den then false else if den < 2 * r then true else s % 2 == 1)

/-- The digits on the grid of `10 ^ e` that read back, if there are any. -/
def Interval.hit? (i : Interval) (e : Int) : Option Nat :=
  let (lo, hi, up) := i.neighbours e
  match i.holds lo e && lo != 0, i.holds hi e with
  | true, true => some (if up then hi else lo)
  | true, false => some lo
  | false, true => some hi
  | false, false => none

/-- Tries one digit more at each turn. -/
def Interval.search (i : Interval) (e : Int) : Nat → Nat × Int
  | 0 => ((i.neighbours e).1, e)
  | n + 1 =>
    match i.hit? e with
    | some c => (c, e)
    | none => i.search (e - 1) n

/-- Drops trailing zeros into the exponent. -/
def trimZeros (c : Nat) (e : Int) : Nat → Nat × Int
  | 0 => (c, e)
  | n + 1 => if c % 10 = 0 && c != 0 then trimZeros (c / 10) (e + 1) n else (c, e)

/-- The exponent of the leading decimal digit of `num / den`. -/
def decimalExponent (num den : Nat) : Int :=
  if den ≤ num then ((Nat.toDigits 10 (num / den)).length : Int) - 1
  else
    let k := ((Nat.toDigits 10 (den / num)).length : Int)
    if den ≤ num * Nat.pow 10 (k - 1).toNat then -(k - 1) else -k

/-- The shortest digits `c` and exponent `e` with `c * 10 ^ e` reading back as `n * 2 ^ k`. -/
def shortest (n : Nat) (k : Int) : Nat × Int :=
  let (m, q) := onGrid n k
  let i := interval m q
  let (c, e) := i.search (decimalExponent i.value i.den) 17
  trimZeros c e 25

def digits (n : Nat) : String := String.ofList (Nat.toDigits 10 n)

/-- Lays out `c * 10 ^ e`: positional while the point falls within 21 places to the left or six
zeros to the right, otherwise with a signed exponent. -/
def layout (c : Nat) (e : Int) : String :=
  let ds := Nat.toDigits 10 c
  let n : Int := ds.length
  let point := n + e
  if n ≤ point && point ≤ 21 then String.ofList ds ++ "".pushn '0' e.toNat
  else if 0 < point && point ≤ 21 then
    String.ofList (ds.take point.toNat) ++ "." ++ String.ofList (ds.drop point.toNat)
  else if -6 < point && point ≤ 0 then "0." ++ "".pushn '0' (-point).toNat ++ String.ofList ds
  else
    let x := point - 1
    let mantissa :=
      match ds with
      | d :: r :: rest => String.ofList (d :: '.' :: r :: rest)
      | _ => String.ofList ds
    mantissa ++ "e" ++ (if x < 0 then "-" else "+") ++ digits x.natAbs

def render : Number → String
  | .infinite negative => if negative then "-Infinity" else "Infinity"
  | .finite d =>
    let (n, k) := scaled d
    if n = 0 then "0"
    else
      let (c, e) := shortest n.natAbs k
      (if n < 0 then "-" else "") ++ layout c e

/-- The whole number nearest to `n * 2 ^ e`, for a nonnegative `n`; a half goes up. -/
def nearest (n : Nat) (e : Int) : Nat :=
  match e with
  | .ofNat k => n * Nat.pow 2 k
  | .negSucc k => (2 * n + Nat.pow 2 (k + 1)) / Nat.pow 2 (k + 2)

/-- A whole number with its last `places` digits after the point. -/
def withPoint (places n : Nat) : String :=
  let digits := (toString n).toList
  let digits := List.replicate (places + 1 - digits.length) '0' ++ digits
  let whole := digits.take (digits.length - places)
  let rest := digits.drop (digits.length - places)
  if places = 0 then String.ofList whole else String.ofList whole ++ "." ++ String.ofList rest

/-- A number with this many places; a half goes away from zero, and from `10 ^ 21` on the shortest
form is used. -/
def fixed (places : Nat) (x : Number) : String :=
  match x with
  | .infinite _ => x.render
  | .finite d =>
    let (n, e) := scaled d
    if le (ofNat (Nat.pow 10 21)) x || le x (ofInt (-(Int.pow 10 21))) then x.render
    else (if n < 0 then "-" else "") ++ withPoint places (nearest (n.natAbs * Nat.pow 10 places) e)

end RuleScan.Number
