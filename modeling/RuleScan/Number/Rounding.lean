import RuleScan.Number.Basic

/-! Rounding a rational to binary64: 53 significant bits, least exponent -1074, a half goes to the
even neighbour, and what reaches 2 ^ 1024 becomes an infinity. -/

namespace RuleScan.Number

/-- The quotient rounded to the nearest integer, a half to the even neighbour. -/
def roundDiv (num den : Nat) : Nat :=
  let q := num / den
  let r := num % den
  if 2 * r < den then q else if den < 2 * r then q + 1 else if q % 2 = 0 then q else q + 1

/-- `num * 2 ^ (-e)` over `den`, as a fraction of natural numbers. -/
def scaleDown (num den : Nat) (e : Int) : Nat × Nat :=
  if 0 ≤ e then (num, den * Nat.pow 2 e.toNat) else (num * Nat.pow 2 (-e).toNat, den)

/-- The greatest exponent of a power of two not above `num / den`. -/
def floorLog2 (num den : Nat) : Int :=
  let k : Int := (num.log2 : Int) - den.log2
  let (n, d) := scaleDown num den k
  if d ≤ n then k else k - 1

/-- The binary64 value nearest to `num / den`. -/
def ofRatio (negative : Bool) (num den : Nat) : Number :=
  if num = 0 then .finite .zero
  else
    let q := max (floorLog2 num den - 52) (-1074)
    let (n, d) := scaleDown num den q
    let m := roundDiv n d
    if Nat.pow 2 53 ≤ m && 971 ≤ q || 972 ≤ q then .infinite negative
    else .finite (Dyadic.ofIntWithPrec (if negative then -(m : Int) else m) (-q))

/-- The binary64 value nearest to `digits * 10 ^ e`. Exponents far outside the range are settled
without forming the power. -/
def ofDecimal (negative : Bool) (digits : Nat) (e : Int) : Number :=
  let size : Int := (Nat.toDigits 10 digits).length
  if digits = 0 then .finite .zero
  else if 400 < size + e then .infinite negative
  else if size + e < -400 then .finite .zero
  else if 0 ≤ e then ofRatio negative (digits * Nat.pow 10 e.toNat) 1
  else ofRatio negative digits (Nat.pow 10 (-e).toNat)

/-- The binary64 value nearest to an integer. -/
def round (n : Int) : Number := ofRatio (n < 0) n.natAbs 1

/-- Sum, rounded; an infinity stays, and of two opposite ones the first. -/
def add : Number → Number → Number
  | .infinite b, _ => .infinite b
  | _, .infinite b => .infinite b
  | .finite x, .finite y =>
    let (n, e) := scaled (x + y)
    let (num, den) := scaleDown n.natAbs 1 (-e)
    ofRatio (n < 0) num den

end RuleScan.Number
