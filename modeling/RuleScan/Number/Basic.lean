/-! Numbers as binary64 holds them: dyadic rationals and the two infinities. Zero has no sign. -/

namespace RuleScan

/-- A binary64 value other than not-a-number. -/
inductive Number where
  | finite (value : Dyadic)
  | infinite (negative : Bool)
  deriving DecidableEq, Inhabited

namespace Number

def ofInt (n : Int) : Number := .finite (Dyadic.ofIntWithPrec n 0)

def ofNat (n : Nat) : Number := ofInt n

instance : OfNat Number n := ⟨ofNat n⟩

/-- The numerator and the binary exponent of a finite value. -/
def scaled : Dyadic → Int × Int
  | .zero => (0, 0)
  | .ofOdd n k _ => (n, -k)

/-- The integer a number is equal to, if it is one. -/
def toInt? : Number → Option Int
  | .infinite _ => none
  | .finite d =>
    let (n, e) := scaled d
    match e with
    | .ofNat k => some (n * Int.pow 2 k)
    | .negSucc _ => none

/-- The natural number a number is equal to, if it is one. -/
def toNat? (x : Number) : Option Nat :=
  match x.toInt? with
  | some (.ofNat n) => some n
  | _ => none

/-- The greatest integer that is not above a finite number. -/
def floor? : Number → Option Int
  | .infinite _ => none
  | .finite d =>
    let (n, e) := scaled d
    match e with
    | .ofNat k => some (n * Int.pow 2 k)
    | .negSucc k => some (n.fdiv (Int.pow 2 (k + 1)))

/-- The sign of a number: -1, 0 or 1. -/
def sign : Number → Int
  | .infinite negative => if negative then -1 else 1
  | .finite d => (scaled d).1.sign

/-- `a * 2 ^ s ≤ b * 2 ^ t`, decided on integers by clearing the smaller power. -/
def leScaled (a s b t : Int) : Bool :=
  if s ≤ t then a ≤ b * Int.pow 2 (t - s).toNat else a * Int.pow 2 (s - t).toNat ≤ b

/-- The order of the extended real line. -/
def le : Number → Number → Bool
  | .infinite true, _ => true
  | _, .infinite false => true
  | .infinite false, _ => false
  | _, .infinite true => false
  | .finite x, .finite y =>
    let (a, s) := scaled x
    let (b, t) := scaled y
    leScaled a s b t

def lt (x y : Number) : Bool := !le y x

end Number

end RuleScan
