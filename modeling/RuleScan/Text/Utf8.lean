/-! UTF-8 bytes as text. Malformed bytes are reported, or stand for U+FFFD once for each longest
stretch that could have begun a character. -/

namespace RuleScan.Utf8

/-- A character that is not complete yet: how many bytes are missing, the range of the next one, and
the bits read so far. -/
structure Pending where
  missing : Nat
  low : Nat
  high : Nat
  bits : Nat

/-- What a first byte stands for: a finished item, where `none` is a malformed one, or the begin of
a longer character. -/
def first (b : Nat) : Option Char ⊕ Pending :=
  if b < 0x80 then .inl (some (Char.ofNat b))
  else if b < 0xC2 then .inl none
  else if b < 0xE0 then .inr ⟨1, 0x80, 0xBF, b - 0xC0⟩
  else if b = 0xE0 then .inr ⟨2, 0xA0, 0xBF, 0⟩
  else if b = 0xED then .inr ⟨2, 0x80, 0x9F, 0xD⟩
  else if b < 0xF0 then .inr ⟨2, 0x80, 0xBF, b - 0xE0⟩
  else if b = 0xF0 then .inr ⟨3, 0x90, 0xBF, 0⟩
  else if b < 0xF4 then .inr ⟨3, 0x80, 0xBF, b - 0xF0⟩
  else if b = 0xF4 then .inr ⟨3, 0x80, 0x8F, 4⟩
  else .inl none

/-- The items that the bytes spell, after those of `acc`; a malformed one is `none`. -/
def items : Option Pending → List UInt8 → Array (Option Char) → Array (Option Char)
  | none, [], acc => acc
  | some _, [], acc => acc.push none
  | none, b :: rest, acc =>
    match first b.toNat with
    | .inl item => items none rest (acc.push item)
    | .inr pending => items (some pending) rest acc
  | some p, b :: rest, acc =>
    let n := b.toNat
    if p.low ≤ n && n ≤ p.high then
      let bits := p.bits * 64 + (n - 0x80)
      if p.missing ≤ 1 then items none rest (acc.push (some (Char.ofNat bits)))
      else items (some ⟨p.missing - 1, 0x80, 0xBF, bits⟩) rest acc
    else
      match first n with
      | .inl item => items none rest ((acc.push none).push item)
      | .inr pending => items (some pending) rest (acc.push none)

def decode? (bytes : List UInt8) : Option String :=
  ((items none bytes #[]).toList.mapM id).map String.ofList

def decode (bytes : List UInt8) : String :=
  String.ofList ((items none bytes #[]).toList.map (·.getD '\uFFFD'))

/-- A text without the byte order mark at its start. -/
def withoutMark (s : String) : String :=
  match s.toList with
  | '\uFEFF' :: rest => String.ofList rest
  | _ => s

end RuleScan.Utf8
