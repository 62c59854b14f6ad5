import Mathlib.Data.List.Basic
import Mathlib.Tactic.NormNum
import RuleScan.Text.Utf8

/-! Decoding against encoding: the bytes that decode are those that some text is encoded by, and they
decode to that text. -/

namespace RuleScan.Utf8

def encode (s : String) : List UInt8 := s.toList.flatMap String.utf8EncodeChar

theorem toByteArray_encode (s : String) : (encode s).toByteArray = s.toByteArray :=
  String.utf8Encode_toList

theorem length_encode (s : String) : (encode s).length = s.utf8ByteSize := by
  rw [← String.size_toByteArray, ← toByteArray_encode, List.size_toByteArray]

/-- The characters that the bytes spell, if none of their items is malformed. -/
def characters? : Option Pending → List UInt8 → Option (List Char)
  | none, [] => some []
  | some _, [] => none
  | none, b :: rest =>
    match first b.toNat with
    | .inl item => item.bind fun c => (characters? none rest).map (c :: ·)
    | .inr pending => characters? (some pending) rest
  | some p, b :: rest =>
    let n := b.toNat
    if p.low ≤ n && n ≤ p.high then
      let bits := p.bits * 64 + (n - 0x80)
      if p.missing ≤ 1 then (characters? none rest).map (Char.ofNat bits :: ·)
      else characters? (some ⟨p.missing - 1, 0x80, 0xBF, bits⟩) rest
    else none

/-- The characters of items none of which is malformed. -/
def whole? (found : Array (Option Char)) : Option (List Char) := found.toList.mapM id

@[simp]
theorem whole?_push (found : Array (Option Char)) (item : Option Char) :
    whole? (found.push item) = (whole? found).bind fun cs => item.map (cs ++ [·]) := by
  cases item <;> simp [whole?, List.mapM_append]

theorem whole?_items (pending : Option Pending) (bytes : List UInt8) (acc : Array (Option Char)) :
    whole? (items pending bytes acc) =
      (whole? acc).bind fun cs => (characters? pending bytes).map (cs ++ ·) := by
  fun_induction items pending bytes acc with
  | case1 acc => simp [characters?]
  | case2 p acc => simp [characters?]
  | case3 acc b rest item h ih =>
    rw [ih]
    cases item <;> simp [characters?, h, Option.bind_assoc, Function.comp_def]
  | case4 acc b rest p h ih => simp [ih, characters?, h]
  | case5 p b rest acc n hn bits hm ih =>
    have hc : characters? (some p) (b :: rest) = (characters? none rest).map (Char.ofNat bits :: ·) := by
      rw [characters?, if_pos hn, if_pos hm]
    simp [ih, hc, Option.bind_assoc, Function.comp_def]
  | case6 p b rest acc n hn bits hm ih =>
    rw [ih, characters?, if_pos hn, if_neg hm]
  | case7 p b rest acc n hn item h ih =>
    have hc : characters? (some p) (b :: rest) = none := by rw [characters?, if_neg hn]
    simp [ih, hc]
  | case8 p b rest acc n hn q h ih =>
    have hc : characters? (some p) (b :: rest) = none := by rw [characters?, if_neg hn]
    simp [ih, hc]

theorem decode?_eq (bytes : List UInt8) : decode? bytes = (characters? none bytes).map String.ofList := by
  have h : whole? (items none bytes #[]) = characters? none bytes := by
    rw [whole?_items]
    simp [whole?]
  rw [decode?, ← h, whole?]

/-- The pending character after one more byte. -/
def Pending.next (p : Pending) (b : UInt8) : Pending :=
  ⟨p.missing - 1, 0x80, 0xBF, p.bits * 64 + (b.toNat - 0x80)⟩

theorem characters?_some_cons {p : Pending} {b : UInt8} (rest : List UInt8) (hl : p.low ≤ b.toNat)
    (hh : b.toNat ≤ p.high) :
    characters? (some p) (b :: rest) =
      if p.missing ≤ 1 then (characters? none rest).map (Char.ofNat (p.next b).bits :: ·)
      else characters? (some (p.next b)) rest := by
  have hr : (decide (p.low ≤ b.toNat) && decide (b.toNat ≤ p.high)) = true := by simp [hl, hh]
  rw [characters?, if_pos hr]
  rfl

theorem in_range_of_characters? {p : Pending} {b : UInt8} {rest : List UInt8} {cs : List Char}
    (h : characters? (some p) (b :: rest) = some cs) : p.low ≤ b.toNat ∧ b.toNat ≤ p.high := by
  by_contra hn
  have hr : ¬(decide (p.low ≤ b.toNat) && decide (b.toNat ≤ p.high)) = true := by simpa using hn
  rw [characters?, if_neg hr] at h
  exact absurd h (by simp)

/-- The last `k` groups of six bits of a number, as bytes that continue a character. -/
def continuation (v : Nat) : Nat → List UInt8
  | 0 => []
  | k + 1 => UInt8.ofNat (0x80 + v / 64 ^ k % 64) :: continuation v k

theorem continuation_succ (v k : Nat) :
    continuation v (k + 1) = UInt8.ofNat (0x80 + v / 64 ^ k % 64) :: continuation v k := rfl

/-- The number `v` is one that a pending character with `k + 1` missing bytes may come to. -/
structure Pending.Allows (p : Pending) (v k : Nat) : Prop where
  missing : p.missing = k + 1
  bits : v / 64 ^ (k + 1) = p.bits
  low : p.low ≤ 0x80 + v / 64 ^ k % 64
  high : 0x80 + v / 64 ^ k % 64 ≤ p.high

theorem toNat_ofNat_group (n : Nat) : (UInt8.ofNat (0x80 + n % 64)).toNat = 0x80 + n % 64 := by
  rw [UInt8.toNat_ofNat']
  omega

theorem div_pow_succ (v k : Nat) : v / 64 ^ (k + 1) = v / 64 ^ k / 64 := by
  rw [Nat.pow_succ, Nat.div_div_eq_div_mul]

theorem Pending.Allows.bits_next {p : Pending} {v k : Nat} (h : p.Allows v k) :
    (p.next (UInt8.ofNat (0x80 + v / 64 ^ k % 64))).bits = v / 64 ^ k := by
  have hb := h.bits
  rw [div_pow_succ] at hb
  simp only [Pending.next, toNat_ofNat_group]
  omega

theorem Pending.Allows.next {p : Pending} {v k : Nat} (h : p.Allows v (k + 1)) :
    (p.next (UInt8.ofNat (0x80 + v / 64 ^ (k + 1) % 64))).Allows v k where
  missing := by simp [Pending.next, h.missing]
  bits := h.bits_next.symm
  low := by simp [Pending.next]
  high := by
    simp only [Pending.next]
    omega

/-- The bytes of a number that a pending character allows complete it. -/
theorem characters?_continuation {v k : Nat} : ∀ {p : Pending} (rest : List UInt8), p.Allows v k →
    characters? (some p) (continuation v (k + 1) ++ rest) =
      (characters? none rest).map (Char.ofNat v :: ·) := by
  induction k with
  | zero =>
    intro p rest h
    rw [continuation, List.cons_append, characters?_some_cons _ (by rw [toNat_ofNat_group]; exact h.low)
      (by rw [toNat_ofNat_group]; exact h.high), if_pos h.missing.le, h.bits_next]
    simp [continuation]
  | succ k ih =>
    intro p rest h
    have hm : ¬p.missing ≤ 1 := by rw [h.missing]; omega
    rw [continuation, List.cons_append, characters?_some_cons _ (by rw [toNat_ofNat_group]; exact h.low)
      (by rw [toNat_ofNat_group]; exact h.high), if_neg hm, ih rest h.next]

/-- Reading a byte back from the number that the bits come to with it. -/
theorem Pending.allows_of_next {p : Pending} {b : UInt8} {v k : Nat} (hm : p.missing = k + 1)
    (hl : 0x80 ≤ p.low) (hh : p.high ≤ 0xBF) (hbl : p.low ≤ b.toNat) (hbh : b.toNat ≤ p.high)
    (hv : v / 64 ^ k = (p.next b).bits) : p.Allows v k ∧ UInt8.ofNat (0x80 + v / 64 ^ k % 64) = b := by
  have hg : 0x80 + v / 64 ^ k % 64 = b.toNat := by
    simp only [Pending.next] at hv
    omega
  refine ⟨⟨hm, ?_, hg ▸ hbl, hg ▸ hbh⟩, ?_⟩
  · simp only [Pending.next] at hv
    rw [div_pow_succ]
    omega
  · rw [hg, UInt8.ofNat_toNat]

/-- Nothing else completes a pending character. -/
theorem exists_allows {k : Nat} : ∀ {p : Pending} {bytes : List UInt8} {cs : List Char},
    p.missing = k + 1 → 0x80 ≤ p.low → p.high ≤ 0xBF → characters? (some p) bytes = some cs →
      ∃ v rest after, p.Allows v k ∧ bytes = continuation v (k + 1) ++ rest ∧
        characters? none rest = some after ∧ cs = Char.ofNat v :: after := by
  induction k with
  | zero =>
    intro p bytes cs hm hl hh h
    cases bytes with
    | nil => simp [characters?] at h
    | cons b rest =>
      obtain ⟨hbl, hbh⟩ := in_range_of_characters? h
      rw [characters?_some_cons rest hbl hbh, if_pos hm.le, Option.map_eq_some_iff] at h
      obtain ⟨after, hafter, rfl⟩ := h
      obtain ⟨ha, hb⟩ := Pending.allows_of_next hm hl hh hbl hbh (v := (p.next b).bits) (by simp)
      exact ⟨_, rest, after, ha, by rw [continuation_succ, hb]; rfl, hafter, rfl⟩
  | succ k ih =>
    intro p bytes cs hm hl hh h
    cases bytes with
    | nil => simp [characters?] at h
    | cons b rest =>
      obtain ⟨hbl, hbh⟩ := in_range_of_characters? h
      rw [characters?_some_cons rest hbl hbh, if_neg (by omega)] at h
      obtain ⟨v, rest, after, hv, rfl, hafter, rfl⟩ := ih (by simp [Pending.next, hm])
        (by simp [Pending.next]) (by simp [Pending.next]) h
      obtain ⟨ha, hb⟩ := Pending.allows_of_next hm hl hh hbl hbh hv.bits
      exact ⟨v, rest, after, ha, by rw [continuation_succ v (k + 1), hb]; rfl, hafter, rfl⟩

/-- The characters of `k + 2` bytes: their number and their first byte. -/
inductive Long (v b : Nat) : Nat → Prop where
  | two : 0x80 ≤ v → v < 0x800 → b = 0xC0 + v / 64 → Long v b 0
  | three : 0x800 ≤ v → v < 0x10000 → v < 0xD800 ∨ 0xE000 ≤ v → b = 0xE0 + v / 4096 → Long v b 1
  | four : 0x10000 ≤ v → v < 0x110000 → b = 0xF0 + v / 262144 → Long v b 2

theorem Long.isValidChar {v b k : Nat} (h : Long v b k) : v.isValidChar := by
  cases h <;> simp only [Nat.isValidChar] <;> omega

theorem Long.lt {v b k : Nat} (h : Long v b k) : b < 256 := by
  cases h <;> omega

theorem exists_long {v : Nat} (hv : v.isValidChar) (h : 0x80 ≤ v) : ∃ b k, Long v b k := by
  simp only [Nat.isValidChar] at hv
  rcases Nat.lt_or_ge v 0x800 with h2 | h2
  · exact ⟨_, _, .two h h2 rfl⟩
  rcases Nat.lt_or_ge v 0x10000 with h3 | h3
  · exact ⟨_, _, .three h2 h3 (by omega) rfl⟩
  · exact ⟨_, _, .four h3 (by omega) rfl⟩

theorem toNat_val_ofNat {v : Nat} (hv : v.isValidChar) : (Char.ofNat v).val.toNat = v := by
  rw [Char.ofNat, dif_pos hv]
  rfl

theorem Long.encode_eq {v b k : Nat} (h : Long v b k) :
    String.utf8EncodeChar (Char.ofNat v) = UInt8.ofNat b :: continuation v (k + 1) := by
  have hv := toNat_val_ofNat h.isValidChar
  cases h with
  | two h₁ h₂ hb =>
    have hd : v / 64 % 0x20 + 0xC0 = b := by omega
    rw [String.utf8EncodeChar, hv, if_neg (by omega), if_pos (by omega), hd]
    simp [continuation, Nat.add_comm]
  | three h₁ h₂ h₃ hb =>
    have hd : v / 4096 % 0x10 + 0xE0 = b := by omega
    rw [String.utf8EncodeChar, hv, if_neg (by omega), if_neg (by omega), if_pos (by omega), hd]
    simp [continuation, Nat.add_comm]
  | four h₁ h₂ hb =>
    have hd : v / 262144 % 0x08 + 0xF0 = b := by omega
    rw [String.utf8EncodeChar, hv, if_neg (by omega), if_neg (by omega), if_neg (by omega), hd]
    simp [continuation, Nat.add_comm]

-- The first byte fixes the range of the second where a shorter form, a surrogate or a number that is
-- too large has to be kept out: these are the cases of `first` besides the three lengths.
theorem Long.exists_first {v b k : Nat} (h : Long v b k) : ∃ p, first b = .inr p ∧ p.Allows v k := by
  unfold first
  cases h with
  | two h₁ h₂ hb =>
    rw [if_neg (by omega), if_neg (by omega), if_pos (by omega)]
    exact ⟨_, rfl, rfl, by simp; omega, by simp, by simp; omega⟩
  | three h₁ h₂ h₃ hb =>
    rw [if_neg (by omega), if_neg (by omega), if_neg (by omega)]
    split_ifs
    · exact ⟨_, rfl, rfl, by simp; omega, by simp; omega, by simp; omega⟩
    · exact ⟨_, rfl, rfl, by simp; omega, by simp, by simp; omega⟩
    · exact ⟨_, rfl, rfl, by simp; omega, by simp, by simp; omega⟩
    all_goals omega
  | four h₁ h₂ hb =>
    rw [if_neg (by omega), if_neg (by omega), if_neg (by omega), if_neg (by omega), if_neg (by omega),
      if_neg (by omega)]
    split_ifs
    · exact ⟨_, rfl, rfl, by simp; omega, by simp; omega, by simp; omega⟩
    · exact ⟨_, rfl, rfl, by simp; omega, by simp, by simp; omega⟩
    · exact ⟨_, rfl, rfl, by simp; omega, by simp, by simp; omega⟩
    · omega

theorem Pending.Allows.three {v b low high bits : Nat} (h : Pending.Allows ⟨2, low, high, bits⟩ v 1)
    (hb : b = 0xE0 + bits) (hlt : bits < 16) (hl : bits = 0 → 0xA0 ≤ low) (hh : bits = 0xD → high ≤ 0x9F) :
    Long v b 1 := by
  have h₁ : v / 4096 = bits := h.bits
  have h₂ : low ≤ 0x80 + v / 64 ^ 1 % 64 := h.low
  have h₃ : 0x80 + v / 64 ^ 1 % 64 ≤ high := h.high
  exact .three (by omega) (by omega) (by omega) (by omega)

theorem Pending.Allows.four {v b low high bits : Nat} (h : Pending.Allows ⟨3, low, high, bits⟩ v 2)
    (hb : b = 0xF0 + bits) (hlt : bits < 5) (hl : bits = 0 → 0x90 ≤ low) (hh : bits = 4 → high ≤ 0x8F) :
    Long v b 2 := by
  have h₁ : v / 262144 = bits := h.bits
  have h₂ : low ≤ 0x80 + v / 64 ^ 2 % 64 := h.low
  have h₃ : 0x80 + v / 64 ^ 2 % 64 ≤ high := h.high
  exact .four (by omega) (by omega) (by omega)

theorem long_of_first {b : Nat} {p : Pending} (h : first b = .inr p) :
    ∃ k, p.missing = k + 1 ∧ 0x80 ≤ p.low ∧ p.high ≤ 0xBF ∧ ∀ v, p.Allows v k → Long v b k := by
  unfold first at h
  split_ifs at h <;> cases h
  · refine ⟨0, rfl, by simp, by simp, fun v ha => ?_⟩
    have hb : v / 64 = b - 0xC0 := ha.bits
    exact .two (by omega) (by omega) (by omega)
  · exact ⟨1, rfl, by simp, by simp, fun v ha => ha.three (by omega) (by omega) (by omega) (by omega)⟩
  · exact ⟨1, rfl, by simp, by simp, fun v ha => ha.three (by omega) (by omega) (by omega) (by omega)⟩
  · exact ⟨1, rfl, by simp, by simp, fun v ha => ha.three (by omega) (by omega) (by omega) (by omega)⟩
  · exact ⟨2, rfl, by simp, by simp, fun v ha => ha.four (by omega) (by omega) (by omega) (by omega)⟩
  · exact ⟨2, rfl, by simp, by simp, fun v ha => ha.four (by omega) (by omega) (by omega) (by omega)⟩
  · exact ⟨2, rfl, by simp, by simp, fun v ha => ha.four (by omega) (by omega) (by omega) (by omega)⟩

theorem first_eq_inl_iff {b : Nat} {c : Char} : first b = .inl (some c) ↔ b < 0x80 ∧ c = Char.ofNat b := by
  unfold first
  split_ifs <;> simp [*, eq_comm]

theorem utf8EncodeChar_of_lt {v : Nat} (h : v < 0x80) : String.utf8EncodeChar (Char.ofNat v) = [UInt8.ofNat v] := by
  have hv : v.isValidChar := .inl (by omega)
  rw [String.utf8EncodeChar, toNat_val_ofNat hv, if_pos (by omega)]

theorem toNat_ofNat_of_lt {b : Nat} (h : b < 256) : (UInt8.ofNat b).toNat = b := by
  rw [UInt8.toNat_ofNat', Nat.mod_eq_of_lt h]

theorem characters?_utf8EncodeChar (c : Char) (rest : List UInt8) :
    characters? none (String.utf8EncodeChar c ++ rest) = (characters? none rest).map (c :: ·) := by
  obtain ⟨v, hv, rfl⟩ : ∃ v : Nat, v.isValidChar ∧ c = Char.ofNat v := ⟨c.toNat, c.valid, c.ofNat_toNat.symm⟩
  by_cases h : v < 0x80
  · have hf : first v = .inl (some (Char.ofNat v)) := first_eq_inl_iff.2 ⟨h, rfl⟩
    simp [utf8EncodeChar_of_lt h, characters?, toNat_ofNat_of_lt (by omega : v < 256), hf]
  · obtain ⟨b, k, hl⟩ := exists_long hv (by omega)
    obtain ⟨p, hf, ha⟩ := hl.exists_first
    rw [hl.encode_eq, List.cons_append, characters?, toNat_ofNat_of_lt hl.lt, hf]
    exact characters?_continuation rest ha

/-- Nothing is read but from its encoding. -/
theorem exists_utf8EncodeChar {bytes : List UInt8} {cs : List Char} (h : characters? none bytes = some cs) :
    bytes = [] ∧ cs = [] ∨ ∃ c rest after, bytes = String.utf8EncodeChar c ++ rest ∧
      characters? none rest = some after ∧ cs = c :: after := by
  cases bytes with
  | nil => simp_all [characters?]
  | cons b rest =>
    right
    rw [characters?] at h
    split at h
    case h_1 item hf =>
      obtain ⟨c, rfl, h⟩ := Option.bind_eq_some_iff.1 h
      obtain ⟨after, ha, rfl⟩ := Option.map_eq_some_iff.1 h
      obtain ⟨hb, rfl⟩ := first_eq_inl_iff.1 hf
      exact ⟨_, rest, after, by simp [utf8EncodeChar_of_lt hb], ha, rfl⟩
    case h_2 p hf =>
      obtain ⟨k, hm, hl, hh, hlong⟩ := long_of_first hf
      obtain ⟨v, rest, after, ha, rfl, hafter, rfl⟩ := exists_allows hm hl hh h
      refine ⟨Char.ofNat v, rest, after, ?_, hafter, rfl⟩
      rw [(hlong v ha).encode_eq, UInt8.ofNat_toNat, List.cons_append]

theorem characters?_none_iff (bytes : List UInt8) (cs : List Char) :
    characters? none bytes = some cs ↔ bytes = cs.flatMap String.utf8EncodeChar := by
  constructor
  · intro h
    induction cs generalizing bytes with
    | nil =>
      obtain ⟨rfl, -⟩ | ⟨c, rest, after, -, -, h⟩ := exists_utf8EncodeChar h
      · rfl
      · cases h
    | cons c cs ih =>
      obtain ⟨-, h⟩ | ⟨c, rest, after, rfl, hr, h⟩ := exists_utf8EncodeChar h
      · cases h
      · cases h
        rw [ih rest hr, List.flatMap_cons]
  · rintro rfl
    induction cs with
    | nil => rfl
    | cons c cs ih => rw [List.flatMap_cons, characters?_utf8EncodeChar, ih, Option.map_some]

theorem decode?_eq_some_iff (bytes : List UInt8) (s : String) : decode? bytes = some s ↔ bytes = encode s := by
  rw [decode?_eq, Option.map_eq_some_iff]
  constructor
  · rintro ⟨cs, h, rfl⟩
    rw [encode, String.toList_ofList]
    exact (characters?_none_iff bytes cs).1 h
  · rintro h
    exact ⟨s.toList, (characters?_none_iff bytes s.toList).2 h, String.ofList_toList⟩

/-- The bytes that decode are the well-formed ones. -/
theorem isSome_decode?_iff (bytes : List UInt8) :
    (decode? bytes).isSome ↔ bytes.toByteArray.IsValidUTF8 := by
  rw [Option.isSome_iff_exists]
  constructor
  · rintro ⟨s, h⟩
    rw [(decode?_eq_some_iff bytes s).1 h, toByteArray_encode]
    exact s.isValidUTF8
  · rintro ⟨cs, h⟩
    refine ⟨String.ofList cs, (decode?_eq_some_iff bytes _).2 ?_⟩
    rw [← String.toByteArray_ofList, ← toByteArray_encode] at h
    simpa using congrArg (fun a => a.data.toList) h

end RuleScan.Utf8
