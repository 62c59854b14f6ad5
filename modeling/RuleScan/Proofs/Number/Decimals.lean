import Mathlib.Data.Nat.Digits.Defs
import RuleScan.Config.Loading
import RuleScan.Proofs.Number.Texts

/-! What a natural number becomes in binary64: it keeps 53 significant bits, and from a limit on it is infinite. So a
text of decimal digits stands for a whole number that is positive or for an infinite one, however long it is. -/
namespace RuleScan

namespace Number

/-- The least natural number that rounds to an infinite one. -/
@[irreducible]
def leastInfinite : Nat := 2 ^ 1024 - 2 ^ 970

/-- A natural number rounded to 53 significant bits, a half to the even neighbour. -/
def rounded (n : Nat) : Nat := roundDiv n (2 ^ (n.log2 - 52)) * 2 ^ (n.log2 - 52)

/-! Quotients. -/

theorem roundDiv_one (n : Nat) : roundDiv n 1 = n := by
  simp [roundDiv, Nat.mod_one]

theorem roundDiv_bounds (num den : Nat) : num / den ≤ roundDiv num den ∧ roundDiv num den ≤ num / den + 1 := by
  unfold roundDiv
  dsimp only
  split_ifs <;> omega

/-- A half goes to the neighbour behind an odd number. -/
theorem odd_lt_roundDiv_iff {num half k : Nat} (hhalf : 0 < half) (hk : k % 2 = 1) :
    k < roundDiv num (2 * half) ↔ 2 * half * k + half ≤ num := by
  have hdiv := Nat.div_add_mod num (2 * half)
  have hmod : num % (2 * half) < 2 * half := Nat.mod_lt _ (by omega)
  obtain ⟨hlow, hhigh⟩ := roundDiv_bounds num (2 * half)
  rcases Nat.lt_trichotomy (num / (2 * half)) k with hlt | heq | hgt
  · have hle : 2 * half * (num / (2 * half) + 1) ≤ 2 * half * k := Nat.mul_le_mul_left _ hlt
    rw [Nat.mul_add] at hle
    omega
  · have hround : roundDiv num (2 * half) = if num % (2 * half) < half then k else k + 1 := by
      unfold roundDiv
      rw [heq]
      dsimp only
      split_ifs <;> omega
    rw [heq] at hdiv
    rw [hround]
    split_ifs <;> omega
  · have hle : 2 * half * (k + 1) ≤ 2 * half * (num / (2 * half)) := Nat.mul_le_mul_left _ hgt
    rw [Nat.mul_add] at hle
    omega

/-! Powers of two. -/

theorem scaleDown_natCast (num den k : Nat) : scaleDown num den k = (num, den * 2 ^ k) := by
  rw [scaleDown, if_pos (Int.natCast_nonneg k)]
  rfl

theorem floorLog2_one {n : Nat} (hn : n ≠ 0) : floorLog2 n 1 = n.log2 := by
  have hlog : (n.log2 : Int) - Nat.log2 1 = n.log2 := Int.sub_zero _
  unfold floorLog2
  rw [hlog]
  simp only [scaleDown_natCast, Nat.one_mul, if_pos (Nat.log2_self_le hn)]

theorem ofIntWithPrec_neg (m : Int) (k : Nat) :
    Dyadic.ofIntWithPrec m (-(k : Int)) = Dyadic.ofIntWithPrec (m * 2 ^ k) 0 := by
  have hshift := @Dyadic.ofIntWithPrec_shiftLeft_add m (-(k : Int)) k
  rw [Int.shiftLeft_eq, Int.add_left_neg] at hshift
  exact hshift.symm

theorem ofIntWithPrec_mul_two_pow (m : Int) (k : Nat) :
    Dyadic.ofIntWithPrec (m * 2 ^ k) k = Dyadic.ofIntWithPrec m 0 := by
  have hshift := @Dyadic.ofIntWithPrec_shiftLeft_add m 0 k
  rwa [Int.shiftLeft_eq, Int.zero_add] at hshift

theorem odd_lt_roundDiv_two_pow_iff (n j : Nat) {k : Nat} (hk : k % 2 = 1) :
    k < roundDiv n (2 ^ (j + 1)) ↔ 2 ^ (j + 1) * k + 2 ^ j ≤ n := by
  rw [Nat.pow_succ']
  exact odd_lt_roundDiv_iff (Nat.two_pow_pos j) hk

theorem leastInfinite_eq {j : Nat} (hj : j = 970) : leastInfinite = 2 ^ (j + 1) * (2 ^ 53 - 1) + 2 ^ j := by
  have hpow : 2 ^ 1024 = 2 ^ j * 2 ^ 54 := by rw [show 1024 = j + 54 by omega, Nat.pow_add]
  unfold leastInfinite
  rw [hpow, ← hj, Nat.pow_succ]
  omega

theorem two_pow_lt_leastInfinite : 2 ^ 1023 < leastInfinite := by
  obtain ⟨j, hj⟩ : ∃ j, j = 970 := ⟨970, rfl⟩
  have hpow : 2 ^ 1023 = 2 ^ j * 2 ^ 53 := by rw [show 1023 = j + 53 by omega, Nat.pow_add]
  have hpos : 0 < 2 ^ j := Nat.two_pow_pos j
  rw [leastInfinite_eq hj, hpow, Nat.pow_succ]
  omega

theorem leastInfinite_lt_two_pow : leastInfinite < 2 ^ 1024 := by
  unfold leastInfinite
  exact Nat.sub_lt (pow_pos (by decide) 1024) (pow_pos (by decide) 970)

theorem two_pow_le_ten_pow : 2 ^ 1024 ≤ 10 ^ 400 :=
  calc 2 ^ 1024
    _ ≤ 2 ^ (3 * 400) := pow_right_mono₀ (by decide) (by decide)
    _ = (2 ^ 3) ^ 400 := pow_mul 2 3 400
    _ ≤ 10 ^ 400 := pow_le_pow_left₀ (by decide) (by decide) 400

theorem lt_leastInfinite_of_lt {n k : Nat} (h : n < 2 ^ k) (hk : k ≤ 1023) : n < leastInfinite := by
  have hle : 2 ^ k ≤ 2 ^ 1023 := pow_right_mono₀ (by decide) hk
  exact Nat.lt_trans (Nat.lt_of_lt_of_le h hle) two_pow_lt_leastInfinite

/-- A number of at least 53 bits overflows if what is left of it after rounding does. -/
theorem overflows_iff {n k : Nat} (hlow : 2 ^ (k + 52) ≤ n) (hhigh : n < 2 ^ (k + 53)) :
    2 ^ 53 ≤ roundDiv n (2 ^ k) ∧ 971 ≤ k ∨ 972 ≤ k ↔ leastInfinite ≤ n := by
  rcases Nat.lt_trichotomy k 971 with hlt | heq | hgt
  · have hbelow : n < leastInfinite := lt_leastInfinite_of_lt hhigh (by omega)
    refine iff_of_false ?_ (Nat.not_le.mpr hbelow)
    rintro (h | h) <;> omega
  · obtain ⟨j, hj, rfl⟩ : ∃ j, j = 970 ∧ k = j + 1 := ⟨970, rfl, heq⟩
    have hiff : 2 ^ 53 - 1 < roundDiv n (2 ^ (j + 1)) ↔ leastInfinite ≤ n := by
      rw [leastInfinite_eq hj]
      exact odd_lt_roundDiv_two_pow_iff n j (by decide)
    rw [← hiff]
    omega
  · have hle : 2 ^ 1024 ≤ 2 ^ (k + 52) := pow_right_mono₀ (by decide) (by omega)
    exact iff_of_true (.inr hgt) (Nat.le_trans leastInfinite_lt_two_pow.le (Nat.le_trans hle hlow))

theorem ofRatio_one {n : Nat} (hn : n ≠ 0) :
    ofRatio false n 1 = if leastInfinite ≤ n then .infinite false else ofNat (rounded n) := by
  have hself := Nat.log2_self_le hn
  have hlt : n < 2 ^ (n.log2 + 1) := Nat.lt_log2_self
  unfold ofRatio
  rw [if_neg hn, floorLog2_one hn]
  by_cases hlog : 52 ≤ n.log2
  · obtain ⟨k, hk⟩ := Nat.exists_eq_add_of_le' hlog
    have hexponent : max ((n.log2 : Int) - 52) (-1074) = (k : Int) := by omega
    have hrounded : rounded n = roundDiv n (2 ^ k) * 2 ^ k := by rw [rounded, hk, Nat.add_sub_cancel]
    rw [hk] at hself hlt
    have hover := overflows_iff hself hlt
    simp only [hexponent, scaleDown_natCast, Nat.one_mul]
    by_cases hlimit : leastInfinite ≤ n
    · rw [if_pos hlimit, if_pos]
      have hcondition := hover.mpr hlimit
      simp only [Bool.or_eq_true, Bool.and_eq_true, decide_eq_true_eq]
      exact hcondition.imp (fun h => ⟨h.1, by omega⟩) (fun h => by omega)
    · have hnot := mt hover.mp hlimit
      rw [if_neg hlimit, if_neg]
      · rw [hrounded, ofNat, ofInt, if_neg Bool.false_ne_true, ofIntWithPrec_neg]
        push_cast
        rfl
      · simp only [Bool.or_eq_true, Bool.and_eq_true, decide_eq_true_eq]
        intro hcondition
        exact hnot (hcondition.imp (fun h => ⟨h.1, by omega⟩) (fun h => by omega))
  · -- such a number is scaled up, and nothing is rounded
    obtain ⟨k, hk⟩ : ∃ k : Nat, n.log2 + k = 52 := ⟨52 - n.log2, by omega⟩
    have hexponent : max ((n.log2 : Int) - 52) (-1074) = -(k : Int) := by omega
    have hrounded : rounded n = n := by
      have hzero : n.log2 - 52 = 0 := by omega
      rw [rounded, hzero, Nat.pow_zero, roundDiv_one, Nat.mul_one]
    have hsmall : ¬leastInfinite ≤ n := Nat.not_le.mpr (lt_leastInfinite_of_lt hlt (by omega))
    have hscale : scaleDown n 1 (-(k : Int)) = (n * 2 ^ k, 1) := by
      unfold scaleDown
      split
      · have hzero : k = 0 := by omega
        subst hzero
        simp
      · rw [Int.neg_neg]
        rfl
    simp only [hexponent, hscale, roundDiv_one]
    rw [if_neg hsmall, if_neg]
    · rw [hrounded, ofNat, ofInt, if_neg Bool.false_ne_true, Int.neg_neg, ← ofIntWithPrec_mul_two_pow n k]
      push_cast
      rfl
    · simp only [Bool.or_eq_true, Bool.and_eq_true, decide_eq_true_eq]
      omega

theorem ofDecimal_natural {n : Nat} (hn : n ≠ 0) :
    ofDecimal false n 0 = if leastInfinite ≤ n then .infinite false else ofNat (rounded n) := by
  rw [← ofRatio_one hn]
  unfold ofDecimal
  simp only [if_neg hn, Int.add_zero]
  by_cases hlong : (400 : Int) < (Nat.toDigits 10 n).length
  · have hlimit : leastInfinite ≤ n := by
      have hpow : leastInfinite ≤ 10 ^ 400 := leastInfinite_lt_two_pow.le.trans two_pow_le_ten_pow
      have hge : 10 ^ 400 ≤ n := by
        by_contra hlt
        have hlength := Nat.toDigits_length 10 n 400 (by decide) (Nat.lt_of_not_le hlt)
        omega
      exact Nat.le_trans hpow hge
    rw [if_pos hlong, ofRatio_one hn, if_pos hlimit]
  · have hshort : ¬((Nat.toDigits 10 n).length : Int) < -400 := by omega
    rw [if_neg hlong, if_neg hshort, if_pos (Int.le_refl 0)]
    congr 1
    exact Nat.mul_one n

theorem rounded_pos {n : Nat} (hn : n ≠ 0) : 0 < rounded n := by
  have hself := Nat.log2_self_le hn
  have hle : 2 ^ (n.log2 - 52) ≤ n := Nat.le_trans (Nat.pow_le_pow_right (by decide) (Nat.sub_le _ _)) hself
  have hquotient : 0 < n / 2 ^ (n.log2 - 52) := Nat.div_pos hle (Nat.two_pow_pos _)
  exact Nat.mul_pos (Nat.lt_of_lt_of_le hquotient (roundDiv_bounds _ _).1) (Nat.two_pow_pos _)

theorem sign_ofInt_pos {n : Int} (hn : 0 < n) : 0 < (ofInt n).sign := by
  unfold ofInt Dyadic.ofIntWithPrec
  rw [dif_neg hn.ne']
  have hback : n >>> n.trailingZeros * 2 ^ n.trailingZeros = n := by
    rw [Int.shiftRight_eq_div_pow]
    exact Int.ediv_mul_cancel (Int.two_pow_trailingZeros_dvd hn.ne')
  have hodd : 0 < n >>> n.trailingZeros := by
    rw [← hback] at hn
    exact pos_of_mul_pos_left hn (by positivity)
  exact Int.sign_pos_iff.mpr hodd

/-- A number that is equal to a whole one is that number. -/
theorem eq_ofInt_of_toInt? {x : Number} {n : Int} (h : x.toInt? = some n) : x = ofInt n := by
  cases x with
  | infinite negative => cases h
  | finite d =>
    cases d with
    | zero =>
      obtain rfl : 0 * Int.pow 2 0 = n := Option.some.inj h
      rfl
    | ofOdd m k hodd =>
      rw [toInt?, scaled] at h
      dsimp only at h
      split at h
      · next j hexponent =>
        obtain rfl : m * Int.pow 2 j = n := Option.some.inj h
        obtain rfl : k = -(j : Int) := by
          rw [← neg_eq_iff_eq_neg]
          exact hexponent
        rw [Dyadic.ofOdd_eq_ofIntWithPrec, ofIntWithPrec_neg]
        rfl
      · cases h

theorem eq_ofNat_of_toNat? {x : Number} {n : Nat} (h : x.toNat? = some n) : x = ofNat n := by
  rw [toNat?] at h
  split at h
  · next m hm =>
    cases h
    exact eq_ofInt_of_toInt? hm
  · cases h

/-! Texts. -/

/-- The natural number that a text of decimal digits stands for, blanks around it apart. -/
def decimal? (s : String) : Option Nat :=
  let digits := (Text.trim s).toList
  if digits.isEmpty || !digits.all Char.isDigit then none
  else some (digits.foldl (fun n c => n * 10 + (c.toNat - 48)) 0)

theorem isBlank_of_isDigit {c : Char} (h : c.isDigit = true) : Text.isBlank c = false := by
  have hbounds : 48 ≤ c.toNat ∧ c.toNat ≤ 57 := by simpa [Char.isDigit, UInt32.le_iff_toNat_le] using h
  simp only [Text.isBlank, Text.isBlankCode]
  grind

theorem dropWhile_isBlank_of_digits {cs : List Char} (h : ∀ c ∈ cs, c.isDigit = true) :
    cs.dropWhile Text.isBlank = cs := by
  cases cs with
  | nil => rfl
  | cons c rest => rw [List.dropWhile_cons, isBlank_of_isDigit (h c List.mem_cons_self), if_neg Bool.false_ne_true]

theorem decimal?_ofList {cs : List Char} (hne : cs ≠ []) (h : ∀ c ∈ cs, c.isDigit = true) :
    decimal? (String.ofList cs) = some (cs.foldl (fun n c => n * 10 + (c.toNat - 48)) 0) := by
  have hreverse : ∀ c ∈ cs.reverse, c.isDigit = true := fun c hc => h c (List.mem_reverse.mp hc)
  have htrim : (Text.trim (String.ofList cs)).toList = cs := by
    rw [Text.trim, String.toList_ofList, String.toList_ofList, dropWhile_isBlank_of_digits h,
      dropWhile_isBlank_of_digits hreverse, List.reverse_reverse]
  have hempty : cs.isEmpty = false := by simpa using hne
  have hall : cs.all Char.isDigit = true := List.all_eq_true.mpr h
  unfold decimal?
  simp only [htrim, hempty, hall]
  rfl

/-- A text of digits stands for a positive number, which is finite below the least infinite one and infinite from there
on. -/
theorem positiveDecimal?_eq (s : String) : positiveDecimal? s =
    ((decimal? s).filter (0 < ·)).map fun n => if leastInfinite ≤ n then .infinite false else ofNat (rounded n) := by
  unfold positiveDecimal? decimal?
  dsimp only
  split
  · rfl
  · generalize (Text.trim s).toList.foldl (fun n c => n * 10 + (c.toNat - 48)) 0 = n
    by_cases hn : n = 0
    · subst hn
      rfl
    · have hpositive : 0 < sign (ofDecimal false n 0) := by
        rw [ofDecimal_natural hn]
        split
        · exact Int.one_pos
        · exact sign_ofInt_pos (Int.natCast_pos.mpr (rounded_pos hn))
      have hkept : decide (0 < n) = true := decide_eq_true (Nat.pos_of_ne_zero hn)
      rw [if_pos hpositive, ofDecimal_natural hn, Option.filter_some, if_pos hkept, Option.map_some]

end Number

end RuleScan
