import Mathlib.Data.List.Basic
import RuleScan.Number.Shortest

/-! Whole numbers are read back as they were given. The text of a finite number is made of digits, signs, the point
and the mark of the exponent only, so it ends where anything else begins. -/
namespace RuleScan

namespace Number

theorem toInt?_ofInt (n : Int) : (ofInt n).toInt? = some n := by
  unfold ofInt Dyadic.ofIntWithPrec
  split
  · next hn =>
    rw [hn]
    rfl
  · next hn =>
    have hexponent : -(0 - (n.trailingZeros : Int)) = Int.ofNat n.trailingZeros := by simp
    have hback : n >>> n.trailingZeros * 2 ^ n.trailingZeros = n := by
      rw [Int.shiftRight_eq_div_pow]
      exact Int.ediv_mul_cancel (Int.two_pow_trailingZeros_dvd hn)
    simp only [toInt?, scaled, hexponent]
    exact congrArg some hback

theorem toNat?_ofNat (n : Nat) : (ofNat n).toNat? = some n := by
  simp only [toNat?, ofNat, toInt?_ofInt]

/-- The characters that texts of finite numbers are made of. -/
def isTextChar (c : Char) : Bool := c.isDigit || c = '-' || c = '+' || c = '.' || c = 'e'

/-- Such characters only, and at least one. -/
def Spelt (s : String) : Prop := s.toList ≠ [] ∧ ∀ c ∈ s.toList, isTextChar c = true

namespace Spelt

variable {s t : String}

theorem of_list {cs : List Char} (hne : cs ≠ []) (h : ∀ c ∈ cs, isTextChar c = true) : Spelt (String.ofList cs) := by
  rw [Spelt, String.toList_ofList]
  exact ⟨hne, h⟩

theorem append (hs : Spelt s) (ht : ∀ c ∈ t.toList, isTextChar c = true) : Spelt (s ++ t) := by
  rw [Spelt, String.toList_append]
  refine ⟨List.append_ne_nil_of_left_ne_nil hs.1 _, fun c hc => ?_⟩
  exact (List.mem_append.mp hc).elim (hs.2 c) (ht c)

end Spelt

theorem isTextChar_of_mem_toDigits {n : Nat} {c : Char} (h : c ∈ Nat.toDigits 10 n) : isTextChar c = true := by
  simp [isTextChar, Nat.isDigit_of_mem_toDigits (by decide) (by decide) h]

theorem spelt_digits (n : Nat) : Spelt (digits n) :=
  .of_list Nat.toDigits_ne_nil fun _ => isTextChar_of_mem_toDigits

theorem isTextChar_of_mem_zeros (n : Nat) : ∀ c ∈ ("".pushn '0' n).toList, isTextChar c = true := by
  rw [String.pushn_eq_repeat_push]
  induction n with
  | zero => simp [Nat.repeat]
  | succ n ih =>
    intro c hc
    rw [Nat.repeat, String.toList_push, List.mem_append] at hc
    rcases hc with hc | hc
    · exact ih c hc
    · rw [List.mem_singleton.mp hc]
      decide

theorem spelt_layout (c : Nat) (e : Int) : Spelt (layout c e) := by
  have hdigits : ∀ d ∈ Nat.toDigits 10 c, isTextChar d = true := fun d => isTextChar_of_mem_toDigits
  have hne : Nat.toDigits 10 c ≠ [] := Nat.toDigits_ne_nil
  have hall : Spelt (String.ofList (Nat.toDigits 10 c)) := .of_list hne hdigits
  unfold layout
  dsimp only
  split
  · exact hall.append (isTextChar_of_mem_zeros _)
  split
  · next hpoint =>
    simp only [Bool.and_eq_true, decide_eq_true_eq] at hpoint
    have htake : (Nat.toDigits 10 c).take ((Nat.toDigits 10 c).length + e).toNat ≠ [] := by
      simp only [ne_eq, List.take_eq_nil_iff, hne, or_false]
      omega
    have hfront := Spelt.of_list htake fun d hd => hdigits d (List.mem_of_mem_take hd)
    refine (hfront.append (List.all_eq_true.mp (by decide))).append fun d hd => ?_
    rw [String.toList_ofList] at hd
    exact hdigits d (List.mem_of_mem_drop hd)
  split
  · have hpoint : Spelt "0." := ⟨by decide, List.all_eq_true.mp (by decide)⟩
    exact (hpoint.append (isTextChar_of_mem_zeros _)).append hall.2
  · refine Spelt.append (.append (.append ?_ ?_) ?_) (spelt_digits _).2
    · split
      · next d r rest heq =>
        rw [heq] at hdigits
        simp only [List.mem_cons, forall_eq_or_imp] at hdigits
        refine .of_list (by simp) ?_
        simp only [List.mem_cons, forall_eq_or_imp]
        exact ⟨hdigits.1, by decide, hdigits.2⟩
      · exact hall
    · exact List.all_eq_true.mp (by decide)
    · split <;> exact List.all_eq_true.mp (by decide)

theorem spelt_render (d : Dyadic) : Spelt (render (.finite d)) := by
  unfold render
  dsimp only
  split
  · exact ⟨by decide, List.all_eq_true.mp (by decide)⟩
  · split
    · exact Spelt.append ⟨by decide, List.all_eq_true.mp (by decide)⟩ (spelt_layout _ _).2
    · rw [String.empty_append]
      exact spelt_layout _ _


end Number

end RuleScan
