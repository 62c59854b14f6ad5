import Mathlib.Data.List.Basic
import RuleScan.Rule.Violation

/-! Code units tell strings apart, so code unit order is a linear order on strings. Sorting by a comparison keeps
the order of what it does not tell apart, so part of a list is sorted to part of the sorted list. -/
namespace RuleScan

namespace Units

theorem toList_ofString (s : String) : (ofString s).toList = s.toList.flatMap fun c => ofScalar c.toNat := by
  have hpush : ∀ (us : List UInt16) (acc : Units), (us.foldl Array.push acc).toList = acc.toList ++ us := by
    intro us
    induction us with
    | nil => simp
    | cons u us ih => simp
  have hfold : ∀ (cs : List Char) (acc : Units),
      (cs.foldl (fun acc c => (ofScalar c.toNat).foldl Array.push acc) acc).toList =
        acc.toList ++ cs.flatMap fun c => ofScalar c.toNat := by
    intro cs
    induction cs with
    | nil => simp
    | cons c cs ih =>
      intro acc
      rw [List.foldl_cons, ih, hpush, List.flatMap_cons, List.append_assoc]
  simpa [ofString] using hfold s.toList #[]

theorem toNat_toUInt16 {n : Nat} (h : n < 0x10000) : n.toUInt16.toNat = n := by
  simp only [Nat.toUInt16, UInt16.toNat_ofNat']
  omega

theorem isHigh_iff (u : UInt16) : isHigh u = true ↔ 0xD800 ≤ u.toNat ∧ u.toNat ≤ 0xDBFF := by
  simp only [isHigh, Bool.and_eq_true, decide_eq_true_eq, UInt16.le_iff_toNat_le]
  rfl

theorem isLow_iff (u : UInt16) : isLow u = true ↔ 0xDC00 ≤ u.toNat ∧ u.toNat ≤ 0xDFFF := by
  simp only [isLow, Bool.and_eq_true, decide_eq_true_eq, UInt16.le_iff_toNat_le]
  rfl

theorem decodeList_cons {u : UInt16} (h : ¬isHigh u) (us : List UInt16) (acc : String) :
    decodeList (u :: us) acc = decodeList us (acc.push (charOf u)) := by
  cases us with
  | nil => rfl
  | cons v us => simp [decodeList, h]

/-- A scalar value beyond sixteen bits is that of its two surrogates. -/
theorem joinPair_split {n : Nat} (h : 0x10000 ≤ n) (hn : n < 0x110000) :
    (isHigh (0xD800 + (n - 0x10000) / 0x400).toUInt16 && isLow (0xDC00 + (n - 0x10000) % 0x400).toUInt16) = true ∧
      joinPair (0xD800 + (n - 0x10000) / 0x400).toUInt16 (0xDC00 + (n - 0x10000) % 0x400).toUInt16 = n := by
  have hhigh := toNat_toUInt16 (n := 0xD800 + (n - 0x10000) / 0x400) (by omega)
  have hlow := toNat_toUInt16 (n := 0xDC00 + (n - 0x10000) % 0x400) (by omega)
  constructor
  · rw [Bool.and_eq_true, isHigh_iff, isLow_iff, hhigh, hlow]
    omega
  · unfold joinPair
    omega

/-- The code units of a character read back as that character. -/
theorem decodeList_ofScalar (c : Char) (us : List UInt16) (acc : String) :
    decodeList (ofScalar c.toNat ++ us) acc = decodeList us (acc.push c) := by
  have hvalid : c.toNat < 0xD800 ∨ 0xDFFF < c.toNat ∧ c.toNat < 0x110000 := c.valid
  unfold ofScalar
  split
  · next hsmall =>
    have hunit := toNat_toUInt16 hsmall
    have hhigh : ¬isHigh c.toNat.toUInt16 := by
      rw [isHigh_iff, hunit]
      omega
    have hlow : ¬isLow c.toNat.toUInt16 := by
      rw [isLow_iff, hunit]
      omega
    rw [List.singleton_append, decodeList_cons hhigh]
    simp [charOf, hhigh, hlow, hunit]
  · next hlarge =>
    obtain ⟨hpair, hjoin⟩ := joinPair_split (Nat.not_lt.mp hlarge) (by omega)
    rw [List.cons_append, List.cons_append, List.nil_append, decodeList, if_pos hpair, hjoin, Char.ofNat_toNat]

theorem toText_ofString (s : String) : (ofString s).toText = s := by
  have hdecode : ∀ (cs : List Char) (acc : String),
      decodeList (cs.flatMap fun c => ofScalar c.toNat) acc = acc ++ String.ofList cs := by
    intro cs
    induction cs with
    | nil => simp [decodeList]
    | cons c cs ih =>
      intro acc
      rw [List.flatMap_cons, decodeList_ofScalar, ih]
      apply String.toList_injective
      simp
  rw [toText, toList_ofString, hdecode]
  simp

theorem ofString_injective {s t : String} (h : ofString s = ofString t) : s = t := by
  rw [← toText_ofString s, h, toText_ofString]

end Units

section Sorting

variable {α : Type} {cmp : α → α → Ordering} [Std.TransCmp cmp]

theorem isLE_total (a b : α) : ((cmp a b).isLE || (cmp b a).isLE) = true := by
  have hswap : cmp b a = (cmp a b).swap := Std.OrientedCmp.eq_swap
  rw [hswap]
  cases cmp a b <;> rfl

theorem pairwise_mergeSort_isLE (xs : List α) :
    (xs.mergeSort fun a b => (cmp a b).isLE).Pairwise fun a b => (cmp a b).isLE :=
  List.pairwise_mergeSort (fun _ _ _ => Std.TransCmp.isLE_trans) isLE_total xs

/-- A stable sort by a comparison gives the same list for every order of elements that it tells apart. -/
theorem mergeSort_eq_of_perm {xs ys : List α} (h : xs.Perm ys) (hstrict : ∀ a ∈ xs, ∀ b ∈ xs, cmp a b = .eq → a = b) :
    xs.mergeSort (fun a b => (cmp a b).isLE) = ys.mergeSort fun a b => (cmp a b).isLE := by
  refine List.Perm.eq_of_pairwise ?_ (pairwise_mergeSort_isLE xs) (pairwise_mergeSort_isLE ys) ?_
  · intro a b ha hb hab hba
    have hmem := h.mem_iff.mpr (List.mem_mergeSort.mp hb)
    exact hstrict a (List.mem_mergeSort.mp ha) b hmem (Std.OrientedCmp.isLE_antisymm hab hba)
  · exact (List.mergeSort_perm xs _).trans (h.trans (List.mergeSort_perm ys _).symm)

/-- A stable sort keeps the order of elements that the comparison does not tell apart. -/
theorem filter_mergeSort_isLE (xs : List α) (a : α) :
    (xs.mergeSort fun a b => (cmp a b).isLE).filter (cmp a · = .eq) = xs.filter (cmp a · = .eq) := by
  have htied : (xs.filter (cmp a · = .eq)).Pairwise fun b c => (cmp b c).isLE := by
    refine List.pairwise_of_forall_mem_list fun b hb c hc => ?_
    have hab : cmp a b = .eq := by simpa using (List.mem_filter.mp hb).2
    have hac : cmp a c = .eq := by simpa using (List.mem_filter.mp hc).2
    rw [← Std.TransCmp.congr_left hab, hac]
    rfl
  have hsorted := List.sublist_mergeSort (fun _ _ _ => Std.TransCmp.isLE_trans) isLE_total htied List.filter_sublist
  have hkept := hsorted.filter (cmp a · = .eq)
  simp only [List.filter_filter, Bool.and_self] at hkept
  exact (hkept.eq_of_length ((List.mergeSort_perm xs _).filter _).length_eq.symm).symm

/-- A sorted list is a sublist of another one if this holds for elements that are not told apart. -/
theorem sublist_of_filter_sublist {xs ys : List α} (hxs : xs.Pairwise fun a b => (cmp a b).isLE)
    (hys : ys.Pairwise fun a b => (cmp a b).isLE)
    (h : ∀ a, (xs.filter (cmp a · = .eq)).Sublist (ys.filter (cmp a · = .eq))) : xs.Sublist ys := by
  induction ys generalizing xs with
  | nil =>
    refine List.sublist_nil.mpr (List.eq_nil_iff_forall_not_mem.mpr fun x hx => ?_)
    have hself : x ∈ xs.filter (cmp x · = .eq) := List.mem_filter.mpr ⟨hx, by simp [Std.ReflCmp.compare_self]⟩
    cases (h x).subset hself
  | cons y ys ih =>
    cases xs with
    | nil => exact List.nil_sublist _
    | cons x xs =>
      -- if elements that `y` ties with are found behind it, `y` is not needed
      have hskip (hy : ((x :: xs).filter (cmp y · = .eq)).Sublist (ys.filter (cmp y · = .eq))) :
          (x :: xs).Sublist (y :: ys) := by
        refine .cons _ (ih hxs hys.of_cons fun a => ?_)
        by_cases hay : cmp a y = .eq
        · simpa only [Std.TransCmp.congr_left hay] using hy
        · simpa [List.filter_cons, hay] using h a
      by_cases hyx : cmp y x = .eq
      · have hy := h y
        rw [List.filter_cons_of_pos (by simpa using hyx),
          List.filter_cons_of_pos (by simp [Std.ReflCmp.compare_self])] at hy
        rcases List.cons_sublist_cons'.mp hy with hlater | ⟨rfl, hrest⟩
        · refine hskip ?_
          rwa [List.filter_cons_of_pos (by simpa using hyx)]
        · refine .cons_cons _ (ih hxs.of_cons hys.of_cons fun a => ?_)
          have ha := h a
          by_cases hax : cmp a x = .eq <;> simpa [List.filter_cons, hax] using ha
      · -- nothing in the first list ties with `y`, since `x` comes after it
        refine hskip ?_
        have hx : x ∈ y :: ys := by
          have hself : x ∈ (x :: xs).filter (cmp x · = .eq) := by simp [Std.ReflCmp.compare_self]
          exact (List.mem_filter.mp ((h x).subset hself)).1
        have hle : (cmp y x).isLE := by
          rcases List.mem_cons.mp hx with rfl | hx
          · exact absurd Std.ReflCmp.compare_self hyx
          · exact List.rel_of_pairwise_cons hys hx
        have hnone : (x :: xs).filter (cmp y · = .eq) = [] := by
          refine List.filter_eq_nil_iff.mpr fun z hz => ?_
          simp only [decide_eq_true_eq]
          intro hyz
          have hxz : (cmp x z).isLE := by
            rcases List.mem_cons.mp hz with rfl | hz
            · simp [Std.ReflCmp.compare_self]
            · exact List.rel_of_pairwise_cons hxs hz
          have hzy : (cmp z y).isLE := by simp [Std.OrientedCmp.eq_symm hyz]
          exact hyx (Std.OrientedCmp.isLE_antisymm hle (Std.TransCmp.isLE_trans hxz hzy))
        rw [hnone]
        exact List.nil_sublist _

/-- Sorted lists are equal if elements that are not told apart stand in the same order in both. -/
theorem eq_of_filter_eq {xs ys : List α} (hxs : xs.Pairwise fun a b => (cmp a b).isLE)
    (hys : ys.Pairwise fun a b => (cmp a b).isLE)
    (h : ∀ a, xs.filter (cmp a · = .eq) = ys.filter (cmp a · = .eq)) : xs = ys := by
  have hle : xs.Sublist ys := sublist_of_filter_sublist hxs hys fun a => (h a) ▸ List.Sublist.refl _
  have hge : ys.Sublist xs := sublist_of_filter_sublist hys hxs fun a => (h a) ▸ List.Sublist.refl _
  exact hle.antisymm hge

/-- Sorting keeps a list a sublist of another one if it is one among elements that are not told apart. -/
theorem mergeSort_sublist {xs ys : List α}
    (h : ∀ a, (xs.filter (cmp a · = .eq)).Sublist (ys.filter (cmp a · = .eq))) :
    (xs.mergeSort fun a b => (cmp a b).isLE).Sublist (ys.mergeSort fun a b => (cmp a b).isLE) := by
  refine sublist_of_filter_sublist (pairwise_mergeSort_isLE xs) (pairwise_mergeSort_isLE ys) fun a => ?_
  rw [filter_mergeSort_isLE, filter_mergeSort_isLE]
  exact h a

end Sorting

namespace Text

theorem lt_eq (a b : String) :
    lt a b = (compare (Units.ofString a).toList (Units.ofString b).toList).isLT := by
  have hlex : ∀ us vs : List UInt16, List.lex us vs (· < ·) = (compare us vs).isLT := by
    intro us
    induction us with
    | nil =>
      intro vs
      cases vs <;> rfl
    | cons u us ih =>
      intro vs
      cases vs with
      | nil => rfl
      | cons v vs =>
        rw [List.compare_eq_compareLex, List.compareLex_cons_cons, List.lex, ih, List.compare_eq_compareLex]
        cases hc : compare u v with
        | lt =>
          have hlt : u < v := Std.compare_eq_lt.mp hc
          simp [hlt]
        | eq =>
          obtain rfl : u = v := Std.LawfulEqCmp.eq_of_compare hc
          simp [UInt16.lt_irrefl u]
        | gt =>
          have hgt : v < u := Std.compare_eq_gt.mp hc
          simp [UInt16.lt_asymm hgt, (UInt16.ne_of_lt hgt).symm]
  exact hlex _ _

/-- Code unit order is that of the lists of code units. -/
theorem order_eq_compareOn : order = compareOn fun s => (Units.ofString s).toList := by
  funext a b
  simp only [order, lt_eq, compareOn]
  split
  · next h =>
    subst h
    exact Std.ReflCmp.compare_self.symm
  · next h =>
    have hne : compare (Units.ofString a).toList (Units.ofString b).toList ≠ .eq := by
      intro he
      exact h (Units.ofString_injective (Array.toList_inj.mp (Std.LawfulEqCmp.eq_of_compare he)))
    cases hc : compare (Units.ofString a).toList (Units.ofString b).toList with
    | lt => rfl
    | eq => exact absurd hc hne
    | gt => rfl

/-- Things are ordered by a text of theirs. -/
instance {α : Type} (text : α → String) : Std.TransCmp fun a b => order (text a) (text b) := by
  rw [order_eq_compareOn]
  exact inferInstanceAs (Std.TransCmp (compareOn fun a => (Units.ofString (text a)).toList))

instance : Std.TransCmp order := inferInstanceAs (Std.TransCmp fun a b => order (id a) (id b))

theorem eq_of_order {a b : String} (h : order a b = .eq) : a = b := by
  unfold order at h
  split at h
  · assumption
  · split at h <;> cases h

theorem le_eq (a b : String) : le a b = (order a b).isLE := by
  have hswap : compareOn (fun s => (Units.ofString s).toList) a b =
      (compareOn (fun s => (Units.ofString s).toList) b a).swap := Std.OrientedCmp.eq_swap
  rw [le, lt_eq, order_eq_compareOn, hswap]
  unfold compareOn
  cases compare (Units.ofString b).toList (Units.ofString a).toList <;> rfl

theorem le_trans {a b c : String} (hab : le a b = true) (hbc : le b c = true) : le a c = true := by
  rw [le_eq] at hab hbc ⊢
  exact Std.TransCmp.isLE_trans hab hbc

theorem le_total (a b : String) : (le a b || le b a) = true := by
  rw [le_eq, le_eq]
  exact isLE_total a b

/-- Sorted by a text that tells the elements apart, a list is the same whatever order they came in. -/
theorem mergeSort_le_on_eq_of_perm {α : Type} {text : α → String} {xs ys : List α} (h : xs.Perm ys)
    (hinj : ∀ a ∈ xs, ∀ b ∈ xs, text a = text b → a = b) :
    xs.mergeSort (fun a b => le (text a) (text b)) = ys.mergeSort fun a b => le (text a) (text b) := by
  simp only [le_eq]
  exact mergeSort_eq_of_perm h fun a ha b hb he => hinj a ha b hb (eq_of_order he)

theorem mergeSort_le_eq_of_perm {xs ys : List String} (h : xs.Perm ys) : xs.mergeSort le = ys.mergeSort le :=
  mergeSort_le_on_eq_of_perm h fun _ _ _ _ => id

theorem lt_of_le_of_ne {a b : String} (hle : le a b = true) (hne : a ≠ b) : lt a b = true := by
  rw [le_eq, order, if_neg hne] at hle
  by_contra hlt
  rw [if_neg hlt] at hle
  cases hle

/-- Sorted, texts that are all different ascend. -/
theorem pairwise_lt_sort {xs : List String} (h : xs.Nodup) : (sort xs).Pairwise fun a b => lt a b = true := by
  have hsorted : (sort xs).Pairwise fun a b => le a b = true :=
    @List.pairwise_mergeSort String le (fun _ _ _ => le_trans) le_total xs
  have hnodup : (sort xs).Nodup := (List.mergeSort_perm xs le).nodup_iff.mpr h
  exact (hsorted.and hnodup).imp fun ⟨hle, hne⟩ => lt_of_le_of_ne hle hne

end Text

end RuleScan
