import Mathlib.Algebra.BigOperators.Group.List.Basic
import Mathlib.Algebra.Ring.Int.Defs
import Mathlib.Data.List.Pairwise
import RuleScan.Proofs.Text.Order
import RuleScan.Rule.Violation

/-! Edits put into a text one at a time. Main statement: a fix is applied if its edits lie in the text and apart from
each other, and then as if they were made one by one from the end of the text. -/
namespace RuleScan

namespace Edit

abbrev start (e : Edit) : Int := e.location.startOffset

abbrev stop (e : Edit) : Int := e.location.endOffset

/-- The edit replaces a stretch of a text of this length. -/
structure Inside (length : Nat) (e : Edit) : Prop where
  nonneg : 0 ≤ e.start
  ordered : e.start ≤ e.stop
  bounded : e.stop ≤ length

theorem inside_iff {length : Nat} {e : Edit} :
    e.Inside length ↔ 0 ≤ e.start ∧ e.start ≤ e.stop ∧ e.stop ≤ length :=
  ⟨fun h => ⟨h.nonneg, h.ordered, h.bounded⟩, fun ⟨h, h', h''⟩ => ⟨h, h', h''⟩⟩

instance (length : Nat) (e : Edit) : Decidable (e.Inside length) := decidable_of_iff' _ inside_iff

/-- One edit ends before the other starts; they may touch. -/
def Apart (a b : Edit) : Prop := a.stop ≤ b.start ∨ b.stop ≤ a.start

instance (a b : Edit) : Decidable (a.Apart b) := inferInstanceAs (Decidable (_ ∨ _))

theorem Apart.symm {a b : Edit} (h : a.Apart b) : b.Apart a := Or.symm h

/-- Both edits insert at one offset. -/
def Tied (a b : Edit) : Prop := a.start = a.stop ∧ b.start = b.stop ∧ a.start = b.start

instance (a b : Edit) : Decidable (a.Tied b) := inferInstanceAs (Decidable (_ ∧ _))

theorem Tied.symm {a b : Edit} (h : a.Tied b) : b.Tied a := ⟨h.2.1, h.1, h.2.2.symm⟩

/-- By start, then by end. -/
def order (a b : Edit) : Ordering := (compare a.start b.start).then (compare a.stop b.stop)

/-- Puts one edit into a text. -/
def splice (content : Units) (e : Edit) : Units :=
  content.slice 0 e.start.toNat ++ Units.ofString e.content ++ content.slice e.stop.toNat content.size

/-- By how many code units an edit makes a text longer. -/
def growth (e : Edit) : Int := (Units.ofString e.content).size - (e.stop - e.start)

/-- The edits from the last to the first; of edits with equal ranges, the one listed later comes first. -/
def fromEnd (edits : List Edit) : List Edit := edits.reverse.mergeSort fun a b => (order b a).isLE

instance : Std.TransCmp order := by
  have h : order = compareLex (compareOn start) (compareOn stop) := rfl
  rw [h]
  infer_instance

instance : Std.TransCmp fun a b : Edit => order b a where
  eq_swap := Std.OrientedCmp.eq_swap
  isLE_trans hab hbc := @Std.TransCmp.isLE_trans Edit order _ _ _ _ hbc hab

theorem order_eq_iff {a b : Edit} : order a b = .eq ↔ a.start = b.start ∧ a.stop = b.stop := by
  simp [order, Ordering.then_eq_eq]

theorem isLE_order_iff {a b : Edit} :
    (order a b).isLE ↔ a.start < b.start ∨ a.start = b.start ∧ a.stop ≤ b.stop := by
  unfold order
  rcases Int.lt_trichotomy a.start b.start with h | h | h
  · simp [Std.compare_eq_lt.mpr h, h]
  · simp [h, Std.isLE_compare]
  · simp [Std.compare_eq_gt.mpr h]
    omega

/-- The edits in the order in which they are put in, turned around. -/
theorem fromEnd_eq (edits : List Edit) : fromEnd edits = (edits.mergeSort Fix.editOrder).reverse := by
  have hsorted : (edits.mergeSort Fix.editOrder).reverse.Pairwise fun a b => (order b a).isLE := by
    rw [List.pairwise_reverse]
    exact @pairwise_mergeSort_isLE Edit order _ edits
  refine @eq_of_filter_eq Edit (fun a b => order b a) _ _ _ (pairwise_mergeSort_isLE _) hsorted fun a => ?_
  have htied : (fun b => decide (order b a = .eq)) = fun b => decide (order a b = .eq) := by
    funext b
    rw [Bool.eq_iff_iff, decide_eq_true_eq, decide_eq_true_eq]
    exact Std.OrientedCmp.eq_comm
  rw [fromEnd, @filter_mergeSort_isLE Edit fun a b => order b a, List.filter_reverse, List.filter_reverse, htied]
  exact congrArg List.reverse (@filter_mergeSort_isLE Edit order _ edits a).symm

theorem splice_append {content later : Units} {e : Edit} (h : e.Inside content.size) :
    splice (content.slice 0 e.stop.toNat ++ later) e =
      content.slice 0 e.start.toNat ++ Units.ofString e.content ++ later := by
  obtain ⟨hnonneg, hordered, hbounded⟩ := h
  have hsize : (content.slice 0 e.stop.toNat).size = e.stop.toNat := by
    simp only [Units.slice, Array.size_extract]
    omega
  have hstart : e.start.toNat ≤ e.stop.toNat := by omega
  have hfront : (content.slice 0 e.stop.toNat ++ later).slice 0 e.start.toNat = content.slice 0 e.start.toNat := by
    simp only [Units.slice] at hsize ⊢
    rw [Array.extract_append, hsize, Array.extract_extract, Nat.zero_add, Nat.zero_add, Nat.min_eq_left hstart,
      Nat.sub_eq_zero_of_le hstart, Array.extract_zero, Array.append_empty]
  have hback : (content.slice 0 e.stop.toNat ++ later).slice e.stop.toNat (content.slice 0 e.stop.toNat ++ later).size =
      later := by
    rw [Array.size_append, hsize]
    simp only [Units.slice] at hsize ⊢
    rw [Array.extract_append, hsize, Nat.sub_self, Nat.add_sub_cancel_left, Array.extract_eq_empty_of_le,
      Array.empty_append, Array.extract_eq_self_of_le (Nat.le_refl _)]
    omega
  rw [splice, hfront, hback]

end Edit

namespace Fix

variable {content : Units} {edits : List Edit}

/-- Edits in order have no flaw if each lies in the text and starts where the one before it stops, or later. -/
theorem flaw?_eq_none_iff {length : Nat} {lowest : Int} :
    flaw? length lowest edits = none ↔
      (∀ e ∈ edits, e.Inside length ∧ lowest ≤ e.start) ∧ edits.Pairwise fun a b => a.stop ≤ b.start := by
  induction edits generalizing lowest with
  | nil => simp [flaw?]
  | cons e rest ih =>
    have hstep : flaw? length lowest (e :: rest) = none ↔
        (e.Inside length ∧ lowest ≤ e.start) ∧ flaw? length e.stop rest = none := by
      simp only [flaw?, Edit.inside_iff, Edit.start, Edit.stop, Bool.or_eq_true, decide_eq_true_eq]
      split
      · simp only [reduceCtorEq, false_iff]
        omega
      · split
        · simp only [reduceCtorEq, false_iff]
          omega
        · simp only [iff_and_self]
          omega
    rw [hstep, ih, List.forall_mem_cons, List.pairwise_cons]
    constructor
    · rintro ⟨he, hrest, hpairs⟩
      refine ⟨⟨he, fun b hb => ⟨(hrest b hb).1, ?_⟩⟩, fun b hb => (hrest b hb).2, hpairs⟩
      exact Int.le_trans he.2 (Int.le_trans he.1.ordered (hrest b hb).2)
    · rintro ⟨⟨he, hrest⟩, hfirst, hpairs⟩
      exact ⟨he, fun b hb => ⟨(hrest b hb).1, hfirst b hb⟩, hpairs⟩

/-- Sorted edits in a text that do not overlap follow each other. -/
theorem pairwise_stop_le_iff {length : Nat} (hsorted : edits.Pairwise fun a b => (Edit.order a b).isLE)
    (hinside : ∀ e ∈ edits, e.Inside length) :
    edits.Pairwise (fun a b => a.stop ≤ b.start) ↔ edits.Pairwise Edit.Apart := by
  constructor
  · exact List.Pairwise.imp fun hle => .inl hle
  · intro hapart
    refine (hsorted.and hapart).imp_of_mem ?_
    rintro a b ha hb ⟨hle, hab⟩
    rw [Edit.isLE_order_iff] at hle
    have := (hinside a ha).ordered
    have := (hinside b hb).ordered
    unfold Edit.Apart at hab
    omega

/-- The edits lie in a text of this length and do not overlap. -/
structure Fits (length : Nat) (fix : Fix) : Prop where
  inside : ∀ e ∈ fix.edits, e.Inside length
  apart : fix.edits.Pairwise Edit.Apart

theorem flaw?_mergeSort_eq_none_iff {length : Nat} {fix : Fix} :
    flaw? length 0 (fix.edits.mergeSort editOrder) = none ↔ fix.Fits length := by
  have hsorted : (fix.edits.mergeSort editOrder).Pairwise fun a b => (Edit.order a b).isLE :=
    @pairwise_mergeSort_isLE Edit Edit.order _ fix.edits
  have hperm := List.mergeSort_perm fix.edits editOrder
  have hpairs (hinside : ∀ e ∈ fix.edits, e.Inside length) :
      (fix.edits.mergeSort editOrder).Pairwise (fun a b => a.stop ≤ b.start) ↔ fix.edits.Pairwise Edit.Apart :=
    (pairwise_stop_le_iff hsorted fun e he => hinside e (hperm.mem_iff.mp he)).trans
      (hperm.pairwise_iff Edit.Apart.symm)
  rw [flaw?_eq_none_iff]
  simp only [hperm.mem_iff]
  constructor
  · rintro ⟨hinside, hle⟩
    exact ⟨fun e he => (hinside e he).1, (hpairs fun e he => (hinside e he).1).mp hle⟩
  · rintro ⟨hinside, hapart⟩
    exact ⟨fun e he => ⟨hinside e he, (hinside e he).nonneg⟩, (hpairs hinside).mpr hapart⟩

theorem slice_append_slice {i j k : Nat} (hij : i ≤ j) (hjk : j ≤ k) :
    content.slice i j ++ content.slice j k = content.slice i k := by
  rw [Units.slice, Units.slice, Array.extract_append_extract, Nat.min_eq_left hij, Nat.max_eq_right hjk]
  rfl

/-- Edits that follow each other are copied in one pass as if they were made from the last to the first. -/
theorem foldr_splice_eq {cursor : Nat} (hcursor : cursor ≤ content.size)
    (hinside : ∀ e ∈ edits, e.Inside content.size ∧ (cursor : Int) ≤ e.start)
    (hpairs : edits.Pairwise fun a b => a.stop ≤ b.start) :
    edits.foldr (fun e text => Edit.splice text e) content =
      content.slice 0 cursor ++ spliceFrom content cursor edits := by
  induction edits generalizing cursor with
  | nil =>
    rw [List.foldr_nil, spliceFrom, slice_append_slice cursor.zero_le hcursor]
    exact Array.extract_size.symm
  | cons e rest ih =>
    obtain ⟨⟨he, hlowest⟩, hrest⟩ := List.forall_mem_cons.mp hinside
    obtain ⟨hfirst, hpairs⟩ := List.pairwise_cons.mp hpairs
    obtain ⟨hnonneg, hordered, hbounded⟩ := he
    have hstop : ((e.stop.toNat : Nat) : Int) = e.stop := Int.toNat_of_nonneg (Int.le_trans hnonneg hordered)
    have hnext : rest.foldr (fun e text => Edit.splice text e) content =
        content.slice 0 e.stop.toNat ++ spliceFrom content e.stop.toNat rest :=
      ih (by omega) (fun b hb => ⟨(hrest b hb).1, hstop ▸ hfirst b hb⟩) hpairs
    have hreach : cursor ≤ e.start.toNat := by omega
    rw [List.foldr_cons, hnext, Edit.splice_append ⟨hnonneg, hordered, hbounded⟩, spliceFrom, ← Array.append_assoc,
      ← Array.append_assoc, slice_append_slice cursor.zero_le hreach]

/-- A copy with the edits put in is as long as the text from there on and what the edits add. -/
theorem size_spliceFrom {cursor : Nat} (hcursor : cursor ≤ content.size)
    (hinside : ∀ e ∈ edits, e.Inside content.size ∧ (cursor : Int) ≤ e.start)
    (hpairs : edits.Pairwise fun a b => a.stop ≤ b.start) :
    ((spliceFrom content cursor edits).size : Int) = content.size - cursor + (edits.map Edit.growth).sum := by
  induction edits generalizing cursor with
  | nil =>
    simp only [spliceFrom, Units.slice, Array.size_extract, List.map_nil, List.sum_nil]
    omega
  | cons e rest ih =>
    obtain ⟨⟨he, hlowest⟩, hrest⟩ := List.forall_mem_cons.mp hinside
    obtain ⟨hfirst, hpairs⟩ := List.pairwise_cons.mp hpairs
    obtain ⟨hnonneg, hordered, hbounded⟩ := he
    have hstop : ((e.stop.toNat : Nat) : Int) = e.stop := Int.toNat_of_nonneg (Int.le_trans hnonneg hordered)
    have hnext : ((spliceFrom content e.stop.toNat rest).size : Int) =
        content.size - e.stop.toNat + (rest.map Edit.growth).sum :=
      ih (by omega) (fun b hb => ⟨(hrest b hb).1, hstop ▸ hfirst b hb⟩) hpairs
    have hsize : (content.slice cursor e.start.toNat).size = e.start.toNat - cursor := by
      rw [Units.slice, Array.size_extract]
      omega
    rw [spliceFrom, Array.size_append, Array.size_append, hsize, List.map_cons, List.sum_cons, Edit.growth]
    push_cast
    rw [hnext]
    omega

theorem Fits.follow {fix : Fix} (h : fix.Fits content.size) :
    (∀ e ∈ fix.edits.mergeSort editOrder, e.Inside content.size ∧ ((0 : Nat) : Int) ≤ e.start) ∧
      (fix.edits.mergeSort editOrder).Pairwise fun a b => a.stop ≤ b.start :=
  flaw?_eq_none_iff.mp (flaw?_mergeSort_eq_none_iff.mpr h)

/-- A fix is applied if it fits the text, and then as if its edits were made one by one from the end. -/
theorem apply_eq_ok_iff {fix : Fix} {result : Units} :
    fix.apply content = .ok result ↔
      fix.Fits content.size ∧ (Edit.fromEnd fix.edits).foldl Edit.splice content = result := by
  have hcopy (h : fix.Fits content.size) : spliceFrom content 0 (fix.edits.mergeSort editOrder) =
      (Edit.fromEnd fix.edits).foldl Edit.splice content := by
    obtain ⟨hinside, hpairs⟩ := h.follow
    rw [Edit.fromEnd_eq, List.foldl_reverse, foldr_splice_eq (Nat.zero_le _) hinside hpairs]
    simp [Units.slice]
  rw [← flaw?_mergeSort_eq_none_iff] at hcopy ⊢
  unfold apply
  dsimp only
  split
  · next e he => simp [he]
  · next he => simp [he, hcopy]

theorem exists_error_iff {fix : Fix} : (∃ e, fix.apply content = .error e) ↔ ¬fix.Fits content.size := by
  rw [← flaw?_mergeSort_eq_none_iff]
  unfold apply
  dsimp only
  split
  · next e he => simp [he]
  · next he => simp [he]

theorem size_apply {fix : Fix} {result : Units} (h : fix.apply content = .ok result) :
    (result.size : Int) = content.size + (fix.edits.map Edit.growth).sum := by
  obtain ⟨hfits, -⟩ := apply_eq_ok_iff.mp h
  obtain ⟨hinside, hpairs⟩ := hfits.follow
  have hnone := flaw?_mergeSort_eq_none_iff.mpr hfits
  have hresult : spliceFrom content 0 (fix.edits.mergeSort editOrder) = result := by
    simpa [apply, hnone] using h
  have hsum := ((List.mergeSort_perm fix.edits editOrder).map Edit.growth).sum_eq
  rw [← hresult, size_spliceFrom (Nat.zero_le _) hinside hpairs, hsum]
  omega

/-- Where no two insertions are tied, edits that fit are told apart by their ranges. -/
theorem Fits.eq_of_order {length : Nat} {fix : Fix} (h : fix.Fits length)
    (huntied : fix.edits.Pairwise fun a b => ¬a.Tied b) {a b : Edit} (ha : a ∈ fix.edits) (hb : b ∈ fix.edits)
    (hab : Edit.order a b = .eq) : a = b := by
  by_contra hne
  have : Std.Symm fun a b : Edit => a.Apart b ∧ ¬a.Tied b :=
    ⟨fun _ _ hp => ⟨hp.1.symm, fun ht => hp.2 ht.symm⟩⟩
  obtain ⟨hapart, hnot⟩ := (h.apart.and huntied).forall ha hb hne
  obtain ⟨hstart, hstop⟩ := Edit.order_eq_iff.mp hab
  have hordered := (h.inside a ha).ordered
  unfold Edit.Apart at hapart
  exact hnot ⟨by omega, by omega, hstart⟩

theorem apply_eq_of_perm {fix other : Fix} (h : fix.Fits content.size)
    (huntied : fix.edits.Pairwise fun a b => ¬a.Tied b) (hperm : other.edits.Perm fix.edits) :
    other.apply content = fix.apply content := by
  have hsorted : other.edits.mergeSort editOrder = fix.edits.mergeSort editOrder :=
    @mergeSort_eq_of_perm Edit Edit.order _ _ _ hperm fun a ha b hb =>
      h.eq_of_order huntied (hperm.mem_iff.mp ha) (hperm.mem_iff.mp hb)
  rw [apply, apply, hsorted]

/-- A fix fails exactly if an edit does not lie in the text or two edits overlap. Otherwise its edits are made one by
one from the end, the text grows by what they add, and their order in the list makes no difference unless two
insertions share an offset. -/
theorem apply_from_end (fix : Fix) (content : Units) :
    ((∃ e, fix.apply content = .error e) ↔
      (∃ e ∈ fix.edits, ¬e.Inside content.size) ∨ ¬fix.edits.Pairwise Edit.Apart) ∧
    ∀ result, fix.apply content = .ok result →
      result = (Edit.fromEnd fix.edits).foldl Edit.splice content ∧
      (result.size : Int) = content.size + (fix.edits.map Edit.growth).sum ∧
      ∀ other : Fix, other.edits.Perm fix.edits → fix.edits.Pairwise (fun a b => ¬a.Tied b) →
        other.apply content = .ok result := by
  constructor
  · have hfits : fix.Fits content.size ↔
        (∀ e ∈ fix.edits, e.Inside content.size) ∧ fix.edits.Pairwise Edit.Apart :=
      ⟨fun h => ⟨h.inside, h.apart⟩, fun ⟨h, h'⟩ => ⟨h, h'⟩⟩
    rw [exists_error_iff, hfits, not_and_or]
    push Not
    rfl
  · intro result h
    obtain ⟨hfits, hresult⟩ := apply_eq_ok_iff.mp h
    refine ⟨hresult.symm, size_apply h, fun other hperm huntied => ?_⟩
    rw [apply_eq_of_perm hfits huntied hperm, h]

/-- A replacement and two insertions that touch it, listed out of order. -/
def touching : Fix :=
  ⟨"", [⟨⟨1, 3, 1, 5, 2, 4⟩, "X"⟩, ⟨⟨1, 5, 1, 5, 4, 4⟩, "Z"⟩, ⟨⟨1, 3, 1, 3, 2, 2⟩, "Y"⟩]⟩

theorem apply_from_end_touching :
    touching.apply (Units.ofString "abcdef") = .ok (Units.ofString "abYXZef") ∧
      Units.ofString "abYXZef" = (Edit.fromEnd touching.edits).foldl Edit.splice (Units.ofString "abcdef") ∧
      (Fix.mk "" touching.edits.reverse).apply (Units.ofString "abcdef") = .ok (Units.ofString "abYXZef") := by
  let sorted : List Edit := [⟨⟨1, 3, 1, 3, 2, 2⟩, "Y"⟩, ⟨⟨1, 3, 1, 5, 2, 4⟩, "X"⟩, ⟨⟨1, 5, 1, 5, 4, 4⟩, "Z"⟩]
  have hperm : touching.edits.Perm sorted := by decide
  have hsorted : touching.edits.mergeSort editOrder = sorted :=
    (@mergeSort_eq_of_perm Edit Edit.order _ _ _ hperm (by decide)).trans (List.mergeSort_of_pairwise (by decide))
  have happly : touching.apply (Units.ofString "abcdef") = .ok (Units.ofString "abYXZef") := by
    rw [apply, hsorted]
    decide +kernel
  obtain ⟨hresult, -, horder⟩ := (apply_from_end touching (Units.ofString "abcdef")).2 _ happly
  exact ⟨happly, hresult, horder _ (List.reverse_perm _) (by decide)⟩

end Fix

end RuleScan
