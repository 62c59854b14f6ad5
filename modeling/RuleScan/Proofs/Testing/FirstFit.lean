import Mathlib.Data.List.Nodup
import RuleScan.Proofs.Testing.Pairing

/-! What a fixture makes of any entries and violations. Each entry in turn has the first violation that it accepts and
no entry before it has, if there is one. So entries and violations are paired by their places, as far as that goes: of
what is left over, no entry accepts a violation. -/
namespace RuleScan

namespace Fixture

section Places

variable {α : Type} {front back xs : List (α × Nat)} {x : α × Nat} {places : List Nat}

theorem besides_sublist (places : List Nat) (xs : List α) : (besides places xs.zipIdx).Sublist xs := by
  have hsublist := (List.filter_sublist (p := (·.2 ∉ places)) (l := xs.zipIdx)).map (·.1)
  rwa [List.zipIdx_map_fst] at hsublist

theorem besides_cons_of_notMem (h : x.2 ∉ places) : besides places (x :: xs) = x.1 :: besides places xs := by
  rw [besides, List.filter_cons_of_pos (by simpa using h), List.map_cons]
  rfl

/-- Places of some of the items are as many as there are items less those that stand besides. -/
theorem length_besides (hplaces : places.Nodup) (xs : List α) (h : ∀ i ∈ places, i < xs.length) :
    (besides places xs.zipIdx).length + places.length = xs.length := by
  have hsnd : xs.zipIdx.map (·.2) = List.range xs.length := by
    rw [List.zipIdx_map_snd, List.range_eq_range']
  have hat : ((xs.zipIdx.filter (·.2 ∈ places)).map (·.2)).Perm places := by
    have hnodup : ((xs.zipIdx.filter (·.2 ∈ places)).map (·.2)).Nodup := by
      refine List.Nodup.sublist (List.filter_sublist.map _) ?_
      rw [hsnd]
      exact List.nodup_range
    refine (List.perm_ext_iff_of_nodup hnodup hplaces).mpr fun i => ⟨fun hi => ?_, fun hi => ?_⟩
    · obtain ⟨x, hx, rfl⟩ := List.mem_map.mp hi
      simpa using (List.mem_filter.mp hx).2
    · have hmem : i ∈ xs.zipIdx.map (·.2) := by
        rw [hsnd]
        exact List.mem_range.mpr (h i hi)
      obtain ⟨x, hx, rfl⟩ := List.mem_map.mp hmem
      exact List.mem_map_of_mem (List.mem_filter.mpr ⟨hx, by simpa using hi⟩)
  have hsplit := List.length_eq_length_filter_add (l := xs.zipIdx) (fun x => decide (x.2 ∈ places))
  have hlength := hat.length_eq
  simp only [List.length_map, List.length_zipIdx] at hsplit hlength
  simp only [besides, List.length_map, decide_not]
  omega

end Places

/-- A one-to-one correspondence of some entries and some violations by their places, each entry with one that it
accepts. If an entry accepts a violation, then an entry before it has that one, or it has one that is not behind it. -/
structure FirstFit (ruleId : String) (es : List (Expected × Nat)) (vs : List (Violation × Nat))
    (pairs : List (Nat × Nat)) : Prop where
  entries : (pairs.map (·.1)).Nodup
  violations : (pairs.map (·.2)).Nodup
  accepted : ∀ p ∈ pairs, ∃ e v, (e, p.1) ∈ es ∧ (v, p.2) ∈ vs ∧ e.accepts ruleId v = true
  first : ∀ x ∈ es, ∀ y ∈ vs, x.1.accepts ruleId y.1 = true →
    (∃ i < x.2, (i, y.2) ∈ pairs) ∨ ∃ j ≤ y.2, (x.2, j) ∈ pairs

namespace FirstFit

variable {ruleId : String} {es : List (Expected × Nat)} {vs front back : List (Violation × Nat)}
  {pairs : List (Nat × Nat)} {x : Expected × Nat} {w : Violation × Nat}

theorem nil (ruleId : String) (vs : List (Violation × Nat)) : FirstFit ruleId [] vs [] :=
  ⟨.nil, .nil, nofun, nofun⟩

theorem mem_entries (h : FirstFit ruleId es vs pairs) {i : Nat} (hi : i ∈ pairs.map (·.1)) : ∃ e, (e, i) ∈ es := by
  obtain ⟨p, hp, rfl⟩ := List.mem_map.mp hi
  obtain ⟨e, -, he, -⟩ := h.accepted p hp
  exact ⟨e, he⟩

theorem mem_violations (h : FirstFit ruleId es vs pairs) {j : Nat} (hj : j ∈ pairs.map (·.2)) : ∃ v, (v, j) ∈ vs := by
  obtain ⟨p, hp, rfl⟩ := List.mem_map.mp hj
  obtain ⟨-, v, -, hv, -⟩ := h.accepted p hp
  exact ⟨v, hv⟩

theorem notMem_entries (h : FirstFit ruleId es vs pairs) (hes : (x :: es).Pairwise (·.2 < ·.2)) :
    x.2 ∉ pairs.map (·.1) := by
  intro hi
  obtain ⟨e, he⟩ := h.mem_entries hi
  exact absurd ((List.pairwise_cons.mp hes).1 (e, x.2) he) (Nat.lt_irrefl _)

/-- An entry before the others accepts nothing. -/
theorem cons_of_none (h : FirstFit ruleId es vs pairs) (hnone : ∀ y ∈ vs, x.1.accepts ruleId y.1 ≠ true) :
    FirstFit ruleId (x :: es) vs pairs := by
  refine ⟨h.entries, h.violations, fun p hp => ?_, fun x' hx' y hy haccepts => ?_⟩
  · obtain ⟨e, v, he, hv, haccepts⟩ := h.accepted p hp
    exact ⟨e, v, List.mem_cons_of_mem _ he, hv, haccepts⟩
  · rcases List.mem_cons.mp hx' with rfl | hx'
    · exact absurd haccepts (hnone y hy)
    · exact h.first x' hx' y hy haccepts

/-- An entry before the others has the first violation that it accepts. -/
theorem cons_of_first (h : FirstFit ruleId es (front ++ back) pairs) (hes : (x :: es).Pairwise (·.2 < ·.2))
    (hvs : (front ++ w :: back).Pairwise (·.2 < ·.2)) (hfront : ∀ y ∈ front, x.1.accepts ruleId y.1 ≠ true)
    (hw : x.1.accepts ruleId w.1 = true) : FirstFit ruleId (x :: es) (front ++ w :: back) ((x.2, w.2) :: pairs) := by
  have hw' : w.2 ∉ pairs.map (·.2) := by
    intro hj
    obtain ⟨v, hv⟩ := h.mem_violations hj
    exact ne_of_pairwise hvs _ hv rfl
  have hsubset : front ++ back ⊆ front ++ w :: back :=
    (List.Sublist.append_left (List.sublist_cons_self w back) front).subset
  refine ⟨List.nodup_cons.mpr ⟨h.notMem_entries hes, h.entries⟩, List.nodup_cons.mpr ⟨hw', h.violations⟩,
    fun p hp => ?_, fun x' hx' y hy haccepts => ?_⟩
  · rcases List.mem_cons.mp hp with rfl | hp
    · exact ⟨x.1, w.1, List.mem_cons_self, List.mem_append_right _ List.mem_cons_self, hw⟩
    · obtain ⟨e, v, he, hv, haccepts⟩ := h.accepted p hp
      exact ⟨e, v, List.mem_cons_of_mem _ he, hsubset hv, haccepts⟩
  · rcases List.mem_cons.mp hx' with rfl | hx'
    · -- what stands before the first that it accepts it does not accept
      right
      refine ⟨w.2, ?_, List.mem_cons_self⟩
      rcases List.mem_append.mp hy with hy | hy
      · exact absurd haccepts (hfront y hy)
      rcases List.mem_cons.mp hy with rfl | hy
      · exact Nat.le_refl _
      · exact Nat.le_of_lt ((List.pairwise_cons.mp (List.pairwise_append.mp hvs).2.1).1 y hy)
    · by_cases hyw : y = w
      · subst hyw
        exact .inl ⟨x.2, (List.pairwise_cons.mp hes).1 x' hx', List.mem_cons_self⟩
      · have hy' : y ∈ front ++ back := by
          simp only [List.mem_append, List.mem_cons] at hy ⊢
          exact hy.imp_right (·.resolve_left hyw)
        refine (h.first x' hx' y hy' haccepts).imp ?_ ?_
        · rintro ⟨i, hi, hmem⟩
          exact ⟨i, hi, List.mem_cons_of_mem _ hmem⟩
        · rintro ⟨j, hj, hmem⟩
          exact ⟨j, hj, List.mem_cons_of_mem _ hmem⟩

/-- What is left over of a correspondence that goes as far as it can is not accepted. -/
theorem notAccepted (h : FirstFit ruleId es vs pairs) {e : Expected} {v : Violation}
    (he : e ∈ besides (pairs.map (·.1)) es) (hv : v ∈ besides (pairs.map (·.2)) vs) : e.accepts ruleId v ≠ true := by
  obtain ⟨x, hx, rfl⟩ := List.mem_map.mp he
  obtain ⟨y, hy, rfl⟩ := List.mem_map.mp hv
  obtain ⟨hx, hx'⟩ := List.mem_filter.mp hx
  obtain ⟨hy, hy'⟩ := List.mem_filter.mp hy
  intro haccepts
  rcases h.first x hx y hy haccepts with ⟨i, -, hmem⟩ | ⟨j, -, hmem⟩
  · exact of_decide_eq_true hy' (List.mem_map_of_mem (f := (·.2)) hmem)
  · exact of_decide_eq_true hx' (List.mem_map_of_mem (f := (·.1)) hmem)

end FirstFit

/-- Entries and violations, each with its place, are paired first fit; what is left over stands besides. -/
theorem exists_firstFit (ruleId : String) {es : List (Expected × Nat)} {vs : List (Violation × Nat)}
    (hes : es.Pairwise (·.2 < ·.2)) (hvs : vs.Pairwise (·.2 < ·.2)) : ∃ pairs, FirstFit ruleId es vs pairs ∧
      diff ruleId (es.map (·.1)) (vs.map (·.1)) = (besides (pairs.map (·.1)) es, besides (pairs.map (·.2)) vs) := by
  induction es generalizing vs with
  | nil =>
    refine ⟨[], .nil ruleId vs, ?_⟩
    simp [besides]
  | cons x es ih =>
    have hes' := (List.pairwise_cons.mp hes).2
    rw [List.map_cons]
    by_cases hany : (vs.map (·.1)).any (x.1.accepts ruleId) = true
    · rw [diff_cons_of_any hany, List.eraseP_map]
      obtain ⟨v, hv, haccepts⟩ := List.any_eq_true.mp hany
      obtain ⟨y, hy, rfl⟩ := List.mem_map.mp hv
      obtain ⟨w, front, back, hfront, hw, rfl, herase⟩ :=
        @List.exists_of_eraseP _ (x.1.accepts ruleId ∘ Prod.fst) vs y hy haccepts
      rw [herase]
      have hrest := hvs.sublist (List.Sublist.append_left (List.sublist_cons_self w back) front)
      obtain ⟨pairs, hpairs, hdiff⟩ := ih hes' hrest
      refine ⟨(x.2, w.2) :: pairs, hpairs.cons_of_first hes hvs hfront hw, ?_⟩
      rw [hdiff, List.map_cons, List.map_cons, besides_cons_append hvs]
      exact congrArg (·, _) (@besides_cons_append _ [] _ _ hes _).symm
    · obtain ⟨pairs, hpairs, hdiff⟩ := ih hes' hvs
      have hnone : ∀ y ∈ vs, x.1.accepts ruleId y.1 ≠ true := by simpa using hany
      refine ⟨pairs, hpairs.cons_of_none hnone, ?_⟩
      rw [diff_cons_of_not_any hany, hdiff, besides_cons_of_notMem (hpairs.notMem_entries hes)]

theorem lt_length_of_mem_zipIdx {α : Type} {xs : List α} {a : α} {i : Nat} (h : (a, i) ∈ xs.zipIdx) :
    i < xs.length :=
  (List.getElem?_eq_some_iff.mp (List.mk_mem_zipIdx_iff_getElem?.mp h)).1

/-- Whatever is expected and found, entries and violations are paired one to one by their places, each entry with the
first violation that it accepts and no entry before it has. What is missing are the other entries and what is unexpected
the other violations, in order; as many are paired of both, and no entry left over accepts a violation left over. -/
theorem diff_firstFit (ruleId : String) (es : List Expected) (vs : List Violation) :
    let missing := (diff ruleId es vs).1
    let unexpected := (diff ruleId es vs).2
    missing.Sublist es ∧ unexpected.Sublist vs ∧
    (∃ pairs, FirstFit ruleId es.zipIdx vs.zipIdx pairs ∧
      missing = besides (pairs.map (·.1)) es.zipIdx ∧ unexpected = besides (pairs.map (·.2)) vs.zipIdx ∧
      missing.length + pairs.length = es.length ∧ unexpected.length + pairs.length = vs.length) ∧
    ∀ e ∈ missing, ∀ v ∈ unexpected, e.accepts ruleId v = false := by
  obtain ⟨pairs, hpairs, hdiff⟩ := exists_firstFit ruleId (pairwise_zipIdx es) (pairwise_zipIdx vs)
  rw [List.zipIdx_map_fst, List.zipIdx_map_fst] at hdiff
  intro missing unexpected
  have hmissing : missing = besides (pairs.map (·.1)) es.zipIdx := congrArg Prod.fst hdiff
  have hunexpected : unexpected = besides (pairs.map (·.2)) vs.zipIdx := congrArg Prod.snd hdiff
  have hentries := length_besides hpairs.entries es fun i hi =>
    (hpairs.mem_entries hi).elim fun _ he => lt_length_of_mem_zipIdx he
  have hviolations := length_besides hpairs.violations vs fun j hj =>
    (hpairs.mem_violations hj).elim fun _ hv => lt_length_of_mem_zipIdx hv
  rw [List.length_map] at hentries hviolations
  rw [hmissing, hunexpected]
  refine ⟨besides_sublist _ es, besides_sublist _ vs, ⟨pairs, hpairs, rfl, rfl, hentries, hviolations⟩, ?_⟩
  intro e he v hv
  exact Bool.eq_false_iff.mpr (hpairs.notAccepted he hv)

/-- The entry that leaves the column open has the first violation, and neither the other entry nor the other violation
has a partner left. -/
theorem diff_firstFit_left_over :
    let es : List Expected := [{ line := 1 }, expectedAt 1]
    let vs := [found 1, found 5]
    diff "r" es vs = ([expectedAt 1], [found 5]) ∧ (expectedAt 1).accepts "r" (found 5) = false := by
  intro es vs
  have hdiff : diff "r" es vs = ([expectedAt 1], [found 5]) := by decide
  obtain ⟨-, -, -, hnone⟩ := diff_firstFit "r" es vs
  rw [hdiff] at hnone
  exact ⟨hdiff, hnone _ (.head _) _ (.head _)⟩

end Fixture

end RuleScan
