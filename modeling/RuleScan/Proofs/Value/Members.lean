import Mathlib.Data.List.Nodup
import RuleScan.Value.Basic

/-! The members of an object are read back as they were given: of the pairs with a key the last one counts, and
where a member is placed does not matter. No key is repeated, and then members are read alike in whatever order. -/
namespace RuleScan

namespace Members

/-- A new member is placed before another one or behind it. -/
theorem place_cons (key : String) (value : Value) (p : String × Value) (rest : Members) :
    place key value (p :: rest) = (key, value) :: p :: rest ∨
      place key value (p :: rest) = p :: place key value rest := by
  rw [place]
  exact ite_eq_or_eq _ _ _

theorem get?_place {m : Members} {key : String} (value : Value) (h : m.get? key = none) (other : String) :
    (m.place key value).get? other = if key = other then some value else m.get? other := by
  induction m with
  | nil => rfl
  | cons p rest ih =>
    obtain ⟨k, v⟩ := p
    have hk : k ≠ key := by
      rintro rfl
      simp [get?] at h
    have hrest : get? rest key = none := by simpa [get?, hk] using h
    rcases place_cons key value (k, v) rest with hplace | hplace
    · rw [hplace]
      rfl
    · rw [hplace, get?, get?, ih hrest]
      by_cases hother : k = other
      · have hne : key ≠ other := fun he => hk (hother.trans he.symm)
        rw [if_pos hother, if_pos hother, if_neg hne]
      · rw [if_neg hother, if_neg hother]

theorem get?_replace {m : Members} {key : String} (value : Value) (h : (m.get? key).isSome) (other : String) :
    (m.replace key value).get? other = if key = other then some value else m.get? other := by
  induction m with
  | nil => cases h
  | cons p rest ih =>
    obtain ⟨k, v⟩ := p
    rw [replace]
    by_cases hk : k = key
    · subst hk
      rw [if_pos rfl, get?, get?]
      split <;> rfl
    · have hrest : (get? rest key).isSome := by simpa [get?, hk] using h
      rw [if_neg hk, get?, get?, ih hrest]
      by_cases hother : k = other
      · have hne : key ≠ other := fun he => hk (hother.trans he.symm)
        rw [if_pos hother, if_pos hother, if_neg hne]
      · rw [if_neg hother, if_neg hother]

theorem get?_set (m : Members) (key : String) (value : Value) (other : String) :
    (m.set key value).get? other = if key = other then some value else m.get? other := by
  unfold set
  split
  · next h => exact get?_replace value h other
  · next h => exact get?_place value (by simpa [contains] using h) other

theorem mem_of_get? {m : Members} {key : String} {value : Value} (h : m.get? key = some value) : (key, value) ∈ m := by
  induction m with
  | nil => cases h
  | cons p rest ih =>
    obtain ⟨k, v⟩ := p
    rw [get?] at h
    split at h
    · next heq =>
      cases heq
      cases h
      exact List.mem_cons_self
    · exact List.mem_cons_of_mem _ (ih h)

theorem get?_eq_some_iff {m : Members} (h : m.keys.Nodup) {key : String} {value : Value} :
    m.get? key = some value ↔ (key, value) ∈ m := by
  refine ⟨mem_of_get?, fun hmem => ?_⟩
  induction m with
  | nil => cases hmem
  | cons p rest ih =>
    obtain ⟨k, v⟩ := p
    obtain ⟨hk, hrest⟩ := List.nodup_cons.mp h
    rw [get?]
    rcases List.mem_cons.mp hmem with heq | hmem
    · cases heq
      exact if_pos rfl
    · rw [if_neg, ih hrest hmem]
      rintro rfl
      exact hk (List.mem_map.mpr ⟨_, hmem, rfl⟩)

theorem get?_perm {m n : Members} (hperm : m.Perm n) (h : m.keys.Nodup) (key : String) : m.get? key = n.get? key := by
  ext value
  rw [get?_eq_some_iff h, get?_eq_some_iff ((hperm.map Prod.fst).nodup_iff.mp h), hperm.mem_iff]

theorem get?_filter (p : String → Bool) (m : Members) (key : String) :
    get? (m.filter (p ·.1)) key = if p key then m.get? key else none := by
  induction m with
  | nil => simp [get?]
  | cons x rest ih =>
    obtain ⟨k, v⟩ := x
    rw [List.filter_cons]
    by_cases hk : k = key
    · subst hk
      split <;> simp_all [get?]
    · split <;> simp_all [get?]

theorem place_perm (key : String) (value : Value) (m : Members) : (m.place key value).Perm ((key, value) :: m) := by
  induction m with
  | nil => exact .refl _
  | cons p rest ih =>
    rcases place_cons key value p rest with hplace | hplace
    · rw [hplace]
    · rw [hplace]
      exact (ih.cons p).trans (.swap _ _ _)

theorem keys_replace (m : Members) (key : String) (value : Value) : (m.replace key value).keys = m.keys := by
  induction m with
  | nil => rfl
  | cons p rest ih =>
    rw [replace]
    split
    · rfl
    · exact congrArg (p.1 :: ·) ih

theorem nodup_keys_set {m : Members} (h : m.keys.Nodup) (key : String) (value : Value) :
    (m.set key value).keys.Nodup := by
  unfold set
  split
  · rw [keys_replace]
    exact h
  · next hnot =>
    have hkey : key ∉ m.keys := by
      intro hmem
      obtain ⟨p, hp, rfl⟩ := List.mem_map.mp hmem
      exact hnot (by rw [contains, (get?_eq_some_iff h).mpr hp]; rfl)
    exact ((place_perm key value m).map Prod.fst).nodup_iff.mpr (List.nodup_cons.mpr ⟨hkey, h⟩)

theorem nodup_keys_ofPairs (pairs : List (String × Value)) : (ofPairs pairs).keys.Nodup := by
  have hfold : ∀ m : Members, m.keys.Nodup → (pairs.foldl (fun m p => m.set p.1 p.2) m).keys.Nodup := by
    induction pairs with
    | nil => exact fun _ h => h
    | cons p rest ih => exact fun m h => ih _ (nodup_keys_set h _ _)
  exact hfold [] List.nodup_nil

theorem keys_filterMap_sublist {α : Type} (key : α → String) (f : α → Option Value) (xs : List α) :
    (keys (xs.filterMap fun x => (f x).map (key x, ·))).Sublist (xs.map key) := by
  induction xs with
  | nil => exact .refl _
  | cons x rest ih =>
    rw [List.filterMap_cons, List.map_cons]
    cases f x with
    | none => exact ih.cons _
    | some v => exact ih.cons_cons _

theorem get?_filterMap {α : Type} {key : α → String} {f : α → Option Value} {xs : List α} (h : (xs.map key).Nodup)
    {x : α} (hmem : x ∈ xs) : get? (xs.filterMap fun x => (f x).map (key x, ·)) (key x) = f x := by
  ext v
  rw [get?_eq_some_iff (h.sublist (keys_filterMap_sublist key f xs)), List.mem_filterMap]
  simp only [Option.map_eq_some_iff, Prod.mk.injEq]
  constructor
  · rintro ⟨y, hy, w, hw, hkey, rfl⟩
    rwa [← List.inj_on_of_nodup_map h hy hmem hkey]
  · exact fun hv => ⟨x, hmem, v, hv, rfl, rfl⟩

end Members

namespace Value

theorem get?_object (pairs : List (String × Value)) (key : String) :
    (object pairs).get? key = Members.get? pairs.reverse key := by
  have hfold : ∀ m : Members, (pairs.reverse.foldr (fun p m => m.set p.1 p.2) m).get? key =
      (Members.get? pairs.reverse key).or (m.get? key) := by
    intro m
    induction pairs.reverse with
    | nil => rfl
    | cons p rest ih =>
      rw [List.foldr_cons, Members.get?_set, ih, Members.get?]
      split <;> rfl
  have hnone := hfold []
  rw [List.foldr_reverse] at hnone
  exact hnone.trans (Option.or_none ..)

theorem mem_of_mem_ofPairs {pairs : List (String × Value)} {p : String × Value} (h : p ∈ Members.ofPairs pairs) :
    p ∈ pairs := by
  have hget := (Members.get?_eq_some_iff (Members.nodup_keys_ofPairs pairs)).mpr h
  have hlast := (get?_object pairs p.1).symm.trans hget
  exact List.mem_reverse.mp (Members.mem_of_get? hlast)

theorem get?_record {pairs : List (String × Option Value)} (h : (pairs.map (·.1)).Nodup) {key : String}
    {value : Option Value} (hmem : (key, value) ∈ pairs) : (record pairs).get? key = value := by
  have hkeys := h.sublist (Members.keys_filterMap_sublist Prod.fst Prod.snd pairs)
  rw [record, get?_object, ← Members.get?_perm (List.reverse_perm _).symm hkeys]
  exact Members.get?_filterMap h hmem

end Value

end RuleScan
