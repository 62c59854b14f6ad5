import RuleScan.Proofs.Value.Members
import RuleScan.Value.Merging

/-! Laying one object over another: each key is decided by the two values it has, whatever the other keys hold, as long
as no member is lost to the prototype. -/
namespace RuleScan

namespace Members

theorem mem_keys_iff {m : Members} {key : String} : key ∈ m.keys ↔ (m.get? key).isSome := by
  induction m with
  | nil => exact iff_of_false List.not_mem_nil Bool.false_ne_true
  | cons p rest ih =>
    obtain ⟨k, v⟩ := p
    rw [get?]
    split
    · next heq => exact iff_of_true (heq ▸ List.mem_cons_self) rfl
    · next hne =>
      rw [← ih]
      exact ⟨fun h => (List.mem_cons.mp h).resolve_left fun he => hne he.symm, List.mem_cons_of_mem _⟩

theorem get?_eq_none_iff {m : Members} {key : String} : m.get? key = none ↔ key ∉ m.keys := by
  rw [mem_keys_iff, Option.not_isSome_iff_eq_none]

/-- Keys are kept in their order when others come among them. -/
theorem filter_keys_place {p : String → Bool} {key : String} (h : p key = false) (value : Value) (m : Members) :
    (m.place key value).keys.filter p = m.keys.filter p := by
  induction m with
  | nil => exact List.filter_cons_of_neg (by simp [h])
  | cons q rest ih =>
    rcases place_cons key value q rest with hplace | hplace
    · rw [hplace]
      exact List.filter_cons_of_neg (by simp [h])
    · rw [hplace, keys, keys, List.map_cons, List.map_cons, List.filter_cons, List.filter_cons, ← keys, ← keys, ih]

theorem filter_keys_set {p : String → Bool} {key : String} (h : p key = false) (m : Members) (value : Value) :
    (m.set key value).keys.filter p = m.keys.filter p := by
  rw [set]
  split
  · rw [keys_replace]
  · exact filter_keys_place h value m

/-- Members that are laid over others one by one: none of them is an object, and each has a key of its own. -/
structure Flat (m : Members) : Prop where
  nodup : m.keys.Nodup
  no_prototype : Overlay.prototypeKey ∉ m.keys
  no_object : ∀ p ∈ m, p.2.isObj = false

end Members

namespace Value

/-- The value of a key after a value was laid over the one that shows there: objects are merged, and else the later one
counts. -/
def mergeValue : Option Value → Value → Value
  | some (.obj outer), .obj inner => .obj (mergeMembers outer inner)
  | _, v => v

/-- The value of a key after an object was laid over another, from those of the two. -/
def mergeAt (old : Option Value) : Option Value → Option Value
  | none => old
  | some v => some (mergeValue old v)

/-- A value that is no object counts instead of the one before it. -/
theorem mergeValue_of_not_isObj (old : Option Value) {value : Value} (h : value.isObj = false) :
    mergeValue old value = value := by
  unfold mergeValue
  split
  · cases h
  · rfl

end Value

namespace Overlay

variable {o : Overlay} {key : String} {source : Members}

theorem loses_eq_false_iff : o.loses key = false ↔ (key = prototypeKey → key ∈ o.own.keys) := by
  rw [Members.mem_keys_iff, loses, Members.contains]
  by_cases hkey : key = prototypeKey <;> simp [hkey]

theorem loses_iff : o.loses key = true ↔ key = prototypeKey ∧ o.own.get? key = none := by
  rw [loses, Members.contains]
  simp

/-! One member. -/

theorem lay_of_loses (h : o.loses key = true) (value : Value) : (o.lay key value).own = o.own := by
  cases value <;> simp only [lay, h, if_true]

theorem lay_of_not_loses (h : o.loses key = false) (value : Value) :
    o.lay key value = o.set key (Value.mergeValue (o.seen? key) value) := by
  cases value with
  | obj inner =>
    simp only [lay, h, Bool.false_eq_true, if_false, Value.mergeValue, Value.mergeMembers]
    split <;> simp_all
  | _ => simp [lay, h, Value.mergeValue]

theorem get?_lay (o : Overlay) (key : String) (value : Value) (other : String) :
    (o.lay key value).own.get? other =
      if key = other ∧ o.loses key = false then some (Value.mergeValue (o.seen? key) value)
      else o.own.get? other := by
  cases hloses : o.loses key with
  | true => rw [lay_of_loses hloses, if_neg fun h => Bool.noConfusion h.2]
  | false =>
    rw [lay_of_not_loses hloses, set, Members.get?_set]
    simp only [and_true]

theorem isSome_get?_lay (h : (o.own.get? key).isSome) (k : String) (value : Value) :
    ((o.lay k value).own.get? key).isSome := by
  rw [get?_lay]
  split
  · rfl
  · exact h

theorem loses_lay (h : o.loses key = false) (k : String) (value : Value) : (o.lay k value).loses key = false := by
  rw [loses_eq_false_iff, Members.mem_keys_iff] at h ⊢
  exact fun hkey => isSome_get?_lay (h hkey) k value

/-! All members. -/

theorem get?_layAll_of_not_mem (h : key ∉ source.keys) (o : Overlay) :
    (o.layAll source).own.get? key = o.own.get? key := by
  induction source generalizing o with
  | nil => rfl
  | cons p rest ih =>
    obtain ⟨k, v⟩ := p
    obtain ⟨hk, hrest⟩ := not_or.mp (mt List.mem_cons.mpr h)
    rw [layAll, ih hrest, get?_lay, if_neg fun h => hk h.1.symm]

/-- An object without the key of its prototype does not get it. -/
theorem get?_layAll_of_loses (h : o.loses key = true) (source : Members) : (o.layAll source).own.get? key = none := by
  induction source generalizing o with
  | nil => exact (loses_iff.mp h).2
  | cons p rest ih =>
    obtain ⟨k, v⟩ := p
    refine ih (loses_iff.mpr ⟨(loses_iff.mp h).1, ?_⟩)
    rw [get?_lay, if_neg]
    · exact (loses_iff.mp h).2
    · rintro ⟨rfl, hkept⟩
      exact Bool.noConfusion (hkept.symm.trans h)

/-- A member that is kept is merged with what showed at its key, which is what the object had there if it had
anything. -/
theorem exists_get?_layAll (hnodup : source.keys.Nodup) (h : o.loses key = false) {v : Value}
    (hget : source.get? key = some v) : ∃ old, (o.layAll source).own.get? key = some (Value.mergeValue old v) ∧
      ((o.own.get? key).isSome → old = o.own.get? key) := by
  induction source generalizing o with
  | nil => cases hget
  | cons p rest ih =>
    obtain ⟨k, w⟩ := p
    obtain ⟨hk, hrest⟩ := List.nodup_cons.mp hnodup
    rw [Members.get?] at hget
    split at hget
    · next heq =>
      subst heq
      cases hget
      refine ⟨o.seen? k, ?_, fun hsome => ?_⟩
      · rw [layAll, get?_layAll_of_not_mem hk, get?_lay, if_pos ⟨rfl, h⟩]
      · rw [seen?, Option.or_of_isSome hsome]
    · next hne =>
      obtain ⟨old, hold, hown⟩ := ih hrest (loses_lay h k w) hget
      have hsame : (o.lay k w).own.get? key = o.own.get? key := by rw [get?_lay, if_neg fun h => hne h.1]
      rw [hsame] at hown
      exact ⟨old, hold, hown⟩

theorem filter_keys_lay {p : String → Bool} (h : p key = false) (o : Overlay) (value : Value) :
    (o.lay key value).own.keys.filter p = o.own.keys.filter p := by
  cases hloses : o.loses key with
  | true => rw [lay_of_loses hloses]
  | false =>
    rw [lay_of_not_loses hloses]
    exact Members.filter_keys_set h _ _

theorem filter_keys_layAll {p : String → Bool} (h : ∀ key ∈ source.keys, p key = false) (o : Overlay) :
    (o.layAll source).own.keys.filter p = o.own.keys.filter p := by
  induction source generalizing o with
  | nil => rfl
  | cons q rest ih =>
    obtain ⟨k, v⟩ := q
    obtain ⟨hk, hrest⟩ := List.forall_mem_cons.mp h
    rw [layAll, ih hrest, filter_keys_lay hk]

theorem inherited_lay (h : o.loses key = false) (value : Value) : (o.lay key value).inherited = o.inherited := by
  rw [lay_of_not_loses h]
  rfl

/-- With nothing to show through, and nothing to be lost, each key is decided by the two values it has. -/
theorem get?_layAll (hnodup : source.keys.Nodup) (hbare : o.inherited = [])
    (hkept : prototypeKey ∈ source.keys → prototypeKey ∈ o.own.keys) (key : String) :
    (o.layAll source).own.get? key = Value.mergeAt (o.own.get? key) (source.get? key) := by
  induction source generalizing o with
  | nil => rfl
  | cons p rest ih =>
    obtain ⟨k, v⟩ := p
    obtain ⟨hk, hrest⟩ := List.nodup_cons.mp hnodup
    have hk' : o.loses k = false := by
      rw [loses_eq_false_iff]
      rintro rfl
      exact hkept List.mem_cons_self
    have hshown : o.seen? k = o.own.get? k := by
      rw [seen?, hbare]
      exact Option.or_none
    have hlater : prototypeKey ∈ Members.keys rest → prototypeKey ∈ (o.lay k v).own.keys := by
      intro hmem
      rw [Members.mem_keys_iff]
      exact isSome_get?_lay (Members.mem_keys_iff.mp (hkept (List.mem_cons_of_mem _ hmem))) k v
    rw [layAll, ih hrest ((inherited_lay hk' v).trans hbare) hlater, get?_lay, Members.get?, hshown]
    by_cases heq : k = key
    · subst heq
      rw [if_pos ⟨rfl, hk'⟩, if_pos rfl, Members.get?_eq_none_iff.mpr hk]
      rfl
    · rw [if_neg fun h => heq h.1, if_neg heq]

end Overlay

namespace Value

theorem get?_mergeMembers {source : Members} (h : source.keys.Nodup) {target : Members}
    (hkept : Overlay.prototypeKey ∈ source.keys → Overlay.prototypeKey ∈ target.keys) (key : String) :
    (mergeMembers target source).get? key = mergeAt (target.get? key) (source.get? key) :=
  Overlay.get?_layAll h rfl hkept key

/-- Members that are no objects are laid over others as they are. -/
theorem get?_mergeMembers_of_flat {source : Members} (h : source.Flat) (target : Members) (key : String) :
    (mergeMembers target source).get? key = (source.get? key).or (target.get? key) := by
  rw [get?_mergeMembers h.nodup fun hmem => absurd hmem h.no_prototype]
  cases hget : source.get? key with
  | none => rfl
  | some v => exact congrArg some (mergeValue_of_not_isObj _ (h.no_object _ (Members.mem_of_get? hget)))

/-- A merged object has its other keys in the order of the first one. -/
theorem filter_keys_mergeMembers {p : String → Bool} {source : Members} (h : ∀ key ∈ source.keys, p key = false)
    (target : Members) : (mergeMembers target source).keys.filter p = target.keys.filter p :=
  Overlay.filter_keys_layAll h _

end Value

end RuleScan
