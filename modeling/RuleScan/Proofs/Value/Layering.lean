import RuleScan.Proofs.Value.Canonical
import RuleScan.Proofs.Value.Merging

/-! The laws of laying one object over another. They hold unless the key of the prototype is laid over an object that
does not have it: this member is lost, and the members behind it may be merged with what the prototype shows. Laying
the same object over the result once more changes nothing in any case. -/
namespace RuleScan

namespace Members

theorem replace_of_get? {m : Members} {key : String} {value : Value} (h : m.get? key = some value) :
    m.replace key value = m := by
  induction m with
  | nil => rfl
  | cons p rest ih =>
    obtain ⟨k, v⟩ := p
    rw [get?] at h
    rw [replace]
    split at h
    · next heq =>
      cases h
      exact if_pos heq
    · next hne => rw [if_neg hne, ih h]

theorem set_of_get? {m : Members} {key : String} {value : Value} (h : m.get? key = some value) :
    m.set key value = m := by
  have hcontains : m.contains key = true := by rw [contains, h, Option.isSome_some]
  rw [set, if_pos hcontains, replace_of_get? h]

end Members

namespace Value

def at? (v : Value) : List String → Option Value
  | [] => some v
  | key :: rest => (v.get? key).bind fun inner => inner.at? rest

/-- What one level of an object laid over another is to be. -/
structure LevelLaws (target source : Members) : Prop where
  keys : ∀ key, key ∈ (mergeMembers target source).keys ↔ key ∈ target.keys ∨ key ∈ source.keys
  kept : ∀ key ∉ source.keys, (mergeMembers target source).get? key = target.get? key
  merged : ∀ key outer inner, target.get? key = some (.obj outer) → source.get? key = some (.obj inner) →
    (mergeMembers target source).get? key = some (.obj (mergeMembers outer inner))
  taken : ∀ key v, source.get? key = some v →
    (v.isObj = false ∨ ∀ outer, target.get? key ≠ some (.obj outer)) →
    (mergeMembers target source).get? key = some v

/-- Wherever an object is laid over another, it does not set its prototype. -/
def Clear (target source : Members) : Prop :=
  ∀ path outer inner, (Value.obj target).at? path = some (.obj outer) →
    (Value.obj source).at? path = some (.obj inner) →
    Overlay.prototypeKey ∈ Members.keys inner → Overlay.prototypeKey ∈ Members.keys outer

variable {target source : Members} {key : String} {v : Value}

theorem at?_cons (m : Members) (key : String) (rest : List String) :
    (Value.obj m).at? (key :: rest) = (m.get? key).bind fun inner => inner.at? rest := rfl

theorem Clear.below {outer inner : Members} (h : Clear target source) (htarget : target.get? key = some (.obj outer))
    (hsource : source.get? key = some (.obj inner)) : Clear outer inner := by
  intro path o i ho hi
  refine h (key :: path) o i ?_ ?_
  · rw [at?_cons, htarget, Option.bind_some, ho]
  · rw [at?_cons, hsource, Option.bind_some, hi]

theorem DistinctKeys.of_get? (h : (Value.obj source).DistinctKeys) (hget : source.get? key = some v) :
    v.DistinctKeys :=
  (distinctKeys_obj.mp h).2 _ (Members.mem_of_get? hget)

/-! One level. -/

theorem loses_iff_target : ({ own := target } : Overlay).loses key = false ↔
    (key = Overlay.prototypeKey → key ∈ target.keys) := Overlay.loses_eq_false_iff

theorem not_mem_keys_of_loses (h : ({ own := target } : Overlay).loses key = true) (source : Members) :
    key ∉ (mergeMembers target source).keys :=
  Members.get?_eq_none_iff.mp (Overlay.get?_layAll_of_loses h source)

theorem mergeValue_of_objects (outer inner : Members) :
    mergeValue (some (.obj outer)) (.obj inner) = .obj (mergeMembers outer inner) := rfl

theorem mergeValue_eq_self {old : Option Value} (h : v.isObj = false ∨ ∀ outer, old ≠ some (.obj outer)) :
    mergeValue old v = v := by
  unfold mergeValue
  split
  · rcases h with h | h
    · cases h
    · exact absurd rfl (h _)
  · rfl

theorem levelLaws_iff (h : source.keys.Nodup) : LevelLaws target source ↔
    (Overlay.prototypeKey ∈ source.keys → Overlay.prototypeKey ∈ target.keys) := by
  constructor
  · intro hlaws hmem
    by_contra hlost
    have hloses : ({ own := target } : Overlay).loses Overlay.prototypeKey = true :=
      Overlay.loses_iff.mpr ⟨rfl, Members.get?_eq_none_iff.mpr hlost⟩
    exact not_mem_keys_of_loses hloses source ((hlaws.keys _).mpr (.inr hmem))
  · intro hkept
    have hget := get?_mergeMembers h hkept
    constructor
    · intro key
      simp only [Members.mem_keys_iff, hget]
      cases source.get? key <;> simp [mergeAt]
    · intro key hkey
      rw [hget, Members.get?_eq_none_iff.mpr hkey]
      rfl
    · intro key outer inner htarget hsource
      rw [hget, htarget, hsource]
      rfl
    · intro key v hsource hshape
      rw [hget, hsource, mergeAt, mergeValue_eq_self hshape]

/-! Paths. -/

/-- At the end of a path the later object decides, as long as the path does not lead through a prototype or none is
set. -/
theorem at?_mergeMembers (h : (Value.obj source).DistinctKeys) {path : List String}
    (hpath : Overlay.prototypeKey ∉ path ∨ Clear target source) (hv : v.isObj = false)
    (hget : (Value.obj source).at? path = some v) : (Value.obj (mergeMembers target source)).at? path = some v := by
  induction path generalizing target source with
  | nil =>
    cases hget
    cases hv
  | cons key rest ih =>
    rw [at?_cons] at hget ⊢
    obtain ⟨w, hw, hrest⟩ := Option.bind_eq_some_iff.mp hget
    -- what the value of the key was laid over, and why the rest of the path is as good as the whole
    obtain ⟨old, hold, hsafe⟩ : ∃ old, (mergeMembers target source).get? key = some (mergeValue old w) ∧
        ∀ outer inner, old = some (.obj outer) → w = .obj inner →
          Overlay.prototypeKey ∉ rest ∨ Clear outer inner := by
      rcases hpath with havoids | hclear
      · obtain ⟨hkey, havoids⟩ := not_or.mp (mt List.mem_cons.mpr havoids)
        obtain ⟨old, hold, -⟩ := Overlay.exists_get?_layAll h.nodup
          (loses_iff_target.mpr fun he => absurd he.symm hkey) hw
        exact ⟨old, hold, fun _ _ _ _ => .inl havoids⟩
      · have hkept := hclear [] target source rfl rfl
        refine ⟨target.get? key, ?_, fun outer inner houter hinner => .inr (hclear.below houter (hinner ▸ hw))⟩
        rw [get?_mergeMembers h.nodup hkept, hw]
        rfl
    rw [hold, Option.bind_some]
    by_cases hmerged : ∃ outer inner, old = some (.obj outer) ∧ w = .obj inner
    · obtain ⟨outer, inner, rfl, rfl⟩ := hmerged
      exact ih (h.of_get? hw) (hsafe outer inner rfl rfl) hrest
    · rw [mergeValue_eq_self, hrest]
      cases w with
      | obj inner => exact .inr fun outer he => hmerged ⟨outer, inner, he, rfl⟩
      | _ => exact .inl rfl

/-! Once more. -/

/-- Members that change nothing at their keys change nothing. -/
theorem layAll_of_absorbed {o : Overlay} (h : ∀ p ∈ source, o.loses p.1 = false →
    ∃ w, o.own.get? p.1 = some w ∧ mergeValue (some w) p.2 = w) : (o.layAll source).own = o.own := by
  induction source generalizing o with
  | nil => rfl
  | cons p rest ih =>
    obtain ⟨key, v⟩ := p
    obtain ⟨hp, hrest⟩ := List.forall_mem_cons.mp h
    have hsame : (o.lay key v).own = o.own := by
      cases hloses : o.loses key with
      | true => exact Overlay.lay_of_loses hloses v
      | false =>
        obtain ⟨w, hw, hmerge⟩ := hp hloses
        have hseen : o.seen? key = some w := by rw [Overlay.seen?, hw, Option.some_or]
        rw [Overlay.lay_of_not_loses hloses, hseen, hmerge, Overlay.set, Members.set_of_get? hw]
    have hloses : ∀ k, (o.lay key v).loses k = o.loses k := fun k => by rw [Overlay.loses, hsame, ← Overlay.loses]
    rw [Overlay.layAll, ih, hsame]
    intro q hq hkept
    rw [hsame]
    exact hrest q hq (hloses q.1 ▸ hkept)

theorem mergeMembers_self_of (h : source.keys.Nodup) (hself : ∀ p ∈ source, mergeValue (some p.2) p.2 = p.2) :
    mergeMembers source source = source :=
  layAll_of_absorbed fun p hp _ => ⟨p.2, (Members.get?_eq_some_iff h).mpr hp, hself p hp⟩

theorem mergeMembers_again_of (h : source.keys.Nodup)
    (hagain : ∀ p ∈ source, ∀ old, mergeValue (some (mergeValue old p.2)) p.2 = mergeValue old p.2)
    (target : Members) : mergeMembers (mergeMembers target source) source = mergeMembers target source := by
  refine layAll_of_absorbed fun p hp hkept => ?_
  have hloses : ({ own := target } : Overlay).loses p.1 = false := by
    by_contra hlost
    have hnone := not_mem_keys_of_loses (Bool.not_eq_false _ ▸ hlost) source
    rw [Bool.not_eq_false, Overlay.loses_iff] at hlost
    exact hnone (Overlay.loses_eq_false_iff.mp hkept hlost.1)
  obtain ⟨old, hold, -⟩ := Overlay.exists_get?_layAll h hloses ((Members.get?_eq_some_iff h).mpr hp)
  exact ⟨_, hold, hagain p hp old⟩

theorem mergeValue_self (h : v.DistinctKeys) : mergeValue (some v) v = v := by
  induction v using byParts with
  | obj ms ih =>
    obtain ⟨hnodup, hparts⟩ := distinctKeys_obj.mp h
    rw [mergeValue_of_objects, mergeMembers_self_of hnodup fun p hp => ih p hp (hparts p hp)]
  | _ => rfl

theorem mergeValue_again (h : v.DistinctKeys) (old : Option Value) :
    mergeValue (some (mergeValue old v)) v = mergeValue old v := by
  induction v using byParts generalizing old with
  | obj ms ih =>
    obtain ⟨hnodup, hparts⟩ := distinctKeys_obj.mp h
    by_cases hold : ∃ outer, old = some (.obj outer)
    · obtain ⟨outer, rfl⟩ := hold
      rw [mergeValue_of_objects, mergeValue_of_objects,
        mergeMembers_again_of hnodup (fun p hp => ih p hp (hparts p hp)) outer]
    · rw [mergeValue_eq_self (.inr fun outer he => hold ⟨outer, he⟩), mergeValue_self h]
  | _ => rw [mergeValue_of_not_isObj _ rfl, mergeValue_of_not_isObj _ rfl]

/-- What an object laid over another comes to. Each level is as it is to be unless a member of it sets the prototype.
At every path the value of the later object counts if it is no object, for paths that lead through no prototype or if
none is set. And the same object laid over the result changes nothing. -/
theorem mergeMembers_laws_iff (h : (Value.obj source).DistinctKeys) (target : Members) :
    (LevelLaws target source ↔ (Overlay.prototypeKey ∈ source.keys → Overlay.prototypeKey ∈ target.keys)) ∧
      (∀ path v, Overlay.prototypeKey ∉ path ∨ Clear target source → v.isObj = false →
        (Value.obj source).at? path = some v → (Value.obj (mergeMembers target source)).at? path = some v) ∧
      mergeMembers (mergeMembers target source) source = mergeMembers target source := by
  refine ⟨levelLaws_iff h.nodup, fun path v hpath hv => at?_mergeMembers h hpath hv, ?_⟩
  exact mergeMembers_again_of h.nodup (fun p hp => mergeValue_again ((distinctKeys_obj.mp h).2 p hp)) target

/-- Members with an object and a list among them. -/
def lower : Members := [("a", .obj [("b", ofNat 1), ("c", ofNat 2)]), ("list", .arr [ofNat 1, ofNat 2])]

def upper : Members := [("a", .obj [("c", ofNat 3)]), ("list", .arr [ofNat 3])]

theorem mergeMembers_laws_upper : (obj upper).DistinctKeys ∧ LevelLaws lower upper ∧
    (obj (mergeMembers lower upper)).at? ["a", "c"] = some (ofNat 3) ∧
    (obj (mergeMembers lower upper)).at? ["list"] = some (.arr [ofNat 3]) ∧
    mergeMembers (mergeMembers lower upper) upper = mergeMembers lower upper := by
  have hnumber : ∀ n, (ofNat n).DistinctKeys := fun _ => nofun
  have hdistinct : (obj upper).DistinctKeys :=
    distinctKeys_obj.mpr ⟨by decide, by simp [upper, distinctKeys_obj, distinctKeys_arr, hnumber, Members.keys]⟩
  obtain ⟨hlevel, hpath, hagain⟩ := mergeMembers_laws_iff hdistinct lower
  exact ⟨hdistinct, hlevel.mpr (by decide), hpath _ _ (.inl (by decide)) rfl rfl, hpath _ _ (.inl (by decide)) rfl rfl,
    hagain⟩

/-- A member with the key of the prototype is lost, and the ones behind it are merged with what it holds. -/
theorem prototype_lost :
    ¬LevelLaws [] [(Overlay.prototypeKey, ofNat 1)] ∧ mergeMembers [] [(Overlay.prototypeKey, ofNat 1)] = [] ∧
    mergeMembers [] [(Overlay.prototypeKey, .obj [("x", .obj [("a", ofNat 1)])]), ("x", .obj [("b", ofNat 2)])] =
      [("x", .obj [("a", ofNat 1), ("b", ofNat 2)])] :=
  ⟨fun h => absurd ((h.keys _).mpr (.inr (.head _))) List.not_mem_nil, rfl, rfl⟩

end Value

end RuleScan
