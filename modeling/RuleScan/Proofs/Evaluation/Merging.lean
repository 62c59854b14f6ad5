import RuleScan.Proofs.Evaluation.Agreement

/-! Merging two sets of bindings as an operation. It is refused where a shared name stands for different stretches of
the text, and keeps the nodes of the first set otherwise. A name that every record answers to by itself is met as
something that is no node, so that merging fails where only the second set binds it. Main statement: over some names
the laws of merging hold exactly when none of the names is of that kind. -/
namespace RuleScan

namespace Bindings

/-- Some name is bound by both, to nodes of different spans. -/
def Differ (a b : Bindings) : Prop :=
  ∃ name n m, a.lookup name = some n ∧ b.lookup name = some m ∧ n.span.same m.span = false

/-- The names of `b` that every record answers to by itself are bound by `a`. -/
def Covers (a b : Bindings) : Prop :=
  ∀ name ∈ inherent, (b.lookup name).isSome = true → (a.lookup name).isSome = true

/-- Bindings of some of these names, none of them twice. -/
structure Among (names : List String) (b : Bindings) : Prop where
  unique : b.Unique
  names : ∀ x ∈ b, x.1 ∈ names

/-- The laws of merging. Where three sets can be merged from the left they can be merged from the right, and the other
way round, and the same names then stand for the same nodes. -/
structure MergeLaw (a b c : Bindings) : Prop where
  refused_iff : a.merge b = .ok none ↔ Differ a b
  binds : a.merge b ≠ .ok none →
    ∃ ab, a.merge b = .ok (some ab) ∧ ab.Unique ∧ ∀ name, ab.lookup name = (a.lookup name).or (b.lookup name)
  symm : (∃ ab, a.merge b = .ok (some ab)) ↔ ∃ ba, b.merge a = .ok (some ba)
  assoc : ∀ ab abc, a.merge b = .ok (some ab) → ab.merge c = .ok (some abc) →
    ∃ bc abc', b.merge c = .ok (some bc) ∧ a.merge bc = .ok (some abc') ∧ ∀ name, abc'.lookup name = abc.lookup name
  assoc_symm : ∀ bc abc, b.merge c = .ok (some bc) → a.merge bc = .ok (some abc) →
    ∃ ab abc', a.merge b = .ok (some ab) ∧ ab.merge c = .ok (some abc') ∧ ∀ name, abc'.lookup name = abc.lookup name

variable {a b c : Bindings} {names : List String} {name : String} {n : Node}

theorem Unique.lookup_eq_some_iff (h : b.Unique) : b.lookup name = some n ↔ (name, n) ∈ b := by
  constructor
  · exact mem_of_lookup
  · intro hmem
    cases hlookup : b.lookup name with
    | none => exact absurd rfl (lookup_eq_none_iff.mp hlookup _ hmem)
    | some m =>
      have hsame := h.eq_of_mem (mem_of_lookup hlookup) hmem rfl
      rw [(Prod.mk.inj hsame).2]

theorem isSome_lookup_iff : (b.lookup name).isSome = true ↔ ∃ x ∈ b, x.1 = name := by
  rw [Option.isSome_iff_ne_none, ne_eq, lookup_eq_none_iff]
  simp only [not_forall, not_not, exists_prop]

theorem agree_iff_not_differ (ha : a.Unique) (hb : b.Unique) : Agree a b ↔ ¬Differ a b := by
  constructor
  · rintro h ⟨name, n, m, hn, hm, hspan⟩
    have hsame := h _ (mem_of_lookup hn) _ (mem_of_lookup hm) rfl
    rw [hsame] at hspan
    cases hspan
  · intro h x hx y hy hname
    by_contra hspan
    apply h
    have hlookup : a.lookup y.1 = some x.2 := ha.lookup_eq_some_iff.mpr (hname ▸ hx)
    exact ⟨y.1, x.2, y.2, hlookup, hb.lookup_eq_some_iff.mpr hy, Bool.eq_false_iff.mpr hspan⟩

/-- An extension keeps what the first set says and asks the second for the rest. -/
theorem lookup_extend (hb : b.Unique) (name : String) :
    (a.extend b).lookup name = (a.lookup name).or (b.lookup name) := by
  unfold extend adding
  rw [List.lookup_append]
  cases hlookup : a.lookup name with
  | some n => rfl
  | none =>
    rw [Option.none_or, Option.none_or]
    apply Option.ext
    intro m
    have hkept : Unique (b.walked.filter fun y => (a.lookup y.1).isNone) :=
      hb.walked.sublist (List.filter_sublist.map _)
    rw [hkept.lookup_eq_some_iff, hb.lookup_eq_some_iff, List.mem_filter, mem_walked_iff]
    exact and_iff_left (by rw [hlookup]; rfl)

theorem covers_walked_iff : Covers a b.walked ↔ Covers a b := by
  unfold Covers
  simp only [isSome_lookup_iff, mem_walked_iff]

/-- Adding bindings comes to a result if what only they bind is none of the inherent names. -/
private theorem exists_mergeOnto_of_covers (h : Covers a b) : ∃ merged, a.mergeOnto b = .ok merged := by
  induction b generalizing a with
  | nil => exact ⟨some a, rfl⟩
  | cons y rest ih =>
    have hrest (placed : Bindings) (hplaced : ∀ x ∈ a, x ∈ placed) : Covers placed rest := by
      intro name hname hbound
      obtain ⟨x, hx, rfl⟩ := isSome_lookup_iff.mp hbound
      have hy := h x.1 hname (isSome_lookup_iff.mpr ⟨x, List.mem_cons_of_mem _ hx, rfl⟩)
      obtain ⟨z, hz, hzx⟩ := isSome_lookup_iff.mp hy
      exact isSome_lookup_iff.mpr ⟨z, hplaced z hz, hzx⟩
    rw [mergeOnto]
    split
    · split
      · exact ih (hrest a fun _ hx => hx)
      · exact ⟨none, rfl⟩
    · exact ih (hrest _ fun _ hx => List.mem_append_left _ hx)
    · next hmeaning =>
      obtain ⟨hnone, hinherent⟩ := meaning_eq_noNode_iff.mp hmeaning
      have hbound := h y.1 hinherent (isSome_lookup_iff.mpr ⟨y, List.mem_cons_self, rfl⟩)
      rw [hnone] at hbound
      cases hbound

/-- Bindings that have been added were covered. -/
private theorem covers_of_mergeOnto {merged : Bindings} (h : a.mergeOnto b = .ok (some merged)) : Covers a b := by
  induction b generalizing a with
  | nil => exact fun name _ hbound => nomatch hbound
  | cons y rest ih =>
    rw [mergeOnto] at h
    intro name hname hbound
    obtain ⟨x, hx, rfl⟩ := isSome_lookup_iff.mp hbound
    split at h
    · next existing hmeaning =>
      split at h
      · rcases List.mem_cons.mp hx with rfl | hx
        · rw [meaning_eq_node_iff.mp hmeaning]
          rfl
        · exact ih h x.1 hname (isSome_lookup_iff.mpr ⟨x, hx, rfl⟩)
      · cases h
    · next hmeaning =>
      have hordinary := (meaning_eq_nothing_iff.mp hmeaning).2
      rcases List.mem_cons.mp hx with rfl | hx
      · exact absurd hname hordinary
      · have hlater := ih h x.1 hname (isSome_lookup_iff.mpr ⟨x, hx, rfl⟩)
        obtain ⟨z, hz, hzx⟩ := isSome_lookup_iff.mp hlater
        rcases List.mem_append.mp hz with hz | hz
        · exact isSome_lookup_iff.mpr ⟨z, hz, hzx⟩
        · have hzy : z = y := List.mem_singleton.mp hz
          rw [← hzx, hzy] at hname
          exact absurd hname hordinary
    · cases h

/-- Two sets are merged if and only if they agree and the first covers the second. -/
theorem merge_eq_some_iff (ha : a.Unique) (hb : b.Unique) {ab : Bindings} :
    a.merge b = .ok (some ab) ↔ (¬Differ a b ∧ Covers a b) ∧ ab = a.extend b := by
  constructor
  · intro h
    have hmerged := merge_eq_ok ha hb h
    have hcovers := covers_walked_iff.mp (covers_of_mergeOnto h)
    by_cases hagree : Agree a b
    · rw [if_pos hagree] at hmerged
      exact ⟨⟨(agree_iff_not_differ ha hb).mp hagree, hcovers⟩, Option.some.inj hmerged⟩
    · rw [if_neg hagree] at hmerged
      cases hmerged
  · rintro ⟨⟨hsame, hcovers⟩, rfl⟩
    obtain ⟨merged, hmerged⟩ : ∃ merged, a.merge b = .ok merged :=
      exists_mergeOnto_of_covers (covers_walked_iff.mpr hcovers)
    have hresult := merge_eq_ok ha hb hmerged
    rw [if_pos ((agree_iff_not_differ ha hb).mpr hsame)] at hresult
    rw [hmerged, hresult]

/-- Merging is refused only where the sets differ on a name. -/
theorem differ_of_merge_eq_none (ha : a.Unique) (hb : b.Unique) (h : a.merge b = .ok none) : Differ a b := by
  have hmerged := merge_eq_ok ha hb h
  by_contra hsame
  rw [if_pos ((agree_iff_not_differ ha hb).mpr hsame)] at hmerged
  cases hmerged

theorem Differ.symm (h : Differ a b) : Differ b a := by
  obtain ⟨name, n, m, hn, hm, hspan⟩ := h
  refine ⟨name, m, n, hm, hn, ?_⟩
  rw [Bool.eq_false_iff] at hspan ⊢
  exact fun hsame => hspan (Span.same_symm hsame)

theorem Among.extend (ha : a.Among names) (hb : b.Among names) : (a.extend b).Among names := by
  constructor
  · exact ha.unique.extend hb.unique
  · intro x hx
    rcases List.mem_append.mp hx with hx | hx
    · exact ha.names x hx
    · exact hb.names x (mem_walked_iff.mp (List.mem_filter.mp hx).1)

/-- Where none of the names is inherent, every set covers every other. -/
theorem Among.covers (hb : b.Among names) (hplain : Plain names) (a : Bindings) : Covers a b := by
  intro name hname hbound
  obtain ⟨x, hx, rfl⟩ := isSome_lookup_iff.mp hbound
  exact absurd hname (hplain x.1 (hb.names x hx))

/-- Three sets agree with each other in pairs if and only if two of them agree and the third agrees with both of these
together. -/
private theorem agree_extend_right_iff (hbc : Agree b c) : Agree a (b.extend c) ↔ Agree a b ∧ Agree a c := by
  have hleft := agree_extend_iff (c := a) hbc
  constructor
  · intro h
    obtain ⟨hb, hc⟩ := hleft.mp h.symm
    exact ⟨hb.symm, hc.symm⟩
  · rintro ⟨hb, hc⟩
    exact (hleft.mpr ⟨hb.symm, hc.symm⟩).symm

/-- The laws hold over names none of which is inherent. -/
theorem mergeLaw_of_plain (hplain : Plain names) (ha : a.Among names) (hb : b.Among names) (hc : c.Among names) :
    MergeLaw a b c := by
  have hmerge {x y xy : Bindings} (hx : x.Among names) (hy : y.Among names) :
      x.merge y = .ok (some xy) ↔ Agree x y ∧ xy = x.extend y := by
    rw [merge_eq_some_iff hx.unique hy.unique, agree_iff_not_differ hx.unique hy.unique]
    exact and_congr_left' (and_iff_left (hy.covers hplain x))
  have hsome : a.merge b ≠ .ok none → Agree a b := by
    intro h
    by_contra hdiffer
    obtain ⟨merged, hmerged⟩ : ∃ merged, a.merge b = .ok merged :=
      exists_mergeOnto_of_covers (covers_walked_iff.mpr (hb.covers hplain a))
    have hresult := merge_eq_ok ha.unique hb.unique hmerged
    rw [if_neg hdiffer] at hresult
    rw [hresult] at hmerged
    exact h hmerged
  have hlookup (name : String) : ((a.extend b).extend c).lookup name = (a.extend (b.extend c)).lookup name := by
    rw [lookup_extend hc.unique, lookup_extend hb.unique, lookup_extend (hb.extend hc).unique,
      lookup_extend hc.unique, Option.or_assoc]
  constructor
  · constructor
    · exact differ_of_merge_eq_none ha.unique hb.unique
    · intro hdiffer
      by_contra h
      exact (agree_iff_not_differ ha.unique hb.unique).mp (hsome h) hdiffer
  · intro h
    exact ⟨_, (hmerge ha hb).mpr ⟨hsome h, rfl⟩, (ha.extend hb).unique, lookup_extend hb.unique⟩
  · constructor
    · rintro ⟨ab, hab⟩
      exact ⟨_, (hmerge hb ha).mpr ⟨((hmerge ha hb).mp hab).1.symm, rfl⟩⟩
    · rintro ⟨ba, hba⟩
      exact ⟨_, (hmerge ha hb).mpr ⟨((hmerge hb ha).mp hba).1.symm, rfl⟩⟩
  · intro ab abc hab habc
    obtain ⟨hagree, rfl⟩ := (hmerge ha hb).mp hab
    obtain ⟨hboth, rfl⟩ := (hmerge (ha.extend hb) hc).mp habc
    obtain ⟨hac, hbc⟩ := (agree_extend_iff hagree).mp hboth
    have hright := (agree_extend_right_iff hbc).mpr ⟨hagree, hac⟩
    exact ⟨_, _, (hmerge hb hc).mpr ⟨hbc, rfl⟩, (hmerge ha (hb.extend hc)).mpr ⟨hright, rfl⟩,
      fun name => (hlookup name).symm⟩
  · intro bc abc hbc habc
    obtain ⟨hagree, rfl⟩ := (hmerge hb hc).mp hbc
    obtain ⟨hboth, rfl⟩ := (hmerge ha (hb.extend hc)).mp habc
    obtain ⟨hab, hac⟩ := (agree_extend_right_iff hagree).mp hboth
    have hleft := (agree_extend_iff hab).mpr ⟨hac, hagree⟩
    exact ⟨_, _, (hmerge ha hb).mpr ⟨hab, rfl⟩, (hmerge (ha.extend hb) hc).mpr ⟨hleft, rfl⟩, hlookup⟩

def oneChar (start : Nat) : Node :=
  { kind := "A", named := true, field := none, children := [], text := none, hasError := false
    span := ⟨start, start + 1, ⟨0, start⟩, ⟨0, start + 1⟩⟩ }

/-- A name that only the second set binds makes merging fail if it is inherent. -/
theorem merge_singleton_eq_error (hname : name ∈ inherent) (n : Node) :
    merge [] [(name, n)] = .error ⟨"startIndex"⟩ := by
  have hwalked : walked [(name, n)] = [(name, n)] := rfl
  have hmeaning : meaning [] name = .noNode := meaning_eq_noNode_iff.mpr ⟨rfl, hname⟩
  rw [merge, hwalked, mergeOnto, hmeaning]

/-- Whatever the names, merging is refused only where two sets differ on a name, and gives their union exactly where
they do not and the first covers the second. Over some names the laws of merging hold if and only if none of the names
is inherent. -/
theorem merge_laws_iff (names : List String) :
    (∀ a b : Bindings, a.Unique → b.Unique →
      (a.merge b = .ok none → Differ a b) ∧
      ((∃ ab, a.merge b = .ok (some ab)) ↔ ¬Differ a b ∧ Covers a b) ∧
      ∀ ab, a.merge b = .ok (some ab) →
        ab.Unique ∧ ∀ name, ab.lookup name = (a.lookup name).or (b.lookup name)) ∧
    ((∀ a b c : Bindings, a.Among names → b.Among names → c.Among names → MergeLaw a b c) ↔
      ∀ name ∈ names, name ∉ inherent) := by
  constructor
  · intro a b ha hb
    have hmerge {ab : Bindings} : a.merge b = .ok (some ab) ↔ _ := merge_eq_some_iff ha hb
    refine ⟨differ_of_merge_eq_none ha hb, ?_, ?_⟩
    · constructor
      · rintro ⟨ab, hab⟩
        exact (hmerge.mp hab).1
      · intro h
        exact ⟨_, hmerge.mpr ⟨h, rfl⟩⟩
    · intro ab hab
      rw [(hmerge.mp hab).2]
      exact ⟨ha.extend hb, lookup_extend hb⟩
  · constructor
    · intro h name hname hinherent
      have hnil : Among names [] := ⟨List.nodup_nil, List.forall_mem_nil _⟩
      have hone : Among names [(name, oneChar 0)] := ⟨List.nodup_singleton _, List.forall_mem_singleton.mpr hname⟩
      have hfails := merge_singleton_eq_error hinherent (oneChar 0)
      obtain ⟨ab, hab, -⟩ := (h [] _ [] hnil hone hnil).binds (by rw [hfails]; exact nofun)
      rw [hfails] at hab
      cases hab
    · intro hplain a b c ha hb hc
      exact mergeLaw_of_plain hplain ha hb hc

theorem merge_laws_two_names :
    (∃ ab, merge [("x", oneChar 0)] [("x", oneChar 0), ("y", oneChar 1)] = .ok (some ab)) ∧
      MergeLaw [("x", oneChar 0)] [("x", oneChar 0), ("y", oneChar 1)] [("y", oneChar 1)] := by
  have hplain : ∀ name ∈ ["x", "y"], name ∉ inherent := by decide
  have hfirst : Among ["x", "y"] [("x", oneChar 0)] := ⟨List.nodup_singleton _, by simp⟩
  have hlast : Among ["x", "y"] [("y", oneChar 1)] := ⟨List.nodup_singleton _, by simp⟩
  have hboth : Among ["x", "y"] [("x", oneChar 0), ("y", oneChar 1)] := by
    constructor
    · rw [Unique]
      decide
    · simp
  obtain ⟨hpairs, hlaws⟩ := merge_laws_iff ["x", "y"]
  obtain ⟨-, hmerged, -⟩ := hpairs _ _ hfirst.unique hboth.unique
  have hagree : Agree [("x", oneChar 0)] [("x", oneChar 0), ("y", oneChar 1)] := by decide
  have hsame := (agree_iff_not_differ hfirst.unique hboth.unique).mp hagree
  exact ⟨hmerged.mpr ⟨hsame, hboth.covers hplain _⟩, hlaws.mpr hplain _ _ _ hfirst hboth hlast⟩

/-- A node bound to `constructor` cannot be added to no bindings at all. -/
theorem merge_constructor_fails :
    ¬Differ [] [("constructor", oneChar 0)] ∧ merge [] [("constructor", oneChar 0)] = .error ⟨"startIndex"⟩ := by
  refine ⟨?_, merge_singleton_eq_error (by decide) _⟩
  rintro ⟨name, n, m, hn, -, -⟩
  cases hn

end Bindings

end RuleScan
