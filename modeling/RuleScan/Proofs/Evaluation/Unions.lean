import RuleScan.Proofs.Evaluation.Conjunction
import RuleScan.Proofs.Evaluation.Keys
import RuleScan.Proofs.Rule.Deduplication

/-! Unions of matches. A union has one match for each place that some of its results hold, the first that holds
it, and lists them by span. So places alone decide what a union covers, and results that were united before can be
united with others as if they had not been. -/
namespace RuleScan

section Sorting

variable {α κ : Type} {cmp : α → α → Ordering} [Std.TransCmp cmp]

theorem mergeSort_append_mergeSort (xs ys zs : List α) :
    (xs ++ ys.mergeSort (fun a b => (cmp a b).isLE) ++ zs).mergeSort (fun a b => (cmp a b).isLE) =
      (xs ++ ys ++ zs).mergeSort fun a b => (cmp a b).isLE := by
  apply eq_of_filter_eq (pairwise_mergeSort_isLE _) (pairwise_mergeSort_isLE _)
  intro a
  rw [filter_mergeSort_isLE, filter_mergeSort_isLE]
  simp only [List.filter_append, filter_mergeSort_isLE]

variable [DecidableEq κ] {key : α → κ}

/-- Where one key means one place in the order, sorting may come after the choice of the first of each key. -/
theorem firstOfEach_mergeSort (hkey : ∀ a b, key a = key b → cmp a b = .eq) (xs : List α) :
    firstOfEach key (xs.mergeSort fun a b => (cmp a b).isLE) =
      (firstOfEach key xs).mergeSort fun a b => (cmp a b).isLE := by
  have hsorted : (firstOfEach key (xs.mergeSort fun a b => (cmp a b).isLE)).Pairwise fun a b => (cmp a b).isLE :=
    (pairwise_mergeSort_isLE xs).sublist (firstOfEach_sublist _)
  apply eq_of_filter_eq hsorted (pairwise_mergeSort_isLE _)
  intro a
  -- what is tied with `a` can be told from its key
  classical
  have htied : (fun b => decide (cmp a b = .eq)) = fun b => decide (∃ c, key c = key b ∧ cmp a c = .eq) := by
    funext b
    apply decide_eq_decide.mpr
    constructor
    · intro hb
      exact ⟨b, rfl, hb⟩
    · rintro ⟨c, hc, hac⟩
      rw [← Std.TransCmp.congr_right (hkey c b hc)]
      exact hac
  have hfilter (ys : List α) : (firstOfEach key ys).filter (cmp a · = .eq) =
      firstOfEach key (ys.filter (cmp a · = .eq)) := by
    rw [htied]
    exact (firstOfEach_filter (fun k => decide (∃ c, key c = k ∧ cmp a c = .eq)) ys).symm
  rw [hfilter, filter_mergeSort_isLE, filter_mergeSort_isLE, hfilter]

end Sorting

theorem mem_firstOfEach_iff {α κ : Type} [DecidableEq κ] {key : α → κ} {x : α} {xs : List α} :
    x ∈ firstOfEach key xs ↔ ∃ before after, xs = before ++ x :: after ∧ ∀ y ∈ before, key y ≠ key x := by
  constructor
  · intro h
    induction xs with
    | nil => cases h
    | cons y ys ih =>
      rw [firstOfEach_cons, List.mem_cons, List.mem_filter] at h
      rcases h with rfl | ⟨hx, hne⟩
      · exact ⟨[], ys, rfl, List.forall_mem_nil _⟩
      · obtain ⟨before, after, rfl, hbefore⟩ := ih hx
        have hkey : key x ≠ key y := by simpa using hne
        exact ⟨y :: before, after, rfl, List.forall_mem_cons.mpr ⟨hkey.symm, hbefore⟩⟩
  · rintro ⟨before, after, rfl, hbefore⟩
    have hnew : key x ∉ before.map key := by
      intro hmem
      obtain ⟨y, hy, he⟩ := List.mem_map.mp hmem
      exact hbefore y hy he
    rw [firstOfEach_append, firstOfEach_cons, List.filter_cons_of_pos (by simpa using hnew)]
    exact List.mem_append_right _ List.mem_cons_self

theorem Span.isLE_order_iff {a b : Span} :
    (a.order b).isLE = true ↔ a.start < b.start ∨ a.start = b.start ∧ b.stop ≤ a.stop := by
  unfold Span.order
  rw [Ordering.isLE_then_iff_or, Nat.compare_eq_lt, Nat.compare_eq_eq, Nat.isLE_compare]

namespace Match

variable {results : List (List Match)} {m : Match}

theorem order_eq_compareLex : (fun a b : Match => a.span.order b.span) =
    compareLex (compareOn (·.span.start)) fun a b => compareOn (·.span.stop) b a := by
  funext a b
  simp only [Span.order, compareLex, compareOn]

instance : Std.TransCmp fun a b : Match => a.span.order b.span := by
  have hstop : Std.TransCmp fun a b : Match => compareOn (·.span.stop) b a := Std.TransCmp.opposite
  rw [order_eq_compareLex]
  infer_instance

theorem order_eq_of_key {a b : Match} (h : a.key = b.key) : a.span.order b.span = .eq := by
  have hoffsets := offsets_eq_of_key h
  have hstart : a.span.start = b.span.start := congrArg Prod.fst hoffsets
  have hstop : a.span.stop = b.span.stop := congrArg Prod.snd hoffsets
  unfold Span.order
  rw [hstart, hstop]
  simp

theorem distinct_eq (ms : List Match) (seen : List String) :
    distinct ms seen = (firstOfEach key ms).filter fun m => m.key ∉ seen := by
  induction ms generalizing seen with
  | nil => rfl
  | cons m rest ih =>
    unfold distinct
    rw [firstOfEach_cons, ih, ih]
    by_cases hm : m.key ∈ seen
    · rw [if_pos (List.contains_iff_mem.mpr hm), List.filter_cons_of_neg (by simpa using hm), List.filter_filter]
      apply List.filter_congr
      intro x _
      by_cases hx : x.key = m.key
      · simp [hx, hm]
      · simp [hx]
    · rw [if_neg (fun h => hm (List.contains_iff_mem.mp h)), List.filter_cons_of_pos (by simpa using hm),
        List.filter_filter]
      congr 1
      apply List.filter_congr
      intro x _
      by_cases hx : x.key = m.key
      · simp [hx]
      · simp [hx]

theorem firstOfEach_key_mergeSort (ms : List Match) :
    firstOfEach key (ms.mergeSort fun a b => (a.span.order b.span).isLE) =
      (firstOfEach key ms).mergeSort fun a b => (a.span.order b.span).isLE :=
  firstOfEach_mergeSort (fun _ _ => order_eq_of_key) ms

/-- A union: the first match of each key, sorted. -/
theorem union_eq (results : List (List Match)) :
    union results = (firstOfEach key results.flatten).mergeSort fun a b => (a.span.order b.span).isLE := by
  unfold union
  rw [distinct_eq, List.filter_eq_self.mpr (by simp)]
  exact firstOfEach_key_mergeSort results.flatten

/-- What has been united before can be united with more. -/
theorem union_nested (before inner after : List (List Match)) :
    union (before ++ union inner :: after) = union (before ++ inner ++ after) := by
  let le (a b : Match) : Bool := (a.span.order b.span).isLE
  let united := firstOfEach key inner.flatten
  have hflatten : (before ++ union inner :: after).flatten =
      before.flatten ++ united.mergeSort le ++ after.flatten := by
    rw [union_eq inner]
    simp [united, le]
  have hfirst : firstOfEach key (before.flatten ++ united ++ after.flatten) =
      firstOfEach key (before ++ inner ++ after).flatten := by
    rw [List.flatten_append, List.flatten_append, firstOfEach_append, firstOfEach_append,
      firstOfEach_append (before.flatten ++ inner.flatten), firstOfEach_append before.flatten,
      firstOfEach_eq_self (nodup_map_firstOfEach inner.flatten)]
    simp only [united, List.map_append, List.mem_append, mem_map_firstOfEach]
  calc union (before ++ union inner :: after)
    _ = firstOfEach key ((before.flatten ++ united.mergeSort le ++ after.flatten).mergeSort le) := by
      rw [union_eq (before ++ union inner :: after), hflatten]
      exact (firstOfEach_key_mergeSort _).symm
    _ = firstOfEach key ((before.flatten ++ united ++ after.flatten).mergeSort le) := by
      exact congrArg (firstOfEach key) (mergeSort_append_mergeSort before.flatten united after.flatten)
    _ = (firstOfEach key (before.flatten ++ united ++ after.flatten)).mergeSort le := firstOfEach_key_mergeSort _
    _ = union (before ++ inner ++ after) := by rw [hfirst, ← union_eq]

/-- All that the matches capture is bound in their records. -/
def AllWhole (ms : List Match) : Prop := ∀ m ∈ ms, m.Whole

/-- No earlier result has a match of this place, and no earlier match of its own result is one. -/
def FirstIn (results : List (List Match)) (m : Match) : Prop :=
  ∃ earlier result later before after, results = earlier ++ result :: later ∧ result = before ++ m :: after ∧
    ∀ x ∈ earlier.flatten ++ before, x.place ≠ m.place

structure IsUnion (results : List (List Match)) (united : List Match) : Prop where
  sorted : united.Pairwise fun a b =>
    a.span.start < b.span.start ∨ a.span.start = b.span.start ∧ b.span.stop ≤ a.span.stop
  distinct : united.Pairwise fun a b => a.place ≠ b.place
  covers : ∀ result ∈ results, ∀ m ∈ result, ∃ u ∈ united, u.place = m.place
  first : ∀ m, m ∈ united ↔ FirstIn results m

theorem firstIn_iff :
    FirstIn results m ↔ ∃ before after, results.flatten = before ++ m :: after ∧ ∀ x ∈ before, x.place ≠ m.place := by
  constructor
  · rintro ⟨earlier, result, later, before, after, rfl, rfl, hplace⟩
    refine ⟨earlier.flatten ++ before, after ++ later.flatten, ?_, hplace⟩
    simp
  · rintro ⟨before, after, hflatten, hplace⟩
    rcases List.flatten_eq_append_iff.mp hflatten with
      ⟨earlier, rest, rfl, rfl, hrest⟩ | ⟨earlier, start, c, tail, later, rfl, rfl, htail⟩
    · -- the match begins a result, before which there may be empty ones
      obtain ⟨empty, tail, later, rfl, hempty, -⟩ := List.flatten_eq_cons_iff.mp hrest.symm
      have hnone : empty.flatten = [] := List.flatten_eq_nil_iff.mpr hempty
      refine ⟨earlier ++ empty, m :: tail, later, [], tail, by simp, rfl, ?_⟩
      intro x hx
      rw [List.flatten_append, hnone, List.append_nil, List.append_nil] at hx
      exact hplace x hx
    · obtain ⟨rfl, -⟩ := List.cons.inj htail
      exact ⟨earlier, _, later, start, tail, rfl, rfl, hplace⟩

theorem isUnion_union (h : ∀ result ∈ results, AllWhole result) : IsUnion results (union results) := by
  classical
  have hwhole : ∀ m ∈ results.flatten, m.Whole := by
    intro m hm
    obtain ⟨result, hresult, hmem⟩ := List.mem_flatten.mp hm
    exact h result hresult m hmem
  have hfirsts : firstOfEach key results.flatten = firstOfEach place results.flatten :=
    firstOfEach_congr fun a ha b hb => key_eq_iff (hwhole a ha) (hwhole b hb)
  have hunion : union results = (firstOfEach place results.flatten).mergeSort fun a b => (a.span.order b.span).isLE := by
    rw [union_eq, hfirsts]
  have hmem (m : Match) : m ∈ union results ↔ m ∈ firstOfEach place results.flatten := by
    rw [hunion, List.mem_mergeSort]
  constructor
  · rw [hunion]
    apply (pairwise_mergeSort_isLE (firstOfEach place results.flatten)).imp
    intro a b hab
    exact Span.isLE_order_iff.mp hab
  · have hnodup : ((union results).map place).Nodup := by
      rw [hunion]
      exact ((List.mergeSort_perm _ _).map place).nodup_iff.mpr (nodup_map_firstOfEach _)
    exact List.pairwise_map.mp hnodup
  · intro result hresult m hm
    have hplace : m.place ∈ (firstOfEach place results.flatten).map place :=
      mem_map_firstOfEach.mpr (List.mem_map_of_mem (List.mem_flatten.mpr ⟨result, hresult, hm⟩))
    obtain ⟨u, hu, he⟩ := List.mem_map.mp hplace
    exact ⟨u, (hmem u).mpr hu, he⟩
  · intro m
    rw [hmem, mem_firstOfEach_iff, firstIn_iff]

def places (ms : List Match) : Set ((Nat × Nat) × (String → Option (Nat × Nat))) := {p | ∃ m ∈ ms, m.place = p}

theorem mem_places_union (h : ∀ result ∈ results, AllWhole result) {p : (Nat × Nat) × (String → Option (Nat × Nat))} :
    p ∈ places (union results) ↔ ∃ result ∈ results, p ∈ places result := by
  have hunion := isUnion_union h
  constructor
  · rintro ⟨u, hu, rfl⟩
    obtain ⟨result, hresult, hmem⟩ := exists_of_mem_union hu
    exact ⟨result, hresult, u, hmem, rfl⟩
  · rintro ⟨result, hresult, m, hm, rfl⟩
    exact hunion.covers result hresult m hm

theorem allWhole_union (h : ∀ result ∈ results, AllWhole result) : AllWhole (union results) := by
  intro m hm
  obtain ⟨result, hresult, hmem⟩ := exists_of_mem_union hm
  exact h result hresult m hmem

theorem mem_places_pair {a b : List Match} (ha : AllWhole a) (hb : AllWhole b)
    {p : (Nat × Nat) × (String → Option (Nat × Nat))} : p ∈ places (union [a, b]) ↔ p ∈ places a ∨ p ∈ places b := by
  rw [mem_places_union (by simp [ha, hb])]
  simp

theorem allWhole_pair {a b : List Match} (ha : AllWhole a) (hb : AllWhole b) : AllWhole (union [a, b]) :=
  allWhole_union (by simp [ha, hb])

/-- The law of unions: one match for each place, the first of those that hold it, in the order of spans. As sets of
places, unions do not depend on order, grouping and repetition. -/
structure Lawful (results : List (List Match)) : Prop where
  isUnion : IsUnion results (union results)
  comm : ∀ a ∈ results, ∀ b ∈ results, places (union [a, b]) = places (union [b, a])
  assoc : ∀ a ∈ results, ∀ b ∈ results, ∀ c ∈ results,
    places (union [union [a, b], c]) = places (union [a, union [b, c]])
  idem : ∀ a ∈ results, places (union [a, a]) = places a

theorem lawful_of_allWhole (h : ∀ result ∈ results, AllWhole result) : Lawful results := by
  refine ⟨isUnion_union h, ?_, ?_, ?_⟩
  · intro a ha b hb
    ext p
    rw [mem_places_pair (h a ha) (h b hb), mem_places_pair (h b hb) (h a ha)]
    exact or_comm
  · intro a ha b hb c hc
    have hab := allWhole_pair (h a ha) (h b hb)
    have hbc := allWhole_pair (h b hb) (h c hc)
    ext p
    rw [mem_places_pair hab (h c hc), mem_places_pair (h a ha) (h b hb), mem_places_pair (h a ha) hbc,
      mem_places_pair (h b hb) (h c hc)]
    exact or_assoc
  · intro a ha
    ext p
    rw [mem_places_pair (h a ha) (h a ha)]
    exact or_self_iff

end Match

open Counted

namespace Clause

theorem evaluateEach_append (tree : Tree) (lines : LineIndex) (cs ds : List Clause) (memo : Memo) :
    evaluateEach tree lines (cs ++ ds) memo = do
      let (first, memo) ← evaluateEach tree lines cs memo
      let (second, memo) ← evaluateEach tree lines ds memo
      return (first ++ second, memo) := by
  induction cs generalizing memo with
  | nil => simp [evaluateEach]
  | cons c cs ih => simp [evaluateEach, ih]

/-- The clauses of an 'any' clause among others may stand there themselves. -/
theorem union_evaluateEach_nested (tree : Tree) (lines : LineIndex) (before inner after : List Clause) (memo : Memo) :
    (do
      let (results, memo) ← evaluateEach tree lines (before ++ .any inner :: after) memo
      return (Match.union results, memo)) = do
      let (results, memo) ← evaluateEach tree lines (before ++ inner ++ after) memo
      return (Match.union results, memo) := by
  simp only [evaluateEach_append, evaluateEach, evaluate, bind_assoc, pure_bind, Match.union_nested, List.append_assoc]

theorem evaluate_any_nested (tree : Tree) (lines : LineIndex) (before inner after : List Clause) (memo : Memo) :
    evaluate tree lines (.any (before ++ .any inner :: after)) memo =
      evaluate tree lines (.any (before ++ inner ++ after)) memo := by
  rw [evaluate, evaluate]
  exact union_evaluateEach_nested tree lines before inner after memo

theorem evaluateAll_nested (tree : Tree) (before inner after : List Clause) :
    evaluateAll tree (before ++ .any inner :: after) = evaluateAll tree (before ++ inner ++ after) := by
  have hfirst := congrArg (· >>= fun r => pure r.1)
    (union_evaluateEach_nested tree (LineIndex.ofText tree.source) before inner after [])
  simp only [bind_assoc, pure_bind] at hfirst
  unfold evaluateAll
  exact congrArg (Counted.checkpoint >>= fun _ => ·) hfirst

/-- What the clauses of a rule, or of an 'any' clause, come to is united as it should be if no group is named as the
base of a record. -/
theorem lawful_evaluateEach {clauses : List Clause} (h : Bindings.baseName ∉ groupsEach clauses) (tree : Tree)
    (lines : LineIndex) {memo : Memo} (hmemo : memo.Holds Match.Whole) :
    Yields (evaluateEach tree lines clauses memo) fun r => Match.Lawful r.1 := by
  intro t r t' hrun
  have hwhole := (lasting_whole tree lines h).yields_evaluateEach clauses (List.Subset.refl _) hmemo t r t' hrun
  exact Match.lawful_of_allWhole hwhole.1

end Clause

/-! On the text "ab" two expressions find the same, but the groups that they name as the base of a record are different
ones. -/
namespace BaseGroups

def tree : Tree :=
  let source := Units.ofString "ab"
  ⟨.typescript, source, Textual.node source (LineIndex.ofText source) 0 2, []⟩

def first : Clause := .textual "(?<__proto__>a)b" none none

def second : Clause := .textual "a(?<__proto__>b)" none none

def node (start stop : Nat) : Node := Textual.node tree.source (LineIndex.ofText tree.source) start stop

/-- What is found, with the node of the group as the base. -/
def found (start stop : Nat) : Match := ⟨(node 0 2).span, node 0 2, [], some (node start stop)⟩

theorem flags_none : Textual.flags none = "dg" := by
  have hgiven : Textual.distinct ['g', 'd'] [] = ['g', 'd'] := by decide
  have hsorted : ['g', 'd'].mergeSort (fun a b => Text.le a.toString b.toString) = ['d', 'g'] := by
    have hle : Text.le "g" "d" = false := by decide +kernel
    simp [List.mergeSort, List.MergeSort.Internal.splitInTwo, hle]
  show String.ofList ((Textual.distinct ['g', 'd'] []).mergeSort _) = _
  rw [hgiven, hsorted]

/-- An expression whose only group is named as the base. -/
theorem comesTo_found {regex : String} {start stop : Nat}
    (h : (Regex.compile regex "dg").map (fun p => (p.names.map (·.1), p.all tree.source)) =
      .ok ([Bindings.baseName], [⟨0, 2, [(Bindings.baseName, start, stop)]⟩])) :
    (Clause.textual regex none none).groups = [Bindings.baseName] ∧
      Clause.ComesTo tree (.textual regex none none) (.ok [found start stop]) := by
  obtain ⟨program, hcompile, hread⟩ := Query.map_eq_ok.mp h
  obtain ⟨hnames, hfound⟩ := Prod.mk.inj hread
  rw [← flags_none] at hcompile
  have hcomes := Clause.comesTo_expression hcompile tree
  rw [hfound] at hcomes
  rw [Clause.groups, hcompile]
  exact ⟨hnames, hcomes⟩

theorem comesTo_first : first.groups = [Bindings.baseName] ∧ Clause.ComesTo tree first (.ok [found 0 1]) :=
  comesTo_found (by decide +kernel)

theorem comesTo_second : second.groups = [Bindings.baseName] ∧ Clause.ComesTo tree second (.ok [found 1 2]) :=
  comesTo_found (by decide +kernel)

theorem place_ne : (found 0 1).place ≠ (found 1 2).place := by
  intro h
  have hsite := congrFun (congrArg Prod.snd h) Bindings.baseName
  exact absurd hsite (by decide +kernel)

/-- The key is made of the record alone. -/
theorem union_eq : Match.union [[found 0 1], [found 1 2]] = [found 0 1] := by
  have hkey : (found 1 2).key = (found 0 1).key := rfl
  rw [Match.union_eq, List.flatten_cons, List.flatten_cons, List.singleton_append, firstOfEach_cons]
  simp [firstOfEach_cons, hkey]

end BaseGroups

/-- The law of unions holds of results that bind all they capture, so it holds of whatever some clauses come to, exactly
if none of their groups is named as the base of a record. Without a condition, results that were united before can be
united with others as if they had not been, and an 'any' clause among others can be taken apart. -/
theorem union_law_iff (names : List String) :
    (∀ results, (∀ result ∈ results, Match.AllWhole result) → Match.Lawful results) ∧
    (∀ before inner after, Match.union (before ++ Match.union inner :: after) = Match.union (before ++ inner ++ after)) ∧
    (∀ (tree : Tree) (lines : LineIndex) (before inner after : List Clause) (memo : Clause.Memo),
      Clause.evaluate tree lines (.any (before ++ .any inner :: after)) memo =
        Clause.evaluate tree lines (.any (before ++ inner ++ after)) memo ∧
      Clause.evaluateAll tree (before ++ .any inner :: after) = Clause.evaluateAll tree (before ++ inner ++ after)) ∧
    ((∀ clauses, Clause.groupsEach clauses ⊆ names → ∀ (tree : Tree) (lines : LineIndex) (memo : Clause.Memo),
        memo.Holds Match.Whole → Yields (Clause.evaluateEach tree lines clauses memo) fun r => Match.Lawful r.1) ↔
      Bindings.baseName ∉ names) := by
  refine ⟨fun _ => Match.lawful_of_allWhole, Match.union_nested, ?_, ?_, ?_⟩
  · intro tree lines before inner after memo
    exact ⟨Clause.evaluate_any_nested tree lines before inner after memo,
      Clause.evaluateAll_nested tree before inner after⟩
  · intro h hname
    have hgroups : Clause.groupsEach [BaseGroups.first, BaseGroups.second] ⊆ names := by
      simp [Clause.groupsEach, BaseGroups.comesTo_first.1, BaseGroups.comesTo_second.1, hname]
    have hend := Clause.endsIn_evaluateEach (.cons BaseGroups.comesTo_first.2 (.cons BaseGroups.comesTo_second.2 .nil)) []
    have hlaw : Match.Lawful [[BaseGroups.found 0 1], [BaseGroups.found 1 2]] :=
      hend.of_yields (h _ hgroups _ _ [] (List.forall_mem_nil _))
    -- the place of the second match is lost
    obtain ⟨u, hu, he⟩ := hlaw.isUnion.covers [BaseGroups.found 1 2] (by simp) _ List.mem_cons_self
    rw [BaseGroups.union_eq, List.mem_singleton] at hu
    exact BaseGroups.place_ne (hu ▸ he)
  · intro hname clauses hgroups tree lines memo hmemo
    exact Clause.lawful_evaluateEach (fun hmem => hname (hgroups hmem)) tree lines hmemo

/-- Two clauses come to different matches, but their union keeps one of them only. -/
theorem union_base_groups_lost :
    Clause.ComesTo BaseGroups.tree BaseGroups.first (.ok [BaseGroups.found 0 1]) ∧
      Clause.ComesTo BaseGroups.tree BaseGroups.second (.ok [BaseGroups.found 1 2]) ∧
      (BaseGroups.found 0 1).place ≠ (BaseGroups.found 1 2).place ∧
      Clause.ComesTo BaseGroups.tree (.any [BaseGroups.first, BaseGroups.second]) (.ok [BaseGroups.found 0 1]) := by
  have hany : Clause.ComesTo BaseGroups.tree (.any [BaseGroups.first, BaseGroups.second])
      (.ok (Match.union [[BaseGroups.found 0 1], [BaseGroups.found 1 2]])) :=
    Clause.comesTo_any (.cons BaseGroups.comesTo_first.2 (.cons BaseGroups.comesTo_second.2 .nil))
  rw [BaseGroups.union_eq] at hany
  exact ⟨BaseGroups.comesTo_first.2, BaseGroups.comesTo_second.2, BaseGroups.place_ne, hany⟩

end RuleScan
