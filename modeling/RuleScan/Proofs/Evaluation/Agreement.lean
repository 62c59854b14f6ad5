import Mathlib.Data.List.Forall2
import Mathlib.Data.List.Nodup
import Mathlib.Data.List.Perm.Basic
import RuleScan.Proofs.Evaluation.Safety

/-! Matches whose bindings agree. Merging bindings that agree on the names they share extends one by the other. A
candidate of an 'all' clause is joined with the first match of each further result that it agrees with, and a
choice is not taken back. Main statement: the chosen matches are a consistent choice from the results, and where the
results are interchangeable for a candidate, it is joined if and only if there is such a choice. -/
namespace RuleScan

namespace Span

theorem same_iff {a b : Span} : a.same b = true ↔ a.start = b.start ∧ a.stop = b.stop := by
  simp [same]

theorem same_symm {a b : Span} (h : a.same b = true) : b.same a = true := by
  rw [same_iff] at h ⊢
  omega

theorem same_trans {a b c : Span} (hab : a.same b = true) (hbc : b.same c = true) : a.same c = true := by
  rw [same_iff] at hab hbc ⊢
  omega

end Span

namespace Bindings

def Unique (b : Bindings) : Prop := (b.map (·.1)).Nodup

/-- The names that both bind are bound to nodes of the same span. -/
def Agree (a b : Bindings) : Prop := ∀ x ∈ a, ∀ y ∈ b, x.1 = y.1 → x.2.span.same y.2.span = true

instance (a b : Bindings) : Decidable (Agree a b) :=
  inferInstanceAs (Decidable (∀ x ∈ a, ∀ y ∈ b, x.1 = y.1 → x.2.span.same y.2.span = true))

/-- The bindings of `a`, and those of `b` under names that `a` does not bind, in the order of `b`. -/
def adding (a b : Bindings) : Bindings := a ++ b.filter fun y => (a.lookup y.1).isNone

/-- The bindings of `a`, and those of `b` under names that `a` does not bind. -/
def extend (a b : Bindings) : Bindings := a.adding b.walked

theorem Unique.walked {b : Bindings} (h : b.Unique) : b.walked.Unique := ((walked_perm b).map _).nodup_iff.mpr h

theorem agree_walked_iff {a b : Bindings} : Agree a b.walked ↔ Agree a b := by
  simp only [Agree, mem_walked_iff]

theorem Agree.symm {a b : Bindings} (h : Agree a b) : Agree b a := by
  intro y hy x hx hname
  exact Span.same_symm (h x hx y hy hname.symm)

theorem lookup_eq_none_iff {b : Bindings} {name : String} : b.lookup name = none ↔ ∀ x ∈ b, x.1 ≠ name := by
  rw [List.lookup_eq_none_iff]
  refine forall₂_congr fun x _ => ?_
  rw [bne_iff_ne, ne_comm]

theorem Unique.eq_of_mem {b : Bindings} (hb : b.Unique) {x y : String × Node} (hx : x ∈ b) (hy : y ∈ b)
    (hname : x.1 = y.1) : x = y :=
  List.inj_on_of_nodup_map hb hx hy hname

theorem Unique.extend {a b : Bindings} (ha : a.Unique) (hb : b.Unique) : (a.extend b).Unique := by
  rw [Unique, Bindings.extend, adding, List.map_append]
  refine List.nodup_append.mpr ⟨ha, hb.walked.sublist (List.filter_sublist.map _), ?_⟩
  intro name hx name' hy he
  obtain ⟨x, hxa, rfl⟩ := List.mem_map.mp hx
  obtain ⟨y, hyb, rfl⟩ := List.mem_map.mp hy
  have hnone : a.lookup y.1 = none := Option.isNone_iff_eq_none.mp (List.mem_filter.mp hyb).2
  exact lookup_eq_none_iff.mp hnone x hxa he

theorem mem_extend_left {a : Bindings} {x : String × Node} (h : x ∈ a) (b : Bindings) : x ∈ a.extend b :=
  List.mem_append_left _ h

/-- What agrees with an extension agrees with both parts, if these agree with each other. -/
theorem agree_extend_iff {a b c : Bindings} (hab : Agree a b) : Agree (a.extend b) c ↔ Agree a c ∧ Agree b c := by
  constructor
  · intro h
    refine ⟨fun x hx => h x (mem_extend_left hx b), fun x hx y hy hname => ?_⟩
    cases hl : a.lookup x.1 with
    | none => exact h x (List.mem_append_right _ (List.mem_filter.mpr ⟨mem_walked_iff.mpr hx, by simp [hl]⟩)) y hy hname
    | some n =>
      -- `a` binds the name already, to a node of the same span.
      have hn := mem_of_lookup hl
      exact Span.same_trans (Span.same_symm (hab _ hn x hx rfl)) (h _ (mem_extend_left hn b) y hy hname)
  · rintro ⟨ha, hb⟩ x hx
    rcases List.mem_append.mp hx with hx | hx
    · exact ha x hx
    · exact hb x (mem_walked_iff.mp (List.mem_filter.mp hx).1)

private theorem agree_cons_iff {a rest : Bindings} {y : String × Node} :
    Agree a (y :: rest) ↔ (∀ x ∈ a, x.1 = y.1 → x.2.span.same y.2.span = true) ∧ Agree a rest := by
  simp only [Agree, List.forall_mem_cons]
  exact forall₂_and

private theorem adding_cons_of_lookup {a rest : Bindings} {y : String × Node} {n : Node}
    (h : a.lookup y.1 = some n) : a.adding (y :: rest) = a.adding rest := by
  simp [adding, h]

private theorem adding_cons_of_lookup_none {a rest : Bindings} {y : String × Node} (h : a.lookup y.1 = none)
    (hy : ∀ x ∈ rest, x.1 ≠ y.1) : a.adding (y :: rest) = (a ++ [y] : Bindings).adding rest := by
  have hsame : ∀ x ∈ rest, ((a ++ [y] : Bindings).lookup x.1).isNone = (a.lookup x.1).isNone := by
    intro x hx
    have hsingle : List.lookup x.1 [y] = none := lookup_eq_none_iff.mpr (by simpa using (hy x hx).symm)
    rw [List.lookup_append, hsingle, Option.or_none]
  rw [adding, adding, List.filter_congr hsame, List.filter_cons_of_pos (by simp [h])]
  simp

theorem mergeOnto_eq_ok {a b : Bindings} {merged : Option Bindings} (ha : a.Unique) (hb : b.Unique)
    (h : a.mergeOnto b = .ok merged) : merged = if Agree a b then some (a.adding b) else none := by
  induction b generalizing a with
  | nil =>
    cases h
    have hagree : Agree a [] := fun x _ => nofun
    simp [hagree, adding]
  | cons y rest ih =>
    obtain ⟨hname, hrest⟩ := List.nodup_cons.mp (show (y.1 :: rest.map (·.1)).Nodup from hb)
    have hfresh : ∀ x ∈ rest, x.1 ≠ y.1 := fun x hx he => hname (List.mem_map.mpr ⟨x, hx, he⟩)
    rw [mergeOnto] at h
    split at h
    · next existing hmeaning =>
      have hlookup := meaning_eq_node_iff.mp hmeaning
      have hmem := mem_of_lookup hlookup
      split at h
      · next hsame =>
        have hall : ∀ x ∈ a, x.1 = y.1 → x.2.span.same y.2.span = true := by
          intro x hx hxy
          rw [ha.eq_of_mem hx hmem hxy]
          exact hsame
        have hiff : Agree a (y :: rest) ↔ Agree a rest := agree_cons_iff.trans (and_iff_right hall)
        rw [ih ha hrest h, adding_cons_of_lookup hlookup]
        simp only [hiff]
      · next hsame =>
        cases h
        have hnot : ¬Agree a (y :: rest) := fun hagree => hsame (hagree _ hmem y List.mem_cons_self rfl)
        rw [if_neg hnot]
    · next hmeaning =>
      have hlookup := (meaning_eq_nothing_iff.mp hmeaning).1
      have hnone := lookup_eq_none_iff.mp hlookup
      have ha' : Unique (a ++ [y]) := by
        rw [Unique, List.map_append]
        refine List.nodup_append.mpr ⟨ha, List.nodup_singleton _, ?_⟩
        rintro _ hx _ hy rfl
        obtain ⟨x, hx, he⟩ := List.mem_map.mp hx
        exact hnone x hx (he.trans (List.mem_singleton.mp hy))
      have hiff : Agree (a ++ [y]) rest ↔ Agree a (y :: rest) := by
        rw [agree_cons_iff]
        constructor
        · intro hagree
          exact ⟨fun x hx hxy => absurd hxy (hnone x hx), fun x hx => hagree x (List.mem_append_left _ hx)⟩
        · rintro ⟨-, hagree⟩ x hx z hz hxz
          rcases List.mem_append.mp hx with hx | hx
          · exact hagree x hx z hz hxz
          · obtain rfl := List.mem_singleton.mp hx
            exact absurd hxz.symm (hfresh z hz)
      rw [ih ha' hrest h, adding_cons_of_lookup_none hlookup hfresh]
      simp only [hiff]
    · cases h

theorem merge_eq_ok {a b : Bindings} {merged : Option Bindings} (ha : a.Unique) (hb : b.Unique)
    (h : a.merge b = .ok merged) : merged = if Agree a b then some (a.extend b) else none := by
  rw [mergeOnto_eq_ok ha hb.walked h]
  simp only [agree_walked_iff]
  rfl

end Bindings

theorem exists_forall₂ {α β : Type} {R : α → β → Prop} {xs : List α} (h : ∀ x ∈ xs, ∃ y, R x y) :
    ∃ ys, List.Forall₂ R xs ys := by
  induction xs with
  | nil => exact ⟨[], .nil⟩
  | cons x rest ih =>
    obtain ⟨hx, hrest⟩ := List.forall_mem_cons.mp h
    obtain ⟨y, hy⟩ := hx
    obtain ⟨ys, hys⟩ := ih hrest
    exact ⟨y :: ys, .cons hy hys⟩

namespace Match

/-- No match binds a name twice. -/
def AllUnique (ms : List Match) : Prop := ∀ m ∈ ms, m.bindings.Unique

/-- The other match has the span of the candidate and agrees with it. -/
def Joins (m o : Match) : Prop := o.span.same m.span = true ∧ m.bindings.Agree o.bindings

instance (m o : Match) : Decidable (m.Joins o) := inferInstanceAs (Decidable (_ ∧ _))

/-- The candidate with the bindings of another match added, in a new record. -/
def join (m o : Match) : Match := { m with bindings := m.bindings.extend o.bindings, base := none }

def joinIn (others : List Match) (m : Match) : Option Match := (others.find? fun o => m.Joins o).map m.join

/-- The candidate joined with one match of each result in turn. -/
def joinEach : List (List Match) → Match → Option Match
  | [], m => some m
  | others :: rest, m => (m.joinIn others).bind (joinEach rest)

/-- One match of each result, all with the span of the candidate and all agreeing with it and with each other. -/
structure Witness (results : List (List Match)) (m : Match) (chosen : List Match) : Prop where
  mem : List.Forall₂ (fun others o => o ∈ others) results chosen
  span : ∀ o ∈ chosen, o.span.same m.span = true
  agree : (m :: chosen).Pairwise fun a b => a.bindings.Agree b.bindings

/-- Which of the matches that join the candidate are chosen from two results makes no difference to whether they
agree. -/
def Interchangeable (m : Match) (others others' : List Match) : Prop :=
  ∀ o ∈ others, ∀ p ∈ others, ∀ o' ∈ others', ∀ p' ∈ others', m.Joins o → m.Joins p → m.Joins o' → m.Joins p' →
    o.bindings.Agree o'.bindings → p.bindings.Agree p'.bindings

variable {m o r : Match} {others : List Match} {results : List (List Match)} {chosen : List Match}

theorem joinIn_eq_some_iff :
    m.joinIn others = some r ↔ ∃ o, others.find? (fun o => m.Joins o) = some o ∧ m.join o = r :=
  Option.map_eq_some_iff

theorem exists_of_joinIn (h : m.joinIn others = some r) : ∃ o ∈ others, m.Joins o ∧ r = m.join o := by
  obtain ⟨o, ho, rfl⟩ := joinIn_eq_some_iff.mp h
  exact ⟨o, List.mem_of_find?_eq_some ho, by simpa using List.find?_some ho, rfl⟩

theorem exists_joinIn_of_joins (ho : o ∈ others) (h : m.Joins o) : ∃ r, m.joinIn others = some r := by
  cases hfind : others.find? fun o => m.Joins o with
  | none =>
    have hnot := List.find?_eq_none.mp hfind o ho
    exact absurd h (by simpa using hnot)
  | some p => exact ⟨m.join p, joinIn_eq_some_iff.mpr ⟨p, hfind, rfl⟩⟩

theorem joins_join_iff {o p : Match} (h : m.Joins o) :
    (m.join o).Joins p ↔ m.Joins p ∧ o.bindings.Agree p.bindings := by
  rw [Joins, Joins, join, Bindings.agree_extend_iff h.2, and_assoc]

/-- A candidate that is joined with all results has a witness, and its bindings are extended by those of the
witness. -/
theorem exists_witness_of_joinEach (h : joinEach results m = some r) :
    ∃ chosen, Witness results m chosen ∧ r = chosen.foldl join m := by
  induction results generalizing m with
  | nil =>
    cases h
    exact ⟨[], ⟨.nil, nofun, List.pairwise_singleton _ _⟩, rfl⟩
  | cons others rest ih =>
    obtain ⟨j, hj, hr⟩ := Option.bind_eq_some_iff.mp h
    obtain ⟨o, ho, hjoins, rfl⟩ := exists_of_joinIn hj
    obtain ⟨chosen, hw, rfl⟩ := ih hr
    obtain ⟨hfirst, hpairs⟩ := List.pairwise_cons.mp hw.agree
    have hboth : ∀ p ∈ chosen, m.bindings.Agree p.bindings ∧ o.bindings.Agree p.bindings := fun p hp =>
      (Bindings.agree_extend_iff hjoins.2).mp (hfirst p hp)
    refine ⟨o :: chosen, ⟨.cons ho hw.mem, List.forall_mem_cons.mpr ⟨hjoins.1, hw.span⟩, ?_⟩, rfl⟩
    refine List.pairwise_cons.mpr ⟨List.forall_mem_cons.mpr ⟨hjoins.2, fun p hp => (hboth p hp).1⟩, ?_⟩
    exact List.pairwise_cons.mpr ⟨fun p hp => (hboth p hp).2, hpairs⟩

theorem Witness.joins (h : Witness results m chosen) (ho : o ∈ chosen) : m.Joins o :=
  ⟨h.span o ho, (List.pairwise_cons.mp h.agree).1 o ho⟩

/-- Where no choice can block a later one, a candidate with a witness is joined with all results. -/
theorem Witness.exists_joinEach (h : Witness results m chosen) (hi : results.Pairwise m.Interchangeable) :
    ∃ r, joinEach results m = some r := by
  induction results generalizing m chosen with
  | nil => exact ⟨m, rfl⟩
  | cons others rest ih =>
    cases h.mem with
    | @cons _ w _ later hw hlater =>
      obtain ⟨hothers, hrest⟩ := List.pairwise_cons.mp hi
      obtain ⟨-, hagree⟩ := List.pairwise_cons.mp h.agree
      obtain ⟨hwlater, hpairs⟩ := List.pairwise_cons.mp hagree
      obtain ⟨j, hj⟩ := exists_joinIn_of_joins hw (h.joins List.mem_cons_self)
      obtain ⟨o, ho, hjoins, rfl⟩ := exists_of_joinIn hj
      -- The rest of the witness serves for the match that was chosen instead of `w` as well.
      have hstill : ∀ p ∈ later, (m.join o).Joins p := by
        intro p hp
        obtain ⟨ps, hps, hpmem⟩ := Query.exists_of_mem_forall₂ hlater hp
        have hp' := h.joins (List.mem_cons_of_mem _ hp)
        refine (joins_join_iff hjoins).mpr ⟨hp', ?_⟩
        exact hothers ps hps w hw o ho p hpmem p hpmem (h.joins List.mem_cons_self) hjoins hp' hp' (hwlater p hp)
      have hwitness : Witness rest (m.join o) later :=
        ⟨hlater, fun p hp => (hstill p hp).1, List.pairwise_cons.mpr ⟨fun p hp => (hstill p hp).2, hpairs⟩⟩
      have hnarrower : rest.Pairwise (m.join o).Interchangeable := by
        refine hrest.imp ?_
        intro qs rs hqr q hq p hp q' hq' p' hp' hjq hjp hjq' hjp'
        exact hqr q hq p hp q' hq' p' hp' ((joins_join_iff hjoins).mp hjq).1 ((joins_join_iff hjoins).mp hjp).1
          ((joins_join_iff hjoins).mp hjq').1 ((joins_join_iff hjoins).mp hjp').1
      obtain ⟨r, hr⟩ := ih hwitness hnarrower
      exact ⟨r, Option.bind_eq_some_iff.mpr ⟨_, hj, hr⟩⟩

theorem Witness.perm {results' : List (List Match)} (h : Witness results m chosen) (hp : results'.Perm results) :
    ∃ chosen', Witness results' m chosen' := by
  obtain ⟨chosen', hmem, hperm⟩ := List.perm_comp_forall₂ hp h.mem
  refine ⟨chosen', hmem, fun o ho => h.span o (hperm.mem_iff.mp ho), ?_⟩
  exact (hperm.cons m).pairwise_iff Bindings.Agree.symm |>.mpr h.agree

theorem Interchangeable.symm {others' : List Match} (h : m.Interchangeable others others') :
    m.Interchangeable others' others := by
  intro o ho p hp o' ho' p' hp' hjo hjp hjo' hjp' hagree
  exact (h o' ho' p' hp' o ho p hp hjo' hjp' hjo hjp hagree.symm).symm

/-- For a candidate that results are interchangeable for, their order makes no difference. -/
theorem joinEach_isSome_perm {results' : List (List Match)} (hp : results'.Perm results)
    (hi : results.Pairwise m.Interchangeable) : (joinEach results' m).isSome = (joinEach results m).isSome := by
  have hi' : results'.Pairwise m.Interchangeable := (hp.pairwise_iff Interchangeable.symm).mpr hi
  have honeWay : ∀ {xs ys : List (List Match)}, ys.Perm xs → ys.Pairwise m.Interchangeable →
      (joinEach xs m).isSome = true → (joinEach ys m).isSome = true := by
    intro xs ys hxy hys hx
    obtain ⟨r, hr⟩ := Option.isSome_iff_exists.mp hx
    obtain ⟨chosen, hw, -⟩ := exists_witness_of_joinEach hr
    obtain ⟨chosen', hw'⟩ := hw.perm hxy
    exact Option.isSome_iff_exists.mpr (hw'.exists_joinEach hys)
  exact Bool.eq_iff_iff.mpr ⟨honeWay hp.symm hi, honeWay hp hi'⟩

@[simp] theorem foldl_join_span (m : Match) (chosen : List Match) : (chosen.foldl join m).span = m.span := by
  induction chosen generalizing m with
  | nil => rfl
  | cons o rest ih => exact ih (m.join o)

@[simp] theorem foldl_join_node (m : Match) (chosen : List Match) : (chosen.foldl join m).node = m.node := by
  induction chosen generalizing m with
  | nil => rfl
  | cons o rest ih => exact ih (m.join o)

theorem foldl_join_base (m : Match) (chosen : List Match) :
    (chosen.foldl join m).base = if chosen.isEmpty then m.base else none := by
  cases chosen with
  | nil => rfl
  | cons o rest =>
    have hjoined (r : Match) (hr : r.base = none) : (rest.foldl join r).base = none := by
      induction rest generalizing r with
      | nil => exact hr
      | cons p rest ih => exact ih (r.join p) rfl
    exact hjoined (m.join o) rfl

theorem foldl_join_bindings (m : Match) (chosen : List Match) :
    (chosen.foldl join m).bindings = (chosen.map (·.bindings)).foldl Bindings.extend m.bindings := by
  induction chosen generalizing m with
  | nil => rfl
  | cons o rest ih => exact ih (m.join o)

theorem span_of_joinEach (h : joinEach results m = some r) : r.span = m.span := by
  obtain ⟨chosen, -, rfl⟩ := exists_witness_of_joinEach h
  exact foldl_join_span m chosen

end Match

namespace Clause

theorem joinFirst_eq_ok {candidate : Match} {others : List Match} {joined : Option Match}
    (hc : candidate.bindings.Unique) (ho : Match.AllUnique others) (h : joinFirst candidate others = .ok joined) :
    joined = candidate.joinIn others := by
  induction others with
  | nil =>
    cases h
    rfl
  | cons m rest ih =>
    obtain ⟨hm, hrest⟩ := List.forall_mem_cons.mp ho
    rw [joinFirst] at h
    rw [Match.joinIn]
    split at h
    · next hspan =>
      split at h
      · next merged hmerged =>
        cases h
        have he := Bindings.merge_eq_ok hc hm hmerged
        have hagree : candidate.bindings.Agree m.bindings := by
          by_contra hnot
          rw [if_neg hnot] at he
          cases he
        rw [if_pos hagree] at he
        have hjoins : candidate.Joins m := ⟨hspan, hagree⟩
        rw [List.find?_cons_of_pos (by simpa using hjoins), Option.some.inj he]
        rfl
      · next hmerged =>
        have he := Bindings.merge_eq_ok hc hm hmerged
        have hnot : ¬candidate.Joins m := by
          intro hjoins
          rw [if_pos hjoins.2] at he
          cases he
        rw [List.find?_cons_of_neg (by simpa using hnot)]
        exact ih hrest h
      · cases h
    · next hspan =>
      have hnot : ¬candidate.Joins m := fun hjoins => hspan hjoins.1
      rw [List.find?_cons_of_neg (by simpa using hnot)]
      exact ih hrest h

theorem unique_of_joinIn {candidate joined : Match} {others : List Match} (hc : candidate.bindings.Unique)
    (ho : Match.AllUnique others) (h : candidate.joinIn others = some joined) : joined.bindings.Unique := by
  obtain ⟨o, hmem, -, rfl⟩ := Match.exists_of_joinIn h
  exact hc.extend (ho o hmem)

end Clause

end RuleScan
