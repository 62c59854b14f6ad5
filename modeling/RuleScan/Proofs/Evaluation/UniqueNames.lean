import RuleScan.Proofs.Evaluation.Agreement
import RuleScan.Proofs.Evaluation.Places
import RuleScan.Proofs.Regex.GroupNames

/-! The names that matches bind. A solution of a query binds a name only where it is not bound yet, and an expression
that names two groups alike is refused. Main statement: no match that an evaluation gives binds a name twice, and
every name it binds is one of a capture or a group. -/
namespace RuleScan

open Counted

namespace Query

theorem Binds.unique {source : Units} {n : Node} {names : List String} {s s' : Environment}
    (h : Binds source n names s s') (hs : Bindings.Unique s) : Bindings.Unique s' := by
  induction h with
  | nil s => exact hs
  | kept bound same rest ih => exact ih hs
  | @fresh name names s s' unbound rest ih =>
    refine ih ?_
    rw [Bindings.Unique, List.map_append]
    refine List.nodup_append.mpr ⟨hs, List.nodup_singleton _, ?_⟩
    intro x hx y hy he
    obtain ⟨b, hb, rfl⟩ := List.mem_map.mp hx
    exact Bindings.lookup_eq_none_iff.mp unbound b hb (he.trans (List.mem_singleton.mp hy))

mutual

/-- A solution binds no name twice, by the form of the pattern. -/
theorem Solves.unique {source : Units} : ∀ (p : Pattern) {n : Node} {s s' : Environment},
    Solves source p n s s' → Bindings.Unique s → Bindings.Unique s'
  | .wildcard q cs, n, s, s', h, hs => by
    rw [Solves] at h
    exact h.unique hs
  | .literal v q cs, n, s, s', h, hs => by
    rw [Solves] at h
    exact h.2.unique hs
  | .alternation as q cs, n, s, s', h, hs => by
    rw [Solves] at h
    obtain ⟨t, hone, hbind⟩ := h
    exact hbind.unique (SolvesOneOf.unique as hone hs)
  | .node kind es absent q cs, n, s, s', h, hs => by
    rw [Solves] at h
    obtain ⟨-, -, -, t, hbind, positions, -, hassign⟩ := h
    exact Assigns.unique es hassign (hbind.unique hs)

theorem SolvesOneOf.unique {source : Units} : ∀ (ps : List Pattern) {n : Node} {s s' : Environment},
    SolvesOneOf source ps n s s' → Bindings.Unique s → Bindings.Unique s'
  | [], n, s, s', h, hs => by
    rw [SolvesOneOf] at h
    exact h.elim
  | p :: ps, n, s, s', h, hs => by
    rw [SolvesOneOf] at h
    rcases h with h | h
    · exact Solves.unique p h hs
    · exact SolvesOneOf.unique ps h hs

theorem Assigns.unique {source : Units} : ∀ (es : List Element) {children : List Node} {positions : List (List Nat)}
    {s s' : Environment}, Assigns source es children positions s s' → Bindings.Unique s → Bindings.Unique s'
  | [], children, positions, s, s', h, hs => by
    rw [Assigns] at h
    exact h.2 ▸ hs
  | (field, p) :: es, children, positions, s, s', h, hs => by
    rw [Assigns] at h
    obtain ⟨taken, rest, t, -, -, hoccupies, hassign⟩ := h
    refine Assigns.unique es hassign ?_
    cases taken with
    | nil =>
      obtain rfl : t = s := hoccupies
      exact hs
    | cons i later =>
      obtain ⟨⟨c, -, -, hsolves⟩, -⟩ := hoccupies
      exact Solves.unique p hsolves hs

end

end Query

/-- A name that queries or expressions can bind. -/
def IsBoundName (name : String) : Prop := Query.IsCaptureName name ∨ Regex.IsGroupName name

/-- No name is bound twice, and every name is one that can be bound. -/
structure Match.Named (m : Match) : Prop where
  unique : m.bindings.Unique
  names : ∀ x ∈ m.bindings, IsBoundName x.1

/-- The record of the match has no base, so all that is captured is bound in it. -/
structure Match.Whole (m : Match) : Prop extends Match.Named m where
  base : m.base = none

namespace Clause

/-- A query binds its captures. -/
theorem yields_named_structuralMatches (tree : Tree) (query : String) (focus : Option String)
    (constraints : List Constraint) : Yields (structuralMatches tree query focus constraints) (∀ m ∈ ·, m.Named) := by
  intro t ms t' hrun m hm
  obtain ⟨parsed, node, hparse, -, hsolves, -⟩ := yields_isSolution tree query focus constraints t ms t' hrun m hm
  constructor
  · exact Query.Solves.unique _ hsolves List.nodup_nil
  · intro y hy
    exact .inl (Query.isCaptureName_of_parse hparse _ (Query.mem_captureNames_of_solves hparse hsolves hy))

/-- An expression binds its groups. -/
theorem named_textual {source : Units} {lines : LineIndex} {regex flags : String} {program : Regex.Program}
    (h : Regex.compile regex flags = .ok program) {found : Regex.Found} (hf : found ∈ program.all source)
    {base : Option Node} {m : Match} (hm : Textual.bindings source lines found = .ok (m.bindings, base)) : m.Named := by
  obtain ⟨hnodup, hnames⟩ := Regex.named_of_compile h
  have hfound := Regex.Program.sublist_of_mem_all hf
  obtain ⟨hbindings, -⟩ := Textual.bindings_eq_ok (hnodup.sublist hfound) hm
  have hsub : (m.bindings.map (·.1)).Sublist (program.names.map (·.1)) := by
    rw [hbindings]
    refine (List.filter_sublist.map _).trans ?_
    rw [Textual.map_fst_groups]
    exact hfound
  constructor
  · exact hnodup.sublist hsub
  · intro x hx
    obtain ⟨y, hy, he⟩ := List.mem_map.mp (hsub.subset (List.mem_map_of_mem hx))
    have hname := hnames y hy
    rw [he] at hname
    exact .inr hname

theorem yields_named_textualMatches {tree : Tree} {regex flags : String} {program : Regex.Program}
    (h : Regex.compile regex flags = .ok program) (lines : LineIndex) (tests : List Constraint.Test) :
    Yields (textualMatches tree lines tests (program.all tree.source)) (∀ m ∈ ·, m.Named) :=
  yields_textualMatches_of tests fun _ hf _ _ hrecord => named_textual h hf hrecord

/-- Joining adds the names that are not bound yet. -/
theorem lasting_named (tree : Tree) (lines : LineIndex) (names : List String) :
    Lasting tree lines names Match.Named where
  structural := yields_named_structuralMatches tree
  textual h _ tests := yields_named_textualMatches h lines tests
  joined := by
    intro candidate other merged hc ho hmerged
    constructor
    · have hextend := Bindings.merge_eq_ok hc.unique ho.unique hmerged
      split at hextend
      · cases hextend
        exact hc.unique.extend ho.unique
      · cases hextend
    · intro x hx
      exact (Bindings.mem_of_merge hmerged x hx).elim (hc.names x) (ho.names x)

/-- Only a group that is named as the base takes it. -/
theorem lasting_whole (tree : Tree) (lines : LineIndex) {names : List String} (hbase : Bindings.baseName ∉ names) :
    Lasting tree lines names Match.Whole where
  structural := by
    intro query focus constraints t ms t' hrun m hm
    obtain ⟨_, _, -, -, -, hfocused⟩ := yields_isSolution tree query focus constraints t ms t' hrun m hm
    exact ⟨yields_named_structuralMatches tree query focus constraints t ms t' hrun m hm, (bindings_of_focused hfocused).2⟩
  textual := by
    intro regex flags program h hnames tests
    refine yields_textualMatches_of tests fun f hf bindings base hrecord => ⟨named_textual h hf hrecord, ?_⟩
    have hnot : Bindings.baseName ∉ f.named.map (·.1) := fun hmem =>
      hbase (hnames ((Regex.Program.sublist_of_mem_all hf).subset hmem))
    rw [Textual.bindings_of_notMem hnot] at hrecord
    exact (Prod.mk.inj (Except.ok.inj hrecord)).2.symm
  joined hc ho hmerged := ⟨(lasting_named tree lines names).joined hc.toNamed ho.toNamed hmerged, rfl⟩

end Clause

end RuleScan
