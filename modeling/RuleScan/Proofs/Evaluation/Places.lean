import RuleScan.Proofs.Evaluation.Lasting
import RuleScan.Proofs.Source.Lines

/-! Where matches are. The nodes of a finished tree lie in its text, and so do the nodes that stand for matched
text. Whatever kinds of clauses found a match, its span and the spans under its names are those of such nodes.
Main statement: an evaluation that gives matches gives matches that lie in the text. -/
namespace RuleScan

open Counted

namespace Tree

/-- Every node of the tree lies over the lines. -/
def Placed (lines : LineIndex) (tree : Tree) : Prop := ∀ n ∈ tree.root.preorder, n.span.Within lines

end Tree

namespace Draft

mutual

/-- A finished node and those under it lie in the text. -/
theorem within_finish (source : Units) (lines : LineIndex) : ∀ d : Draft,
    ∀ n ∈ (d.finish source lines).preorder, n.span.Within lines
  | ⟨kind, named, field, start, stop, hasError, children⟩ => by
    rw [finish, Node.preorder]
    refine List.forall_mem_cons.mpr ⟨Span.within_span lines start stop, fun n hn => ?_⟩
    obtain ⟨c, hc, hn⟩ := Node.mem_preorderAll.mp hn
    exact within_finishAll source lines children c hc n hn

theorem within_finishAll (source : Units) (lines : LineIndex) : ∀ ds : List Draft,
    ∀ c ∈ finishAll source lines ds, ∀ n ∈ c.preorder, n.span.Within lines
  | [] => by
    rw [finishAll]
    exact nofun
  | d :: rest => by
    rw [finishAll]
    exact List.forall_mem_cons.mpr ⟨within_finish source lines d, within_finishAll source lines rest⟩

end

end Draft

theorem Tree.placed_ofDraft (language : Language) (source : Units) (root : Draft)
    (diagnostics : List DraftDiagnostic) :
    (Tree.ofDraft language source root diagnostics).Placed (LineIndex.ofText source) :=
  root.within_finish source (LineIndex.ofText source)

namespace Match

/-- The match and what it binds lie over the lines. -/
structure Within (lines : LineIndex) (m : Match) : Prop where
  span : m.span.Within lines
  bindings : ∀ x ∈ m.bindings, x.2.span.Within lines
  base : ∀ n ∈ m.base, n.span.Within lines

theorem Within.of_meaning {lines : LineIndex} {m : Match} (hm : m.Within lines) {name : String} {n : Node}
    (h : m.meaning name = .node n) : n.span.Within lines := by
  obtain ⟨x, hx, rfl⟩ | hbase := mem_of_meaning h
  · exact hm.bindings x hx
  · exact hm.base n hbase

def AllWithin (lines : LineIndex) (ms : List Match) : Prop := ∀ m ∈ ms, m.Within lines

end Match

namespace Query.Compiled

private theorem exists_of_filterMapM {ε α β : Type} {f : α → Except ε (Option β)} {xs : List α} {ys : List β}
    (h : xs.filterMapM f = .ok ys) : ∀ y ∈ ys, ∃ x ∈ xs, f x = .ok (some y) := by
  induction xs generalizing ys with
  | nil =>
    cases h
    exact nofun
  | cons x rest ih =>
    rw [List.filterMapM_cons] at h
    obtain ⟨found, hx, h⟩ := bind_eq_ok.mp h
    cases found with
    | none =>
      intro y hy
      obtain ⟨z, hz, hf⟩ := ih h y hy
      exact ⟨z, List.mem_cons_of_mem _ hz, hf⟩
    | some b =>
      obtain ⟨bs, hrest, h⟩ := bind_eq_ok.mp h
      cases h
      refine List.forall_mem_cons.mpr ⟨⟨x, List.mem_cons_self, hx⟩, fun y hy => ?_⟩
      obtain ⟨z, hz, hf⟩ := ih hrest y hy
      exact ⟨z, List.mem_cons_of_mem _ hz, hf⟩

private theorem mem_of_findM? {ε α : Type} {p : α → Except ε Bool} {xs : List α} {a : α}
    (h : xs.findM? p = .ok (some a)) : a ∈ xs := by
  induction xs with
  | nil => cases h
  | cons x rest ih =>
    rw [List.findM?] at h
    obtain ⟨b, -, h⟩ := bind_eq_ok.mp h
    cases b with
    | true =>
      cases h
      exact List.mem_cons_self
    | false => exact List.mem_cons_of_mem _ (ih h)

/-- A match of a query is a node of the tree with a solution of the pattern there. -/
theorem yields_solves (c : Compiled) (tree : Tree) {accept : Bindings → Counted Bool}
    (h : ∀ env, Settles (accept env)) :
    Yields (c.findMatches tree accept) fun found =>
      ∀ x ∈ found, x.1 ∈ tree.root.preorder ∧ Solves tree.source c.pattern x.1 [] x.2 := by
  choose test htest _ using h
  refine (endsIn_findMatches htest c tree).yields fun found hfound x hx => ?_
  obtain ⟨node, hnode, hfirst⟩ := exists_of_filterMapM hfound x hx
  obtain ⟨env, henv, hfirst⟩ := bind_eq_ok.mp hfirst
  obtain ⟨bindings, rfl, rfl⟩ := Option.map_eq_some_iff.mp (Except.ok.inj hfirst)
  exact ⟨hnode, (mem_solutions tree.source c.pattern node [] bindings).mp (mem_of_findM? henv)⟩

end Query.Compiled

namespace Clause

variable {tree : Tree} {lines : LineIndex}

/-- A match of a query has what the solution binds, and no base. -/
theorem bindings_of_focused {focus : Option String} {node : Node} {bindings : Bindings} {m : Match}
    (h : focused focus node bindings = .ok m) : m.bindings = bindings ∧ m.base = none := by
  unfold focused at h
  split at h
  · cases h
    exact ⟨rfl, rfl⟩
  split at h
  · cases h
    exact ⟨rfl, rfl⟩
  · cases h
    exact ⟨rfl, rfl⟩
  · cases h

/-- What a match binds solves the query at a node of the tree, and the focus says which node is reported. -/
def IsSolution (tree : Tree) (query : String) (focus : Option String) (m : Match) : Prop :=
  ∃ parsed node, Query.parse query = .ok parsed ∧ node ∈ tree.root.preorder ∧
    Query.Solves tree.source parsed.pattern node [] m.bindings ∧ focused focus node m.bindings = .ok m

theorem yields_isSolution (tree : Tree) (query : String) (focus : Option String) (constraints : List Constraint) :
    Yields (structuralMatches tree query focus constraints) (∀ m ∈ ·, IsSolution tree query focus m) := by
  rw [structuralMatches]
  refine (yields_ofExcept fun parsed hp => hp).bind fun parsed hparse => ?_
  refine (yields_ofExcept fun compiled hc => hc).bind fun compiled hcompile => ?_
  refine (compiled.yields_solves tree fun bindings => ?_).bind fun found hfound => ?_
  · split
    · exact settles_allHold _ _ _ none
    · exact settles_pure false
  · refine yields_ofExcept fun ms hms m hm => ?_
    obtain ⟨x, hx, hfocused⟩ := Query.exists_of_mapM hms m hm
    obtain ⟨compiled', hcompile', hpattern⟩ := Query.compile_of_parse hparse
    obtain rfl : compiled = compiled' := Except.ok.inj (hcompile.symm.trans hcompile')
    obtain ⟨hnode, hsolves⟩ := hfound x hx
    obtain ⟨hbindings, -⟩ := bindings_of_focused hfocused
    rw [hpattern, ← hbindings] at hsolves
    exact ⟨parsed, x.1, hparse, hnode, hsolves, hbindings ▸ hfocused⟩

/-- The span that is reported is that of the node or of one that is bound. -/
theorem within_focused {focus : Option String} {node : Node} {bindings : Bindings} {m : Match}
    (hnode : node.span.Within lines) (hbindings : ∀ x ∈ bindings, x.2.span.Within lines)
    (h : focused focus node bindings = .ok m) : m.Within lines := by
  have hbase : ∀ n ∈ (none : Option Node), n.span.Within lines := by simp
  unfold focused at h
  split at h
  · cases h
    exact ⟨hnode, hbindings, hbase⟩
  · split at h
    · next target htarget =>
      cases h
      exact ⟨hbindings _ (Bindings.mem_of_meaning htarget), hbindings, hbase⟩
    · cases h
      exact ⟨hnode, hbindings, hbase⟩
    · cases h

theorem yields_structuralMatches (htree : tree.Placed lines) (query : String) (focus : Option String)
    (constraints : List Constraint) :
    Yields (structuralMatches tree query focus constraints)
      (Match.AllWithin lines) := by
  intro t ms t' hrun m hm
  obtain ⟨parsed, node, -, hnode, hsolves, hfocused⟩ := yields_isSolution tree query focus constraints t ms t' hrun m hm
  refine within_focused (htree _ hnode) (fun y hy => htree _ (tree.root.preorder_subset node hnode ?_)) hfocused
  exact ((Query.Solves.mem_or parsed.pattern hsolves hy).resolve_left List.not_mem_nil).2

theorem yields_textualMatches (tree : Tree) (lines : LineIndex) (tests : List Constraint.Test)
    (found : List Regex.Found) : Yields (textualMatches tree lines tests found) (Match.AllWithin lines) := by
  refine yields_textualMatches_of tests fun f _ bindings base hrecord => ?_
  have hgroups : ∀ x ∈ Textual.groups tree.source lines f, x.2.span.Within lines := by
    intro x hx
    obtain ⟨⟨name, start, stop⟩, -, rfl⟩ := List.mem_map.mp hx
    exact Span.within_span lines start stop
  obtain ⟨hbindings, hbase⟩ := Textual.forall_of_bindings hrecord (P := (·.span.Within lines)) hgroups
  exact ⟨Span.within_span lines f.start f.stop, hbindings, hbase⟩

/-- Joining keeps spans, and binds what either match binds. -/
theorem lasting_within (htree : tree.Placed lines) (names : List String) :
    Lasting tree lines names (Match.Within lines) where
  structural := yields_structuralMatches htree
  textual _ _ tests := yields_textualMatches tree lines tests _
  joined hc ho hmerged :=
    ⟨hc.span, fun x hx => (Bindings.mem_of_merge hmerged x hx).elim (hc.bindings x) (ho.bindings x), nofun⟩

theorem within_of_outcome {clauses : List Clause} {maxSteps : Int} {found : List Match}
    (htree : tree.Placed (LineIndex.ofText tree.source)) (h : outcome tree clauses maxSteps = .ok found) :
    Match.AllWithin (LineIndex.ofText tree.source) found := by
  unfold outcome at h
  split at h
  · next ms t hrun =>
    cases h
    exact (lasting_within htree _).yields_evaluateAll _ _ _ hrun
  · cases h

end Clause

end RuleScan
