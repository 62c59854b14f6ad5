import RuleScan.Parsing.CompilerTree
import RuleScan.Proofs.Tree.Finishing

/-! Where the compiler's syntax errors show in a tree. For each of them one node is flagged, the innermost one that the
way down to its offset reaches. The step lemma says what one more offset flags; it composes over any number of them,
since flags move no range and so leave every way as it is. Main statement: a finished node is flagged if it lies on the
way to some syntax error. -/
namespace RuleScan

namespace Address

universe u v

variable {α : Type u} {β : Type v} {children : α → List α} {children' : β → List β} {holds : α → Bool}
  {holds' : β → Bool}

/-- The address lies on the way down from a node that goes to the first child that holds the place looked for, as long
as there is one. -/
def OnWay (children : α → List α) (holds : α → Bool) : Address → α → Prop
  | [], _ => True
  | i :: p, a => (children a).findIdx? holds = some i ∧ ∃ c, (children a)[i]? = some c ∧ OnWay children holds p c

theorem findIdx?_congr {R : α → β → Prop} (hholds : ∀ a b, R a b → holds a = holds' b) {as : List α} {bs : List β}
    (h : List.Forall₂ R as bs) : as.findIdx? holds = bs.findIdx? holds' := by
  induction h with
  | nil => rfl
  | cons hab _ ih => rw [List.findIdx?_cons, List.findIdx?_cons, hholds _ _ hab, ih]

/-- The way depends on what stands below its start. -/
theorem onWay_congr {R : α → β → Prop} (hholds : ∀ a b, R a b → holds a = holds' b)
    (hchildren : ∀ a b, R a b → List.Forall₂ R (children a) (children' b)) (p : Address) {a : α} {b : β}
    (h : List.Forall₂ R (children a) (children' b)) : OnWay children holds p a ↔ OnWay children' holds' p b := by
  induction p generalizing a b with
  | nil => exact Iff.rfl
  | cons i p ih =>
    rw [OnWay, OnWay, findIdx?_congr hholds h]
    refine and_congr_right fun _ => ?_
    have hchild := rel_getElem? h i
    generalize (children a)[i]? = c at hchild
    generalize (children' b)[i]? = d at hchild
    cases hchild with
    | none => simp
    | some hcd => simpa using ih (hchildren _ _ hcd)

end Address

namespace Draft

def around (offset : Int) (d : Draft) : Bool := d.start ≤ offset && offset < d.stop

/-- The address lies on the way down to an offset. -/
abbrev OnWay (d : Draft) (offset : Int) (p : Address) : Prop := Address.OnWay children (around offset) p d

variable (o : Int) (d : Draft)

theorem flagFirst_eq (ds : List Draft) :
    flagFirst o ds = (ds.findIdx? (around o)).map fun i => ds.modify i (flagAt o) := by
  induction ds with
  | nil => rfl
  | cons d rest ih =>
    rw [flagFirst, List.findIdx?_cons, ih, around]
    split
    · rfl
    · rw [Option.map_map, Option.map_map]
      rfl

/-- One step down the way: the first child around the offset is gone into, and where there is none the node is
flagged. -/
theorem flagAt_eq : d.flagAt o =
    match d.children.findIdx? (around o) with
    | some i => { d with children := d.children.modify i (flagAt o) }
    | none => { d with hasError := true } := by
  obtain ⟨kind, named, field, start, stop, hasError, children⟩ := d
  rw [flagAt, flagFirst_eq]
  cases children.findIdx? (around o) <;> rfl

theorem start_flagAt : (d.flagAt o).start = d.start := by
  rw [flagAt_eq]
  split <;> rfl

theorem stop_flagAt : (d.flagAt o).stop = d.stop := by
  rw [flagAt_eq]
  split <;> rfl

theorem children_flagAt : (d.flagAt o).children =
    match d.children.findIdx? (around o) with
    | some i => d.children.modify i (flagAt o)
    | none => d.children := by
  rw [flagAt_eq]
  split <;> rfl

/-- A draft before and after an offset is flagged somewhere. -/
def Revised (o : Int) (d e : Draft) : Prop := e = d ∨ e = d.flagAt o

variable {o d}

theorem Revised.range {e : Draft} (h : d.Revised o e) : e.start = d.start ∧ e.stop = d.stop := by
  rcases h with rfl | rfl
  · exact ⟨rfl, rfl⟩
  · exact ⟨d.start_flagAt o, d.stop_flagAt o⟩

theorem Revised.around_eq {e : Draft} (h : d.Revised o e) (offset : Int) : d.around offset = e.around offset := by
  rw [around, around, h.range.1, h.range.2]

theorem Revised.children {e : Draft} (h : d.Revised o e) : List.Forall₂ (Revised o) d.children e.children := by
  have hsame (ds : List Draft) : List.Forall₂ (Revised o) ds ds := List.forall₂_same.mpr fun _ _ => .inl rfl
  rcases h with rfl | rfl
  · exact hsame _
  · rw [children_flagAt]
    split
    · next i hi =>
      rw [List.forall₂_iff_get]
      refine ⟨by simp, fun j hj hj' => ?_⟩
      rw [List.get_eq_getElem, List.get_eq_getElem, List.getElem_modify]
      split
      · exact .inr rfl
      · exact .inl rfl
    · exact hsame _

theorem onWay_flagAt {offset : Int} {p : Address} : (d.flagAt o).OnWay offset p ↔ d.OnWay offset p :=
  (Address.onWay_congr (fun _ _ h => h.around_eq offset) (fun _ _ h => h.children) p
    (Revised.children (.inr rfl))).symm

theorem range_at?_flagAt (p : Address) :
    ((d.flagAt o).at? p).map (fun e => (e.start, e.stop)) = (d.at? p).map fun e => (e.start, e.stop) := by
  have hrel : Option.Rel (Revised o) (d.at? p) ((d.flagAt o).at? p) :=
    Address.rel_node? (fun _ _ h => h.children) (.inr rfl) p
  exact (Address.map_eq_of_rel (fun _ _ h => Prod.ext h.range.1.symm h.range.2.symm) hrel).symm

/-- At the address stands a node that is flagged or has a flagged node below it. -/
def FlaggedAt (d : Draft) (p : Address) : Prop := ∃ e, d.at? p = some e ∧ e.Flagged

theorem flaggedAt_cons_iff {i : Nat} {p : Address} :
    d.FlaggedAt (i :: p) ↔ ∃ c, d.children[i]? = some c ∧ c.FlaggedAt p := by
  simp only [FlaggedAt, Address.node?_cons_eq_some_iff]
  constructor
  · rintro ⟨e, ⟨c, hc, he⟩, h⟩
    exact ⟨c, hc, e, he, h⟩
  · rintro ⟨c, hc, e, he, h⟩
    exact ⟨e, ⟨c, hc, he⟩, h⟩

variable (o d) in
theorem flagged_flagAt : (d.flagAt o).Flagged := by
  induction d using Address.byChildren sizeOf_child with
  | node d ih =>
    rw [flagAt_eq, flagged_iff]
    cases hfirst : d.children.findIdx? (around o) with
    | none => exact .inl rfl
    | some i =>
      obtain ⟨hi, -⟩ := List.findIdx?_eq_some_iff_getElem.mp hfirst
      refine .inr ⟨d.children[i].flagAt o, ?_, ih _ (List.getElem_mem hi)⟩
      exact List.mem_of_getElem? (i := i) (by simp [hi])

/-- One offset flags the nodes on the way to it. -/
theorem flaggedAt_flagAt_iff (p : Address) : (d.flagAt o).FlaggedAt p ↔ d.FlaggedAt p ∨ d.OnWay o p := by
  induction p generalizing d with
  | nil => exact ⟨fun _ => .inr trivial, fun _ => ⟨_, rfl, flagged_flagAt o d⟩⟩
  | cons i p ih =>
    rw [flaggedAt_cons_iff, flaggedAt_cons_iff, children_flagAt, OnWay, Address.OnWay]
    cases d.children.findIdx? (around o) with
    | none => simp
    | some j =>
      dsimp only
      rw [List.getElem?_modify, Option.some.injEq]
      cases hc : d.children[i]? with
      | none => simp
      | some c =>
        by_cases hij : j = i
        · subst hij
          simpa using ih
        · simp [hij]

/-- A list of offsets flags the nodes on the ways to them. -/
theorem flaggedAt_foldl_iff (os : List Int) (p : Address) :
    (os.foldl (fun d o => d.flagAt o) d).FlaggedAt p ↔ d.FlaggedAt p ∨ ∃ o ∈ os, d.OnWay o p := by
  induction os generalizing d with
  | nil => simp
  | cons o os ih =>
    rw [List.foldl_cons, ih, flaggedAt_flagAt_iff, or_assoc]
    simp only [onWay_flagAt, List.exists_mem_cons_iff]

theorem range_at?_foldl (os : List Int) (p : Address) :
    ((os.foldl (fun d o => d.flagAt o) d).at? p).map (fun e => (e.start, e.stop)) =
      (d.at? p).map fun e => (e.start, e.stop) := by
  induction os generalizing d with
  | nil => rfl
  | cons o os ih => rw [List.foldl_cons, ih, range_at?_flagAt]

end Draft

theorem LineIndex.mem_span_iff (lines : LineIndex) {start stop o : Int} (hlow : 0 ≤ o) (hhigh : o < lines.size) :
    (lines.span start stop).start ≤ o ∧ o < (lines.span start stop).stop ↔ start ≤ o ∧ o < stop := by
  simp only [span, clamp]
  omega

namespace CompilerNode

abbrev at? (n : CompilerNode) (p : Address) : Option CompilerNode := Address.node? children p n

/-- The offset lies in the range of the node. -/
def around (offset : Int) (n : CompilerNode) : Bool := n.start ≤ offset && offset < n.stop

theorem around_eq_true_iff {offset : Int} {n : CompilerNode} :
    n.around offset = true ↔ n.start ≤ offset ∧ offset < n.stop := by
  rw [around, Bool.and_eq_true, decide_eq_true_iff, decide_eq_true_iff]

abbrev OnWay (n : CompilerNode) (offset : Int) (p : Address) : Prop := Address.OnWay children (around offset) p n

/-- No offset lies in two children of a node, and below the root one that lies in a node lies in its parent. -/
inductive LaidOut : CompilerNode → Prop where
  | node {n : CompilerNode} (apart : n.children.Pairwise fun a b => ∀ o, ¬(a.around o = true ∧ b.around o = true))
      (nested : ∀ c ∈ n.children, ∀ e ∈ c.children, ∀ o, e.around o = true → c.around o = true)
      (children : ∀ c ∈ n.children, c.LaidOut) : n.LaidOut

/-- The draft is that of the node, as a child of some other node. -/
def IsDraft (n : CompilerNode) (d : Draft) : Prop := ∃ field, d = n.toDraft field

variable {n : CompilerNode} {d : Draft}

theorem IsDraft.range (h : n.IsDraft d) : d.start = n.start ∧ d.stop = n.stop := by
  obtain ⟨field, rfl⟩ := h
  cases n
  exact ⟨rfl, rfl⟩

theorem IsDraft.hasError (h : n.IsDraft d) : d.hasError = false := by
  obtain ⟨field, rfl⟩ := h
  cases n
  rfl

theorem isDraft_toDrafts (properties : List (String × List Nat)) (index : Nat) (ns : List CompilerNode) :
    List.Forall₂ IsDraft ns (toDrafts properties index ns) := by
  induction ns generalizing index with
  | nil => exact .nil
  | cons n rest ih => exact .cons ⟨_, rfl⟩ (ih (index + 1))

theorem IsDraft.children (h : n.IsDraft d) : List.Forall₂ IsDraft n.children d.children := by
  obtain ⟨field, rfl⟩ := h
  cases n
  exact isDraft_toDrafts _ _ _

theorem IsDraft.around_eq (h : n.IsDraft d) (offset : Int) : n.around offset = d.around offset := by
  rw [around, Draft.around, h.range.1, h.range.2]

/-- A node on the way down to an offset is the root or lies around it. -/
theorem around_of_onWay {o : Int} {p : Address} (h : n.OnWay o p) (hp : p ≠ []) :
    ∃ m, n.at? p = some m ∧ m.around o = true := by
  induction p generalizing n with
  | nil => exact absurd rfl hp
  | cons i p ih =>
    obtain ⟨hfirst, c, hc, hway⟩ := h
    obtain ⟨hi, hholds, -⟩ := List.findIdx?_eq_some_iff_getElem.mp hfirst
    obtain ⟨_, hget⟩ := List.getElem?_eq_some_iff.mp hc
    rw [hget] at hholds
    rcases eq_or_ne p [] with rfl | hp
    · exact ⟨c, Address.node?_cons_eq_some_iff.mpr ⟨c, hc, rfl⟩, hholds⟩
    · obtain ⟨m, hm, haround⟩ := ih hway hp
      exact ⟨m, Address.node?_cons_eq_some_iff.mpr ⟨c, hc, hm⟩, haround⟩

/-- Below the root, an offset that lies in a node lies in every node above it. -/
theorem LaidOut.around_child (h : n.LaidOut) {p : Address} {c m : CompilerNode} {o : Int} (hc : c ∈ n.children)
    (hm : c.at? p = some m) (hmo : m.around o = true) : c.around o = true := by
  induction p generalizing n c with
  | nil =>
    cases hm
    exact hmo
  | cons i p ih =>
    obtain ⟨e, he, hm⟩ := Address.node?_cons_eq_some_iff.mp hm
    have hmem := List.mem_of_getElem? he
    cases h with
    | node _ nested children => exact nested c hc e hmem o (ih (children c hc) hmem hm)

/-- A child around an offset is the first one. -/
theorem LaidOut.findIdx?_eq (h : n.LaidOut) {i : Nat} {c : CompilerNode} {o : Int} (hc : n.children[i]? = some c)
    (hco : c.around o = true) : n.children.findIdx? (around o) = some i := by
  obtain ⟨hi, rfl⟩ := List.getElem?_eq_some_iff.mp hc
  refine List.findIdx?_eq_some_iff_getElem.mpr ⟨hi, hco, fun j hj hjo => ?_⟩
  cases h with
  | node apart => exact List.pairwise_iff_getElem.mp apart j i (Nat.lt_trans hj hi) hi hj o ⟨hjo, hco⟩

/-- Where the nodes are laid out, the way down to an offset passes every node around it. -/
theorem LaidOut.onWay (h : n.LaidOut) {p : Address} {m : CompilerNode} {o : Int} (hm : n.at? p = some m)
    (hmo : m.around o = true) : n.OnWay o p := by
  induction p generalizing n with
  | nil => trivial
  | cons i p ih =>
    obtain ⟨c, hc, hm⟩ := Address.node?_cons_eq_some_iff.mp hm
    have hmem := List.mem_of_getElem? hc
    refine ⟨h.findIdx?_eq hc (h.around_child hmem hm hmo), c, hc, ?_⟩
    cases h with
    | node _ _ children => exact ih (children c hmem) hm

/-- The draft of a compiler's tree before any node is flagged. -/
def rootDraft (root : CompilerNode) (size : Nat) : Draft :=
  { kind := kindName root.kind root.names, start := 0, stop := size
    children := toDrafts root.properties 0 root.children }

variable (root : CompilerNode) (size : Nat)

theorem isDraft_at?_rootDraft (i : Nat) (p : Address) :
    Option.Rel IsDraft (root.at? (i :: p)) ((root.rootDraft size).at? (i :: p)) := by
  have hrel : Option.Rel IsDraft (root.at? (i :: p)) ((root.toDraft none).at? (i :: p)) :=
    Address.rel_node? (fun _ _ h => h.children) ⟨none, rfl⟩ (i :: p)
  cases root
  exact hrel

theorem not_flagged_rootDraft : ¬(root.rootDraft size).Flagged := by
  rintro ⟨p, e, he, hflag⟩
  cases p with
  | nil =>
    cases he
    cases hflag
  | cons i p =>
    have hrel := root.isDraft_at?_rootDraft size i p
    rw [he] at hrel
    generalize root.at? (i :: p) = a at hrel
    cases hrel with
    | some h =>
      rw [h.hasError] at hflag
      cases hflag

theorem onWay_rootDraft (o : Int) (p : Address) : (root.rootDraft size).OnWay o p ↔ root.OnWay o p :=
  (Address.onWay_congr (fun _ _ h => h.around_eq o) (fun _ _ h => h.children) p
    (isDraft_toDrafts root.properties 0 root.children)).symm

end CompilerNode

namespace Tree

variable (language : Language) (source : String) (root : CompilerNode) (diagnostics : List CompilerDiagnostic)

theorem at?_ofCompiler (p : Address) : (ofCompiler language source root diagnostics).root.at? p =
    (((diagnostics.map (·.start)).foldl (fun d o => d.flagAt o)
      (root.rootDraft (Units.ofString source).size)).at? p).map
        (·.finish (Units.ofString source) (.ofText (Units.ofString source))) := by
  rw [List.foldl_map]
  exact Draft.at?_finish _ _ _ p

variable {language source root diagnostics} in
theorem hasError_at?_ofCompiler_iff {p : Address} {n : Node}
    (hn : (ofCompiler language source root diagnostics).root.at? p = some n) :
    n.hasError = true ↔ ∃ d ∈ diagnostics, root.OnWay d.start p := by
  rw [at?_ofCompiler] at hn
  obtain ⟨e, he, rfl⟩ := Option.map_eq_some_iff.mp hn
  have hflagged := Draft.flaggedAt_foldl_iff (d := root.rootDraft (Units.ofString source).size)
    (diagnostics.map (·.start)) p
  have hclean : ¬(root.rootDraft (Units.ofString source).size).FlaggedAt p := fun ⟨e, he, h⟩ =>
    root.not_flagged_rootDraft _ (.of_at? he h)
  rw [Draft.FlaggedAt, he] at hflagged
  simpa [hclean, root.onWay_rootDraft, Draft.hasError_finish_iff] using hflagged

/-- Below the root, a finished node stands where a node of the compiler does, over its range. -/
theorem span_at?_ofCompiler (i : Nat) (p : Address) :
    ((ofCompiler language source root diagnostics).root.at? (i :: p)).map (·.span) =
      (root.at? (i :: p)).map fun m => (LineIndex.ofText (Units.ofString source)).span m.start m.stop := by
  let lines := LineIndex.ofText (Units.ofString source)
  let draft := root.rootDraft (Units.ofString source).size
  calc
    _ = ((((diagnostics.map (·.start)).foldl (fun d o => d.flagAt o) draft).at? (i :: p)).map
          fun e => (e.start, e.stop)).map fun range => lines.span range.1 range.2 := by
      rw [at?_ofCompiler, Option.map_map, Option.map_map]
      exact Option.map_congr fun e _ => e.span_finish _ _
    _ = ((draft.at? (i :: p)).map fun e => (e.start, e.stop)).map fun range => lines.span range.1 range.2 := by
      rw [Draft.range_at?_foldl]
    _ = (root.at? (i :: p)).map fun m => lines.span m.start m.stop := by
      rw [Option.map_map]
      refine (Address.map_eq_of_rel (fun m e h => ?_) (root.isDraft_at?_rootDraft _ i p)).symm
      rw [Function.comp_apply, h.range.1, h.range.2]

theorem isSome_at?_ofCompiler (p : Address) :
    ((ofCompiler language source root diagnostics).root.at? p).isSome = (root.at? p).isSome := by
  cases p with
  | nil => rfl
  | cons i p => simpa using congrArg Option.isSome (span_at?_ofCompiler language source root diagnostics i p)

/-- Exactly the nodes on the ways to the syntax errors are flagged. So the root is flagged if there is a syntax error,
a flagged node below it lies around the start of one, and where the nodes are laid out, every node around such a start
is flagged. Below the root, the range of a finished node and that of the compiler's node have the same offsets of the
source in them. -/
theorem ofCompiler_flags (language : Language) (source : String) (root : CompilerNode)
    (diagnostics : List CompilerDiagnostic) :
    let tree := ofCompiler language source root diagnostics
    (∀ p, (tree.root.at? p).isSome = (root.at? p).isSome) ∧
    (∀ p, ∀ n ∈ tree.root.at? p, n.hasError = true ↔ ∃ d ∈ diagnostics, root.OnWay d.start p) ∧
    (tree.root.hasError = true ↔ diagnostics ≠ []) ∧
    (∀ p ≠ [], ∀ n ∈ tree.root.at? p, n.hasError = true →
      ∃ d ∈ diagnostics, ∃ m ∈ root.at? p, m.around d.start = true) ∧
    (root.LaidOut → ∀ p, ∀ n ∈ tree.root.at? p, ∀ d ∈ diagnostics,
      (∃ m ∈ root.at? p, m.around d.start = true) → n.hasError = true) ∧
    ∀ p ≠ [], ∀ n ∈ tree.root.at? p, ∀ m ∈ root.at? p, ∀ o : Int, 0 ≤ o → o < tree.source.size →
      (n.span.start ≤ o ∧ o < n.span.stop ↔ m.around o = true) := by
  refine ⟨isSome_at?_ofCompiler language source root diagnostics, fun p n hn => hasError_at?_ofCompiler_iff hn,
    ?_, ?_, ?_, ?_⟩
  · rw [hasError_at?_ofCompiler_iff (p := []) rfl]
    cases diagnostics <;> simp [Address.OnWay]
  · intro p hp n hn hflag
    obtain ⟨d, hd, hway⟩ := (hasError_at?_ofCompiler_iff hn).mp hflag
    obtain ⟨m, hm, hmo⟩ := CompilerNode.around_of_onWay hway hp
    exact ⟨d, hd, m, hm, hmo⟩
  · rintro hlaid p n hn d hd ⟨m, hm, hmo⟩
    exact (hasError_at?_ofCompiler_iff hn).mpr ⟨d, hd, hlaid.onWay hm hmo⟩
  · intro p hp n hn m hm o hlow hhigh
    obtain ⟨i, p, rfl⟩ := List.exists_cons_of_ne_nil hp
    have hspan := span_at?_ofCompiler language source root diagnostics i p
    rw [hn, hm, Option.map_some, Option.map_some, Option.some.injEq] at hspan
    rw [hspan, LineIndex.mem_span_iff _ hlow hhigh, CompilerNode.around_eq_true_iff]

end Tree

/-! A name in parentheses, a name behind it, and two syntax errors: one at the first name, one at the end of the text,
where no node is. -/

namespace Recovered

def leaf (start stop : Int) : CompilerNode :=
  { kind := 80, names := ["Identifier"], start, stop, properties := [], children := [] }

def group : CompilerNode :=
  { kind := 217, names := ["ParenthesizedExpression"], start := 0, stop := 3, properties := [("expression", [0])]
    children := [leaf 1 2] }

def file : CompilerNode :=
  { kind := 308, names := ["SourceFile"], start := 0, stop := 4, properties := [("statements", [0, 1])]
    children := [group, leaf 3 4] }

def errors : List CompilerDiagnostic := [⟨"Expression expected.", 1, 1⟩, ⟨"Declaration expected.", 4, 0⟩]

theorem laidOut_leaf (start stop : Int) : (leaf start stop).LaidOut :=
  .node .nil (fun _ hc => nomatch hc) (fun _ hc => nomatch hc)

theorem laidOut_group : group.LaidOut := by
  refine .node (List.pairwise_singleton _ _) ?_ ?_
  · rintro c hc e he
    cases List.mem_singleton.mp hc
    cases he
  · rintro c hc
    cases List.mem_singleton.mp hc
    exact laidOut_leaf 1 2

theorem laidOut_file : file.LaidOut := by
  refine .node (List.pairwise_pair.mpr fun o => ?_) ?_ ?_
  · simp only [group, leaf, CompilerNode.around_eq_true_iff]
    omega
  · rintro c hc e he o heo
    rcases List.mem_pair.mp hc with rfl | rfl
    · cases List.mem_singleton.mp he
      simp only [group, leaf, CompilerNode.around_eq_true_iff] at heo ⊢
      omega
    · cases he
  · rintro c hc
    rcases List.mem_pair.mp hc with rfl | rfl
    · exact laidOut_group
    · exact laidOut_leaf 3 4

end Recovered

open Recovered in
/-- Both nodes around the first of the errors are flagged, and the name behind them is not. -/
theorem Tree.ofCompiler_flags_recovered :
    let tree := Tree.ofCompiler .typescript "(a)b" file errors
    (∃ n ∈ tree.root.at? [0, 0], n.hasError = true) ∧ (∃ n ∈ tree.root.at? [0], n.hasError = true) ∧
    (∃ n ∈ tree.root.at? [1], n.hasError = false) ∧ tree.root.hasError = true := by
  intro tree
  obtain ⟨-, hway, hroot, -, hlaid, -⟩ := Tree.ofCompiler_flags .typescript "(a)b" file errors
  have hflag := hlaid laidOut_file
  refine ⟨⟨_, rfl, hflag [0, 0] _ rfl _ List.mem_cons_self ⟨_, rfl, by decide⟩⟩,
    ⟨_, rfl, hflag [0] _ rfl _ List.mem_cons_self ⟨_, rfl, by decide⟩⟩, ⟨_, rfl, ?_⟩, hroot.mpr (by simp [errors])⟩
  rw [← Bool.not_eq_true, hway [1] _ rfl]
  have hfirst : ∀ d ∈ errors, file.children.findIdx? (CompilerNode.around d.start) ≠ some 1 := by decide
  exact fun ⟨d, hd, hway⟩ => hfirst d hd hway.1

end RuleScan
