import RuleScan.Parsing.GrammarTree
import RuleScan.Proofs.Tree.Finishing

/-! What is read through a cursor. A tree of a grammar is read by moving a cursor and keeping the drafts of the nodes
above it open. The step lemma says that going over one node comes back to its place, with the draft of its subtree
put in place and its syntax errors reported. Main statement: what is read is the tree of the grammar, node by node,
with one report for each syntax error in pre-order, so that a parser that rejects syntax errors accepts exactly the
trees without a flagged node. -/
namespace RuleScan

namespace GrammarNode

abbrev at? (n : GrammarNode) (p : Address) : Option GrammarNode := Address.node? GrammarNode.children p n

theorem sizeOf_child (n : GrammarNode) : ∀ m ∈ n.children, sizeOf m < sizeOf n := by
  intro m hm
  have hlt := List.sizeOf_lt_of_mem hm
  cases n
  simp only [mk.sizeOf_spec] at hlt ⊢
  omega

mutual

/-- The nodes of a subtree in pre-order. -/
def preorder : GrammarNode → List GrammarNode
  | ⟨type, start, stop, named, missing, field, children⟩ =>
    ⟨type, start, stop, named, missing, field, children⟩ :: preorderAll children

def preorderAll : List GrammarNode → List GrammarNode
  | [] => []
  | n :: rest => preorder n ++ preorderAll rest

end

mutual

/-- The draft of a subtree, node by node. -/
def image : GrammarNode → Draft
  | ⟨type, start, stop, named, missing, field, children⟩ =>
    { (⟨type, start, stop, named, missing, field⟩ : GrammarLabel).toDraft with children := imageAll children }

def imageAll : List GrammarNode → List Draft
  | [] => []
  | n :: rest => image n :: imageAll rest

end

/-- The syntax errors of a subtree in pre-order. -/
def reports (n : GrammarNode) : List DraftDiagnostic := n.preorder.filterMap (·.label.report?)

theorem preorder_eq (n : GrammarNode) : n.preorder = n :: n.children.flatMap preorder := by
  have hall : ∀ ns : List GrammarNode, preorderAll ns = ns.flatMap preorder := by
    intro ns
    induction ns with
    | nil => rfl
    | cons n rest ih => rw [preorderAll, ih, List.flatMap_cons]
  obtain ⟨_, _, _, _, _, _, _⟩ := n
  rw [preorder, hall]

theorem image_eq (n : GrammarNode) : n.image = { n.label.toDraft with children := n.children.map image } := by
  have hall : ∀ ns : List GrammarNode, imageAll ns = ns.map image := by
    intro ns
    induction ns with
    | nil => rfl
    | cons n rest ih => rw [imageAll, ih, List.map_cons]
  obtain ⟨_, _, _, _, _, _, _⟩ := n
  rw [image, hall]
  rfl

theorem reports_eq (n : GrammarNode) : n.reports = n.label.report?.toList ++ n.children.flatMap reports := by
  rw [reports, preorder_eq, List.filterMap_cons, List.filterMap_flatMap]
  cases n.label.report? <;> rfl

theorem image_of_leaf {n : GrammarNode} (h : n.children = []) : n.image = n.label.toDraft := by
  rw [image_eq, h]
  rfl

theorem reports_of_leaf {n : GrammarNode} (h : n.children = []) : n.reports = n.label.report?.toList := by
  rw [reports_eq, h, List.flatMap_nil, List.append_nil]

theorem mem_preorder_iff {n m : GrammarNode} : m ∈ n.preorder ↔ ∃ p, n.at? p = some m := by
  have hiff : ∀ a : GrammarNode, (∃ p, a.at? p = some m) ↔ ∃ p b, a.at? p = some b ∧ b = m := by simp
  induction n using Address.byChildren sizeOf_child with
  | node n ih =>
    rw [preorder_eq, List.mem_cons, List.mem_flatMap, hiff, Address.exists_node?_iff, eq_comm]
    exact or_congr_right (exists_congr fun c => and_congr_right fun hc => (ih c hc).trans (hiff c))

end GrammarNode

namespace GrammarCursor

variable {σ : Type} {c : GrammarCursor σ} {s : σ} {n : GrammarNode} {after : List GrammarNode}
  {above : List (GrammarNode × List GrammarNode)}

theorem label_of_place (h : c.place s = ⟨n, after, above⟩) : c.label s = n.label := by rw [c.label_eq, h]

theorem children_eq_nil (h : c.place s = ⟨n, after, above⟩) (hs : c.firstChild? s = none) : n.children = [] := by
  have hmap := c.map_firstChild? s
  rw [h, hs, Option.map_none] at hmap
  unfold GrammarPlace.firstChild? at hmap
  split at hmap
  · assumption
  · cases hmap

theorem exists_children {t : σ} (h : c.place s = ⟨n, after, above⟩) (hs : c.firstChild? s = some t) :
    ∃ m ms, n.children = m :: ms ∧ c.place t = ⟨m, ms, (n, after) :: above⟩ := by
  have hmap := c.map_firstChild? s
  rw [h, hs, Option.map_some] at hmap
  unfold GrammarPlace.firstChild? at hmap
  split at hmap
  · cases hmap
  · next m ms hn => exact ⟨m, ms, hn, Option.some.inj hmap⟩

theorem nextSibling?_eq_none (h : c.place s = ⟨n, [], above⟩) : c.nextSibling? s = none := by
  have hmap := c.map_nextSibling? s
  rw [h] at hmap
  exact Option.map_eq_none_iff.mp hmap

theorem exists_nextSibling? {m : GrammarNode} (h : c.place s = ⟨n, m :: after, above⟩) :
    ∃ t, c.nextSibling? s = some t ∧ c.place t = ⟨m, after, above⟩ := by
  have hmap := c.map_nextSibling? s
  rw [h] at hmap
  exact Option.map_eq_some_iff.mp hmap

theorem exists_parent? {m : GrammarNode} {ms : List GrammarNode} (h : c.place s = ⟨n, after, (m, ms) :: above⟩) :
    ∃ t, c.parent? s = some t ∧ c.place t = ⟨m, ms, above⟩ := by
  have hmap := c.map_parent? s
  rw [h] at hmap
  exact Option.map_eq_some_iff.mp hmap

variable {t : σ} {parent around : Draft} {outer : List Draft} {found : List DraftDiagnostic}

theorem visit_of_child (h : c.firstChild? s = some t) : c.visit s parent outer found =
    c.visit t (c.label s).toDraft (parent :: outer) (found ++ (c.label s).report?.toList) := by
  rw [visit]
  split
  · next child hchild =>
    rw [h] at hchild
    cases hchild
    rfl
  · next hchild =>
    rw [h] at hchild
    cases hchild

theorem visit_of_leaf (h : c.firstChild? s = none) : c.visit s parent outer found =
    c.leave s (parent.adopt (c.label s).toDraft) outer (found ++ (c.label s).report?.toList) := by
  rw [visit]
  split
  · next child hchild =>
    rw [h] at hchild
    cases hchild
  · rfl

theorem leave_of_next (h : c.nextSibling? s = some t) :
    c.leave s parent outer found = c.visit t parent outer found := by
  rw [leave]
  split
  · next next hnext =>
    rw [h] at hnext
    cases hnext
    rfl
  · next hnext =>
    rw [h] at hnext
    cases hnext

theorem leave_of_parent (h : c.nextSibling? s = none) (habove : c.parent? s = some t) :
    c.leave s parent (around :: outer) found = c.leave t (around.adopt parent) outer found := by
  rw [leave]
  split
  · next next hnext =>
    rw [h] at hnext
    cases hnext
  · split
    · next hnone =>
      rw [habove] at hnone
      cases hnone
    · next above hsome =>
      rw [habove] at hsome
      cases hsome
      rfl

theorem leave_root (h : c.nextSibling? s = none) : c.leave s parent [] found = (parent, found) := by
  rw [leave]
  split
  · next next hnext =>
    rw [h] at hnext
    cases hnext
  · split <;> rfl

/-- Going over the subtree of a node comes back to its place. -/
def GoesOver (c : GrammarCursor σ) (n : GrammarNode) : Prop :=
  ∀ s after above parent outer found, c.place s = ⟨n, after, above⟩ →
    ∃ t, c.place t = ⟨n, after, above⟩ ∧
      c.visit s parent outer found = c.leave t (parent.adopt n.image) outer (found ++ n.reports)

variable (parent outer found) in
/-- Going over a node and its later siblings ends at the last of them. -/
theorem visit_siblings (h : ∀ m ∈ n :: after, c.GoesOver m) (hs : c.place s = ⟨n, after, above⟩) :
    ∃ t last, c.place t = ⟨last, [], above⟩ ∧
      c.visit s parent outer found =
        c.leave t { parent with children := parent.children ++ (n :: after).map GrammarNode.image } outer
          (found ++ (n :: after).flatMap GrammarNode.reports) := by
  induction after generalizing n s parent found with
  | nil =>
    obtain ⟨t, ht, hvisit⟩ := h n List.mem_cons_self s [] above parent outer found hs
    refine ⟨t, n, ht, ?_⟩
    rw [hvisit, List.flatMap_singleton]
    rfl
  | cons m after ih =>
    obtain ⟨t, ht, hvisit⟩ := h n List.mem_cons_self s (m :: after) above parent outer found hs
    obtain ⟨u, hnext, hu⟩ := exists_nextSibling? ht
    obtain ⟨v, last, hv, hrest⟩ := ih (parent.adopt n.image) (found ++ n.reports)
      (fun x hx => h x (List.mem_cons_of_mem _ hx)) hu
    refine ⟨v, last, hv, ?_⟩
    rw [hvisit, leave_of_next hnext, hrest]
    simp only [Draft.adopt, List.map_cons, List.flatMap_cons, List.append_assoc, List.singleton_append]

variable (outer found) in
/-- Going over the children of a node makes its draft whole. -/
theorem visit_children (hs : c.place s = ⟨n, after, above⟩) (hchild : c.firstChild? s = some t)
    (h : ∀ m ∈ n.children, c.GoesOver m) :
    ∃ u last, c.place u = ⟨last, [], (n, after) :: above⟩ ∧
      c.visit t n.label.toDraft outer (found ++ n.label.report?.toList) =
        c.leave u n.image outer (found ++ n.reports) := by
  obtain ⟨m, ms, hn, ht⟩ := exists_children hs hchild
  obtain ⟨u, last, hu, hvisit⟩ := visit_siblings n.label.toDraft outer (found ++ n.label.report?.toList)
    (fun x hx => h x (hn ▸ hx)) ht
  refine ⟨u, last, hu, ?_⟩
  rw [hvisit, ← hn, GrammarNode.image_eq n, GrammarNode.reports_eq n, List.append_assoc]
  rfl

theorem goesOver (c : GrammarCursor σ) (n : GrammarNode) : c.GoesOver n := by
  induction n using Address.byChildren GrammarNode.sizeOf_child with
  | node n ih =>
    intro s after above parent outer found hs
    cases hchild : c.firstChild? s with
    | none =>
      have hn := children_eq_nil hs hchild
      refine ⟨s, hs, ?_⟩
      rw [visit_of_leaf hchild, label_of_place hs, GrammarNode.image_of_leaf hn, GrammarNode.reports_of_leaf hn]
    | some t =>
      obtain ⟨u, last, hu, hvisit⟩ := visit_children (parent :: outer) found hs hchild ih
      obtain ⟨v, habove, hv⟩ := exists_parent? hu
      refine ⟨v, hv, ?_⟩
      rw [visit_of_child hchild, label_of_place hs, hvisit, leave_of_parent (nextSibling?_eq_none hu) habove]

/-- The whole tree is read. -/
theorem convert_walk (c : GrammarCursor σ) (n : GrammarNode) : c.convert (c.walk n) = (n.image, n.reports) := by
  have hs : c.place (c.walk n) = ⟨n, [], []⟩ := c.place_walk n
  unfold convert
  dsimp only
  rw [label_of_place hs]
  cases hchild : c.firstChild? (c.walk n) with
  | none =>
    have hn := children_eq_nil hs hchild
    rw [GrammarNode.image_of_leaf hn, GrammarNode.reports_of_leaf hn]
  | some t =>
    obtain ⟨u, last, hu, hvisit⟩ := visit_children [] [] hs hchild fun m _ => c.goesOver m
    rw [List.nil_append, List.nil_append] at hvisit
    exact hvisit.trans (leave_root (nextSibling?_eq_none hu))

end GrammarCursor

namespace GrammarNode

/-- The node is a syntax error: a text that the grammar did not expect, or a node missing in the text. -/
def IsFlaw (n : GrammarNode) : Prop := n.type = "ERROR" ∨ n.missing = true

instance : DecidablePred IsFlaw := fun n => inferInstanceAs (Decidable (n.type = "ERROR" ∨ n.missing = true))

structure Shown (n : GrammarNode) (d : Draft) : Prop where
  kind : d.kind = n.type
  named : d.named = n.named
  field : ∀ name, d.field = some name ↔ n.field = some name ∧ name ≠ ""
  start : d.start = n.start
  stop : d.stop = n.stop
  hasError : d.hasError = true ↔ n.IsFlaw

variable (n : GrammarNode)

theorem isFlaw_label : n.label.isFlaw = decide n.IsFlaw := by
  rw [Bool.eq_iff_iff, decide_eq_true_iff, GrammarLabel.isFlaw, Bool.or_eq_true, decide_eq_true_iff]
  rfl

theorem at?_image (p : Address) : n.image.at? p = (n.at? p).map image :=
  Address.node?_map (fun n => by rw [image_eq]) p n

theorem shown_image : n.Shown n.image where
  kind := by rw [image_eq]; rfl
  named := by rw [image_eq]; rfl
  field name := by
    rw [image_eq]
    simp only [GrammarLabel.toDraft, label, Option.filter_eq_some_iff, decide_eq_true_eq]
  start := by rw [image_eq]; rfl
  stop := by rw [image_eq]; rfl
  hasError := by
    rw [image_eq]
    simp only [GrammarLabel.toDraft, isFlaw_label, decide_eq_true_eq]

/-- One report for each syntax error. -/
theorem reports_eq_map :
    n.reports = (n.preorder.filter fun m => m.IsFlaw).map fun m => ⟨m.label.message, m.start, m.stop⟩ := by
  rw [← List.filterMap_eq_filter, List.map_filterMap, reports]
  refine List.filterMap_congr fun m _ => ?_
  rw [GrammarLabel.report?, isFlaw_label, Option.guard]
  by_cases hm : m.IsFlaw
  · rw [if_pos (decide_eq_true hm), if_pos (decide_eq_true hm)]
    rfl
  · rw [if_neg (by simpa using hm), if_neg (by simpa using hm)]
    rfl

theorem flagged_image_iff : n.image.Flagged ↔ n.reports ≠ [] := by
  have hflaw : n.reports ≠ [] ↔ ∃ m ∈ n.preorder, m.IsFlaw := by
    rw [reports_eq_map, ne_eq, List.map_eq_nil_iff, List.filter_eq_nil_iff]
    simp
  rw [hflaw, Draft.Flagged]
  simp only [at?_image, mem_preorder_iff]
  constructor
  · rintro ⟨p, e, he, hflag⟩
    obtain ⟨m, hm, rfl⟩ := Option.map_eq_some_iff.mp he
    exact ⟨m, ⟨p, hm⟩, m.shown_image.hasError.mp hflag⟩
  · rintro ⟨m, ⟨p, hm⟩, hflag⟩
    exact ⟨p, m.image, by rw [hm, Option.map_some], m.shown_image.hasError.mpr hflag⟩

end GrammarNode

namespace Tree

variable {σ : Type} (c : GrammarCursor σ) (n : GrammarNode) (language : Language) (source : String)

theorem ofCursor_walk :
    ofCursor c (c.walk n) language source = ofDraft language (Units.ofString source) n.image n.reports := by
  rw [ofCursor, c.convert_walk]

theorem hasError_ofCursor_iff :
    (ofCursor c (c.walk n) language source).root.hasError = true ↔
      (ofCursor c (c.walk n) language source).diagnostics ≠ [] := by
  rw [ofCursor_walk, ofDraft, Draft.hasError_finish_iff, GrammarNode.flagged_image_iff, ne_eq, ne_eq,
    List.map_eq_nil_iff]

theorem exists_hasError_ofCursor_iff :
    (∃ p, ∃ m ∈ (ofCursor c (c.walk n) language source).root.at? p, m.hasError = true) ↔
      (ofCursor c (c.walk n) language source).diagnostics ≠ [] := by
  rw [← hasError_ofCursor_iff, ofCursor_walk, ofDraft, Draft.exists_hasError_finish_iff, Draft.hasError_finish_iff]

end Tree

namespace Parser

variable {p : Parser} {source : String} {path : Option String} {tree : Tree}

theorem parse_tolerate_eq_ok_iff : p.parse source path .tolerate = .ok tree ↔
    nulOffset? source = none ∧ p.unavailable = none ∧
      p.build source (path.getD ("anonymous" ++ p.extensions.headD "")) = .ok tree := by
  unfold parse
  cases nulOffset? source with
  | some offset => simp
  | none =>
    cases p.unavailable with
    | some reason => simp
    | none =>
      dsimp only
      cases p.build source (path.getD ("anonymous" ++ p.extensions.headD "")) <;> simp

/-- Rejecting syntax errors keeps the trees without a diagnostic. -/
theorem parse_reject_eq_ok_iff : p.parse source path .reject = .ok tree ↔
    p.parse source path .tolerate = .ok tree ∧ tree.diagnostics = [] := by
  unfold parse
  cases nulOffset? source with
  | some offset => simp
  | none =>
    cases p.unavailable with
    | some reason => simp
    | none =>
      dsimp only
      cases p.build source (path.getD ("anonymous" ++ p.extensions.headD "")) with
      | error reason => simp
      | ok built =>
        cases h : built.diagnostics with
        | nil =>
          simp only [h, Except.ok.injEq]
          exact ⟨fun heq => ⟨heq, heq ▸ h⟩, And.left⟩
        | cons d rest =>
          simp only [h, Except.ok.injEq, reduceCtorEq, false_iff, not_and]
          rintro rfl hnil
          rw [h] at hnil
          cases hnil

variable {σ : Type} {c : GrammarCursor σ} {language : Language} {unavailable : Option String}
  {grammar : String → Except String GrammarNode}

theorem ofGrammar_parse_tolerate_eq_ok_iff :
    (ofGrammar c language unavailable grammar).parse source path .tolerate = .ok tree ↔
      nulOffset? source = none ∧ unavailable = none ∧
        ∃ n, grammar source = .ok n ∧ tree = Tree.ofCursor c (c.walk n) language source := by
  rw [parse_tolerate_eq_ok_iff]
  refine and_congr_right fun _ => and_congr_right fun _ => ?_
  dsimp only [ofGrammar]
  cases grammar source with
  | error reason => simp [Except.map]
  | ok n => simp [Except.map, eq_comm]

theorem ofGrammar_parse_reject_eq_ok_iff :
    (ofGrammar c language unavailable grammar).parse source path .reject = .ok tree ↔
      (ofGrammar c language unavailable grammar).parse source path .tolerate = .ok tree ∧
        ∀ q, ∀ m ∈ tree.root.at? q, m.hasError = false := by
  rw [parse_reject_eq_ok_iff]
  refine and_congr_right fun htree => ?_
  obtain ⟨-, -, n, -, rfl⟩ := ofGrammar_parse_tolerate_eq_ok_iff.mp htree
  rw [← not_iff_not, ← ne_eq, ← Tree.exists_hasError_ofCursor_iff]
  simp

end Parser

/-- What is read through a cursor is the tree of the grammar, however the cursor is made. The draft has a node where
the tree has one, and shows it; the reports are those of the syntax errors in pre-order. The root of the finished tree
is flagged if there is a report, and of the trees that a parser returns, it rejects those with a flagged node if it is
to reject syntax errors. -/
theorem GrammarCursor.convert_shows {σ : Type} (c : GrammarCursor σ) :
    (∀ n : GrammarNode,
      let read := c.convert (c.walk n)
      (∀ p, Option.Rel GrammarNode.Shown (n.at? p) (read.1.at? p)) ∧
      read.2 = ((n.preorder.filter fun m => m.IsFlaw).map fun m => ⟨m.label.message, m.start, m.stop⟩) ∧
      ∀ language source, let tree := Tree.ofCursor c (c.walk n) language source
        tree.root.hasError = true ↔ tree.diagnostics ≠ []) ∧
    ∀ language unavailable grammar source path tree,
      let parser := Parser.ofGrammar c language unavailable grammar
      (parser.parse source path .tolerate = .ok tree ↔
        Parser.nulOffset? source = none ∧ unavailable = none ∧
          ∃ n, grammar source = .ok n ∧ tree = Tree.ofCursor c (c.walk n) language source) ∧
      (parser.parse source path .reject = .ok tree ↔
        parser.parse source path .tolerate = .ok tree ∧ ∀ p, ∀ m ∈ tree.root.at? p, m.hasError = false) := by
  constructor
  · intro n
    dsimp only
    rw [c.convert_walk]
    refine ⟨fun p => ?_, n.reports_eq_map, fun language source => Tree.hasError_ofCursor_iff c n language source⟩
    rw [n.at?_image]
    cases n.at? p with
    | none => exact .none
    | some m => exact .some m.shown_image
  · intro language unavailable grammar source path tree
    exact ⟨Parser.ofGrammar_parse_tolerate_eq_ok_iff, Parser.ofGrammar_parse_reject_eq_ok_iff⟩

/-! A module whose first statement is followed by a text that the grammar did not expect. -/

namespace Unexpected

def text : String := "x)"

def flaw : GrammarNode := ⟨"ERROR", 1, 2, true, false, none, [⟨")", 1, 2, false, false, none, []⟩]⟩

def parsed : GrammarNode :=
  ⟨"module", 0, 2, true, false, none,
    [⟨"expression_statement", 0, 1, true, false, none, [⟨"identifier", 0, 1, true, false, some "", []⟩]⟩, flaw]⟩

def parser : Parser := .ofGrammar GrammarPlace.cursor .python none fun _ => .ok parsed

end Unexpected

open Unexpected in
/-- The text is reported where it is, behind the statement and not below it. A parser that is to tolerate syntax errors
returns the tree, and one that is to reject them does not. -/
theorem GrammarCursor.convert_shows_unexpected :
    let read := GrammarPlace.cursor.convert (GrammarPlace.cursor.walk parsed)
    (∃ d ∈ read.1.at? [1], d.hasError = true) ∧ read.2 = [⟨"Unexpected syntax", 1, 2⟩] ∧
    ∃ tree, parser.parse text none .tolerate = .ok tree ∧ parser.parse text none .reject ≠ .ok tree := by
  intro read
  obtain ⟨hread, hparse⟩ := GrammarCursor.convert_shows GrammarPlace.cursor
  obtain ⟨hshown, hreports, hroot⟩ := hread parsed
  obtain ⟨htolerate, hreject⟩ := hparse .python none (fun _ => .ok parsed) text none
    (Tree.ofCursor GrammarPlace.cursor (GrammarPlace.cursor.walk parsed) .python text)
  refine ⟨?_, hreports, _, htolerate.mpr ⟨by decide, rfl, parsed, rfl, rfl⟩, fun hok => ?_⟩
  · have hrel : Option.Rel GrammarNode.Shown (some flaw) (read.1.at? [1]) := hshown [1]
    generalize read.1.at? [1] = d at hrel ⊢
    cases hrel with
    | some h => exact ⟨_, rfl, h.hasError.mpr (.inl rfl)⟩
  · have hclean := (hreject.mp hok).2 [] _ rfl
    rw [(hroot .python text).mpr ?_] at hclean
    · cases hclean
    · rw [Tree.ofCursor_walk]
      exact List.cons_ne_nil _ _

end RuleScan
