import RuleScan.Proofs.Source.Rows
import RuleScan.Proofs.Tree.Addresses

/-! What finishing a draft makes of its nodes. The offsets of a draft are arbitrary integers; those of the finished
tree lie in the source, and nothing else of the draft is lost. Main statement: draft and finished tree have nodes at
the same addresses, and each finished node has the kind, field and range of its draft, moved into the source, with
the text and the flag that belong to it. -/
namespace RuleScan

namespace LineIndex

variable (lines : LineIndex) {start stop : Int}

/-- Offsets that lie in the text stay where they are. -/
theorem span_of_inside (hstart : 0 ≤ start) (horder : start ≤ stop) (hstop : stop ≤ lines.size) :
    ((lines.span start stop).start : Int) = start ∧ ((lines.span start stop).stop : Int) = stop := by
  simp only [span, clamp]
  omega

/-- A stretch of text that lies in another one does so after both are moved into the text. -/
theorem contains_span {start' stop' : Int} (hstart : start ≤ start') (horder : start' ≤ stop') (hstop : stop' ≤ stop) :
    (lines.span start stop).contains (lines.span start' stop') = true := by
  refine Bool.and_eq_true_iff.mpr ⟨decide_eq_true ?_, decide_eq_true ?_⟩
  · simp only [span, clamp]
    omega
  · simp only [span, clamp]
    omega

end LineIndex

namespace Draft

def Flagged (d : Draft) : Prop := ∃ p e, d.at? p = some e ∧ e.hasError = true

theorem flagged_iff {d : Draft} : d.Flagged ↔ d.hasError = true ∨ ∃ c ∈ d.children, c.Flagged :=
  Address.exists_node?_iff

theorem Flagged.of_at? {d e : Draft} {p : Address} (he : d.at? p = some e) (h : e.Flagged) : d.Flagged := by
  obtain ⟨q, f, hf, hflag⟩ := h
  refine ⟨p ++ q, f, ?_, hflag⟩
  rw [at?, Address.node?_append]
  exact Option.bind_eq_some_iff.mpr ⟨e, he, hf⟩

variable (source : Units) (lines : LineIndex) (d : Draft)

theorem finishAll_eq_map (ds : List Draft) : finishAll source lines ds = ds.map (·.finish source lines) := by
  induction ds with
  | nil => rfl
  | cons d rest ih => rw [finishAll, ih, List.map_cons]

/-- A finished node, part by part. -/
theorem finish_eq : d.finish source lines =
    { kind := d.kind, named := d.named, field := d.field, span := lines.span d.start d.stop
      children := d.children.map (·.finish source lines)
      text := if d.children.isEmpty then
        some (source.slice (lines.span d.start d.stop).start (lines.span d.start d.stop).stop) else none
      hasError := d.hasError || (d.children.map (·.finish source lines)).any (·.hasError) } := by
  obtain ⟨kind, named, field, start, stop, hasError, children⟩ := d
  rw [finish, finishAll_eq_map]
  simp only [List.isEmpty_map]

theorem span_finish : (d.finish source lines).span = lines.span d.start d.stop := by rw [finish_eq]

theorem at?_finish (p : Address) : (d.finish source lines).at? p = (d.at? p).map (·.finish source lines) :=
  Address.node?_map (fun d => by rw [finish_eq]) p d

/-- A flag reaches up to every node above it. -/
theorem hasError_finish_iff : (d.finish source lines).hasError = true ↔ d.Flagged := by
  induction d using Address.byChildren sizeOf_child with
  | node d ih =>
    rw [flagged_iff, finish_eq]
    simp only [Bool.or_eq_true, List.any_eq_true, List.mem_map, exists_exists_and_eq_and]
    exact or_congr_right (exists_congr fun c => and_congr_right (ih c))

/-- A finished tree has a flagged node where its root is flagged. -/
theorem exists_hasError_finish_iff :
    (∃ p, ∃ n ∈ (d.finish source lines).at? p, n.hasError = true) ↔ d.Flagged := by
  constructor
  · rintro ⟨p, n, hn, hflag⟩
    rw [at?_finish] at hn
    obtain ⟨e, he, rfl⟩ := Option.map_eq_some_iff.mp hn
    exact .of_at? he ((e.hasError_finish_iff source lines).mp hflag)
  · intro h
    exact ⟨[], _, rfl, (d.hasError_finish_iff source lines).mpr h⟩

/-- What finishing over a source makes of one node of a draft. -/
structure Finished (source : Units) (d : Draft) (n : Node) : Prop where
  kind : n.kind = d.kind
  named : n.named = d.named
  field : n.field = d.field
  ordered : n.span.start ≤ n.span.stop
  bounded : n.span.stop ≤ source.size
  startPosition : n.span.startPosition.Marks source n.span.start
  stopPosition : n.span.stopPosition.Marks source n.span.stop
  /-- A range that lies in the source is kept. -/
  kept : 0 ≤ d.start → d.start ≤ d.stop → d.stop ≤ source.size → n.span.start = d.start ∧ n.span.stop = d.stop
  /-- Exactly the nodes without children carry text, that of their range. -/
  text : n.text = if n.children = [] then some (source.slice n.span.start n.span.stop) else none
  hasError : n.hasError = true ↔ d.Flagged

theorem finished_finish : d.Finished source (d.finish source (.ofText source)) where
  kind := by rw [finish_eq]
  named := by rw [finish_eq]
  field := by rw [finish_eq]
  ordered := by
    rw [finish_eq]
    exact (Span.within_span _ _ _).ordered
  bounded := by
    rw [finish_eq]
    exact (Span.within_span _ _ _).bounded
  startPosition := by
    rw [finish_eq]
    exact LineIndex.marks_position source _
  stopPosition := by
    rw [finish_eq]
    exact LineIndex.marks_position source _
  kept := by
    rw [finish_eq]
    exact LineIndex.span_of_inside (.ofText source)
  text := by
    rw [finish_eq]
    simp
  hasError := hasError_finish_iff source _ d

end Draft

/-- A finished tree has a node where the draft has one, and each is what finishing makes of it. Ranges of the draft
that lie in one another do so in the finished tree. -/
theorem Tree.ofDraft_finished (language : Language) (source : Units) (root : Draft)
    (diagnostics : List DraftDiagnostic) :
    let tree := Tree.ofDraft language source root diagnostics
    (∀ p, Option.Rel (Draft.Finished source) (root.at? p) (tree.root.at? p)) ∧
    ∀ p q, ∀ outer ∈ root.at? p, ∀ inner ∈ root.at? q,
      outer.start ≤ inner.start → inner.start ≤ inner.stop → inner.stop ≤ outer.stop →
      ∀ n ∈ tree.root.at? p, ∀ m ∈ tree.root.at? q, n.span.contains m.span = true := by
  intro tree
  have hat (p : Address) : tree.root.at? p = (root.at? p).map (·.finish source (.ofText source)) :=
    root.at?_finish source _ p
  constructor
  · intro p
    rw [hat]
    cases root.at? p with
    | none => exact .none
    | some d => exact .some (d.finished_finish source)
  · intro p q outer houter inner hinner hstart horder hstop n hn m hm
    rw [hat, houter] at hn
    rw [hat, hinner] at hm
    cases hn
    cases hm
    simp only [Draft.span_finish]
    exact LineIndex.contains_span _ hstart horder hstop

/-! A draft that reaches beyond both ends of its source. -/

namespace Overlong

def content : Units := Units.ofString "ab\nc"

def inner : Draft := { kind := "inner", start := 1, stop := 4, hasError := true, children := [] }

def outer : Draft := { kind := "outer", start := -1, stop := 5, children := [inner] }

def back : Draft := { kind := "back", start := 3, stop := 1, children := [] }

def draft : Draft := { kind := "root", start := -2, stop := 9, children := [outer, back] }

end Overlong

open Overlong in
/-- The flagged node stays where it is, and in the node around it; the flag reaches the root. The node that stops
before it starts becomes empty text. -/
theorem Tree.ofDraft_finished_overlong :
    let tree := Tree.ofDraft .python content draft []
    (∃ n ∈ tree.root.at? [0], ∃ m ∈ tree.root.at? [0, 0], n.span.contains m.span = true ∧
      (m.span.start : Int) = 1 ∧ (m.span.stop : Int) = 4) ∧
    tree.root.hasError = true ∧ ∃ n ∈ tree.root.at? [1], n.text = some #[] := by
  have hsize : (content.size : Int) = 4 := by decide
  obtain ⟨hfinished, hnested⟩ := Tree.ofDraft_finished .python content draft []
  have hinner := Option.rel_some_some.mp (hfinished [0, 0])
  have hroot := Option.rel_some_some.mp (hfinished [])
  refine ⟨⟨_, rfl, _, rfl, ?_, hinner.kept (by decide) (by decide) (hsize ▸ by decide)⟩, ?_, _, rfl, ?_⟩
  · exact hnested [0] [0, 0] outer rfl inner rfl (by decide) (by decide) (by decide) _ rfl _ rfl
  · exact hroot.hasError.mpr ⟨[0, 0], inner, rfl, rfl⟩
  · decide

end RuleScan
