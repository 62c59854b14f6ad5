import RuleScan.Proofs.Rule.Deduplication
import RuleScan.Proofs.Source.Rows

/-! Report order within a file. Violations are compared by line and column; the lines and columns of one file stand
for its offsets, so this compares where the violations start. Main statement: the line index gives every offset its
row and column, in the order of the offsets, and the violations of a file are sorted by their start offsets. -/
namespace RuleScan

namespace Violation

/-- Report order with the start offset in place of line and column. -/
def orderByStart (v w : Violation) : Ordering :=
  (Text.order v.file w.file).then <|
  (compare v.location.startOffset w.location.startOffset).then <|
  (Text.order v.ruleId w.ruleId).then <|
  (compare v.location.endOffset w.location.endOffset).then <|
  Text.order v.fingerprint w.fingerprint

/-- The violation is of a match in a file with this content; the lines of the content gave the span. -/
def FoundIn (path : String) (content : Units) (v : Violation) : Prop :=
  ∃ language rule m start stop, m.span = (LineIndex.ofText content).span start stop ∧
    ofMatch path language content rule m = .ok v

variable {path : String} {content : Units} {v w : Violation}

theorem FoundIn.exists_start (h : v.FoundIn path content) :
    ∃ (offset : Nat) (p : Position), p.Marks content offset ∧ v.location.startOffset = offset ∧
      v.location.line = p.row + 1 ∧ v.location.column = p.column + 1 := by
  obtain ⟨language, rule, m, start, stop, hspan, hmatch⟩ := h
  obtain ⟨message, fix, -, rfl⟩ := exists_of_ofMatch hmatch
  refine ⟨m.span.start, m.span.startPosition, ?_, rfl, rfl, rfl⟩
  rw [hspan]
  exact LineIndex.marks_position content _

theorem FoundIn.compare_start (hv : v.FoundIn path content) (hw : w.FoundIn path content) :
    (compare v.location.line w.location.line).then (compare v.location.column w.location.column) =
      compare v.location.startOffset w.location.startOffset := by
  obtain ⟨a, p, hp, hstart, hline, hcolumn⟩ := hv.exists_start
  obtain ⟨b, q, hq, hstart', hline', hcolumn'⟩ := hw.exists_start
  have hsucc : ∀ m n : Nat, compare (m + 1) (n + 1) = compare m n := by
    simp [Nat.compare_eq_ite_lt]
  have hcast : compare (a : Int) (b : Int) = compare a b := by
    simp [Nat.compare_eq_ite_lt, Int.compare_eq_ite_lt]
  rw [hline, hline', hcolumn, hcolumn', hsucc, hsucc, hstart, hstart', hcast]
  exact hp.order_eq hq

theorem FoundIn.order_eq (hv : v.FoundIn path content) (hw : w.FoundIn path content) : order v w = orderByStart v w := by
  rw [order, orderByStart, ← hv.compare_start hw, Ordering.then_assoc]

theorem sort_eq_of_foundIn {vs : List Violation} (h : ∀ v ∈ vs, v.FoundIn path content) :
    sort vs = vs.mergeSort fun v w => (orderByStart v w).isLE := by
  have hmap := List.map_mergeSort (r := le) (s := fun v w => (orderByStart v w).isLE) (f := id) (l := vs)
    fun v hv w hw => congrArg Ordering.isLE ((h v hv).order_eq (h w hw))
  rwa [List.map_id, List.map_id] at hmap

end Violation

/-- The row of an offset is the number of line feeds before it, once it is moved into the text, and its column is the
distance from the start of that row. Positions are ordered as the offsets of the text, and so the violations of a
file are sorted by where they start. -/
theorem LineIndex.positionAt_counts (t : Units) :
    (∀ offset : Int, ((ofText t).positionAt offset).Marks t (max 0 (min offset t.size)).toNat) ∧
    (∀ a b : Fin (t.size + 1), ((ofText t).positionAt a.val).Marks t a.val ∧
      Position.order ((ofText t).positionAt a.val) ((ofText t).positionAt b.val) = compare a.val b.val) ∧
    ∀ path vs, (∀ v ∈ vs, Violation.FoundIn path t v) →
      (∀ v ∈ vs, ∀ w ∈ vs,
        (compare v.location.line w.location.line).then (compare v.location.column w.location.column) =
          compare v.location.startOffset w.location.startOffset) ∧
      Violation.sort vs = vs.mergeSort fun v w => (v.orderByStart w).isLE := by
  have hany : ∀ offset : Int, ((ofText t).positionAt offset).Marks t (max 0 (min offset t.size)).toNat := by
    intro offset
    rw [← clamp_ofText, Int.toNat_natCast]
    exact marks_position t _
  have hinside : ∀ a : Fin (t.size + 1), ((ofText t).positionAt a.val).Marks t a.val := by
    intro a
    have hclamp : (max 0 (min (a.val : Int) t.size)).toNat = a.val := by omega
    simpa only [hclamp] using hany a.val
  refine ⟨hany, fun a b => ⟨hinside a, (hinside a).order_eq (hinside b)⟩, fun path vs hvs => ⟨?_, ?_⟩⟩
  · exact fun v hv w hw => (hvs v hv).compare_start (hvs w hw)
  · exact Violation.sort_eq_of_foundIn hvs

/-! A file of two lines that ends with a line feed, and what a rule finds on each of them. -/

namespace TwoLines

def content : Units := Units.ofString "x\nx\n"

def rule : Rule :=
  { id := "one", languages := [.typescript], severity := .error, message := "an x", patterns := [] }

def place (start stop : Nat) : Match := ⟨(LineIndex.ofText content).span start stop, default, [], none⟩

theorem exists_violation (start stop : Nat) :
    ∃ v, Violation.ofMatch "a.ts" .typescript content rule (place start stop) = .ok v := by
  have hpieces : Template.pieces "an x" = "an x".toList.map .char := by cbv
  have hmessage : ∀ text, Template.render "an x" [] content text = .ok "an x" := by
    intro text
    rw [Template.render, hpieces]
    rfl
  unfold Violation.ofMatch
  simp only [rule, place, hmessage]
  exact ⟨_, rfl⟩

end TwoLines

open TwoLines in
/-- The violation on the second line is sorted behind that on the first, and the offset after the last line feed is
the start of a third line. -/
theorem LineIndex.positionAt_counts_lines :
    (∃ v w, Violation.ofMatch "a.ts" .typescript content rule (place 2 3) = .ok v ∧
      Violation.ofMatch "a.ts" .typescript content rule (place 0 1) = .ok w ∧ Violation.sort [v, w] = [w, v]) ∧
    ((ofText content).positionAt 9).Marks content 4 ∧ (ofText content).positionAt 9 = ⟨2, 0⟩ := by
  obtain ⟨hany, -, hsorted⟩ := LineIndex.positionAt_counts content
  refine ⟨?_, hany 9, by decide +kernel⟩
  obtain ⟨v, hv⟩ := exists_violation 2 3
  obtain ⟨w, hw⟩ := exists_violation 0 1
  have hfound : ∀ u ∈ [v, w], Violation.FoundIn "a.ts" content u := by
    rintro u hu
    rcases List.mem_pair.mp hu with rfl | rfl
    · exact ⟨_, _, _, 2, 3, rfl, hv⟩
    · exact ⟨_, _, _, 0, 1, rfl, hw⟩
  refine ⟨v, w, hv, hw, ?_⟩
  have hstart : v.location.startOffset = 2 ∧ v.file = "a.ts" := by
    obtain ⟨_, _, -, rfl⟩ := Violation.exists_of_ofMatch hv
    exact ⟨rfl, rfl⟩
  have hstart' : w.location.startOffset = 0 ∧ w.file = "a.ts" := by
    obtain ⟨_, _, -, rfl⟩ := Violation.exists_of_ofMatch hw
    exact ⟨rfl, rfl⟩
  have hafter : (v.orderByStart w).isLE = false := by
    rw [Violation.orderByStart, hstart.1, hstart'.1, hstart.2, hstart'.2]
    rfl
  rw [(hsorted "a.ts" [v, w] hfound).2]
  simp [List.mergeSort, List.MergeSort.Internal.splitInTwo, hafter]

end RuleScan
