import RuleScan.Source.Span

/-! Offsets and positions of a text determine each other: the row names a line start, and the column is
the distance from it. -/
namespace RuleScan

attribute [ext] Position

namespace LineIndex

/-- Each line starts after the ones before it. -/
def Ascending (lines : LineIndex) : Prop :=
  ∀ row next, row < next → next ≤ lines.starts.size → lines.startOf row < lines.startOf next

variable {lines : LineIndex} {offset low high : Nat}

theorem lineAt_le (h : low ≤ high) : lines.lineAt offset low high ≤ high := by
  fun_induction lineAt lines offset low high with
  | case1 low high hlow middle hmiddle ih => exact ih (by omega)
  | case2 low high hlow middle hmiddle ih => exact Nat.le_trans (ih (by omega)) (by omega)
  | case3 low high hlow => exact h

/-- The line that is found starts at the offset or before it; the search never leaves such lines. -/
theorem startOf_lineAt_le (h : lines.startOf low ≤ offset) : lines.startOf (lines.lineAt offset low high) ≤ offset := by
  fun_induction lineAt lines offset low high with
  | case1 low high hlow middle hmiddle ih => exact ih hmiddle
  | case2 low high hlow middle hmiddle ih => exact ih h
  | case3 low high hlow => exact h

/-- The lines after the one that is found start after the offset, as those beyond `high` do. -/
theorem lt_startOf_of_lineAt_lt (hlines : lines.Ascending)
    (h : ∀ row, high < row → row ≤ lines.starts.size → offset < lines.startOf row) :
    ∀ row, lines.lineAt offset low high < row → row ≤ lines.starts.size → offset < lines.startOf row := by
  fun_induction lineAt lines offset low high with
  | case1 low high hlow middle hmiddle ih => exact ih h
  | case2 low high hlow middle hmiddle ih =>
    refine ih fun row hrow hsize => ?_
    have hstart : offset < lines.startOf middle := Nat.lt_of_not_le hmiddle
    rcases Nat.lt_or_eq_of_le (Nat.le_of_pred_lt hrow) with hlater | rfl
    · exact Nat.lt_trans hstart (hlines middle row hlater hsize)
    · exact hstart
  | case3 low high hlow => exact fun row hrow hsize => h row (by omega) hsize

variable (lines offset) in
theorem row_position_le : (lines.position offset).row ≤ lines.starts.size := lineAt_le (Nat.zero_le _)

variable (lines offset) in
theorem startOf_row_le : lines.startOf (lines.position offset).row ≤ offset := startOf_lineAt_le offset.zero_le

theorem lt_startOf_of_row_lt (hlines : lines.Ascending) {row : Nat} (hrow : (lines.position offset).row < row)
    (hsize : row ≤ lines.starts.size) : offset < lines.startOf row :=
  lt_startOf_of_lineAt_lt hlines (fun _ hlarge hsmall => absurd hsmall (Nat.not_le_of_lt hlarge)) row hrow hsize

variable (lines offset) in
theorem startOf_row_add_column :
    lines.startOf (lines.position offset).row + (lines.position offset).column = offset :=
  Nat.add_sub_cancel' (startOf_row_le lines offset)

theorem position_injective (lines : LineIndex) {a b : Nat} (h : lines.position a = lines.position b) : a = b := by
  rw [← startOf_row_add_column lines a, ← startOf_row_add_column lines b, h]

end LineIndex

namespace Span

/-- The span lies over the lines: its positions are those of its offsets. -/
structure Over (lines : LineIndex) (s : Span) : Prop where
  start : s.startPosition = lines.position s.start
  stop : s.stopPosition = lines.position s.stop

theorem over_span (lines : LineIndex) (start stop : Int) : (lines.span start stop).Over lines := ⟨rfl, rfl⟩

variable {lines : LineIndex} {s t : Span}

/-- Over the same lines, positions and offsets agree on what is the same. -/
theorem Over.positions_eq_iff (hs : s.Over lines) (ht : t.Over lines) :
    s.startPosition = t.startPosition ∧ s.stopPosition = t.stopPosition ↔ s.start = t.start ∧ s.stop = t.stop := by
  rw [hs.start, hs.stop, ht.start, ht.stop]
  constructor
  · rintro ⟨hstart, hstop⟩
    exact ⟨lines.position_injective hstart, lines.position_injective hstop⟩
  · rintro ⟨hstart, hstop⟩
    exact ⟨congrArg _ hstart, congrArg _ hstop⟩

end Span

end RuleScan
