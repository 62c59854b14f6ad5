import RuleScan.Proofs.Source.Lines

/-! What rows and columns count. The row of an offset is the number of line feeds before it, and its column is the
distance from the start of that line. Main statements: this is so of the position that the line index gives for any
offset, and positions are ordered by row and then by column as the offsets are. -/
namespace RuleScan

namespace Position

/-- The position belongs to an offset of a text: as many line feeds come before the offset as the row says, and the
line of that row starts as far before it as the column says. -/
structure Marks (t : Units) (offset : Nat) (p : Position) : Prop where
  row : p.row = (t.toList.take offset).count 10
  column : t.lineStarts[p.row]?.map (· + p.column) = some offset

/-- By row, then by column. -/
def order (p q : Position) : Ordering := (compare p.row q.row).then (compare p.column q.column)

variable {t : Units} {a b : Nat} {p q : Position}

theorem Marks.lt (hp : p.Marks t a) (hq : q.Marks t b) (h : a < b) : order p q = .lt := by
  have hrow : p.row ≤ q.row := by
    rw [hp.row, hq.row]
    exact (List.take_sublist_take_left (Nat.le_of_lt h)).count_le 10
  unfold order
  rcases Nat.lt_or_eq_of_le hrow with hlt | heq
  · rw [Nat.compare_eq_lt.mpr hlt, Ordering.lt_then]
  · -- in one row both columns count from the same start
    obtain ⟨start, hstart, hstop⟩ := Option.map_eq_some_iff.mp hp.column
    obtain ⟨start', hstart', hstop'⟩ := Option.map_eq_some_iff.mp hq.column
    obtain rfl : start = start' := by
      rw [heq, hstart'] at hstart
      exact (Option.some.inj hstart).symm
    rw [Nat.compare_eq_eq.mpr heq, Ordering.eq_then, Nat.compare_eq_lt]
    omega

/-- Positions are ordered as the offsets that they belong to. -/
theorem Marks.order_eq (hp : p.Marks t a) (hq : q.Marks t b) : order p q = compare a b := by
  rcases Nat.lt_trichotomy a b with h | rfl | h
  · rw [hp.lt hq h, Nat.compare_eq_lt.mpr h]
  · have hrow : p.row = q.row := hp.row.trans hq.row.symm
    obtain ⟨start, hstart, hstop⟩ := Option.map_eq_some_iff.mp hp.column
    have hcolumn : p.column = q.column := by
      have hq' := hq.column
      rw [← hrow, hstart, Option.map_some] at hq'
      have := Option.some.inj hq'
      omega
    rw [order, hrow, hcolumn, Nat.compare_eq_eq.mpr rfl, Nat.compare_eq_eq.mpr rfl, Nat.compare_eq_eq.mpr rfl]
    rfl
  · have hswap : order p q = (order q p).swap := by
      rw [order, order, Ordering.swap_then, Nat.compare_swap, Nat.compare_swap]
    rw [hswap, hq.lt hp h, Nat.compare_eq_gt.mpr h]
    rfl

end Position

namespace LineIndex

theorem lt_of_mem_startsFrom {i : Nat} {us : List UInt16} : ∀ start ∈ startsFrom i us, i < start := by
  rw [startsFrom_eq]
  intro start hstart
  obtain ⟨feed, -, rfl⟩ := List.mem_map.mp hstart
  omega

/-- The lines that start up to an offset are as many as the line feeds before it. -/
theorem countP_startsFrom (i : Nat) (us : List UInt16) (offset : Nat) :
    (startsFrom i us).countP (· ≤ i + offset) = (us.take offset).count 10 := by
  induction us generalizing i offset with
  | nil => simp [startsFrom]
  | cons u rest ih =>
    cases offset with
    | zero =>
      refine List.countP_eq_zero.mpr fun start hstart => ?_
      simpa using lt_of_mem_startsFrom start hstart
    | succ offset =>
      have hrest := ih (i + 1) offset
      rw [Nat.add_assoc, Nat.add_comm 1 offset] at hrest
      rw [startsFrom, List.take_succ_cons, List.count_cons, ← hrest]
      by_cases hu : u = 10
      · simp [hu]
      · simp [hu]

theorem row_eq_countP {lines : LineIndex} (hlines : lines.Ascending) (offset : Nat) :
    (lines.position offset).row = lines.starts.toList.countP (· ≤ offset) := by
  have hsize := row_position_le lines offset
  have hstart := startOf_row_le lines offset
  have hstartOf : ∀ i (h : i < lines.starts.size), lines.starts[i] = lines.startOf (i + 1) := by
    intro i h
    rw [startOf, Array.getElem?_eq_getElem h, Option.getD_some]
  generalize hrow : (lines.position offset).row = row at hsize hstart
  have hbefore : ∀ start ∈ lines.starts.toList.take row, start ≤ offset := by
    intro start hmem
    obtain ⟨i, hi, rfl⟩ := List.mem_take_iff_getElem.mp hmem
    simp only [Array.length_toList] at hi
    rw [Array.getElem_toList, hstartOf i (by omega)]
    rcases Nat.lt_or_eq_of_le (show i + 1 ≤ row by omega) with hlt | rfl
    · exact Nat.le_trans (Nat.le_of_lt (hlines (i + 1) row hlt hsize)) hstart
    · exact hstart
  have hafter : ∀ start ∈ lines.starts.toList.drop row, ¬start ≤ offset := by
    intro start hmem
    obtain ⟨i, hi, rfl⟩ := List.mem_drop_iff_getElem.mp hmem
    simp only [Array.length_toList] at hi
    rw [Array.getElem_toList, hstartOf _ (by omega)]
    exact Nat.not_le_of_lt (lt_startOf_of_row_lt hlines (by omega) (by omega))
  have hnone : (lines.starts.toList.drop row).countP (· ≤ offset) = 0 :=
    List.countP_eq_zero.mpr fun start hmem => by simpa using hafter start hmem
  calc row = (lines.starts.toList.take row).length := by simp [hsize]
    _ = (lines.starts.toList.take row).countP (· ≤ offset) := by
      rw [List.countP_eq_length.mpr fun start hmem => decide_eq_true (hbefore start hmem)]
    _ = (lines.starts.toList.take row).countP (· ≤ offset) + (lines.starts.toList.drop row).countP (· ≤ offset) := by
      rw [hnone, Nat.add_zero]
    _ = lines.starts.toList.countP (· ≤ offset) := by rw [← List.countP_append, List.take_append_drop]

theorem marks_position (t : Units) (offset : Nat) : ((ofText t).position offset).Marks t offset where
  row := by
    have hcount := countP_startsFrom 0 t.toList offset
    rw [Nat.zero_add] at hcount
    rw [row_eq_countP (ascending_ofText t), ← hcount, ofText]
  column := by
    rw [getElem?_lineStarts (row_position_le (ofText t) offset), Option.map_some, startOf_row_add_column]

/-- An offset is moved to the nearest one in the text. -/
theorem clamp_ofText (t : Units) (offset : Int) : ((ofText t).clamp offset : Int) = max 0 (min offset t.size) := by
  simp only [clamp, ofText]
  omega

end LineIndex

end RuleScan
