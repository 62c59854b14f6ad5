import RuleScan.Proofs.Source.Positions

/-! Lines and columns as names of offsets. A line starts at the start of the text and after each line feed. A
line and a column, both counted from one, name one offset at most. Main statement: the position that the line
index gives for an offset of the text names that offset. -/
namespace RuleScan

namespace Units

def lineStarts (t : Units) : List Nat := 0 :: ((List.range t.size).filter fun i => t[i]? = some 10).map (· + 1)

/-- The offset that a line and a column name, if the column lies on the line: it is not behind the text and comes
before the next line. -/
def offsetAt? (t : Units) (line column : Nat) : Option Nat :=
  if line = 0 ∨ column = 0 then none
  else
    (t.lineStarts[line - 1]?.map (· + (column - 1))).filter fun offset =>
      offset ≤ t.size && t.lineStarts[line]?.all (offset < ·)

example : (ofString "ab\n\nc").lineStarts = [0, 3, 4] := by decide

example : (ofString "ab\n\nc").offsetAt? 1 3 = some 2 ∧ (ofString "ab\n\nc").offsetAt? 1 4 = none ∧
    (ofString "ab\n\nc").offsetAt? 3 2 = some 5 := by decide

end Units

namespace LineIndex

theorem startsFrom_eq (i : Nat) (us : List UInt16) :
    startsFrom i us = ((List.range us.length).filter fun k => us[k]? = some 10).map (i + · + 1) := by
  induction us generalizing i with
  | nil => rfl
  | cons u rest ih =>
    have hrest : startsFrom (i + 1) rest =
        (((List.range rest.length).map Nat.succ).filter fun k => (u :: rest)[k]? = some 10).map (i + · + 1) := by
      rw [ih, List.filter_map, List.map_map]
      refine List.map_congr_left fun k _ => ?_
      simp only [Function.comp_apply]
      omega
    rw [startsFrom, List.length_cons, List.range_succ_eq_map, List.filter_cons, hrest]
    by_cases hu : u = 10
    · simp [hu]
    · simp [hu]

theorem starts_ofText (t : Units) : 0 :: (ofText t).starts.toList = t.lineStarts := by
  rw [ofText, startsFrom_eq, Units.lineStarts, Array.length_toList]
  simp only [Array.getElem?_toList, Nat.zero_add]

theorem getElem?_lineStarts {t : Units} {row : Nat} (h : row ≤ (ofText t).starts.size) :
    t.lineStarts[row]? = some ((ofText t).startOf row) := by
  rw [← starts_ofText]
  cases row with
  | zero => rfl
  | succ row =>
    rw [List.getElem?_cons_succ, Array.getElem?_toList, startOf, Array.getElem?_eq_getElem h, Option.getD_some]

theorem ascending_ofText (t : Units) : (ofText t).Ascending := by
  have hsorted : t.lineStarts.Pairwise (· < ·) := by
    refine List.pairwise_cons.mpr ⟨fun start hstart => ?_, ?_⟩
    · obtain ⟨feed, -, rfl⟩ := List.mem_map.mp hstart
      exact Nat.succ_pos feed
    · exact (List.pairwise_lt_range.filter _).map _ fun _ _ hlt => Nat.succ_lt_succ hlt
  intro row next hlt hnext
  obtain ⟨hrow, hstart⟩ := List.getElem?_eq_some_iff.mp (getElem?_lineStarts (Nat.le_trans (Nat.le_of_lt hlt) hnext))
  obtain ⟨hsize, hstart'⟩ := List.getElem?_eq_some_iff.mp (getElem?_lineStarts hnext)
  rw [← hstart, ← hstart']
  exact List.pairwise_iff_getElem.mp hsorted row next hrow hsize hlt

theorem offsetAt?_position {t : Units} {offset : Nat} (h : offset ≤ t.size) :
    t.offsetAt? (((ofText t).position offset).row + 1) (((ofText t).position offset).column + 1) = some offset := by
  have hstart := getElem?_lineStarts (row_position_le (ofText t) offset)
  have hback := startOf_row_add_column (ofText t) offset
  have hall : (t.lineStarts[((ofText t).position offset).row + 1]?.all (offset < ·)) = true := by
    rw [Option.all_eq_true]
    intro next hnext
    have hsize : ((ofText t).position offset).row + 1 ≤ (ofText t).starts.size := by
      rw [← starts_ofText] at hnext
      have hlength := (List.getElem?_eq_some_iff.mp hnext).1
      simp only [List.length_cons, Array.length_toList] at hlength
      exact Nat.le_of_lt_succ hlength
    rw [getElem?_lineStarts hsize] at hnext
    cases hnext
    exact decide_eq_true (lt_startOf_of_row_lt (ascending_ofText t) (Nat.lt_succ_self _) hsize)
  simp only [Units.offsetAt?, Nat.add_one_ne_zero, or_self, if_false, Nat.add_sub_cancel, hstart, Option.map_some,
    hback, Option.filter_some, h, decide_true, hall, Bool.and_self, if_true]

end LineIndex

namespace Span

/-- The span lies over the lines and in their text. -/
structure Within (lines : LineIndex) (s : Span) : Prop extends Over lines s where
  ordered : s.start ≤ s.stop
  bounded : s.stop ≤ lines.size

theorem within_span (lines : LineIndex) (start stop : Int) : (lines.span start stop).Within lines where
  toOver := over_span lines start stop
  ordered := Nat.le_max_left _ _
  bounded := Nat.max_le.mpr ⟨Nat.min_le_right _ _, Nat.min_le_right _ _⟩

end Span

end RuleScan
