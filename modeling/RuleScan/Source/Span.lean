import RuleScan.Text.Units

/-! Positions and spans of a source text. Offsets and columns count code units; rows, columns and
offsets start at zero. -/

namespace RuleScan

structure Position where
  row : Nat
  column : Nat
  deriving DecidableEq, Inhabited

/-- A stretch of the source from `start` up to `stop`, with the positions of its two ends. -/
structure Span where
  start : Nat
  stop : Nat
  startPosition : Position
  stopPosition : Position
  deriving DecidableEq, Inhabited

namespace Span

/-- Whether `outer` covers `inner`; shared ends count. -/
def contains (outer inner : Span) : Bool := outer.start ≤ inner.start && inner.stop ≤ outer.stop

/-- Whether two spans have the same offsets. -/
def same (a b : Span) : Bool := a.start == b.start && a.stop == b.stop

/-- Pre-order: the earlier start first, the wider span first on a tie. -/
def order (a b : Span) : Ordering := (compare a.start b.start).then (compare b.stop a.stop)

def le (a b : Span) : Bool := (order a b).isLE

end Span

/-- Where the lines of a text start, the first line apart. -/
structure LineIndex where
  size : Nat
  starts : Array Nat

namespace LineIndex

/-- The offsets just past each line feed. -/
def startsFrom : Nat → List UInt16 → List Nat
  | _, [] => []
  | i, u :: rest => if u = 10 then (i + 1) :: startsFrom (i + 1) rest else startsFrom (i + 1) rest

def ofText (t : Units) : LineIndex := ⟨t.size, (startsFrom 0 t.toList).toArray⟩

/-- An offset moved into the text. -/
def clamp (lines : LineIndex) (offset : Int) : Nat := min offset.toNat lines.size

def startOf (lines : LineIndex) : Nat → Nat
  | 0 => 0
  | row + 1 => lines.starts[row]?.getD 0

/-- The last line that starts at an offset or before it, sought from line `low` to line `high` by halving. -/
def lineAt (lines : LineIndex) (offset low high : Nat) : Nat :=
  if low < high then
    let middle := (low + high + 1) / 2
    if lines.startOf middle ≤ offset then lineAt lines offset middle high
    else lineAt lines offset low (middle - 1)
  else low
  termination_by high - low

def position (lines : LineIndex) (offset : Nat) : Position :=
  let row := lines.lineAt offset 0 lines.starts.size
  ⟨row, offset - lines.startOf row⟩

/-- The position of any offset, moved into the text first. -/
def positionAt (lines : LineIndex) (offset : Int) : Position := lines.position (lines.clamp offset)

/-- The span between two offsets, moved into the text; it never ends before it starts. -/
def span (lines : LineIndex) (start stop : Int) : Span :=
  let s := lines.clamp start
  let e := max s (lines.clamp stop)
  ⟨s, e, lines.position s, lines.position e⟩

end LineIndex

end RuleScan
