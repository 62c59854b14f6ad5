/-! The distance between two words in edits, and the words near to a given one. -/

namespace RuleScan.Text

/-- The next row of the table of distances between the beginnings of two words. The row of length `i` is
made from the one before it and the one before that, the last two characters of the first word, and the
second word. -/
def distanceRow (b : Array Char) (i : Nat) (before : Option Char) (c : Char) (above2 above : Array Nat) :
    Array Nat :=
  (List.range b.size).foldl (fun row k =>
    let cost := if b[k]? = some c then 0 else 1
    let edit := min (min (above.getD (k + 1) 0 + 1) (row.getD k 0 + 1)) (above.getD k 0 + cost)
    let swapped := before.isSome && 0 < k && b[k - 1]? = some c && b[k]? = before
    row.push (if swapped then min edit (above2.getD (k - 1) 0 + 1) else edit)) #[i]

def distanceRows (b : Array Char) : Nat → Option Char → List Char → Array Nat → Array Nat → Array Nat
  | _, _, [], _, above => above
  | i, before, c :: rest, above2, above =>
    distanceRows b (i + 1) (some c) rest above (distanceRow b i before c above2 above)

/-- The fewest insertions, deletions, replacements and swaps of neighbours that turn one word into
another, where no part is edited twice. -/
def editDistance (a b : String) : Nat :=
  let first := ((List.range (b.length + 1))).toArray
  (distanceRows b.toList.toArray 1 none a.toList #[] first).getD b.length 0

/-- The greatest distance at which a word counts as near. -/
def nearDistance : Nat := 3

/-- The candidates nearest to a word: at the least distance of those that share more than two fifths of
it. -/
def nearest (word : String) (candidates : List String) : List String :=
  let near := candidates.eraseDups.filterMap fun c =>
    let length := max word.length c.length
    let distance := editDistance word c
    if 1 < c.length && distance ≤ nearDistance && 2 * length < 5 * (length - distance) then some (distance, c)
    else none
  let least := near.foldl (fun n p => min n p.1) nearDistance
  (near.filter (·.1 = least)).map (·.2)

end RuleScan.Text
