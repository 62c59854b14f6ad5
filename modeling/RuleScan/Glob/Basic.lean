import RuleScan.Glob.Braces
import RuleScan.Glob.Segment

/-! Patterns for paths. -/

namespace RuleScan

structure Glob where
  /-- The pattern matches what its alternatives do not. -/
  negated : Bool := false
  /-- An alternative of one segment is compared with the last name of a path. -/
  byName : Bool := false
  alternatives : List (List Glob.Segment) := []

namespace Glob

/-- The names of a path; several slashes in a row count as one. -/
def names (path : String) : List String :=
  match (path.toList.splitOn '/').map String.ofList with
  | [] => []
  | first :: rest => first :: (rest.dropLast.filter (· ≠ "") ++ rest.getLast?.toList)

def lastName (names : List String) : String := (names.reverse.find? (· ≠ "")).getD ""

/-- Drops repeated `**` and resolves `..` behind a name. -/
def tidy (parts : List String) : List String :=
  let step (acc : List String) (part : String) : List String :=
    match acc with
    | [] => [part]
    | last :: outer =>
      if part = "**" && last = "**" then acc
      else if part = ".." && !(["", "..", ".", "**"].contains last) then outer
      else part :: acc
  match (parts.foldl step []).reverse with
  | [] => [""]
  | tidied => tidied

/-- Reads a pattern. Each `!` at its start inverts it; a `#` there makes it a comment, which matches
nothing. -/
def ofText (pattern : String) : Glob :=
  let cs := pattern.toList
  if cs.head? = some '#' || cs.isEmpty then {}
  else
    let signs := cs.takeWhile (· = '!')
    let rest := String.ofList (cs.dropWhile (· = '!'))
    { negated := signs.length % 2 = 1, byName := !cs.contains '/'
      alternatives := (Braces.expansions rest).map fun s => (tidy (names s)).map Segment.ofText }

/-- Whether the names pass from one of them on, with none before it that is `.` or `..`. -/
def passFromSome (pass : List String → Bool) : List String → Bool
  | [] => false
  | name :: more => pass (name :: more) || (!Segment.isDots name && passFromSome pass more)

/-- Whether segment patterns match the names of a path. A path may end in one slash more. -/
def matchNames : List Segment → List String → Bool
  | [], [] => true
  | [], [last] => last = ""
  | [], _ => false
  | _ :: _, [] => false
  | .anyDepth :: rest, name :: more =>
    if rest.isEmpty then (name :: more).all (!Segment.isDots ·) else passFromSome (matchNames rest) (name :: more)
  | segment :: rest, name :: more => segment.accepts name && matchNames rest more

def accepts (g : Glob) (path : String) : Bool :=
  let names := names path
  let hit := g.alternatives.any fun segments =>
    matchNames segments (if g.byName && segments.length = 1 then [lastName names] else names)
  hit != g.negated

/-- Whether a pattern matches a path. An empty pattern matches the empty path. -/
def admits (pattern path : String) : Bool := if pattern = "" then path = "" else (ofText pattern).accepts path

def anyAccepts (patterns : List String) (path : String) : Bool := patterns.any (admits · path)

end Glob

end RuleScan
