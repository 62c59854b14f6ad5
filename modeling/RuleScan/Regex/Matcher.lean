import RuleScan.Regex.Parser
import RuleScan.Text.Blank
import RuleScan.Text.CaseMapping

/-! Matching regular expressions by backtracking. Each expression is a function of the state it starts
in and of what has to match after it; the first way through is the match. -/

namespace RuleScan.Regex

/-- A position in the text and what the groups hold. -/
structure State where
  pos : Nat
  groups : Array (Option (Nat × Nat))
  deriving Inhabited

structure Subject where
  text : Units
  flags : Flags
  names : List (String × Nat)

namespace Subject

def isTerminator (n : Nat) : Bool := n == 10 || n == 13 || n == 0x2028 || n == 0x2029

/-- The code unit at an offset. -/
def unit? (s : Subject) (i : Nat) : Option Nat := s.text[i]?.map (·.toNat)

/-- The character after a position, and the position after it. -/
def after? (s : Subject) (i : Nat) : Option (Nat × Nat) :=
  match s.unit? i with
  | none => none
  | some u =>
    if s.flags.codePoints && isHighCode u then
      match s.unit? (i + 1) with
      | some v => if isLowCode v then some (joinCodes u v, i + 2) else some (u, i + 1)
      | none => some (u, i + 1)
    else some (u, i + 1)

/-- The character before a position, and the position before it. -/
def before? (s : Subject) (i : Nat) : Option (Nat × Nat) :=
  match i with
  | 0 => none
  | j + 1 =>
    match s.unit? j with
    | none => none
    | some v =>
      if s.flags.codePoints && isLowCode v then
        match j with
        | 0 => some (v, j)
        | k + 1 =>
          match s.unit? k with
          | some u => if isHighCode u then some (joinCodes u v, k) else some (v, j)
          | none => some (v, j)
      else some (v, j)

def canonical (s : Subject) (c : Nat) : Nat := s.flags.canonical c

/-- The characters that count as equal to `c`. -/
def variants (s : Subject) (c : Nat) : List Nat :=
  if !s.flags.ignoreCase then [c]
  else c :: Text.caseVariants (if s.flags.codePoints then Text.foldRuns else Text.upperRuns) c

/-- Letters, digits and the low line; folding adds the long s and the Kelvin sign in Unicode mode. -/
def isWord (s : Subject) (c : Nat) : Bool :=
  (48 ≤ c && c ≤ 57) || (65 ≤ c && c ≤ 90) || c == 95 || (97 ≤ c && c ≤ 122) ||
    (s.flags.ignoreCase && s.flags.codePoints && (c == 0x17F || c == 0x212A))

def itemHolds (s : Subject) (c : Nat) : ClassItem → Bool
  | .range lo hi => lo ≤ c && c ≤ hi
  | .digit negated => (48 ≤ c && c ≤ 57) != negated
  | .word negated => s.isWord c != negated
  | .blank negated => Text.isBlankCode c != negated
  | .within negated ranges => Text.inRanges ranges c != negated

/-- Whether a class holds a character or one that counts as equal to it. -/
def classHolds (s : Subject) (items : List ClassItem) (c : Nat) : Bool :=
  (s.variants c).any fun v => items.any (s.itemHolds v)

/-- Whether an item of a class in set notation holds a character. Characters that count as equal are one before a
complement is taken. -/
def operandHolds (s : Subject) (c : Nat) : ClassItem → Bool
  | .range lo hi => s.classHolds [.range lo hi] c
  | .digit negated => s.classHolds [.digit false] c != negated
  | .word negated => s.classHolds [.word false] c != negated
  | .blank negated => s.classHolds [.blank false] c != negated
  | .within negated ranges => s.classHolds [.within false ranges] c != negated

/-- Whether a class in set notation holds a character. -/
def setHolds (s : Subject) (c : Nat) : ClassSet → Bool
  | .item i => s.operandHolds c i
  | .strings alternatives => alternatives.any fun w => w.map s.canonical == [s.canonical c]
  | .union first second => s.setHolds c first || s.setHolds c second
  | .inter first second => s.setHolds c first && s.setHolds c second
  | .diff first second => s.setHolds c first && !s.setHolds c second
  | .compl body => !s.setHolds c body

/-- Whether the two sides of a position differ in being word characters. -/
def atWordEdge (s : Subject) (i : Nat) : Bool :=
  let left := i != 0 && (s.unit? (i - 1)).any s.isWord
  let right := (s.unit? i).any s.isWord
  left != right

def atLineStart (s : Subject) (i : Nat) : Bool :=
  i == 0 || (s.flags.multiline && (s.unit? (i - 1)).any isTerminator)

def atLineEnd (s : Subject) (i : Nat) : Bool :=
  i == s.text.size || (s.flags.multiline && (s.unit? i).any isTerminator)

/-- Whether two stretches of the text of equal length agree, unit by unit. -/
def sameStretch (s : Subject) (a b : Nat) : Nat → Bool
  | 0 => true
  | n + 1 =>
    match s.unit? a, s.unit? b with
    | some u, some v => s.canonical u == s.canonical v && sameStretch s (a + 1) (b + 1) n
    | _, _ => false

end Subject

/-- What has to match after an expression. -/
abbrev Next := State → Option State

/-- Takes one character that satisfies a test, in the direction of reading. -/
def takeOne (s : Subject) (backward : Bool) (test : Nat → Bool) (st : State) (next : Next) : Option State :=
  match if backward then s.before? st.pos else s.after? st.pos with
  | some (c, i) => if test c then next { st with pos := i } else none
  | none => none

/-- Takes the text that a group holds; a group that holds nothing takes nothing. -/
def takeGroup (s : Subject) (backward : Bool) (index : Nat) (st : State) (next : Next) : Option State :=
  match st.groups.getD index none with
  | none => next st
  | some (a, b) =>
    let n := b - a
    if backward then
      if n ≤ st.pos && s.sameStretch a (st.pos - n) n then next { st with pos := st.pos - n } else none
    else if st.pos + n ≤ s.text.size && s.sameStretch a st.pos n then next { st with pos := st.pos + n }
    else none

/-- Forgets the groups after `low` up to `high`. -/
def forget (low high : Nat) (st : State) : State :=
  { st with groups := (List.range' (low + 1) (high - low)).foldl (fun g i => g.setIfInBounds i none) st.groups }

/-- Repeats a body. A turn beyond the least number must move; the second choice is tried only when the
first fails. `fuel` bounds the number of turns. -/
def repeatBody (body : State → Next → Option State) (greedy : Bool) (low high : Nat) :
    Nat → Nat → Option Nat → State → Next → Option State
  | 0, _, _, _, _ => none
  | fuel + 1, min, max, st, next =>
    if max = some 0 then next st
    else
      let turn (_ : Unit) := body (forget low high st) fun y =>
        if min = 0 && y.pos = st.pos then none
        else repeatBody body greedy low high fuel (min - 1) (max.map (· - 1)) y next
      if min != 0 then turn ()
      else if greedy then (turn ()).orElse fun _ => next st
      else (next st).orElse turn

/-- Matches an expression from a state, followed by `next`. -/
def run (s : Subject) : Regex → Bool → State → Next → Option State
  | .empty, _, st, next => next st
  | .char c, backward, st, next =>
    takeOne s backward (fun d => s.canonical c == s.canonical d) st next
  | .any, backward, st, next =>
    takeOne s backward (fun d => s.flags.dotAll || !Subject.isTerminator d) st next
  | .set negated items, backward, st, next =>
    takeOne s backward (fun d => s.classHolds items d != negated) st next
  | .member body, backward, st, next => takeOne s backward (s.setHolds · body) st next
  | .seq a b, backward, st, next =>
    if backward then run s b true st fun y => run s a true y next
    else run s a false st fun y => run s b false y next
  | .alt a b, backward, st, next =>
    (run s a backward st next).orElse fun _ => run s b backward st next
  | .group index body, backward, st, next =>
    run s body backward st fun y =>
      let range := if backward then (y.pos, st.pos) else (st.pos, y.pos)
      next { y with groups := y.groups.setIfInBounds index (some range) }
  | .backref index, backward, st, next => takeGroup s backward index st next
  | .namedRef name, backward, st, next =>
    match s.names.find? (·.1 == name) with
    | some (_, index) => takeGroup s backward index st next
    | none => next st
  | .lineStart, _, st, next => if s.atLineStart st.pos then next st else none
  | .lineEnd, _, st, next => if s.atLineEnd st.pos then next st else none
  | .wordEdge negated, _, st, next => if s.atWordEdge st.pos != negated then next st else none
  | .look behind negated body, _, st, next =>
    match run s body behind st some with
    | some y => if negated then none else next { y with pos := st.pos }
    | none => if negated then next st else none
  | .repeated min max greedy low high body, backward, st, next =>
    repeatBody (run s body backward) greedy low high (min + s.text.size + 2) min max st next

end Regex

/-- One match of an expression in a text. -/
structure Regex.Found where
  start : Nat
  stop : Nat
  /-- What the named groups hold, in order of their index; a group that took no part is left out. -/
  named : List (String × Nat × Nat)
  deriving DecidableEq

namespace Regex.Program

def subject (p : Regex.Program) (text : Units) : Regex.Subject := ⟨text, p.flags, p.names⟩

def matchAt? (p : Regex.Program) (text : Units) (start : Nat) : Option Regex.Found :=
  let begin : Regex.State := ⟨start, Array.replicate (p.groups + 1) none⟩
  (Regex.run (p.subject text) p.body false begin some).map fun y =>
    { start, stop := y.pos
      named := p.names.filterMap fun (name, i) => (y.groups.getD i none).map fun r => (name, r.1, r.2) }

/-- The position of the next character; a pair of units is passed as one in Unicode mode. -/
def stepOver (p : Regex.Program) (text : Units) (i : Nat) : Nat :=
  match (p.subject text).after? i with
  | some (_, j) => j
  | none => i + 1

/-- The first match that starts at or after a position; `fuel` bounds the number of starts tried. -/
def searchFrom (p : Regex.Program) (text : Units) : Nat → Nat → Option Regex.Found
  | 0, _ => none
  | fuel + 1, i =>
    if text.size < i then none
    else
      match p.matchAt? text i with
      | some m => some m
      | none => searchFrom p text fuel (p.stepOver text i)

def search? (p : Regex.Program) (text : Units) (start : Nat) : Option Regex.Found :=
  p.searchFrom text (text.size + 1 - start) start

/-- Whether the expression matches anywhere in the text. -/
def test (p : Regex.Program) (text : Units) : Bool := (p.search? text 0).isSome

/-- The matches from a position on, each starting where the one before it stopped, or one character
further after an empty match. -/
def allFrom (p : Regex.Program) (text : Units) : Nat → Nat → List Regex.Found
  | 0, _ => []
  | fuel + 1, i =>
    match p.search? text i with
    | none => []
    | some m => m :: allFrom p text fuel (if m.stop = m.start then p.stepOver text m.stop else m.stop)

/-- All matches in a text, from left to right. -/
def all (p : Regex.Program) (text : Units) : List Regex.Found := p.allFrom text (text.size + 2) 0

end Regex.Program

end RuleScan
