import RuleScan.Regex.Matcher
import RuleScan.Evaluation.Match

/-! What textual clauses derive from a regular expression: its flags, its group names and the nodes
that stand for matched text. -/

namespace RuleScan.Textual

/-- Drops the characters already seen. -/
def distinct : List Char → List Char → List Char
  | [], acc => acc.reverse
  | c :: rest, acc => if acc.contains c then distinct rest acc else distinct rest (c :: acc)

/-- The flags of a textual clause: the given ones without `y`, and always `d` and `g`; each once, in order. -/
def flags (given : Option String) : String :=
  let kept := ((given.getD "").toList.filter fun c => c != 'g' && c != 'd' && c != 'y') ++ ['g', 'd']
  String.ofList ((distinct kept []).mergeSort fun a b => Text.le a.toString b.toString)

def isNameStart (c : Char) : Bool := ('a' ≤ c && c ≤ 'z') || ('A' ≤ c && c ≤ 'Z') || c = '_' || c = '$'

def isNamePart (c : Char) : Bool := isNameStart c || ('0' ≤ c && c ≤ '9')

/-- The name and the rest, where a named group opens. -/
def groupName? : List Char → Option (List Char × List Char)
  | '(' :: '?' :: '<' :: c :: rest =>
    if isNameStart c then
      match rest.dropWhile isNamePart with
      | '>' :: after => some (c :: rest.takeWhile isNamePart, after)
      | _ => none
    else none
  | _ => none

/-- The names written as `(?<name>`, from left to right; `fuel` bounds the length. -/
def groupNamesFrom : Nat → List Char → List String
  | 0, _ => []
  | _ + 1, [] => []
  | fuel + 1, c :: rest =>
    match groupName? (c :: rest) with
    | some (name, after) => String.ofList name :: groupNamesFrom fuel after
    | none => groupNamesFrom fuel rest

/-- The names of the named groups of a regular expression. -/
def groupNames (regex : String) : List String :=
  let cs := regex.toList
  groupNamesFrom cs.length cs

def nodeKind : String := "#text"

/-- The node that stands for a stretch of the source. -/
def node (source : Units) (lines : LineIndex) (start stop : Nat) : Node :=
  let span := lines.span start stop
  { kind := nodeKind, named := true, field := none, span, children := []
    text := some (source.slice span.start span.stop), hasError := false }

/-- Binds names to nodes in turn, onto the bindings and the base of a record. A node that is bound to the name of the base
becomes the base, and from then on the names of its members cannot be bound. -/
def bindEach (base : Option Node) : Bindings → Bindings → Except ReadOnly (Bindings × Option Node)
  | bound, [] => .ok (bound, base)
  | bound, (name, node) :: rest =>
    if name = Bindings.baseName then bindEach (some node) bound rest
    else if base.any fun n => ((Bindings.members n).map (·.1)).contains name then .error ⟨name⟩
    else bindEach base (bound ++ [(name, node)]) rest

/-- The groups that took part in a match, with the nodes that stand for what they hold. -/
def groups (source : Units) (lines : LineIndex) (found : Regex.Found) : Bindings :=
  found.named.map fun (name, start, stop) => (name, node source lines start stop)

/-- The bindings of a match, and what their record has as its base. -/
def bindings (source : Units) (lines : LineIndex) (found : Regex.Found) :
    Except ReadOnly (Bindings × Option Node) := bindEach none [] (groups source lines found)

end RuleScan.Textual
