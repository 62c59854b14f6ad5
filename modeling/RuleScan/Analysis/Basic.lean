import RuleScan.Disk.Basic
import RuleScan.Parsing.Basic
import RuleScan.Rule.Violation

/-! What goes into an analysis and what comes out of one file. -/

namespace RuleScan

inductive ErrorKind where
  | read
  | parse
  | evaluation
  | timeout
  deriving DecidableEq, Inhabited

def ErrorKind.word : ErrorKind → String
  | .read => "read"
  | .parse => "parse"
  | .evaluation => "evaluation"
  | .timeout => "timeout"

def ErrorKind.ofWord? (s : String) : Option ErrorKind :=
  [ErrorKind.read, .parse, .evaluation, .timeout].find? (·.word == s)

/-- A file that could not be read or parsed, or a rule that could not be evaluated on it. -/
structure AnalysisError where
  kind : ErrorKind
  file : String
  ruleId : Option String := none
  code : String
  message : String
  deriving DecidableEq

namespace AnalysisError

/-- Report order: file, rule (none first), kind. -/
def order (a b : AnalysisError) : Ordering :=
  (Text.order a.file b.file).then <|
  (Text.order (a.ruleId.getD "") (b.ruleId.getD "")).then <|
  Text.order a.kind.word b.kind.word

def le (a b : AnalysisError) : Bool := (order a b).isLE

def sort (es : List AnalysisError) : List AnalysisError := es.mergeSort le

def ofParseError (e : ParseError) : AnalysisError :=
  { kind := .parse, file := e.path, code := e.failure.code, message := e.failure.message }

/-- A failed read or parse, of which no rule is to blame. -/
def isFileFailure (e : AnalysisError) : Bool := e.kind = .read || e.kind = .parse

end AnalysisError

/-- A file to analyze. Its content is read from the disk unless it is given. -/
structure SourceInput where
  path : String
  absolutePath : Option String := none
  content : Option Content := none
  language : Option Language := none

namespace SourceInput

def decode (content : Content) (path : String) : Except AnalysisError String :=
  match content.decode? with
  | some text => .ok text
  | none => .error (.ofParseError ⟨path, .notUtf8⟩)

/-- The text of a file of at most `limit` bytes. Text that is given stays as it is. -/
def read (input : SourceInput) (limit : Int) (disk : Disk) : Except AnalysisError String :=
  let tooLarge (size : Nat) : AnalysisError := .ofParseError ⟨input.path, .tooLarge size limit⟩
  let refused (e : SystemError) : AnalysisError :=
    { kind := .read, file := input.path, code := "read-failed", message := "Failed to read file: " ++ e.message }
  match input.content with
  | some (.text s) => if limit < s.utf8ByteSize then .error (tooLarge s.utf8ByteSize) else .ok s
  | some (.bytes b) => if limit < b.length then .error (tooLarge b.length) else decode (.bytes b) input.path
  | none =>
    let place := input.absolutePath.getD input.path
    match disk.stat place with
    | .error e => .error (refused e)
    | .ok (.directory _) => .error (refused (.isDirectory "read" none))
    | .ok (.file f) =>
      if limit < f.content.size then .error (tooLarge f.content.size) else decode f.content input.path
    | .ok _ => .error (refused (.noDevice "open" place))

end SourceInput

/-- The limits of one file, the same for every file of a run. -/
structure UnitSettings where
  maxSteps : Int := 2000000
  ruleTimeoutMs : Int := 5000
  maxFileSizeBytes : Int := 1048576
  syntaxErrors : SyntaxPolicy := .tolerate
  /-- The time after which the run is out of budget. -/
  runDeadline : Option Int := none

structure RuleEvaluation where
  ruleId : String
  violations : List Violation := []
  duplicatesCollapsed : Nat := 0
  elapsedMs : Int
  error : Option AnalysisError := none

structure UnitResult where
  path : String
  /-- Whether the file was read and parsed. -/
  analyzed : Bool := false
  errors : List AnalysisError := []
  evaluations : List RuleEvaluation := []
  cancellation : Option CancelReason := none

/-- What happens to a file while it is analyzed; the number is the rule's place in the list. -/
inductive UnitEvent where
  | started (ruleId : String) (index : Nat)
  | ended (ruleId : String)

end RuleScan
