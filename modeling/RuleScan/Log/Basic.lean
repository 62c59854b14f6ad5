/-! Log lines and the levels that let them through. -/

namespace RuleScan

/-- The lowest level that is written. -/
inductive LogLevel where
  | debug
  | info
  | warn
  | error
  | silent
  deriving DecidableEq, Inhabited

namespace LogLevel

/-- Every level, in the order in which messages list them. -/
def all : List LogLevel := [.debug, .info, .warn, .error, .silent]

def word : LogLevel → String
  | .debug => "debug"
  | .info => "info"
  | .warn => "warn"
  | .error => "error"
  | .silent => "silent"

def ofWord? (s : String) : Option LogLevel := all.find? (·.word == s)

/-- The rank that is compared with that of a line. -/
def rank : LogLevel → Nat
  | .debug => 10
  | .info => 20
  | .warn => 30
  | .error => 40
  | .silent => 100

/-- Whether lines of a level are written when `threshold` is the lowest. -/
def passes (threshold level : LogLevel) : Bool := threshold.rank ≤ level.rank

theorem ofWord?_word (l : LogLevel) : ofWord? l.word = some l := by cases l <;> decide

end LogLevel

structure LogLine where
  level : LogLevel
  text : String
  deriving DecidableEq

namespace LogLine

def debug (text : String) : LogLine := ⟨.debug, text⟩

def info (text : String) : LogLine := ⟨.info, text⟩

def warn (text : String) : LogLine := ⟨.warn, text⟩

def error (text : String) : LogLine := ⟨.error, text⟩

/-- The text as written: after the prefix, and marked if it is for debugging. -/
def render (lead : String) (line : LogLine) : String :=
  lead ++ (if line.level = .debug then " DEBUG: " else " ") ++ line.text

/-- What is put before every line unless told otherwise. -/
def defaultLead : String := "[codeprobe]"

def passing (threshold : LogLevel) (lines : List LogLine) : List LogLine :=
  lines.filter (threshold.passes ·.level)

end LogLine

end RuleScan
