import RuleScan.Text.EditDistance
import RuleScan.Text.Units

/-! Options and operands on a command line. -/

namespace RuleScan

inductive OptionArity where
  | flag
  | one
  /-- One value, and further ones up to the next option. -/
  | many
  deriving DecidableEq

structure CommandOption where
  short : Option Char := none
  long : String
  arity : OptionArity := .flag
  /-- The word for its value. -/
  placeholder : String := ""
  /-- Why a value is refused, if it is. -/
  refusal : String → Option String := fun _ => none

namespace CommandOption

/-- The option as messages name it. -/
def flags (o : CommandOption) : String :=
  (o.short.elim "" fun c => "-" ++ String.singleton c ++ ", ") ++ "--" ++ o.long ++
    match o.arity with
    | .flag => ""
    | .one => " <" ++ o.placeholder ++ ">"
    | .many => " <" ++ o.placeholder ++ "...>"

def isNamed (arg : String) (o : CommandOption) : Bool :=
  arg = "--" ++ o.long || o.short.any fun c => arg = "-" ++ String.singleton c

def oneOf (words : List String) (value : String) : Option String :=
  if words.contains value then none else some ("Allowed choices are " ++ ", ".intercalate words ++ ".")

end CommandOption

inductive UsageError where
  | missingArgument (flags : String)
  | invalidArgument (flags value why : String)
  | unknownOption (flag : String) (options : List String)
  | unknownCommand (name : String) (commands : List String)
  deriving DecidableEq

namespace UsageError

/-- A hint at the words near to one that is not known. -/
def hint : List String → String
  | [] => ""
  | [word] => "\n(Did you mean " ++ word ++ "?)"
  | words => "\n(Did you mean one of " ++ ", ".intercalate words ++ "?)"

def message : UsageError → String
  | .missingArgument flags => "error: option '" ++ flags ++ "' argument missing"
  | .invalidArgument flags value why =>
    "error: option '" ++ flags ++ "' argument '" ++ value ++ "' is invalid. " ++ why
  | .unknownOption flag options =>
    let near :=
      if flag.startsWith "--" then
        (Text.sort (Text.nearest (flag.drop 2).toString options)).map fun o => "--" ++ o
      else []
    "error: unknown option '" ++ flag ++ "'" ++ hint near
  | .unknownCommand name commands =>
    "error: unknown command '" ++ name ++ "'" ++ hint (Text.sort (Text.nearest name commands))

end UsageError

/-- What is read from a command line so far. -/
structure Arguments where
  operands : List String := []
  /-- The first option that is not known, and all arguments after it. -/
  unknown : List String := []
  /-- The options met with their values, in order. -/
  found : List (String × String) := []

namespace Arguments

def looksLikeOption (arg : String) : Bool := 1 < arg.length && arg.startsWith "-"

def push (a : Arguments) (arg : String) : Arguments :=
  if looksLikeOption arg || !a.unknown.isEmpty then { a with unknown := a.unknown ++ [arg] }
  else { a with operands := a.operands ++ [arg] }

/-- Takes the arguments behind `--`, none of which is an option. -/
def pushAll (a : Arguments) (args : List String) : Arguments :=
  if a.unknown.isEmpty then { a with operands := a.operands ++ args }
  else { a with unknown := a.unknown ++ "--" :: args }

def take (a : Arguments) (o : CommandOption) (value : String) : Except UsageError Arguments :=
  match o.refusal value with
  | some why => .error (.invalidArgument o.flags value why)
  | none => .ok { a with found := a.found ++ [(o.long, value)] }

/-- An option with its value in one argument: `-xvalue` or `--name=value`. -/
def attached? (options : List CommandOption) (arg : String) : Option (CommandOption × String) :=
  let cs := arg.toList
  match cs with
  | '-' :: '-' :: _ =>
    if !cs.contains '=' then none
    else
      let name := String.ofList (cs.takeWhile (· ≠ '='))
      let value := String.ofList ((cs.dropWhile (· ≠ '=')).drop 1)
      (options.find? fun o => name ≠ "--" && o.isNamed name && o.arity ≠ .flag).map (·, value)
  | '-' :: c :: value =>
    if value.isEmpty then none
    else (options.find? fun o => o.isNamed ("-" ++ String.singleton c)).map (·, String.ofList value)
  | _ => none

/-- Reads arguments in order. `many` is the option that takes all values up to the next option, and
`fuel` bounds the length of the command line. -/
def readAll (options : List CommandOption) : Nat → Option CommandOption → Arguments → List String →
    Except UsageError Arguments
  | 0, _, a, _ => .ok a
  | _, _, a, [] => .ok a
  | fuel + 1, many, a, arg :: rest =>
    if arg = "--" then .ok (a.pushAll rest)
    else
      match many.filter fun _ => !looksLikeOption arg with
      | some o => do readAll options fuel many (← a.take o arg) rest
      | none =>
        match options.find? fun o => looksLikeOption arg && o.isNamed arg with
        | some o =>
          match o.arity, rest with
          | .flag, _ => do readAll options fuel none (← a.take o "") rest
          | _, [] => .error (.missingArgument o.flags)
          | .one, value :: rest => do readAll options fuel none (← a.take o value) rest
          | .many, value :: rest => do readAll options fuel (some o) (← a.take o value) rest
        | none =>
          match attached? options arg with
          | some (o, value) =>
            if o.arity = .flag then do readAll options fuel none (← a.take o "") (("-" ++ value) :: rest)
            else do readAll options fuel none (← a.take o value) rest
          | none => readAll options fuel none (a.push arg) rest

def read (options : List CommandOption) (args : List String) : Except UsageError Arguments :=
  readAll options (args.foldl (fun n s => n + s.length + 1) 1) none {} args

/-- All values of an option; none if it is not given. -/
def values? (a : Arguments) (long : String) : Option (List String) :=
  match a.found.filter (·.1 = long) with
  | [] => none
  | given => some (given.map (·.2))

/-- The value of an option; the last one counts. -/
def value? (a : Arguments) (long : String) : Option String := (a.values? long).bind List.getLast?

def has (a : Arguments) (long : String) : Bool := (a.values? long).isSome

end Arguments

end RuleScan
