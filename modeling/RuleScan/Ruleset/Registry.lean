import RuleScan.Disk.Path
import RuleScan.Report.Fault
import RuleScan.Text.Blank
import RuleScan.Value.Basic
import RuleScan.Value.Parser
import RuleScan.Value.Printer

/-! Where rulesets come from: files, directories of files, documents at hand, and the named rulesets that
a registry is asked for. -/

namespace RuleScan

inductive RulesetSource where
  | file (path : String)
  | directory (path : String)
  | inline (name : String) (document : Option Value)
  | registry (name : String)

namespace RulesetSource

def extensions : List String := [".json", ".yml", ".yaml"]

/-- Whether a file name has the extension of a ruleset file, in any case. -/
def isRulesetFile (name : String) : Bool := extensions.contains (Path.extension name).toLower

def registryMark : String := "registry:"

/-- Reads a source as written on the command line: `registry:` names a ruleset of the registry; all
else is a path, of a directory if it ends in a slash or does not name a ruleset file. -/
def ofText (text : String) : RulesetSource :=
  let trimmed := Text.trim text
  if trimmed.startsWith registryMark then .registry (String.ofList (trimmed.toList.drop registryMark.length))
  else if trimmed.endsWith "/" || trimmed.endsWith "\\" || !isRulesetFile trimmed then .directory trimmed
  else .file trimmed

/-- The source as shown to a reader. -/
def display : RulesetSource → String
  | .file path => path
  | .directory path => path
  | .inline name _ => "inline:" ++ name
  | .registry name => registryMark ++ name

end RulesetSource

inductive Reply where
  | failed (message : String)
  | answered (status : Number) (statusText body : String)

/-- The network: the reply to each address. -/
abbrev Network := String → Reply

structure Request where
  url : String
  headers : Members

structure Registry where
  url : String
  /-- Headers sent with every request, over the usual ones. -/
  headers : Members := []
  /-- How long an answer is waited for, in milliseconds. -/
  timeoutMs : Nat := 10000

inductive FetchError where
  | unreachable (name url reason : String)
  | refused (name url : String) (status : Number) (statusText : String)
  | notJson (name : String)

namespace FetchError

def code : FetchError → String
  | .unreachable .. => "registry-unreachable"
  | .refused _ _ status _ => if status = 404 then "ruleset-not-found" else "registry-error"
  | .notJson _ => "parse-failed"

def message : FetchError → String
  | .unreachable _ url reason => "Error querying " ++ url ++ ": " ++ reason
  | .refused _ url status statusText =>
    "Registry responded " ++ status.render ++ " " ++ statusText ++ " for " ++ url
  | .notJson name => "Registry returned invalid JSON for " ++ name ++ ": invalid JSON"

def ruleset : FetchError → String
  | .unreachable name .. | .refused name .. | .notJson name => name

def fault (e : FetchError) : Fault :=
  { name := "RuleLoadError", message := e.message, code := some e.code
    context := [("source", RulesetSource.registryMark ++ e.ruleset)] }

end FetchError

namespace Registry

/-- Characters that stay as they are in a part of an address. -/
def isUnreserved (c : Char) : Bool := c.isAlphanum || "-_.!~*'()".toList.contains c

def percentByte (b : UInt8) : List Char :=
  let digit (n : Nat) : Char := (Nat.digitChar n).toUpper
  ['%', digit (b.toNat / 16), digit (b.toNat % 16)]

/-- A text as a part of an address: all but unreserved characters by their bytes. -/
def percentEncode (s : String) : String :=
  String.ofList (s.toList.flatMap fun c =>
    if isUnreserved c then [c] else (String.singleton c).toUTF8.toList.flatMap percentByte)

def rulesetUrl (r : Registry) (name : String) : String :=
  let base := String.ofList (r.url.toList.reverse.dropWhile (· = '/')).reverse
  base ++ "/rulesets/" ++ percentEncode name

def request (r : Registry) (name : String) : Request :=
  { url := r.rulesetUrl name
    headers := r.headers.foldl (fun m p => m.set p.1 p.2) [("Accept", .str "application/json")] }

def fetch (r : Registry) (network : Network) (name : String) : Except FetchError Value :=
  let url := r.rulesetUrl name
  match network url with
  | .failed reason => .error (.unreachable name url reason)
  | .answered status statusText body =>
    if !(Number.le 200 status && Number.lt status 300) then .error (.refused name url status statusText)
    else
      match Value.parse? body with
      | none => .error (.notJson name)
      | some document => .ok document

end Registry

end RuleScan
