import RuleScan.Config.Basic
import RuleScan.Disk.Path
import RuleScan.Report.Fault
import RuleScan.Text.LowerCase
import RuleScan.Tree.Basic

/-! Parsers: what turns a source of one language into a tree, and why it may fail. A syntax error
that the parser recovered from fails only where the policy says so. -/

namespace RuleScan

inductive ParseFailure where
  /-- The content holds a NUL at this offset. -/
  | binary (offset : Nat)
  | notUtf8
  | unhandled (path : String)
  | unregistered (language : Language)
  | unavailable (language : Language) (reason : String)
  | crash (language : Language) (reason : String)
  | syntaxError (position : Position) (message : String)
  | tooLarge (size : Nat) (limit : Int)

namespace ParseFailure

def code : ParseFailure → String
  | .binary _ | .notUtf8 => "unsupported-encoding"
  | .unhandled _ | .unregistered _ | .unavailable .. => "parser-unavailable"
  | .crash .. => "parser-crash"
  | .syntaxError .. => "syntax-error"
  | .tooLarge .. => "file-too-large"

def message : ParseFailure → String
  | .binary offset =>
    "Content contains a NUL byte at offset " ++ toString offset ++ "; binary files are not analyzed"
  | .notUtf8 => "Content is not valid UTF-8"
  | .unhandled path => "No parser handles the extension of " ++ path
  | .unregistered language => "No parser registered for language '" ++ language.name ++ "'"
  | .unavailable language reason => "No " ++ language.name ++ " parser available: " ++ reason
  | .crash language reason => language.name ++ " parser failed: " ++ reason
  | .syntaxError position message =>
    "Syntax error at " ++ toString (position.row + 1) ++ ":" ++ toString (position.column + 1) ++ ": " ++ message
  | .tooLarge size limit =>
    "File is " ++ Number.intText size ++ " bytes, above the limit of " ++ Number.intText limit ++ " bytes"

end ParseFailure

structure ParseError where
  path : String
  failure : ParseFailure

def ParseError.fault (e : ParseError) : Fault :=
  { name := "ParseError", message := e.failure.message, code := some e.failure.code
    context := [("filePath", e.path)] }

/-- Whether the parser began to build the tree: a content or a parser refused beforehand has none. -/
def ParseError.afterBuild : Except ParseError Tree → Bool
  | .ok _ => true
  | .error e =>
    match e.failure with
    | .crash .. | .syntaxError .. => true
    | _ => false

/-- The parser of one language. Building may fail with a reason. -/
structure Parser where
  language : Language
  extensions : List String
  /-- Why the parser cannot be used, if it cannot. -/
  unavailable : Option String := none
  build : (source path : String) → Except String Tree

namespace Parser

def usualExtensions : Language → List String
  | .typescript => [".ts", ".tsx", ".mts", ".cts"]
  | .javascript => [".js", ".jsx", ".mjs", ".cjs"]
  | .python => [".py", ".pyi"]
  | .java => [".java"]
  | .go => [".go"]

/-- Whether the parser is for files of an extension, given with its dot or without, in any case. -/
def handles (p : Parser) (extension : String) : Bool :=
  p.extensions.contains (Text.lower (if extension.startsWith "." then extension else "." ++ extension))

def nulOffset? (source : String) : Option Nat := (Units.ofString source).toList.findIdx? (· = 0)

/-- Parses a source. The path only names it; a missing one is made from the first extension. -/
def parse (p : Parser) (source : String) (path : Option String) (policy : SyntaxPolicy) :
    Except ParseError Tree :=
  let path := path.getD ("anonymous" ++ p.extensions.headD "")
  match nulOffset? source with
  | some offset => .error ⟨path, .binary offset⟩
  | none =>
    match p.unavailable with
    | some reason => .error ⟨path, .unavailable p.language reason⟩
    | none =>
      match p.build source path with
      | .error reason => .error ⟨path, .crash p.language reason⟩
      | .ok tree =>
        match policy, tree.diagnostics with
        | .reject, d :: _ => .error ⟨path, .syntaxError d.span.startPosition d.message⟩
        | _, _ => .ok tree

end Parser

/-- The extension of the last segment of a path, in lower case; both slashes divide segments, and a
dot at the start of a segment does not count. -/
def Path.languageExtension (path : String) : String :=
  let base := (path.toList.reverse.takeWhile fun c => c ≠ '/' && c ≠ '\\').reverse
  match Path.lastIndexOf '.' base with
  | none => ""
  | some 0 => ""
  | some i => Text.lower (String.ofList (base.drop i))

/-- Parsers in order of registration, one for each language. -/
abbrev ParserRegistry := List Parser

namespace ParserRegistry

/-- Adds a parser; the one of its language is replaced where it stands. -/
def register (parser : Parser) : ParserRegistry → ParserRegistry
  | [] => [parser]
  | p :: rest => if p.language = parser.language then parser :: rest else p :: register parser rest

def get? (ps : ParserRegistry) (language : Language) : Option Parser := ps.find? (·.language = language)

/-- The language of a file: that of the first parser for its extension. -/
def detect? (ps : ParserRegistry) (path : String) : Option Language :=
  let extension := Path.languageExtension path
  if extension = "" then none else (ps.find? (·.handles extension)).map (·.language)

def parse (ps : ParserRegistry) (source : String) (language : Language) (path : Option String)
    (policy : SyntaxPolicy) : Except ParseError Tree :=
  match ps.get? language with
  | none => .error ⟨path.getD "<unknown>", .unregistered language⟩
  | some p => p.parse source path policy

end ParserRegistry

end RuleScan
