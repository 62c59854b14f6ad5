import RuleScan.Disk.Basic
import RuleScan.Glob.Basic
import RuleScan.Parsing.Basic

/-! Finding the files of a workspace. -/

namespace RuleScan

/-- Which files are looked for: those a parser handles, of these the ones that some glob includes if
there is any, and of these the ones that no glob ignores. -/
structure Discovery where
  parsers : ParserRegistry
  included : List String := []
  ignore : List String := []
  /-- Whether a glob matches a path. -/
  admits : (glob path : String) → Bool := Glob.admits

namespace Discovery

def anyAdmits (d : Discovery) (globs : List String) (path : String) : Bool := globs.any (d.admits · path)

def skippedDirectories : List String :=
  ["node_modules", "dist", "build", "out", "target", "vendor", "__pycache__", ".venv", "venv", "coverage"]

/-- Whether a directory is entered; a hidden one is not. -/
def enters (d : Discovery) (name path : String) : Bool :=
  !name.startsWith "." && !skippedDirectories.contains name && !d.anyAdmits d.ignore path &&
    !d.anyAdmits d.ignore (path ++ "/")

def takes (d : Discovery) (name path : String) : Bool :=
  (d.parsers.detect? name).isSome && (d.included.isEmpty || d.anyAdmits d.included path) &&
    !d.anyAdmits d.ignore path

mutual

/-- The files at an entry; a link is not followed. -/
def filesAt (d : Discovery) (name path : String) : Entry → List String
  | .file _ => if d.takes name path then [path] else []
  | .directory entries => if d.enters name path then filesIn d (path ++ "/") entries else []
  | .link _ | .special => []

def filesIn (d : Discovery) (lead : String) : List (String × Entry) → List String
  | [] => []
  | (name, entry) :: rest => filesAt d name (lead ++ name) entry ++ filesIn d lead rest

end

/-- The files below a directory, in code unit order. -/
def files (d : Discovery) (disk : Disk) (root : String) : Except SystemError (List String) := do
  let entries ← disk.list root
  return Text.sort (d.filesIn "" entries)

/-- The path of a file seen from the root of its workspace. -/
def workspacePath (root path : String) : String :=
  let inner := if Path.isAbsolute path then Path.relative root path else path
  if inner.startsWith "./" then (inner.drop 2).toString else inner

end Discovery

end RuleScan
