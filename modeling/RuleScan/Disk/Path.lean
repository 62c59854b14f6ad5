/-! Paths with `/` between their segments. -/

namespace RuleScan.Path

def isAbsolute (path : String) : Bool := path.startsWith "/"

def segments (path : String) : List String := ((path.toList.splitOn '/').map String.ofList).filter (· ≠ "")

/-- Walks the segments from the place `acc`, innermost first: `.` stays, `..` goes up. Above the start
`..` is kept if the path is relative and lost if it is absolute. -/
def walk (absolute : Bool) : List String → List String → List String
  | acc, [] => acc.reverse
  | acc, "." :: rest => walk absolute acc rest
  | acc, ".." :: rest =>
    match acc with
    | [] => walk absolute (if absolute then [] else [".."]) rest
    | ".." :: _ => walk absolute (".." :: acc) rest
    | _ :: outer => walk absolute outer rest
  | acc, s :: rest => walk absolute (s :: acc) rest

/-- The shortest form of a path; a `/` at its end stays. -/
def normalize (path : String) : String :=
  if path = "" then "."
  else
    let absolute := isAbsolute path
    let inner := "/".intercalate (walk absolute [] (segments path))
    let inner := if inner = "" && !absolute then "." else inner
    let inner := if inner ≠ "" && path.endsWith "/" then inner ++ "/" else inner
    if absolute then "/" ++ inner else inner

/-- Two paths one after the other. -/
def join (a b : String) : String :=
  let parts := [a, b].filter (· ≠ "")
  if parts.isEmpty then "." else normalize ("/".intercalate parts)

/-- The absolute path of a target seen from an absolute directory. -/
def resolve (base target : String) : String :=
  let whole := if isAbsolute target then target else base ++ "/" ++ target
  "/" ++ "/".intercalate (walk true [] (segments whole))

def basename (path : String) : String := (segments path).getLastD ""

/-- The position of the last occurrence of a character. -/
def lastIndexOf (c : Char) (cs : List Char) : Option Nat :=
  (cs.reverse.findIdx? (· = c)).map (cs.length - 1 - ·)

/-- The last segment from its last dot on; a dot at its start does not count. -/
def extension (path : String) : String :=
  let base := basename path
  let cs := base.toList
  match lastIndexOf '.' cs with
  | none => ""
  | some 0 => ""
  | some i => if base = ".." then "" else String.ofList (cs.drop i)

/-- The last segment without its extension. -/
def stem (path : String) : String :=
  let base := basename path
  let ext := extension path
  if ext = base then base else String.ofList (base.toList.take (base.length - ext.length))

/-- The directory that an absolute path lies in. -/
def parent (path : String) : String := "/" ++ "/".intercalate (segments path).dropLast

/-- Drops the segments that two paths share at their start. -/
def dropShared : List String → List String → List String × List String
  | a :: as, b :: bs => if a = b then dropShared as bs else (a :: as, b :: bs)
  | as, bs => (as, bs)

/-- The way from one absolute path to another. -/
def relative (start target : String) : String :=
  let (up, down) := dropShared (segments (resolve "/" start)) (segments (resolve "/" target))
  "/".intercalate (up.map (fun _ => "..") ++ down)

end RuleScan.Path
