import RuleScan.Disk.Path
import RuleScan.Text.Units
import RuleScan.Text.Utf8
import RuleScan.Value.Basic

/-! Files and directories, and what reading and writing them answers. -/

namespace RuleScan

inductive Content where
  | text (s : String)
  | bytes (b : List UInt8)

namespace Content

def size : Content → Nat
  | .text s => s.utf8ByteSize
  | .bytes b => b.length

/-- The content as text, malformed bytes replaced. -/
def lossy : Content → String
  | .text s => s
  | .bytes b => Utf8.decode b

/-- The content as text without a byte order mark, if it is well formed. -/
def decode? : Content → Option String
  | .text s => some (Utf8.withoutMark s)
  | .bytes b => (Utf8.decode? b).map Utf8.withoutMark

end Content

/-- A file, with what its text decodes to in the notation that is not JSON, if it does. -/
structure File where
  content : Content
  decoded : Option Value := none

/-- What stands under a name: a file, a directory with its entries by name, or something else. -/
inductive Entry where
  | file (f : File)
  | directory (entries : List (String × Entry))
  /-- A link, with what it leads to. -/
  | link (target : Option Entry)
  /-- A socket or a device, from which no text is read. -/
  | special

inductive SystemError where
  | noEntry (call path : String)
  | notDirectory (call path : String)
  | isDirectory (call : String) (path : Option String)
  | exists_ (call path : String)
  | noDevice (call path : String)
  deriving DecidableEq

def SystemError.message : SystemError → String
  | .noEntry call path => "ENOENT: no such file or directory, " ++ call ++ " '" ++ path ++ "'"
  | .notDirectory call path => "ENOTDIR: not a directory, " ++ call ++ " '" ++ path ++ "'"
  | .isDirectory call none => "EISDIR: illegal operation on a directory, " ++ call
  | .isDirectory call (some path) =>
    "EISDIR: illegal operation on a directory, " ++ call ++ " '" ++ path ++ "'"
  | .exists_ call path => "EEXIST: file already exists, " ++ call ++ " '" ++ path ++ "'"
  | .noDevice call path => "ENXIO: no such device or address, " ++ call ++ " '" ++ path ++ "'"

namespace Entry

/-- The entries with this one put in place of the one of its name, or added. -/
def replaceIn (name : String) (entry : Entry) : List (String × Entry) → List (String × Entry)
  | [] => [(name, entry)]
  | (n, e) :: rest => if n = name then (n, entry) :: rest else (n, e) :: replaceIn name entry rest

/-- What is there once links are followed. -/
def followed : Entry → Option Entry
  | .link (some e) => e.followed
  | .link none => none
  | e => some e

/-- What a walk down some segments finds. -/
inductive Found where
  | entry (e : Entry)
  | nothing
  /-- What stands where a directory is needed is none. -/
  | blocked

/-- Walks down, through links too. -/
def find (e : Entry) : List String → Found
  | [] => e.followed.elim .nothing .entry
  | name :: rest =>
    match e.followed with
    | none => .nothing
    | some (.directory entries) =>
      match entries.lookup name with
      | none => .nothing
      | some inner => inner.find rest
    | some _ => .blocked

/-- Changes what is at the end of a link, or the entry itself. -/
def change (f : Option Entry → Option Entry) : Entry → Entry
  | .link (some e) => .link (some (e.change f))
  | .link none => .link (f none)
  | e => (f (some e)).getD e

/-- Puts an entry at a place; directories on the way are made, and what is no directory on the way is kept. -/
def put (new : Entry) (e : Entry) : List String → Entry
  | [] =>
    e.change fun e =>
      match new, e with
      | .directory [], some (.directory entries) => some (.directory entries)
      | _, _ => some new
  | name :: rest =>
    e.change fun e =>
      match e with
      | some (.directory entries) =>
        some (.directory (replaceIn name (put new ((entries.lookup name).getD (.directory [])) rest) entries))
      | e => e

end Entry

/-- A tree of files below one absolute path. -/
structure Disk where
  root : String
  tree : Entry := .directory []

namespace Disk

def below? (d : Disk) (path : String) : Option (List String) :=
  match Path.dropShared (Path.segments d.root) (Path.segments (Path.resolve "/" path)) with
  | ([], inner) => some inner
  | _ => none

/-- Finds an entry for a system call. A path that ends in `/` names a directory. -/
def find (d : Disk) (call path : String) : Except SystemError Entry :=
  match (d.below? path).map d.tree.find with
  | some (.entry (.directory entries)) => .ok (.directory entries)
  | some (.entry e) => if path.endsWith "/" then .error (.notDirectory call path) else .ok e
  | some .blocked => .error (.notDirectory call path)
  | some .nothing => .error (.noEntry call path)
  | none => .error (.noEntry call path)

def read (d : Disk) (path : String) : Except SystemError File :=
  match d.find "open" path with
  | .ok (.file f) => .ok f
  | .ok (.directory _) => .error (.isDirectory "read" none)
  | .ok _ => .error (.noDevice "open" path)
  | .error e => .error e

def stat (d : Disk) (path : String) : Except SystemError Entry := d.find "stat" path

/-- The entries of a directory, in code unit order of their names. -/
def list (d : Disk) (path : String) : Except SystemError (List (String × Entry)) :=
  match d.find "scandir" path with
  | .ok (.directory entries) => .ok (entries.mergeSort fun a b => Text.le a.1 b.1)
  | .ok _ => .error (.notDirectory "scandir" path)
  | .error e => .error e

def put (d : Disk) (path : String) (entry : Entry) : Disk :=
  match d.below? path with
  | some inner => { d with tree := Entry.put entry d.tree inner }
  | none => d

def makeDirectory (d : Disk) (path : String) : Except SystemError Disk :=
  match (d.below? path).map d.tree.find with
  | some (.entry (.directory _)) => .ok d
  | some (.entry _) => .error (.exists_ "mkdir" path)
  | some .blocked => .error (.notDirectory "mkdir" path)
  | _ => .ok (d.put path (.directory []))

def write (d : Disk) (path text : String) : Except SystemError Disk :=
  match d.find "open" path with
  | .ok (.directory _) => .error (.isDirectory "open" (some path))
  | .ok .special => .error (.noDevice "open" path)
  | .error (.notDirectory call path) => .error (.notDirectory call path)
  | _ => .ok (d.put path (.file { content := .text text }))

end Disk

end RuleScan
