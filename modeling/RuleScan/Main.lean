import RuleScan.Command.Execution

/-! The program: the current directory is read once, a command runs on what was read, and the files it
wrote are written. -/

namespace RuleScan.Main

/-- Reads a file or a directory; what cannot be read is left out. -/
partial def load (e : IO.FS.DirEntry) : IO (Option (String × Entry)) := do
  try
    if ← e.path.isDir then
      let inner ← (← e.path.readDir).toList.filterMapM load
      return some (e.fileName, .directory inner)
    else
      let bytes ← IO.FS.readBinFile e.path
      return some (e.fileName, .file { content := .bytes bytes.toList })
  catch _ => return none

/-- Parsers that know their files but not their grammars. -/
def parsers : ParserRegistry :=
  Language.all.map fun language =>
    { language, extensions := Parser.usualExtensions language, unavailable := some "no grammar is linked"
      build := fun _ _ => .error "no grammar is linked" }

/-- Writes a file that a command wrote. -/
def save (disk : Disk) (path : String) : IO Unit := do
  match disk.read path with
  | .ok file =>
    IO.FS.createDirAll (Path.parent path)
    IO.FS.writeFile path file.content.lossy
  | .error _ => return

def run (args : List String) : IO Session := do
  let here ← IO.currentDir
  let entries ← (← here.readDir).toList.filterMapM load
  let environment ← Config.variableNames.filterMapM fun name => return (← IO.getEnv name).map (name, ·)
  let now ← IO.monoMsNow
  return Session.run
    { directory := here.toString, environment, disk := { root := here.toString, tree := .directory entries }
      network := fun _ => .failed "no network", parsers, world := .still now } args

end RuleScan.Main

def main (args : List String) : IO UInt32 := do
  let session ← RuleScan.Main.run args
  IO.print session.stdout
  IO.eprint session.stderr
  session.written.forM (RuleScan.Main.save session.disk)
  return session.exitCode.toUInt32
