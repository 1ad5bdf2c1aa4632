import Runbook.Program
import Runbook.Shell.Program
import Runbook.Toml.Readers

/-!
# The command line

The program is called (`Program.call`) on a tree of files, with the small shell and the readers of
this library.  The part of the disk that it may look at is read into the tree, and what its shell
has changed is written back.  That part is the working directory and what the arguments name, each
with everything below it.
-/

namespace Runbook.Main

/-- How deep below a directory files are read. -/
def depth : Nat := 32

/-- The way a place is written on the disk. -/
def pathOf (place : Place) : String := "/" ++ String.ofList (FileTree.display place)

/-- The tree with what stands at a place of the disk. What cannot be read is left out. -/
def readInto (place : Place) : Nat → FileTree → IO FileTree
  | 0, tree => return tree
  | depth + 1, tree => do
    let path := (← IO.currentDir) / pathOf place
    if ← path.isDir then
      let entries ← try path.readDir catch _ => pure #[]
      entries.foldlM (fun tree entry => readInto (place ++ [entry.fileName.toList]) depth tree)
        (tree.put place .directory)
    else
      try return tree.put place (.file (.ofBytes (← IO.FS.readBinFile path)))
      catch _ => return tree

/-- The working directory and what the arguments name. -/
def readTree (base : Place) (arguments : List Text) : IO FileTree := do
  let places := arguments.map (FileTree.resolve base)
  let outside := places.filter fun place =>
    !base.isPrefixOf place && (FileTree.system.entry? place).isNone
  outside.foldlM (fun tree place => readInto place depth tree) (← readInto base depth .system)

/-- Writes the entries of a tree that another one did not have. -/
def writeChanges (before after : FileTree) : IO Unit :=
  after.entries.entries.forM fun (place, entry) => do
    if before.entry? place ≠ some entry then
      match entry with
      | .directory => IO.FS.createDirAll (pathOf place)
      | .file content => IO.FS.writeBinFile (pathOf place) content.bytes
      | .program _ | .device _ => return

/-- A text of the system, which is empty if it is no text in UTF-8. -/
def readSystem (path : String) : IO String := do
  return (String.fromUTF8? (← IO.FS.readBinFile path)).getD ""

/-- The environment variables. -/
def readEnvironment : IO (List (Text × Text)) := do
  let listed ← readSystem "/proc/self/environ"
  return (listed.splitOn "\x00").filterMap fun setting => Text.splitOnce? "=" setting.toList

/-- Where shells are started: in the working directory, on the tree of what may be looked at. -/
def readSite (arguments : List Text) : IO Shell.Site := do
  let directory := FileTree.resolve [] (← IO.currentDir).toString.toList
  return { tree := ← readTree directory arguments.tail
           directory
           environment := ← readEnvironment }

/-- The standard input, if the arguments may lead to a question. -/
def readInput (arguments : List Text) : IO Text := do
  match CommandLine.parse arguments with
  | .ok { command := .run run, .. } =>
    if run.yes then return [] else return (← readSystem "/dev/stdin").toList
  | _ => return []

/-- What the program finds around it at a site. -/
def worldAt (site : Shell.Site) (input : Text) : World :=
  { files := site.tree.fileSystem site.directory
    environment := site.environment
    input
    shell := site.program
    readConfig := Toml.readConfig
    readFrontMatter := Toml.readExpectations }

end Runbook.Main

/-- Calls the program with the arguments of the process. -/
def main (arguments : List String) : IO UInt32 := do
  let arguments := "termbook".toList :: arguments.map String.toList
  let site ← Runbook.Main.readSite arguments
  let input ← Runbook.Main.readInput arguments
  let exit := Runbook.Program.call (Runbook.Main.worldAt site input) arguments
  IO.print (String.ofList exit.out)
  IO.eprint (String.ofList exit.err)
  if let some tree := exit.tree? then Runbook.Main.writeChanges site.tree tree
  return exit.code.toUInt32
