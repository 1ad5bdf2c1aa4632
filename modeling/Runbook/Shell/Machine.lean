import Runbook.FileTree
import Runbook.Shell.Syntax

/-!
# The state of a shell

A shell works on a file tree, in a directory, with variables.  What it prints goes to descriptors,
which lead to files, to devices or to pipes; a pipe collects what is written to it.

`Machine.emit` is the one way to write.
-/

namespace Runbook.Shell

/-- A file that is written to. -/
structure OpenFile where
  place : Place
  /-- Where the next byte goes. -/
  offset : Nat
  /-- Whether everything goes to the end instead. -/
  appends : Bool
deriving DecidableEq, Repr

/-- Where a descriptor leads. -/
inductive Stream where
  /-- To a pipe, by its number. -/
  | pipe (number : Nat)
  /-- To an open file, by its number. -/
  | file (number : Nat)
  /-- To what swallows everything. -/
  | null
  /-- To what has no room. -/
  | full
  /-- From something; nothing can be written to it. -/
  | source
deriving DecidableEq, Repr

/-- Why the commands that follow are passed over. -/
inductive Jump where
  /-- Some loops end. -/
  | break (loops : Nat)
  /-- Some loops go on, all but the outermost having ended. -/
  | continue (loops : Nat)
  /-- The definition that runs ends. -/
  | return
deriving DecidableEq, Repr

/-- A shell at work. -/
structure Machine where
  /-- The name that the shell was called by. -/
  name : Text
  tree : FileTree
  directory : Place
  /-- The variables with their values. -/
  bound : Table Text Text
  /-- The variables that keep their values. -/
  fixed : List Text
  /-- The positional parameters. -/
  arguments : List Text
  /-- The commands that were given names. -/
  definitions : Table Text Command
  /-- The status of the last command. -/
  status : Nat
  /-- The status of the last command whose output was wanted. -/
  outputStatus : Nat
  /-- The line of the command that runs. -/
  line : Nat
  /-- The line up to which the input is read. -/
  readLine : Nat
  /-- The command that runs other commands, to be named in errors. -/
  running : Option Text
  descriptors : List (Nat × Stream)
  pipes : List Text
  files : List OpenFile
  jump : Option Jump
  /-- The number of loops around the command. -/
  loops : Nat

/-- What a shell does: it goes on with a result, or it ends. -/
abbrev Action := ExceptT Unit (StateM Machine)

namespace Machine

/-! ## Variables -/

/-- The variables that every shell starts with. -/
def ownVariables : List (Text × Text) :=
  [ ("PS1", "# "), ("PS2", "> "), ("PS4", "+ "),
    ("PATH", "/usr/local/sbin:/usr/local/bin:/usr/sbin:/usr/bin:/sbin:/bin") ]

/-- The variables that no environment sets. -/
def resetVariables : List (Text × Text) := [("IFS", " \t\n"), ("OPTIND", "1")]

/-- The way a place is written from the root. -/
def pathOf (place : Place) : Text := '/' :: Text.toOctets (FileTree.display place)

/-- A shell at its start. -/
def start (name : Text) (tree : FileTree) (directory : Place) (environment : List (Text × Text)) :
    Machine :=
  let given := (environment.filter fun (name, _) => isName name).map fun (name, value) =>
    (name, Text.toOctets value)
  { name := Text.toOctets name
    tree
    directory
    bound := Table.ofList
      (ownVariables ++ given ++ resetVariables ++ [("PWD".toList, pathOf directory)])
    fixed := []
    arguments := []
    definitions := .empty
    status := 0
    outputStatus := 0
    line := 1
    readLine := 1
    running := none
    descriptors := [(0, .source), (1, .pipe 0), (2, .pipe 1)]
    pipes := [[], []]
    files := []
    jump := none
    loops := 0 }

/-- What was printed to standard output. -/
def out (m : Machine) : Text := Text.ofOctets (m.pipes[0]?.getD [])

/-- What was printed to standard error. -/
def err (m : Machine) : Text := Text.ofOctets (m.pipes[1]?.getD [])

/-! ## Descriptors -/

/-- Where a descriptor leads, if it is open. -/
def stream? (m : Machine) (descriptor : Nat) : Option Stream := m.descriptors.lookup descriptor

/-- The machine with a descriptor that leads somewhere, or is closed. -/
def connect (m : Machine) (descriptor : Nat) (stream : Option Stream) : Machine :=
  let others := m.descriptors.filter (·.1 ≠ descriptor)
  { m with descriptors := others ++ (stream.map (descriptor, ·)).toList }

/-- A text with bytes from an offset on in place of those that were there. -/
def overwrite (old : Text) (offset : Nat) (t : Text) : Text :=
  old.take offset ++ List.replicate (offset - old.length) '\x00' ++ t ++
    old.drop (offset + t.length)

/-- The bytes of a file. -/
def bytesAt (m : Machine) (place : Place) : Text :=
  match m.tree.entry? place with
  | some (.file content) => content.octets
  | _ => []

/-- Writes bytes to an open file. -/
def writeFile (m : Machine) (number : Nat) (t : Text) : Machine :=
  match m.files[number]? with
  | none => m
  | some f =>
    let old := m.bytesAt f.place
    let offset := if f.appends then old.length else f.offset
    { m with
      tree := m.tree.put f.place (.file (.ofOctets (overwrite old offset t)))
      files := m.files.set number { f with offset := offset + t.length } }

/-- Writes bytes to a descriptor; whether there was room for them. -/
def emit (m : Machine) (descriptor : Nat) (t : Text) : Bool × Machine :=
  if t = [] then (true, m)
  else
    match m.stream? descriptor with
    | some (.pipe n) => (true, { m with pipes := m.pipes.modify n (· ++ t) })
    | some (.file n) => (true, m.writeFile n t)
    | some .null => (true, m)
    | some .full | some .source | none => (false, m)

/-- Opens a file to write to it. -/
def openFile (m : Machine) (place : Place) (emptied appends : Bool) : Stream × Machine :=
  let isThere := (m.tree.entry? place).isSome
  let tree := if emptied || !isThere then m.tree.put place (.file (.text [])) else m.tree
  (.file m.files.length, { m with tree, files := m.files ++ [⟨place, 0, appends⟩] })

/-- The path that bytes name. -/
def pathText (path : Text) : Text := Text.ofOctets path

/-- What a path leads to that is written to. -/
def openTo (m : Machine) (path : Text) (emptied appends : Bool) :
    Except FileError (Stream × Machine) := do
  let place ←
    match m.tree.locate m.directory (pathText path) with
    | .ok place => .ok place
    | .error e =>
      let trimmed := Text.dropEndWhile (· = '/') path
      let isNew := (m.tree.locate m.directory (pathText trimmed)).toBool &&
        !(m.tree.find m.directory (pathText trimmed)).toBool && trimmed ≠ path
      .error (if isNew then .isADirectory else e)
  match m.tree.entry? place with
  | some .directory => .error .isADirectory
  | some (.program _) => .error .notPermitted
  | some (.device .null) => .ok (.null, m)
  | some (.device .full) => .ok (.full, m)
  | some (.device (.stream n)) =>
    match m.stream? n with
    | none => .error .notFound
    | some (.file number) =>
      match m.files[number]? with
      | none => .error .notFound
      | some f => .ok (m.openFile f.place emptied appends)
    | some stream => .ok (stream, m)
  | some (.file _) => .ok (m.openFile place emptied appends)
  | none =>
    if m.tree.entry? place.dropLast = some .directory then .ok (m.openFile place emptied appends)
    else .error .notFound

/-- Whether a path leads to something that can be read. -/
def openFrom (m : Machine) (path : Text) : Except FileError Stream := do
  match ← m.tree.find m.directory (pathText path) with
  | .device (.stream n) =>
    match m.stream? n with
    | none => .error .notFound
    | some _ => .ok .source
  | _ => .ok .source

end Machine

/-! ## Actions -/

namespace Action

/-- The beginning of every error: the shell, the line, and the command that runs the others. -/
def errorFront (m : Machine) : Text :=
  m.name ++ ": " ++ Text.ofNat m.line ++ ": " ++
    (match m.running with
      | some command => command ++ ": "
      | none => [])

/-- Writes to a descriptor; whether there was room. -/
def emit (descriptor : Nat) (t : Text) : Action Bool := do
  let (ok, m) := (← get).emit descriptor t
  set m
  return ok

/-- Sets the status. -/
def setStatus (status : Nat) : Action Unit := modify fun m => { m with status }

/-- Prints an error of the shell, and sets the status. -/
def complain (status : Nat) (message : Text) : Action Unit := do
  let _ ← emit 2 (errorFront (← get) ++ message ++ "\n")
  setStatus status

/-- Ends the shell. -/
def leave {α : Type} : Action α := throw ()

/-- Ends the shell because of an error. -/
def abort {α : Type} (message : Text) : Action α := do
  complain 2 message
  leave

/-- Sets a variable, unless it is to keep its value. -/
def setVariable (name value : Text) : Action Unit := do
  if (← get).fixed.contains name then abort (name ++ ": is read only")
  modify fun m => { m with bound := m.bound.insert name value }

/-- Does something in a copy of the shell. What it does to files and pipes stays; all else is
forgotten but the status. -/
def inCopy (action : Action Unit) : Action Unit := do
  let m ← get
  let (_, copy) := action.run { m with jump := none, loops := 0 }
  set { m with
    tree := copy.tree
    pipes := copy.pipes
    files := copy.files
    status := copy.status }

end Action

end Runbook.Shell
