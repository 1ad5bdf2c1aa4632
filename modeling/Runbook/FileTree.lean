import Runbook.FileSystem
import Runbook.Table

/-!
# File trees

Files, directories, programs and devices below one root, with texts for names.  A path leads to an
entry step by step, from the root if it starts with a slash and from some directory if not.  It may
pass through directories only.

A file tree answers as a file system does (`FileTree.fileSystem`).  There are no links in it, and it
lists all its directories.  `FileTree.system` is the tree that every system has.
-/

namespace Runbook

/-- What a file holds. -/
inductive Content where
  | text (text : Text)
  /-- Bytes that are no text in UTF-8. -/
  | binary (bytes : List UInt8)
deriving DecidableEq, Repr

/-- The content that is made of some bytes. -/
def Content.ofBytes (bytes : ByteArray) : Content :=
  match String.fromUTF8? bytes with
  | some t => .text t.toList
  | none => .binary bytes.toList

/-- The bytes of a content. -/
def Content.bytes : Content → ByteArray
  | .text t => (String.ofList t).toUTF8
  | .binary bytes => ⟨bytes.toArray⟩

/-- The content that is made of bytes which are given as characters. -/
def Content.ofOctets (t : Text) : Content := .ofBytes ⟨(Text.octetValues t).toArray⟩

/-- The bytes of a content as characters. -/
def Content.octets : Content → Text
  | .text t => Text.toOctets t
  | .binary bytes => Text.ofOctetValues bytes

/-- A device. -/
inductive Device where
  /-- Empty to read, and swallows what is written. -/
  | null
  /-- Has no room for what is written. -/
  | full
  /-- The stream of a process that has a number. -/
  | stream (number : Nat)
deriving DecidableEq, Repr

/-- What a path can lead to. -/
inductive Entry where
  | file (content : Content)
  | directory
  /-- A file that can be run. -/
  | program (name : Text)
  | device (device : Device)
deriving DecidableEq, Repr

/-- Why a file cannot be used. -/
inductive FileError where
  | notFound
  | notADirectory
  | isADirectory
  | notPermitted
  | nameTooLong
  | notText
  /-- A path holds a character that no path can hold. -/
  | holdsNul
deriving DecidableEq, Repr

/-- The error in words, without its number. -/
def FileError.description : FileError → Text
  | .notFound => "No such file or directory"
  | .notADirectory => "Not a directory"
  | .isADirectory => "Is a directory"
  | .notPermitted => "Permission denied"
  | .nameTooLong => "File name too long"
  | .notText => "stream did not contain valid UTF-8"
  | .holdsNul => "nul byte found in provided data"

/-- The number of an error, if the system has one for it. -/
def FileError.number? : FileError → Option Nat
  | .notFound => some 2
  | .notADirectory => some 20
  | .isADirectory => some 21
  | .notPermitted => some 13
  | .nameTooLong => some 36
  | .notText => none
  | .holdsNul => none

/-- The error in words. -/
def FileError.message (e : FileError) : Text :=
  match e.number? with
  | some n => e.description ++ " (os error " ++ Text.ofNat n ++ ")"
  | none => e.description

/-- The names on the way from the root to an entry. -/
abbrev Place := List Text

/-- Files and directories by their places. -/
structure FileTree where
  entries : Table Place Entry
deriving DecidableEq, Inhabited

namespace FileTree

/-- The tree that holds only its root. -/
def empty : FileTree := ⟨Table.empty⟩

/-- The entry at a place. The root is a directory. -/
def entry? (tree : FileTree) (place : Place) : Option Entry :=
  if place = [] then some .directory else tree.entries.get? place

/-- The tree with an entry at a place, and with the directories that lead there. -/
def put (tree : FileTree) (place : Place) (entry : Entry) : FileTree :=
  let parents := (List.range place.length).map place.take
  let made := parents.foldl (fun entries parent =>
    if parent = [] ∨ entries.contains parent then entries else entries.insert parent .directory)
    tree.entries
  ⟨made.insert place entry⟩

/-- The steps of a path. -/
def steps : Text → List Text
  | [] => [[]]
  | c :: t =>
    if c = '/' then [] :: steps t
    else
      match steps t with
      | [] => [[c]]
      | s :: rest => (c :: s) :: rest

/-- The place behind one more step, whether there is an entry or not. -/
def follow (place : Place) (step : Text) : Place :=
  if step = [] ∨ step = ".".toList then place
  else if step = "..".toList then place.dropLast
  else place ++ [step]

/-- The place that a path names from a directory, whether there is an entry or not. -/
def resolve (base : Place) (path : Text) : Place :=
  (steps path).foldl follow (if path.head? = some '/' then [] else base)

/-- A path within a directory; without a directory the path stays what it is. -/
def pathWithin (directory path : Text) : Text :=
  if directory = [] then path else directory ++ '/' :: path

/-- The number of bytes that a name may have. -/
def longestName : Nat := 255

/-- The number of bytes that a path may have. -/
def longestPath : Nat := 4095

/-- The place that steps lead to. There need not be an entry behind the last step. -/
def walk (tree : FileTree) (place : Place) : List Text → Except FileError Place
  | [] => .ok place
  | step :: rest =>
    match tree.entry? place with
    | none => .error .notFound
    | some .directory =>
      if longestName < Text.byteLength step then .error .nameTooLong
      else walk tree (follow place step) rest
    | some _ => .error .notADirectory

/-- Whether a path has more bytes than a path may have. -/
def isTooLong (path : Text) : Bool := longestPath < Text.byteLength path

/-- The place that a path leads to from a directory. -/
def locate (tree : FileTree) (base : Place) (path : Text) : Except FileError Place :=
  if path = [] then .error .notFound
  else if isTooLong path then .error .nameTooLong
  else tree.walk (if path.head? = some '/' then [] else base) (steps path)

/-- The entry that a path leads to. -/
def find (tree : FileTree) (base : Place) (path : Text) : Except FileError Entry := do
  match tree.entry? (← tree.locate base path) with
  | none => .error .notFound
  | some entry => .ok entry

/-- The text of a file. Nothing is read from a device. -/
def readText (tree : FileTree) (base : Place) (path : Text) : Except FileError Text := do
  match ← tree.find base path with
  | .directory => .error .isADirectory
  | .file (.binary _) => .error .notText
  | .file (.text t) => .ok t
  | .program _ => .error .notText
  | .device (.stream (_ + 3)) => .error .notFound
  | .device _ => .ok []

/-- Whether a path leads to the standard input. -/
def isInput (tree : FileTree) (base : Place) (path : Text) : Bool :=
  match tree.find base path with
  | .ok (.device (.stream 0)) => true
  | _ => false

/-- Whether a path leads to a file. -/
def isFile (tree : FileTree) (base : Place) (path : Text) : Bool :=
  match tree.find base path with
  | .ok (.file _) | .ok (.program _) => true
  | _ => false

/-- The name of the program that a path leads to, or why it does not lead to one. -/
def findProgram (tree : FileTree) (base : Place) (path : Text) : Except FileError Text := do
  match ← tree.find base path with
  | .program name => .ok name
  | _ => .error .notPermitted

/-- The place of a directory that a path leads to. -/
def directory? (tree : FileTree) (base : Place) (path : Text) : Option Place :=
  match tree.locate base path with
  | .error _ => none
  | .ok place => if tree.entry? place = some .directory then some place else none

/-- The steps that lead from a directory to a place below it. -/
def stepsFrom? (directory place : Place) : Option (List Text) :=
  if directory.isPrefixOf place ∧ place ≠ directory then some (place.drop directory.length)
  else none

/-- What lies below a directory, with the steps that lead there from it. -/
def below (tree : FileTree) (directory : Place) : List (List Text × Entry) :=
  tree.entries.entries.filterMap fun (place, entry) => (stepsFrom? directory place).map (·, entry)

/-- The files below a directory, with the steps that lead to them from there. -/
def filesBelow (tree : FileTree) (directory : Place) : List (List Text × Content) :=
  (tree.below directory).filterMap fun
    | (steps, .file content) => some (steps, content)
    | _ => none

/-- The names of the entries of a directory. -/
def namesIn (tree : FileTree) (place : Place) : List Text :=
  tree.entries.keys.filterMap fun p =>
    if p.dropLast = place ∧ p ≠ [] then p.getLast? else none

theorem nodup_namesIn (tree : FileTree) (place : Place) :
    ((tree.namesIn place).filterMap EntryName.ofText?).Nodup := by
  have hlast : (tree.namesIn place).Nodup := by
    refine List.Pairwise.filterMap _ ?_ tree.entries.nodup
    intro p q hne name hname other hother
    obtain ⟨⟨hp, -⟩, hname⟩ := Option.ite_none_right_eq_some.mp hname
    obtain ⟨⟨hq, -⟩, hother⟩ := Option.ite_none_right_eq_some.mp hother
    obtain ⟨front, rfl⟩ := List.getLast?_eq_some_iff.mp hname
    obtain ⟨behind, rfl⟩ := List.getLast?_eq_some_iff.mp hother
    rintro rfl
    rw [List.dropLast_concat] at hp hq
    exact hne (by rw [hp, hq])
  refine List.Pairwise.filterMap _ ?_ hlast
  intro s t hne name hname other hother
  rintro rfl
  have hbytes := (EntryName.bytes_of_ofText? hname).symm.trans (EntryName.bytes_of_ofText? hother)
  exact hne (OsText.ofText_inj.mp hbytes)

/-- What a system answers whose files are those of a tree, in a directory. -/
def fileSystem (tree : FileTree) (base : Place) : FileSystem where
  longest := longestPath
  read path :=
    match OsText.toText? path with
    | none => .error FileError.notFound.message
    | some path => (tree.readText base path).mapError FileError.message
  isInput path := (OsText.toText? path).any fun path => tree.isInput base path
  isFile path := (OsText.toText? path).any fun path => tree.isFile base path
  isDirectory path := (OsText.toText? path).any fun path => (tree.directory? base path).isSome
  names? path :=
    if longestPath < path.length then none
    else ((OsText.toText? path).bind (tree.directory? base)).map fun place =>
      (tree.namesIn place).filterMap EntryName.ofText?
  nodup_names h := by
    obtain ⟨-, h⟩ := Option.ite_none_left_eq_some.mp h
    obtain ⟨place, -, rfl⟩ := Option.map_eq_some_iff.mp h
    exact tree.nodup_namesIn place
  length_le_of_names h := Nat.not_lt.mp (Option.ite_none_left_eq_some.mp h).1

/-- The directories that hold programs. -/
def programDirectories : List Place :=
  [["bin"], ["usr", "bin"]]

/-- The programs that are known here. -/
def programs : List Text := ["sh", "dash", "mkdir", "echo", "true", "false"]

/-- The tree that every system has. -/
def system : FileTree :=
  let names : List Text :=
    ["boot", "etc", "home", "lib", "media", "mnt", "opt", "proc", "root", "run", "sbin", "srv",
      "sys", "tmp", "var"]
  let directories := names.map fun name => ([name], Entry.directory)
  let tools := programDirectories.flatMap fun place =>
    programs.map fun name => (place ++ [name], Entry.program name)
  let devices : List (Text × Device) :=
    [ ("null", .null), ("full", .full), ("stdin", .stream 0), ("stdout", .stream 1),
      ("stderr", .stream 2) ]
  let numbered : List (Text × Device) :=
    (List.range 10).map fun n => (Text.ofNat n, .stream n)
  let devices := devices.map (fun (name, d) => (["dev".toList, name], Entry.device d)) ++
    numbered.map fun (name, d) => (["dev".toList, "fd".toList, name], Entry.device d)
  (directories ++ tools ++ devices).foldl (fun tree (place, entry) => tree.put place entry) empty

/-- The way a place is written. -/
def display (place : Place) : Text := Text.join "/" place

end FileTree

end Runbook
