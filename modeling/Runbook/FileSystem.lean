import Runbook.Text.Octets

/-!
# The file system

The program knows files only by what the system answers: what a file holds, whether a path leads to
a directory, which names a directory has.  `FileSystem` is such a system, whatever its answers are.
It may refuse to list a directory, and a path may lead through links.

Paths and names are bytes.  Those that a user gives are texts (`OsText.ofText`), but a name that the
system gives need not be one (`OsText.toText?`).
-/

namespace Runbook

/-- A path or a part of one, as the system takes it. -/
abbrev OsText := List UInt8

namespace OsText

/-- The UTF-8 form of a text. -/
def ofText (t : Text) : OsText := Text.octetValues (Text.toOctets t)

/-- The text that bytes stand for, with replacement characters for what is no UTF-8. -/
def toTextLossy (bytes : OsText) : Text := Text.ofOctets (Text.ofOctetValues bytes)

/-- The text that bytes stand for, if they are UTF-8. -/
def toText? (bytes : OsText) : Option Text :=
  let t := toTextLossy bytes
  if ofText t = bytes then some t else none

@[simp] theorem toTextLossy_ofText (t : Text) : toTextLossy (ofText t) = t := by
  have hoctets : ∀ c ∈ Text.toOctets t, c.toNat < 0x100 := by
    intro c hc
    obtain ⟨_, -, hmem⟩ := List.mem_flatMap.mp hc
    exact Text.toNat_of_mem_octetsOf hmem
  rw [toTextLossy, ofText, Text.ofOctetValues_octetValues hoctets, Text.ofOctets_toOctets]

theorem ofText_inj {s t : Text} : ofText s = ofText t ↔ s = t := by
  constructor
  · intro h
    rw [← toTextLossy_ofText s, h, toTextLossy_ofText]
  · rintro rfl
    rfl

theorem toText?_eq_some_iff {bytes : OsText} {t : Text} :
    toText? bytes = some t ↔ bytes = ofText t := by
  simp only [toText?, Option.ite_none_right_eq_some, Option.some_inj]
  constructor
  · rintro ⟨hbytes, rfl⟩
    exact hbytes.symm
  · rintro rfl
    simp

/-- The order of paths, and of names, by their bytes. -/
def le : OsText → OsText → Bool := lexLe fun a b => a.toNat < b.toNat

/-- What separates the names in a path. -/
def slash : UInt8 := 0x2F

end OsText

/-- The name of an entry of a directory. -/
@[ext]
structure EntryName where
  bytes : OsText
  ne_nil : bytes ≠ []
  not_mem : OsText.slash ∉ bytes
deriving DecidableEq

/-- The name that is a text, if there can be such a name. -/
def EntryName.ofText? (t : Text) : Option EntryName :=
  if h : OsText.ofText t ≠ [] ∧ OsText.slash ∉ OsText.ofText t then
    some ⟨OsText.ofText t, h.1, h.2⟩
  else none

theorem EntryName.bytes_of_ofText? {t : Text} {name : EntryName}
    (h : ofText? t = some name) : name.bytes = OsText.ofText t := by
  obtain ⟨_, hname⟩ := Option.dite_none_right_eq_some.mp h
  rw [← Option.some_inj.mp hname]

/-- The name that is a text which can be a name. -/
def EntryName.ofText (t : Text) (h : (ofText? t).isSome) : EntryName := (ofText? t).get h

namespace OsText

/-- The path of an entry of a directory. -/
def join (directory : OsText) (name : EntryName) : OsText :=
  (if directory = [] ∨ directory.getLast? = some slash then directory else directory ++ [slash]) ++
    name.bytes

theorem length_lt_length_join (directory : OsText) (name : EntryName) :
    directory.length < (join directory name).length := by
  have hname : 0 < name.bytes.length := List.length_pos_iff.mpr name.ne_nil
  rw [join]
  split <;> simp only [List.length_append, List.length_singleton] <;> omega

/-- The path of what lies behind some names below a directory. -/
def below (directory : OsText) (steps : List EntryName) : OsText := steps.foldl join directory

/-- The names one after another, as a path from the directory that they start in. -/
def ofSteps (steps : List EntryName) : OsText := [slash].intercalate (steps.map EntryName.bytes)

/-- The last name in a path. -/
def lastName (path : OsText) : OsText := (path.reverse.takeWhile (· ≠ slash)).reverse

end OsText

/-- A file system, by its answers. -/
structure FileSystem where
  /-- The number of bytes that a path may have. -/
  longest : Nat
  /-- The text of a file, or in words why it cannot be read. -/
  read : OsText → Except Text Text
  /-- Whether to read from a path is to read from the standard input. -/
  isInput : OsText → Bool
  isFile : OsText → Bool
  isDirectory : OsText → Bool
  /-- The names in a directory, as far as they can be read, unless it cannot be listed. -/
  names? : OsText → Option (List EntryName)
  nodup_names : ∀ {path : OsText} {names : List EntryName}, names? path = some names → names.Nodup
  length_le_of_names : ∀ {path : OsText} {names : List EntryName},
    names? path = some names → path.length ≤ longest

/-- A file system with some directories and some files.  A directory without names is one that
cannot be listed. -/
def FileSystem.ofTables (directories : List (OsText × Option (List EntryName)))
    (texts : List (OsText × Text)) : FileSystem where
  longest := 4095
  read path := (texts.lookup path).elim (.error "No such file or directory (os error 2)") .ok
  isInput _ := false
  isFile path := (texts.lookup path).isSome
  isDirectory path := (directories.lookup path).isSome
  names? path := (directories.lookup path).join.filter fun names =>
    names.Nodup ∧ path.length ≤ 4095
  nodup_names h := (of_decide_eq_true (Option.filter_eq_some_iff.mp h).2).1
  length_le_of_names h := (of_decide_eq_true (Option.filter_eq_some_iff.mp h).2).2

end Runbook
