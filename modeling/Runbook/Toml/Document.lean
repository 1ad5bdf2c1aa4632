import Runbook.Toml.Expression

/-!
# TOML documents

A document is read line by line into one tree.  An assignment goes to the table that was opened
last, or to the whole document if none was.
-/

namespace Runbook.Toml

open Reader

/-- A document while it is being read: its tree, and the path of the table that was opened last. -/
structure Draft where
  root : Node
  opened : List Text

/-- The draft behind one more line, unless the line contradicts an earlier one. -/
def Draft.add (d : Draft) : Line → Option Draft
  | .blank => some d
  | .assignment path v => do
    let root ← Node.descend false d.opened (Node.assign path v) d.root
    return { d with root }
  | .table path => do
    let root ← d.root.openTable path
    return ⟨root, path⟩
  | .row path => do
    let root ← d.root.openRow path
    return ⟨root, path⟩

/-- Reads lines up to the end, in a text of at most `fuel` characters. -/
def linesWithin : Nat → Draft → Reader Draft
  | 0, _ => failure
  | fuel + 1, d => do
    match ← maybe (do let _ ← lineBlanks; atEnd) with
    | some () => return d
    | none =>
      match d.add (← line) with
      | none => failure
      | some d => linesWithin fuel d

/-- The entries of a TOML document, unless the text is none. A byte order mark may stand in
front. -/
def parse? (t : Text) : Option (List (Text × Value)) :=
  let t := (Text.dropFront? "\ufeff" t).getD t
  match linesWithin (t.length + 1) ⟨.table false false [], []⟩ t with
  | none => none
  | some (d, _) =>
    match d.root.toValue with
    | .table entries => some entries
    | _ => none

end Runbook.Toml
