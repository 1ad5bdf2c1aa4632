import Runbook.Table
import Runbook.Text.Blank
import Runbook.Text.Lines

/-!
# Includes

A line `#include name` in a block stands for the expansion of the block of that name.  Expansion
walks along the includes and keeps the names of the blocks that it is inside of.  Meeting one of
them again is a cycle; meeting a name that no block has is an error, too.

The walk is bounded by the number of blocks that are not open yet (`depthBound`), because every step
inwards opens one more of them.
-/

namespace Runbook

/-- Bodies by block name. -/
abbrev BlockMap := Table Text Text

/-- Why a block cannot be expanded. -/
inductive IncludeError where
  /-- No block has this name. -/
  | missingBlock (name : Text)
  /-- The block of this name is included while it is being expanded. -/
  | cyclicInclude (name : Text)
deriving DecidableEq, Repr, Inhabited

/-- The error in words. -/
def IncludeError.message : IncludeError → Text
  | .missingBlock name => "block not found: " ++ name
  | .cyclicInclude name => "recursive #include detected for block: " ++ name

namespace Include

/-- The name on an include line. The directive starts in the first column, and white space separates
it from the name. If nothing but white space follows, one blank is enough for a line of plain text;
from two blanks on, the last of which is no line feed, the line includes the empty name. -/
def target? (line : Text) : Option Text :=
  match Text.dropFront? "#include" line with
  | none => none
  | some rest =>
    let blanks := rest.takeWhile isBlank
    let name := rest.dropWhile isBlank
    if blanks = [] then none
    else if name = [] then
      if 2 ≤ blanks.length ∧ blanks.getLast? ≠ some '\n' then some [] else none
    else if '\n' ∈ name then none
    else some (Text.trimEnd name)

/-- The names of the blocks that are being expanded. -/
abbrev OpenNames := List Text

/-- What an expansion comes to: nothing if its bound on the depth was too small, else a result and
the names that are open afterwards. -/
abbrev Expansion (α : Type) := Option (Except IncludeError α × OpenNames)

/-- Expands lines one after another by a given expansion of included blocks, up to the first
error. -/
def expandLines (expand : Text → OpenNames → Expansion Text) :
    List Text → OpenNames → Expansion (List Text)
  | [], opened => some (.ok [], opened)
  | line :: rest, opened =>
    let first : Expansion Text :=
      match target? line with
      | some name => expand name opened
      | none => some (.ok line, opened)
    match first with
    | none => none
    | some (.error e, opened) => some (.error e, opened)
    | some (.ok text, opened) =>
      match expandLines expand rest opened with
      | none => none
      | some (.error e, opened) => some (.error e, opened)
      | some (.ok texts, opened) => some (.ok (text :: texts), opened)

/-- Expands a block, at most `depth` blocks deep. The name is opened for as long as its body is
being expanded. -/
def expandWithin (blocks : BlockMap) : Nat → Text → OpenNames → Expansion Text
  | 0, _, _ => none
  | depth + 1, name, opened =>
    if name ∈ opened then some (.error (.cyclicInclude name), opened)
    else
      match blocks.get? name with
      | none => some (.error (.missingBlock name), (name :: opened).erase name)
      | some body =>
        match expandLines (expandWithin blocks depth) (Text.lines body) (name :: opened) with
        | none => none
        | some (.error e, opened) => some (.error e, opened.erase name)
        | some (.ok texts, opened) => some (.ok (Text.join "\n" texts), opened.erase name)

/-- A depth that no expansion exceeds: one more than the number of blocks that are not open. -/
def depthBound (blocks : BlockMap) (opened : OpenNames) : Nat :=
  (blocks.keys.filter (· ∉ opened)).length + 1

/-- Expands a block while other blocks are open; also says which are open afterwards. -/
def expandIncludes (name : Text) (blocks : BlockMap) (opened : OpenNames) :
    Except IncludeError Text × OpenNames :=
  (expandWithin blocks (depthBound blocks opened) name opened).getD
    (.error (.cyclicInclude name), opened)

end Include

end Runbook
