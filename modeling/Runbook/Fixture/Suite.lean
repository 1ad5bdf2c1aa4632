import Runbook.FileSystem
import Runbook.Fixture.Check

/-!
# Suites

The fixtures below a directory make up a suite.  Their categories are the directories that they lie
in, relative to the first; a request names a category and all categories inside of it.

`collect` searches for fixtures, from directory to directory.
-/

namespace Runbook.Fixture

/-- The end of the name of a fixture. -/
def suffix : Text := ".test.term"

/-- A fixture of a suite. -/
structure Member where
  /-- The names on the way from the directory of the suite. -/
  steps : List EntryName
  path : OsText
deriving DecidableEq

/-- Categories with their fixtures, in the order of their names. -/
abbrev Suite := List (Text × List Member)

namespace Suite

/-- Whether a file is a fixture, by its name. A name that is no text is none of a fixture. -/
def isFixture (name : EntryName) : Bool :=
  (OsText.toText? name.bytes).any fun t => (Text.dropBack? suffix t).isSome

/-- The fixtures that a search from a directory comes to, by the names on the way.  The search goes
into what the system says is a directory, and passes over a directory that is not listed. -/
def collect (files : FileSystem) (directory : OsText) : List (List EntryName) :=
  match _hnames : files.names? directory with
  | none => []
  | some names =>
    names.flatMap fun name =>
      if files.isDirectory (OsText.join directory name) then
        (collect files (OsText.join directory name)).map (name :: ·)
      else if isFixture name then [[name]] else []
termination_by files.longest + 1 - directory.length
decreasing_by
  -- each name makes the path longer, and a path that is too long is not listed
  have hlength := files.length_le_of_names _hnames
  have hlonger := OsText.length_lt_length_join directory name
  omega

/-- The category of a fixture: the way to its directory. -/
def categoryOf (steps : List EntryName) : Text :=
  (OsText.toTextLossy (OsText.ofSteps steps.dropLast)).map fun c => if c = '\\' then '/' else c

/-- The order of ways, name by name. -/
def stepsLe : List EntryName → List EntryName → Bool := lexLe fun a b => OsText.le a.bytes b.bytes

/-- The fixtures below a directory, sorted. -/
def members (files : FileSystem) (root : OsText) : List Member :=
  ((collect files root).mergeSort stepsLe).map fun steps => ⟨steps, OsText.below root steps⟩

/-- Fixtures by category, with the categories in order. -/
def ofMembers (members : List Member) : Suite :=
  let categories := (members.map fun m => categoryOf m.steps).eraseDups.mergeSort Text.le
  categories.map fun c => (c, members.filter fun m => categoryOf m.steps = c)

/-- The suite of a directory. -/
def discover (files : FileSystem) (root : OsText) : Suite := ofMembers (members files root)

/-- The name of a category as it is shown. -/
def label (category : Text) : Text := if category = [] then "(root)" else category

/-- A request without the slashes around it. -/
def trimRequest (request : Text) : Text :=
  Text.dropEndWhile (· = '/') (request.dropWhile (· = '/'))

/-- Whether a request means a category: the category itself or one that it lies in. -/
def isRequested (request category : Text) : Bool :=
  category = request || Text.startsWith category (request ++ "/")

/-- Adds what one more request selects. A request that adds nothing is reported. -/
def selectOne (all : Suite) (chosen : List Text × List Text) (request : Text) :
    List Text × List Text :=
  let request := trimRequest request
  let (selected, unknown) := chosen
  let added := (all.map (·.1)).filter fun c => isRequested request c && !selected.contains c
  if added = [] then (selected, unknown ++ [request]) else (selected ++ added, unknown)

/-- The part of a suite that requests select, and the requests that selected nothing more. Without
requests everything is selected. -/
def select (all : Suite) (requests : List Text) : Suite × List Text :=
  if requests = [] then (all, [])
  else
    let (selected, unknown) := requests.foldl (selectOne all) ([], [])
    (all.filter fun (c, _) => selected.contains c, unknown)

/-- The warning about a request that selected nothing more. -/
def unknownRequest (all : Suite) (request : Text) : Text :=
  "warning: category '" ++ request ++ "' not found (available: " ++
    Text.join ", " (all.map fun (c, _) => label c) ++ ")"

/-! ## Running -/

/-- A fixture that has been checked. -/
structure Checked where
  path : OsText
  /-- The description, or the name of the file. -/
  label : Text
  failure : Option Text
deriving DecidableEq, Repr

/-- What a fixture is called by its file: the name without its end. -/
def fileLabel (path : OsText) : Text :=
  ((OsText.toText? (OsText.lastName path)).bind (Text.dropBack? suffix)).getD "?"

/-- The result of checking a file. -/
def checked (read : Text → Except Text Expectations) (readFile : OsText → Except Text Text)
    (path : OsText) : Checked :=
  let verdict := checkFile read (readFile path)
  { path
    label := verdict.description.getD (fileLabel path)
    failure := verdict.failure }

/-- Checks all fixtures, category by category. -/
def run (read : Text → Except Text Expectations) (readFile : OsText → Except Text Text)
    (suite : Suite) : List (Text × List Checked) :=
  suite.map fun (c, members) => (c, members.map fun m => checked read readFile m.path)

/-! ## Printing -/

/-- A text in one of the colours of a terminal. -/
def paint (noColor : Bool) (code t : Text) : Text :=
  if noColor then t else "\x1b[" ++ code ++ "m" ++ t ++ "\x1b[0m"

/-- The line about a fixture. -/
def resultLine (noColor : Bool) (c : Checked) : Text :=
  let word := if c.failure.isSome then paint noColor "31" "FAIL" else paint noColor "32" "PASS"
  "  " ++ word ++ "  " ++ c.label

/-- The lines about one failure. -/
def failureLinesOf (c : Checked) : List Text :=
  let heading : Text := "  --- " ++ OsText.toTextLossy c.path ++ " ---"
  let reason : Text := c.failure.getD []
  [[], heading] ++ (Text.lines reason).map fun (line : Text) => ("  " ++ line : Text)

/-- The lines about the failures. -/
def failureLines (failures : List Checked) : List Text :=
  if failures = [] then [] else [[], "failures:"] ++ failures.flatMap failureLinesOf

/-- The last line. -/
def summary (noColor : Bool) (passed failed : Nat) : Text :=
  if failed = 0 then
    "test result: " ++ paint noColor "32" "ok" ++ ". " ++ Text.ofNat passed ++ " passed, 0 failed"
  else
    "test result: " ++ paint noColor "31" "FAILED" ++ ". " ++ Text.ofNat passed ++ " passed, " ++
      Text.ofNat failed ++ " failed (of " ++ Text.ofNat (passed + failed) ++ ")"

/-- The lines about a run, with headings for the categories or without. -/
def reportLines (noColor headings : Bool) (results : List (Text × List Checked)) : List Text :=
  let all := results.flatMap (·.2)
  let failures := all.filter (·.failure.isSome)
  results.flatMap (fun (c, checked) =>
    (if headings then [[], paint noColor "1" (label c)] else []) ++
      checked.map (resultLine noColor)) ++
  failureLines failures ++
  [[], summary noColor (all.length - failures.length) failures.length]

/-- Whether all fixtures of a run passed. -/
def allPassed (results : List (Text × List Checked)) : Bool :=
  (results.flatMap (·.2)).all (·.failure.isNone)

end Suite

end Runbook.Fixture
