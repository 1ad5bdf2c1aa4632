import Runbook.Text.Basic

/-!
# Front matter

A fixture is a text in two parts.  The front matter, between two lines of three hyphens, is a TOML
document that says what to expand and what to expect; the rest is the source of a runbook.

`split` separates the two, and `parse` hands the first to a reader of such documents.
-/

namespace Runbook.Fixture

/-- Why a fixture cannot be read. -/
inductive FrontMatterError where
  /-- The text does not start with three hyphens. -/
  | unopened
  /-- No line behind the first starts with three hyphens. -/
  | unclosed
  /-- The front matter does not say what it has to, in the words of its reader. -/
  | invalid (reason : Text)
deriving DecidableEq, Repr

/-- The error in words. -/
def FrontMatterError.message : FrontMatterError → Text
  | .unopened => "missing opening --- front matter delimiter"
  | .unclosed => "missing closing --- front matter delimiter"
  | .invalid reason => "TOML parse error: " ++ reason

/-- The text behind a line ending, if it starts with one. -/
def dropLineFeed (t : Text) : Text :=
  match Text.dropFront? "\r\n" t with
  | some rest => rest
  | none => (Text.dropFront? "\n" t).getD t

/-- The front matter of a fixture and the source behind it. Byte order marks in front are passed
over. -/
def split (t : Text) : Except FrontMatterError (Text × Text) :=
  match Text.dropFront? "---" (t.dropWhile (· = '\ufeff')) with
  | none => .error .unopened
  | some rest =>
    match Text.splitOnce? "\n---" (dropLineFeed rest) with
    | none => .error .unclosed
    | some (front, source) => .ok (Text.dropEndWhile (· = '\r') front, dropLineFeed source)

/-- A warning that a fixture expects. -/
structure ExpectedWarning where
  /-- A part of the message. -/
  contains : Text
  /-- The line, counted from 1, that the warning is about. -/
  line : Option Nat
deriving DecidableEq, Repr

/-- What a fixture says about its source. -/
structure Expectations where
  description : Option Text
  /-- The block to expand. -/
  block : Text
  /-- The only environment variables that there are. -/
  env : List (Text × Text)
  /-- The expanded command, up to white space around it. -/
  command : Option Text
  /-- A part of the error of the expansion. -/
  error : Option Text
  /-- Whether the block is on the deny-list. -/
  dangerous : Option Bool
  /-- The warnings, in order. -/
  warnings : Option (List ExpectedWarning)
deriving DecidableEq, Repr

/-- The expectations and the source of a fixture, if `read` reads the front matter. -/
def parse (read : Text → Except Text Expectations) (t : Text) :
    Except FrontMatterError (Expectations × Text) := do
  let (frontMatter, source) ← split t
  let expectations ← (read frontMatter).mapError .invalid
  return (expectations, source)

end Runbook.Fixture
