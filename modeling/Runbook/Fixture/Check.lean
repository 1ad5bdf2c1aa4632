import Runbook.DenyList
import Runbook.Fixture.FrontMatter
import Runbook.Lint
import Runbook.Reference

/-!
# Checking a fixture

A fixture is checked against its own expectations: first the warnings, then the deny-list, then the
expansion.  The first expectation that is not met is the reason of the failure.
-/

namespace Runbook.Fixture

/-- Checks a condition, and gives a reason if it does not hold. -/
def expecting (holds : Bool) (reason : Text) : Except Text Unit :=
  if holds then .ok () else .error reason

/-- The lines that list warnings. -/
def listWarnings (warnings : List Diagnostic) : Text :=
  if warnings = [] then "    (none)"
  else Text.join "\n" (warnings.map fun w => "  - " ++ w.message)

/-- Checks one warning, the one at a position. -/
def checkWarning (source : Text) (position : Nat) (actual : Diagnostic)
    (expected : ExpectedWarning) : Except Text Unit := do
  let heading : Text := "warning[" ++ Text.ofNat position ++ "]: "
  expecting (Text.contains actual.message expected.contains)
    (heading ++ "expected message containing \"" ++ expected.contains ++ "\", got: " ++
      actual.message)
  match expected.line with
  | none => .ok ()
  | some line =>
    let actualLine := Text.lineOf source actual.span.start + 1
    expecting (actualLine = line)
      (heading ++ "expected on line " ++ Text.ofNat line ++ ", but span is on line " ++
        Text.ofNat actualLine)

/-- Checks warnings one by one, the first of which is at a position. -/
def checkWarningsFrom (source : Text) (position : Nat) :
    List Diagnostic → List ExpectedWarning → Except Text Unit
  | actual :: rest, expected :: more => do
    checkWarning source position actual expected
    checkWarningsFrom source (position + 1) rest more
  | _, _ => .ok ()

/-- Checks the warnings of a book. -/
def checkWarnings (source : Text) (warnings : List Diagnostic) (expected : List ExpectedWarning) :
    Except Text Unit := do
  expecting (warnings.length = expected.length)
    ("expected " ++ Text.ofNat expected.length ++ " warning(s), got " ++
      Text.ofNat warnings.length ++ "\n  actual warnings:\n" ++ listWarnings warnings)
  checkWarningsFrom source 0 warnings expected

/-- The word for a truth value. -/
def boolWord (b : Bool) : Text := if b then "true" else "false"

/-- Checks whether the block is on the deny-list. A block that does not exist is empty. -/
def checkDanger (book : Book) (block : Text) (expected : Bool) : Except Text Unit :=
  let body := (book.get? block).elim [] Block.body
  let dangerous := !(DenyList.sanitize body).toBool
  expecting (dangerous = expected)
    ("expected dangerous = " ++ boolWord expected ++ ", got " ++ boolWord dangerous)

/-- Checks the expansion of the block. An expected error makes an expected command irrelevant. -/
def checkExpansion (e : Expectations) (expansion : Except IncludeError Text) : Except Text Unit :=
  match e.error, e.command, expansion with
  | some expected, _, .error err =>
    expecting (Text.contains err.message expected)
      ("expected error containing \"" ++ expected ++ "\", got: " ++ err.message)
  | some expected, _, .ok _ =>
    .error ("expected error containing \"" ++ expected ++ "\", but expansion succeeded")
  | none, _, .error err => .error ("unexpected error: " ++ err.message)
  | none, some expected, .ok actual =>
    expecting (Text.trim actual = Text.trim expected)
      ("command mismatch\n  expected: " ++ Text.trim expected ++ "\n  actual:   " ++
        Text.trim actual)
  | none, none, .ok _ => .ok ()

/-- Checks a source against expectations. -/
def checkSource (e : Expectations) (source : Text) : Except Text Unit := do
  let book := Book.parse source 0
  if let some expected := e.warnings then
    checkWarnings source (book.lint.filter (·.isWarning)) expected
  if let some expected := e.dangerous then
    checkDanger book e.block expected
  checkExpansion e ((book.expandBlock e.block).map fun command =>
    Reference.expand command book.declared (.ofPairs e.env))

/-- What a check came to. -/
structure Verdict where
  /-- What the fixture says of itself, if it could be read. -/
  description : Option Text
  /-- Why the fixture failed, if it did. -/
  failure : Option Text
deriving DecidableEq, Repr

/-- Checks the text of a fixture, if `read` reads its front matter. -/
def check (read : Text → Except Text Expectations) (t : Text) : Verdict :=
  match parse read t with
  | .error e => ⟨none, some ("front matter error: " ++ e.message)⟩
  | .ok (e, source) =>
    match checkSource e source with
    | .ok () => ⟨e.description, none⟩
    | .error reason => ⟨e.description, some reason⟩

/-- Checks a fixture that is read from a file. -/
def checkFile (read : Text → Except Text Expectations) (content : Except Text Text) : Verdict :=
  match content with
  | .error reason => ⟨none, some ("cannot read file: " ++ reason)⟩
  | .ok t => check read t

end Runbook.Fixture
