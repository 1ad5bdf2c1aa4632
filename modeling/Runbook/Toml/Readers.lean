import Runbook.Config
import Runbook.Fixture.FrontMatter
import Runbook.Toml.Document

/-!
# Records in TOML documents

The two readers that the program is run with here: `readConfig` reads a configuration and
`readExpectations` reads front matter.  Every key but the block of a fixture may be missing, and
keys that mean nothing are passed over.  The program takes its readers as they are given to it, and
nothing that is proved of it depends on these.
-/

namespace Runbook.Toml

open Fixture (ExpectedWarning Expectations)

/-! ## Configurations -/

/-- What settings see of a value. -/
def fieldValue : Value → FieldValue
  | .text value => .text value
  | .whole value => .whole value
  | .boolean value => .boolean value
  | _ => .other

/-- The configuration in a document, unless the text is none or a value is of the wrong kind. -/
def readConfig (t : Text) : Except Text Config :=
  let config? : Option Config := do
    let entries ← parse? t
    let field? (name : Text) := (Value.find? name entries).map fieldValue
    let executor ← ExecutorSettings.read? field?
    let shell ← ExecutorSettings.readText? Config.default.shell (field? "shell")
    return { executor, shell }
  config?.elim (.error "the file is not valid") .ok

/-! ## Front matter -/

/-- A value that may be missing. -/
def readOptional? {α : Type} (read? : Value → Option α) : Option Value → Option (Option α)
  | none => some none
  | some v => (read? v).map some

/-- A text. -/
def readText? : Value → Option Text
  | .text t => some t
  | _ => none

/-- A truth value. -/
def readBool? : Value → Option Bool
  | .boolean b => some b
  | _ => none

/-- The number of a line. -/
def readLine? : Value → Option Nat
  | .whole (.ofNat n) => some n
  | _ => none

/-- Texts by name. A date stands for a table with one entry. -/
def readTexts? : Value → Option (List (Text × Text))
  | .table entries => entries.mapM fun (name, v) => (readText? v).map (name, ·)
  | .moment written => some [("$__toml_private_datetime", written)]
  | _ => none

/-- An expected warning: a table, or its values in a row. -/
def readWarning? : Value → Option ExpectedWarning
  | .table entries => do
    let contains ← (Value.find? "contains" entries).bind readText?
    let line ← readOptional? readLine? (Value.find? "line" entries)
    return { contains, line }
  | .array items => do
    let contains ← items.head?.bind readText?
    let line ← readOptional? readLine? items.tail.head?
    return { contains, line }
  | _ => none

/-- Expected warnings. -/
def readWarnings? : Value → Option (List ExpectedWarning)
  | .array items => items.mapM readWarning?
  | _ => none

/-- The expectations in front matter. The block has to be named; all else may be missing. -/
def readExpectations (frontMatter : Text) : Except Text Expectations :=
  let expectations? : Option Expectations := do
    let entries ← parse? frontMatter
    let find (name : Text) := Value.find? name entries
    let description ← readOptional? readText? (find "description")
    let block ← (find "block").bind readText?
    let env ← readOptional? readTexts? (find "env")
    let command ← readOptional? readText? (find "expect_command")
    let error ← readOptional? readText? (find "expect_error")
    let dangerous ← readOptional? readBool? (find "expect_dangerous")
    let warnings ← readOptional? readWarnings? (find "expect_warnings")
    return { description, block, env := env.getD [], command, error, dangerous, warnings }
  expectations?.elim (.error "the front matter is not valid") .ok

end Runbook.Toml
