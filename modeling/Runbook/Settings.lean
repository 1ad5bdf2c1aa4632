import Runbook.Text.Basic

/-!
# Settings

How commands are executed, as far as a user can choose.  Settings are read from named fields of some
configuration; a field that is missing keeps its default, and a field of the wrong kind is refused.
-/

namespace Runbook

/-- How executions behave. -/
structure ExecutorSettings where
  /-- Ask before every execution, and not only before a dangerous one. -/
  confirmBeforeExecute : Bool
  /-- The session that commands are sent to. -/
  session : Text
  /-- How many milliseconds after its delivery a command counts as successful. -/
  completionDelay : Nat
deriving DecidableEq, Repr

/-- A configured value, as far as settings can tell values apart. -/
inductive FieldValue where
  | boolean (value : Bool)
  | text (value : Text)
  | whole (value : Int)
  /-- A value of a kind that no setting has. -/
  | other
deriving DecidableEq, Repr

namespace ExecutorSettings

/-- The settings of a user who has chosen nothing. -/
def default : ExecutorSettings :=
  { confirmBeforeExecute := false
    session := "Terminal Automator"
    completionDelay := 500 }

instance : Inhabited ExecutorSettings := ⟨default⟩

/-- A configured truth value. -/
def readBool? (standard : Bool) : Option FieldValue → Option Bool
  | none => some standard
  | some (.boolean value) => some value
  | some _ => none

/-- A configured text. -/
def readText? (standard : Text) : Option FieldValue → Option Text
  | none => some standard
  | some (.text value) => some value
  | some _ => none

/-- The largest number that a setting can hold. -/
def largestNumber : Nat := 0xFFFFFFFFFFFFFFFF

/-- A configured number, which is not negative and fits into 64 bits. -/
def readNumber? (standard : Nat) : Option FieldValue → Option Nat
  | none => some standard
  | some (.whole (.ofNat value)) => if value ≤ largestNumber then some value else none
  | some _ => none

/-- The settings that some fields configure, unless one of them is of the wrong kind. -/
def read? (field? : Text → Option FieldValue) : Option ExecutorSettings := do
  let confirmBeforeExecute ←
    readBool? default.confirmBeforeExecute (field? "confirm_before_execute")
  let session ← readText? default.session (field? "session")
  let completionDelay ← readNumber? default.completionDelay (field? "completion_delay_ms")
  return { confirmBeforeExecute, session, completionDelay }

end ExecutorSettings

end Runbook
