import Runbook.Text.Basic

/-!
# Diagnostics

A diagnostic says what is odd or wrong at one place of a runbook.
-/

namespace Runbook

/-- How bad a finding is. -/
inductive Severity where
  | warning
  | error
deriving DecidableEq, Repr, Inhabited

/-- The word for a severity. -/
def Severity.name : Severity → Text
  | .warning => "warning"
  | .error => "error"

/-- A finding at a place of a source. -/
structure Diagnostic where
  severity : Severity
  message : Text
  /-- The place that the finding is about. -/
  span : Span
  /-- The number of the source that the place lies in. -/
  fileId : Nat
  /-- Further remarks. -/
  notes : List Text
deriving DecidableEq, Repr, Inhabited

namespace Diagnostic

/-- Whether the finding is no error. -/
def isWarning (d : Diagnostic) : Bool := d.severity = .warning

end Diagnostic

end Runbook
