import Runbook.Settings

/-!
# Configuration

A user can configure the settings of executions and the name of the shell.
-/

namespace Runbook

/-- What a user configures. -/
structure Config where
  executor : ExecutorSettings
  /-- The program that takes the commands of a session. -/
  shell : Text
deriving DecidableEq, Repr

namespace Config

/-- The configuration of a user who has configured nothing. -/
def default : Config := ⟨.default, "sh"⟩

instance : Inhabited Config := ⟨default⟩

end Config

end Runbook
