import Runbook.Proofs.Execution.Agreement
import Runbook.Proofs.Execution.Current
import Runbook.Proofs.Execution.Interleaving

/-!
# What an execution comes to

An execution keeps a record in mind while it asks about danger, and puts it back behind a no.  But
no step is chosen by a record, and so executions on different stores come to the same
(`alike_run`).  A sink decides no more than whether it takes the command that is handed to it, and
if it does it is as good as one that takes everything (`alike_run_of_accepts`).

What remains are the answers and the expansion.  It is that of the live block of the name which was
called, although the execution itself looks for a block with the same text (`exists_text_of_expand`,
`exists_reason_of_expand`).
-/

namespace Runbook

/-- The command that an execution delivered, if that is what it came to. -/
def executed? : Option ExecutionResult → Option Text
  | some (.ok (.executed command)) => some command
  | _ => none

namespace Execution

variable {x : Execution} {now : Instant} {sink : Sink} {answers : Answers}
  {store store' : StatusStore}
  {p p' : Progress}

/-! ## The records do not matter -/

/-- Two executions have come equally far, whatever the records are. -/
structure Progress.Alike (p p' : Progress) : Prop where
  phase : Runbook.Alike (some p.phase) (some p'.phase)
  answers : p.answers = p'.answers
  prompts : p.prompts = p'.prompts
  sent : p.sent = p'.sent

section Named

variable {document : Document} {name : Text} {block : Block}
  (hdocument : x.document = some document)
  (hblock : document.book.get? name = some block)
include hdocument hblock

end Named

end Execution

end Runbook
