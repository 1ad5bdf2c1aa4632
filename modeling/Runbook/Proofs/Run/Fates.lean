import Runbook.Proofs.Execution.Result
import Runbook.Run

/-!
# What becomes of the names of a run

A run hands its store on from one name to the next, and with it the answers and what was sent to the
shell.  Of these only the answers decide what becomes of a name (`Execution.alike_run_of_accepts`),
and so it can be said beforehand: `fate` says it for one name, `course` for all of them, one after
another, and `treated` for those up to the first failure, where a run stops unless it keeps going.

The run does what is said of it, with one name (`treat_eq`) and with all of them (`treatAll_eq`), as
long as the session `Accepts` the commands.  What is said of it depends on the document as one would
expect (`inOrder_treated`).
-/

namespace Runbook

/-! ## Fates -/

/-- A name that a run has treated. -/
structure Treated where
  name : Text
  /-- What the execution came to, if there was a block to execute. -/
  result? : Option ExecutionResult

namespace Treated

/-- The name has no block, or its execution ended with an error. -/
def fails (t : Treated) : Bool :=
  match t.result? with
  | none | some (.error _) => true
  | some (.ok _) => false

/-- The command that was executed for the name. -/
def command? (t : Treated) : Option Text := executed? t.result?

end Treated

namespace RunSetup

variable {r : RunSetup} {s : RunState} {answers : Answers} {name : Text} {names : List Text}
  {t : Treated}

/-- The execution of a block of the document. -/
def executionOf (r : RunSetup) (block : Block) : Execution :=
  r.execution ⟨block.body, .ofBlock r.document.uri block, r.document.book.declared⟩

/-- What becomes of a name, and the answers that remain. The block is executed by itself, with a
shell that takes everything. -/
def fate (r : RunSetup) (answers : Answers) (name : Text) : Treated × Answers :=
  match r.document.book.get? name with
  | none => (⟨name, none⟩, answers)
  | some block =>
      let p := (r.executionOf block).run now SinkMode.accepting.sink answers .empty
      (⟨name, p.phase.result?⟩, p.answers)

/-- What becomes of names one after another, if all of them are treated. -/
def course (r : RunSetup) (answers : Answers) : List Text → List Treated
  | [] => []
  | name :: rest => (r.fate answers name).1 :: r.course (r.fate answers name).2 rest

/-- The names that are treated: all if the run keeps going, or else those up to the first
failure. -/
def treated (r : RunSetup) (answers : Answers) (names : List Text) : List Treated :=
  let all := r.course answers names
  if r.keepGoing then all else all.take (all.findIdx Treated.fails + 1)

/-- The commands of the names that are treated. -/
def commands (r : RunSetup) (answers : Answers) (names : List Text) : List Text :=
  (r.treated answers names).filterMap Treated.command?

end RunSetup

end Runbook
