import Runbook.FileTree
import Runbook.Lens

/-!
# Running blocks

A run executes blocks by their names, from left to right, and hands their commands to one shell.  A
name fails if no block has it or if its execution fails; a block that the user declines is skipped.
The first failure ends the run, unless it is to keep going.

The shell is a program of its own.  It is known by what it answers when commands are written to it,
and by what it has left behind at its end (`ShellProgram`).
-/

namespace Runbook

/-! ## Shells -/

/-- What became of a command that was sent to a session: it was taken, or refused. -/
abbrev Sending := Except SinkError Text

namespace Sending

/-- What was sent for an execution, by what it came to. -/
def ofResult : ExecutionResult → List Sending
  | .ok (.executed command) => [.ok command]
  | .error (.sink e) => [.error e]
  | _ => []

/-- Whether there is a shell, behind what was sent. It stays once it has started. -/
def isRunning (sent : List Sending) : Bool :=
  sent.any fun
    | .error (.spawn ..) => false
    | _ => true

end Sending

/-- How a shell has ended. -/
inductive ExitStatus where
  | exited (code : Nat)
  /-- Something else has ended it, as the system says. -/
  | killed (description : Text)
  /-- The system does not say how it has ended. -/
  | unknown (reason : Text)
deriving DecidableEq, Repr

/-- Whether a shell has ended well. -/
def ExitStatus.isSuccess (s : ExitStatus) : Bool := s = .exited 0

/-- What a shell leaves behind. -/
structure ShellEnd where
  status : ExitStatus
  /-- What it printed to standard output. -/
  out : Text
  /-- What it printed to standard error. -/
  err : Text
  /-- The files that it leaves. -/
  tree : FileTree

/-- A program as the shell of a session.  All that it does may depend on what was sent before. -/
structure ShellProgram where
  /-- Whether it starts, or why not. -/
  start : (sent : List Sending) → Except Text Unit
  /-- Whether one more command can be written to it, or why not. -/
  write : (sent : List Sending) → (command : Text) → Except Text Unit
  /-- What it leaves behind when there is nothing more to come. -/
  finish : (sent : List Sending) → ShellEnd

/-- A program that is not there. -/
def ShellProgram.missing : ShellProgram :=
  { start _ := .error "No such file or directory (os error 2)"
    write _ _ := .ok ()
    finish _ := ⟨.exited 0, [], [], .empty⟩ }

/-- Sends one more command to a shell, which is started if it does not run. -/
def ShellProgram.send (p : ShellProgram) (name : Text) (sent : List Sending) : Sink :=
  fun session command => do
    if !Sending.isRunning sent then
      (p.start sent).mapError (.spawn name session)
    (p.write sent command).mapError (.write session)

/-- What the shell leaves behind when there is nothing more to come, if it was started. -/
def ShellProgram.remains? (p : ShellProgram) (sent : List Sending) : Option ShellEnd :=
  if Sending.isRunning sent then some (p.finish sent) else none

/-! ## Runs -/

/-- What a run depends on. -/
structure RunSetup where
  document : Document
  settings : ExecutorSettings
  environment : Environment
  /-- Whether every question is answered with yes instead of being asked. -/
  assumeYes : Bool
  /-- Whether the run goes on behind a failure. -/
  keepGoing : Bool
  /-- What the session replies to one more command, behind what was sent. -/
  reply : (sent : List Sending) → Sink

/-- How far a run has come. -/
structure RunState where
  store : StatusStore
  answers : Answers
  /-- What was sent to the shell, in order. -/
  sent : List Sending
  failed : Bool
  /-- What was printed for the user. -/
  messages : Text

namespace RunSetup

/-- The moment at which a run takes place. -/
def now : Instant := 0

/-- The reader who prints the changes of the store. -/
def watcher : Text := "watcher"

/-- The lenses that the blocks are executed from. -/
def lenses (r : RunSetup) : List Lens := r.document.lenses .empty now

/-- The request of a name: that of the last lens which bears it. -/
def request? (r : RunSetup) (name : Text) : Option ExecuteRequest :=
  (r.lenses.reverse.find? (·.name = name)).bind Lens.executeRequest?

/-- The names of the executable blocks, for a user who has named another one. -/
def availableBlocks (book : Book) : Text :=
  match book.executableBlocks.map Block.name with
  | [] => "none"
  | names => Text.join ", " names

/-- The error about a name that no block has. -/
def unknownBlock (book : Book) (name : Text) : Text :=
  "error: no block named '" ++ name ++ "' (available blocks: " ++ availableBlocks book ++ ")\n"

/-- The line about a change of the store, unless a record was removed. -/
def changeLine (r : RunSetup) (change : StatusChange) : Text :=
  match r.lenses.reverse.find? (·.key = change.key), change.record with
  | some lens, some record =>
    "[" ++ lens.name ++ "] " ++ (Affordance.ofState change.key record.state).title ++ "\n"
  | _, _ => []

/-- The lines about what a reader of the store received. -/
def receivedLines (r : RunSetup) (received : List Subscription.Received) : Text :=
  received.flatMap fun
    | .change change => r.changeLine change
    | .lagged _ => []

/-- The execution of a request. -/
def execution (r : RunSetup) (request : ExecuteRequest) : Execution :=
  { request
    document := some r.document
    settings := r.settings
    environment := r.environment }

/-- The beginning of a run. -/
def begin (answers : Answers) : RunState :=
  { store := StatusStore.empty.subscribe watcher
    answers
    sent := []
    failed := false
    messages := [] }

/-- The line about the end of an execution. -/
def resultLine (name : Text) : ExecutionResult → Text
  | .ok (.executed _) => []
  | .ok .cancelled => "cancelled: " ++ name ++ "\n"
  | .error e => "Error executing command: " ++ e.message ++ "\n"

/-- Treats one name. -/
def treat (r : RunSetup) (s : RunState) (name : Text) : RunState :=
  match r.request? name with
  | none =>
    { s with failed := true, messages := s.messages ++ unknownBlock r.document.book name }
  | some request =>
    let p := (r.execution request).run now (r.reply s.sent) s.answers s.store
    let (received, store) := (p.store.receive? watcher).getD ([], p.store)
    let prompts := if r.assumeYes then [] else p.prompts.flatMap (· ++ " [y/N] ".toList)
    let result := p.phase.result?.getD (.ok .cancelled)
    { store
      answers := p.answers
      sent := s.sent ++ Sending.ofResult result
      failed := s.failed || !result.toBool
      messages := s.messages ++ prompts ++ r.receivedLines received ++ resultLine name result }

/-- Treats names from left to right. -/
def treatAll (r : RunSetup) (s : RunState) : List Text → RunState
  | [] => s
  | name :: rest =>
    let next := r.treat { s with failed := false } name
    let state := { next with failed := s.failed || next.failed }
    if next.failed && !r.keepGoing then state else treatAll r state rest

/-- Runs the blocks of some names. The answers are those of the user, if there are questions. -/
def run (r : RunSetup) (answers : Answers) (names : List Text) : RunState :=
  r.treatAll (begin (if r.assumeYes then .always true else answers)) names

end RunSetup

/-- The commands that the shell took, in order. -/
def RunState.taken (s : RunState) : List Text := s.sent.filterMap Except.toOption

/-- What a run writes to its shell: each command with a line ending. -/
def RunState.written (s : RunState) : Text := Text.unlines s.taken

end Runbook
