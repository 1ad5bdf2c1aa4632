import Runbook.Book
import Runbook.DenyList
import Runbook.Reference
import Runbook.Settings
import Runbook.Status

/-!
# Executions

An execution takes a block from the request of a user to a shell.  It stops wherever it waits for
something outside: the answer to a question, the reply of the sink that takes commands, the end of
the completion delay.  Each of these is a step of its own, so that several executions can take turns
on one store:

- `start` asks first, if the settings say so, and else marks the block as pending;
- `answered` goes on with the answer to a question;
- `delivered` goes on with the reply of the sink;
- `settled` records the success of a command after the delay.

`run` takes all steps in a row.
-/

namespace Runbook

/-- The document that commands are executed from. -/
structure Document where
  /-- What identifies the document in the keys of its blocks. -/
  uri : Text
  text : Text
deriving DecidableEq, Repr, Inhabited

namespace Document

/-- The blocks of the document. -/
def book (d : Document) : Book := Book.parse d.text 0

end Document

/-- What is needed to execute a block, captured when the block was shown. -/
structure ExecuteRequest where
  /-- The body of the block as it was shown. -/
  command : Text
  key : BlockKey
  /-- The variables of the document as they were then. -/
  declared : VariableTable
deriving DecidableEq, Inhabited

/-! ## Ways to end -/

/-- Why a command could not be handed to a session. -/
inductive SinkError where
  /-- The shell of the session did not start. -/
  | spawn (shell session reason : Text)
  /-- The session takes no more input. -/
  | closed (session : Text)
  /-- The command could not be written. -/
  | write (session reason : Text)
deriving DecidableEq, Repr

/-- The error in words. -/
def SinkError.message : SinkError → Text
  | .spawn shell session reason =>
    "failed to start `" ++ shell ++ "` for session `" ++ session ++ "`: " ++ reason
  | .closed session => "session `" ++ session ++ "` no longer accepts input"
  | .write session reason => "failed to write to session `" ++ session ++ "`: " ++ reason

/-- Why an execution failed. -/
inductive ExecutionError where
  /-- The block could not be expanded. -/
  | expansion (error : IncludeError)
  /-- There is no document to execute from. -/
  | noDocument
  /-- No live block of the document has the command as its body. -/
  | noMatchingBlock
  /-- The command could not be delivered. -/
  | sink (error : SinkError)
deriving DecidableEq, Repr

/-- The error in words. -/
def ExecutionError.message : ExecutionError → Text
  | .expansion error => error.message
  | .noDocument => "no active document"
  | .noMatchingBlock => "no matching block found for execution"
  | .sink error => error.message

/-- How an execution ended without an error. -/
inductive Outcome where
  /-- This command was delivered. -/
  | executed (command : Text)
  /-- The user declined. -/
  | cancelled
deriving DecidableEq, Repr

/-- What an execution comes to. -/
abbrev ExecutionResult := Except ExecutionError Outcome

/-- Takes a command for a session, or refuses it. -/
abbrev Sink := (session command : Text) → Except SinkError Unit

/-! ## Questions -/

/-- The number of characters of a command that a question shows. -/
def previewLength : Nat := 100

/-- The question before a command is executed, which shows the front of the command. -/
def confirmationPrompt (command : Text) : Text :=
  "Are you sure you want to execute: " ++ command.take previewLength ++
    if previewLength < command.length then ("..." : Text) else []

/-- The answers that a user is going to give. -/
inductive Answers where
  /-- The same answer to every question. -/
  | always (answer : Bool)
  /-- These answers one after another, and then no to everything. -/
  | inOrder (answers : List Bool)
deriving DecidableEq, Repr

/-- The answer to the next question, and the answers that remain. -/
def Answers.next : Answers → Bool × Answers
  | .always answer => (answer, .always answer)
  | .inOrder [] => (false, .inOrder [])
  | .inOrder (answer :: rest) => (answer, .inOrder rest)

/-! ## Steps -/

/-- An execution: the request and all that it depends on. -/
structure Execution where
  request : ExecuteRequest
  document : Option Document
  settings : ExecutorSettings
  environment : Environment

/-- Where an execution stands between two steps. -/
inductive Phase where
  /-- The question before any execution is open. -/
  | confirming
  /-- The question before a dangerous command is open. The block had the `previous` record. -/
  | warned (previous : Option ExecutionRecord)
  /-- The expanded command is on its way to the sink. -/
  | sending (command : Text)
  /-- The command was delivered and the delay is running. -/
  | settling (command : Text)
  | ended (result : ExecutionResult)

/-- What an execution came to, if it has ended. -/
def Phase.result? : Phase → Option ExecutionResult
  | .ended result => some result
  | _ => none

namespace Execution

/-- The key of the block that is executed. -/
def key (x : Execution) : BlockKey := x.request.key

/-- The text to deliver for a command: the live block with this body, expanded. -/
def expand (x : Execution) (command : Text) : Except ExecutionError Text :=
  match x.document with
  | none => .error .noDocument
  | some document =>
    let book := document.book
    match book.findByCommand? command with
    | none => .error .noMatchingBlock
    | some name =>
      match book.expandBlock name with
      | .error e => .error (.expansion e)
      | .ok text => .ok (Reference.expand text x.request.declared x.environment)

/-- Ends with an error, which is recorded. -/
def fail (x : Execution) (now : Instant) (e : ExecutionError) (store : StatusStore) :
    Phase × StatusStore :=
  (.ended (.error e), store.setResult now x.key false)

/-- Expands a command that nothing speaks against, and sends it off. -/
def prepare (x : Execution) (now : Instant) (command : Text) (store : StatusStore) :
    Phase × StatusStore :=
  match x.expand command with
  | .error e => x.fail now e store
  | .ok text => (.sending text, store)

/-- Marks the block as pending and asks before a dangerous command. -/
def proceed (x : Execution) (now : Instant) (store : StatusStore) : Phase × StatusStore :=
  let pending := store.setPending now x.key
  match DenyList.sanitize x.request.command with
  | .error _ => (.warned (store.get? x.key), pending)
  | .ok command => x.prepare now command pending

/-- The first step. -/
def start (x : Execution) (now : Instant) (store : StatusStore) : Phase × StatusStore :=
  if x.settings.confirmBeforeExecute then (.confirming, store) else x.proceed now store

/-- The question that is open in a phase. -/
def prompt? (x : Execution) : Phase → Option Text
  | .confirming | .warned _ => some (confirmationPrompt x.request.command)
  | _ => none

/-- The step behind a question. A no to a dangerous command puts back the record from before. -/
def answered (x : Execution) (now : Instant) (yes : Bool) (phase : Phase) (store : StatusStore) :
    Phase × StatusStore :=
  match phase with
  | .confirming => if yes then x.proceed now store else (.ended (.ok .cancelled), store)
  | .warned previous =>
    if yes then x.prepare now x.request.command store
    else (.ended (.ok .cancelled), store.restore x.key previous)
  | phase => (phase, store)

/-- The step behind the reply of the sink. -/
def delivered (x : Execution) (now : Instant) (reply : Except SinkError Unit) (phase : Phase)
    (store : StatusStore) : Phase × StatusStore :=
  match phase with
  | .sending command =>
    match reply with
    | .ok () => (.settling command, store)
    | .error e => x.fail now (.sink e) store
  | phase => (phase, store)

/-- The step behind the delay. -/
def settled (x : Execution) (now : Instant) (phase : Phase) (store : StatusStore) :
    Phase × StatusStore :=
  match phase with
  | .settling command => (.ended (.ok (.executed command)), store.setResult now x.key true)
  | phase => (phase, store)

/-! ## All steps in a row -/

/-- How far an execution has come, and what it has done on its way. -/
structure Progress where
  phase : Phase
  store : StatusStore
  /-- The answers that have not been used. -/
  answers : Answers
  /-- The questions that were asked. -/
  prompts : List Text
  /-- The sessions and commands that the sink took. -/
  sent : List (Text × Text)

/-- Asks the question that is open, if there is one. -/
def ask (x : Execution) (now : Instant) (p : Progress) : Progress :=
  match x.prompt? p.phase with
  | none => p
  | some prompt =>
    let (yes, answers) := p.answers.next
    let (phase, store) := x.answered now yes p.phase p.store
    { p with phase, store, answers, prompts := p.prompts ++ [prompt] }

/-- Hands the command that is on its way to the sink. -/
def deliver (x : Execution) (now : Instant) (sink : Sink) (p : Progress) : Progress :=
  match p.phase with
  | .sending command =>
    let session := x.settings.session
    let reply := sink session command
    let (phase, store) := x.delivered now reply p.phase p.store
    { p with
      phase
      store
      sent := p.sent ++ if reply.toBool then [(session, command)] else [] }
  | _ => p

/-- All steps up to the answers to all questions, of which there are at most two. -/
def consult (x : Execution) (now : Instant) (answers : Answers) (store : StatusStore) : Progress :=
  let (phase, store) := x.start now store
  x.ask now (x.ask now ⟨phase, store, answers, [], []⟩)

/-- All steps up to the delay or the end. -/
def runToDelay (x : Execution) (now : Instant) (sink : Sink) (answers : Answers)
    (store : StatusStore) : Progress :=
  x.deliver now sink (x.consult now answers store)

/-- Lets the delay pass. -/
def settle (x : Execution) (now : Instant) (p : Progress) : Progress :=
  let (phase, store) := x.settled now p.phase p.store
  { p with phase, store }

/-- All steps. -/
def run (x : Execution) (now : Instant) (sink : Sink) (answers : Answers) (store : StatusStore) :
    Progress :=
  x.settle now (x.runToDelay now sink answers store)

end Execution

end Runbook
