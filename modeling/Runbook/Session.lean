import Runbook.Lens

/-!
# Sessions

A session is one user at work: a document that can change, a store of records, executions that run
beside each other and a clock that moves only when the user waits.  Nothing takes time except the
completion delay, and records are made at one moment of the wall clock.

Executions end in the order in which their delays end.  Of those that end at the same time the one
that the user waits for comes first, and then the others in the order in which they were started.
-/

namespace Runbook

/-- What happens to the commands that are sent. -/
inductive SinkMode where
  | accepting
  | closed
  | failingToSpawn
  | failingToWrite
deriving DecidableEq, Repr

/-- The sink of a mode. -/
def SinkMode.sink : SinkMode → Sink
  | .accepting, _, _ => .ok ()
  | .closed, session, _ => .error (.closed session)
  | .failingToSpawn, session, _ => .error (.spawn "zsh" session "no such shell")
  | .failingToWrite, session, _ => .error (.write session "pipe broke")

/-- An execution beside others. -/
structure Started where
  id : Text
  execution : Execution
  phase : Phase
  /-- When its delay ends. -/
  due : Nat

/-- A user at work. -/
structure Session where
  document : Document
  settings : ExecutorSettings
  environment : Environment
  /-- The answers that the user is going to give. -/
  answers : Answers
  sinkMode : SinkMode
  store : StatusStore
  /-- The clock, in milliseconds. -/
  clock : Nat
  /-- The executions that were started and not listed as ended, in the order of their start. -/
  started : List Started
  /-- Requests captured for later. -/
  requests : Table Text ExecuteRequest
  /-- Records, or their absence, saved for later. -/
  slots : Table Text (Option ExecutionRecord)

/-- Where the request of a step comes from. -/
inductive RequestSource where
  /-- The request captured under this name. -/
  | captured (id : Text)
  /-- The request of the live block of this name. -/
  | block (name : Text)
  /-- An empty request. -/
  | blank

/-- A request, with parts of it replaced. -/
structure RequestSpec where
  source : RequestSource
  command : Option Text
  key : Option BlockKey
  declared : Option VariableTable

/-- What a user restores a record to. -/
inductive RestoreSource where
  /-- What was saved in this slot. -/
  | slot (name : Text)
  /-- A record of this age in seconds, which is negative for a record from the future. -/
  | record (state : ExecutionState) (age : Int)
  /-- No record. -/
  | absent

/-- What a user does. -/
inductive SessionStep where
  | setDocument (uri : Option Text) (text : Text)
  | render
  | capture (id : Text) (request : RequestSpec)
  /-- Execute to the end, with the document or without any. -/
  | execute (request : RequestSpec) (withDocument : Bool)
  /-- Execute up to the delay, beside whatever comes next. -/
  | start (id : Text) (request : RequestSpec) (withDocument : Bool)
  | advance (milliseconds : Nat)
  | setSink (mode : SinkMode)
  | setPending (key : BlockKey)
  | setResult (key : BlockKey) (success : Bool)
  | clear (key : BlockKey)
  /-- Clear a record, without asking what it was. -/
  | dismiss (key : BlockKey)
  | get (key : BlockKey)
  | save (key : BlockKey) (slot : Text)
  | restore (key : BlockKey) (source : RestoreSource)
  | subscribe (id : Text)
  | receive (id : Text)

/-- What a user sees of a step. -/
inductive StepAnswer where
  | nothing
  | lenses (lenses : List Lens)
  | request (request : ExecuteRequest)
  | executed (result : ExecutionResult) (prompts : List Text) (sent : List (Text × Text))
  | started (finished : List (Text × ExecutionResult)) (prompts : List Text)
      (sent : List (Text × Text))
  | finished (finished : List (Text × ExecutionResult))
  | previous (record : Option ExecutionRecord)
  | current (record : Option ExecutionRecord)
  | saved (record : Option ExecutionRecord)
  | restored (record : Option ExecutionRecord)
  | received (changes : List Subscription.Received)
  | noRequest
  | noSubscriber

namespace Session

/-- The moment of the wall clock at which a session takes place. -/
def now : Instant := 0

/-- A session at its beginning. -/
def begin (document : Document) (settings : ExecutorSettings) (environment : Environment)
    (answers : Answers) : Session :=
  { document, settings, environment, answers
    sinkMode := .accepting
    store := .empty
    clock := 0
    started := []
    requests := .empty
    slots := .empty }

/-- The request that a step means. -/
def request? (s : Session) (spec : RequestSpec) : Option ExecuteRequest := do
  let base ←
    match spec.source with
    | .captured id => s.requests.get? id
    | .block name => s.document.request? s.store now name
    | .blank => some ⟨[], ⟨[], 0⟩, .empty⟩
  return { command := spec.command.getD base.command
           key := spec.key.getD base.key
           declared := spec.declared.getD base.declared }

/-- The execution of a request, as the session stands. -/
def execution (s : Session) (request : ExecuteRequest) (withDocument : Bool) : Execution :=
  { request
    document := if withDocument then some s.document else none
    settings := s.settings
    environment := s.environment }

/-! ## Time -/

/-- Whether an execution waits for a delay that is over at some time. -/
def isDue (time : Nat) (e : Started) : Bool := e.phase.result?.isNone && e.due ≤ time

/-- The executions whose delay is over at some time, in the order in which they end. -/
def dueAt (time : Nat) (started : List Started) : List Started :=
  (started.filter (isDue time)).mergeSort fun a b => a.due ≤ b.due

/-- The store after the ends of some executions. -/
def settleAll (ends : List Started) (store : StatusStore) : StatusStore :=
  ends.foldl (fun store e => (e.execution.settled now e.phase store).2) store

/-- The execution behind its delay, if the delay is over at some time. -/
def settleIfDue (time : Nat) (store : StatusStore) (e : Started) : Started :=
  if isDue time e then { e with phase := (e.execution.settled now e.phase store).1 } else e

/-- Moves the clock and ends the executions whose delay is over. -/
def advanceTo (s : Session) (time : Nat) : Session :=
  { s with
    clock := time
    store := settleAll (dueAt time s.started) s.store
    started := s.started.map (settleIfDue time s.store) }

/-- Lists the executions that have ended since they were listed last. -/
def takeFinished (s : Session) : List (Text × ExecutionResult) × Session :=
  (s.started.filterMap fun e => e.phase.result?.map fun r => (e.id, r),
    { s with started := s.started.filter fun e => e.phase.result?.isNone })

/-! ## Steps -/

/-- Executes a request up to the delay. -/
def runToDelay (s : Session) (x : Execution) : Execution.Progress :=
  x.runToDelay now s.sinkMode.sink s.answers s.store

/-- The delay that a phase waits for. -/
def delayOf (s : Session) : Phase → Nat
  | .settling _ => s.settings.completionDelay
  | _ => 0

/-- Executes a request up to its delay, and to the end if there is no delay. -/
def launch (s : Session) (id : Text) (request : ExecuteRequest) (withDocument : Bool) :
    List Text × List (Text × Text) × Session :=
  let x := s.execution request withDocument
  let p := s.runToDelay x
  let p := if s.delayOf p.phase = 0 then x.settle now p else p
  let entry : Started := ⟨id, x, p.phase, s.clock + s.delayOf p.phase⟩
  (p.prompts, p.sent,
    { s with store := p.store, answers := p.answers, started := s.started ++ [entry] })

/-- When an execution that begins now ends. -/
def endOf (s : Session) (x : Execution) : Nat := s.clock + s.delayOf (s.runToDelay x).phase

/-- The session right before an execution that begins now ends. What was started earlier and ends
before that moment has ended. -/
def beforeEnd (s : Session) (x : Execution) : Session :=
  let p := s.runToDelay x
  { s with store := p.store, answers := p.answers }.advanceTo (s.endOf x - 1)

/-- How an execution that begins now ends, and the store at that moment. -/
def ending (s : Session) (x : Execution) : Phase × StatusStore :=
  x.settled now (s.runToDelay x).phase (s.beforeEnd x).store

/-- Executes a request to its end. The clock moves by the delay. What was started earlier and ends
before that moment ends before the request, what ends at that very moment ends behind it. -/
def execute (s : Session) (request : ExecuteRequest) (withDocument : Bool) :
    StepAnswer × Session :=
  let x := s.execution request withDocument
  let p := s.runToDelay x
  let answer : StepAnswer :=
    match (s.ending x).1.result? with
    | some result => .executed result p.prompts p.sent
    | none => .nothing
  (answer, { s.beforeEnd x with store := (s.ending x).2 }.advanceTo (s.endOf x))

/-- Restores a record. -/
def restore (s : Session) (key : BlockKey) (source : RestoreSource) : StepAnswer × Session :=
  let record :=
    match source with
    | .slot name => (s.slots.get? name).getD none
    | .record state age => some ⟨state, now - age * 1000⟩
    | .absent => none
  (.restored record, { s with store := s.store.restore key record })

/-- One step of the user. -/
def step (s : Session) : SessionStep → StepAnswer × Session
  | .setDocument uri text => (.nothing, { s with document := ⟨uri.getD s.document.uri, text⟩ })
  | .render => (.lenses (s.document.lenses s.store now), s)
  | .capture id spec =>
    match s.request? spec with
    | none => (.noRequest, s)
    | some request => (.request request, { s with requests := s.requests.insert id request })
  | .execute spec withDocument =>
    match s.request? spec with
    | none => (.noRequest, s)
    | some request => s.execute request withDocument
  | .start id spec withDocument =>
    match s.request? spec with
    | none => (.noRequest, s)
    | some request =>
      let (prompts, sent, s) := s.launch id request withDocument
      let (finished, s) := s.takeFinished
      (.started finished prompts sent, s)
  | .advance milliseconds =>
    let (finished, s) := (s.advanceTo (s.clock + milliseconds)).takeFinished
    (.finished finished, s)
  | .setSink mode => (.nothing, { s with sinkMode := mode })
  | .setPending key =>
    (.previous (s.store.get? key), { s with store := s.store.setPending now key })
  | .setResult key success =>
    (.previous (s.store.get? key), { s with store := s.store.setResult now key success })
  | .clear key => (.previous (s.store.get? key), { s with store := s.store.clear key })
  | .dismiss key => (.nothing, { s with store := s.store.clear key })
  | .get key => (.current (s.store.get? key), s)
  | .save key slot =>
    let record := s.store.get? key
    (.saved record, { s with slots := s.slots.insert slot record })
  | .restore key source => s.restore key source
  | .subscribe id => (.nothing, { s with store := s.store.subscribe id })
  | .receive id =>
    match s.store.receive? id with
    | none => (.noSubscriber, s)
    | some (changes, store) => (.received changes, { s with store })

end Session

end Runbook
