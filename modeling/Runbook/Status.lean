import Runbook.Block
import Runbook.Table

/-!
# Status

The status store holds, for each block, the record of its latest execution.  Every change of the
store is also sent to the subscriptions, in two steps: the records change first (`update`), then the
change is broadcast (`broadcast`).

A subscription keeps the last 64 changes that nobody has read yet and counts those that it lost.
-/

namespace Runbook

/-- A point in time, in milliseconds. -/
abbrev Instant := Int

/-- How an execution stands. -/
inductive ExecutionState where
  | pending
  | success
  | failure
deriving DecidableEq, Repr, Inhabited

/-- The word for a state. -/
def ExecutionState.name : ExecutionState → Text
  | .pending => "pending"
  | .success => "success"
  | .failure => "failure"

/-- The latest execution of a block. -/
structure ExecutionRecord where
  state : ExecutionState
  /-- When the record was made. -/
  time : Instant
deriving DecidableEq, Repr, Inhabited

/-- The age of a record in whole seconds. A record from the future has the age 0. -/
def ExecutionRecord.age (r : ExecutionRecord) (now : Instant) : Nat := (now - r.time).toNat / 1000

/-- A change of the store: the record of a key as the change left it. -/
structure StatusChange where
  key : BlockKey
  record : Option ExecutionRecord
deriving DecidableEq, Repr, Inhabited

/-! ## Subscriptions -/

/-- The changes on their way to a reader. -/
structure Subscription where
  /-- The changes that wait to be read, the oldest one first. -/
  waiting : List StatusChange
  /-- How many changes were lost before the oldest one that waits. -/
  lost : Nat
deriving DecidableEq, Repr, Inhabited

namespace Subscription

/-- The number of changes that a subscription can hold. -/
def capacity : Nat := 64

/-- A subscription to which nothing has been sent. -/
def fresh : Subscription := ⟨[], 0⟩

/-- The subscription after one more change. A full one loses its oldest change. -/
def push (s : Subscription) (change : StatusChange) : Subscription :=
  if s.waiting.length < capacity then { s with waiting := s.waiting ++ [change] }
  else ⟨s.waiting.tail ++ [change], s.lost + 1⟩

/-- What a reader gets. -/
inductive Received where
  /-- So many changes were lost. -/
  | lagged (count : Nat)
  | change (change : StatusChange)
deriving DecidableEq, Repr

/-- Everything that waits, behind the number of changes lost, if any. -/
def receive (s : Subscription) : List Received :=
  (if s.lost = 0 then [] else [.lagged s.lost]) ++ s.waiting.map .change

end Subscription

/-! ## The store -/

/-- The records of executions and those who follow them. -/
structure StatusStore where
  records : Table BlockKey ExecutionRecord
  /-- The subscriptions by the names of their readers. -/
  subscriptions : Table Text Subscription
deriving DecidableEq, Inhabited

namespace StatusStore

/-- The store without records. -/
def empty : StatusStore := ⟨Table.empty, Table.empty⟩

/-- The record of a key. -/
def get? (s : StatusStore) (key : BlockKey) : Option ExecutionRecord := s.records.get? key

/-- All records, in the order of their keys. -/
def snapshot (s : StatusStore) : List (BlockKey × ExecutionRecord) :=
  s.records.entries.mergeSort fun a b => BlockKey.le a.1 b.1

/-- Sets or removes the record of a key. -/
def update (s : StatusStore) (key : BlockKey) (record : Option ExecutionRecord) : StatusStore :=
  match record with
  | some record => { s with records := s.records.insert key record }
  | none => { s with records := s.records.erase key }

/-- Sends a change to all subscriptions. -/
def broadcast (s : StatusStore) (change : StatusChange) : StatusStore :=
  { s with subscriptions := s.subscriptions.map fun sub => sub.push change }

/-- Sets or removes the record of a key and tells the subscriptions. -/
def write (s : StatusStore) (key : BlockKey) (record : Option ExecutionRecord) : StatusStore :=
  (s.update key record).broadcast ⟨key, record⟩

/-- Marks a key as being executed. -/
def setPending (s : StatusStore) (now : Instant) (key : BlockKey) : StatusStore :=
  s.write key (some ⟨.pending, now⟩)

/-- Records the end of an execution. -/
def setResult (s : StatusStore) (now : Instant) (key : BlockKey) (success : Bool) : StatusStore :=
  s.write key (some ⟨if success then .success else .failure, now⟩)

/-- Forgets the record of a key. -/
def clear (s : StatusStore) (key : BlockKey) : StatusStore := s.write key none

/-- Puts back what was known of a key earlier. -/
def restore (s : StatusStore) (key : BlockKey) (record : Option ExecutionRecord) : StatusStore :=
  s.write key record

/-- Starts a subscription, in place of an earlier one of the same reader. -/
def subscribe (s : StatusStore) (reader : Text) : StatusStore :=
  { s with subscriptions := s.subscriptions.insert reader .fresh }

/-- Takes everything that waits for a reader, if there is a subscription. -/
def receive? (s : StatusStore) (reader : Text) :
    Option (List Subscription.Received × StatusStore) :=
  (s.subscriptions.get? reader).map fun sub =>
    (sub.receive, { s with subscriptions := s.subscriptions.insert reader .fresh })

@[simp] theorem get?_broadcast (s : StatusStore) (change : StatusChange) (key : BlockKey) :
    (s.broadcast change).get? key = s.get? key := rfl

/-- A write sets the record of one key and of no other. -/
@[simp] theorem get?_write (s : StatusStore) (key k : BlockKey)
    (record : Option ExecutionRecord) :
    (s.write key record).get? k = if k = key then record else s.get? k := by
  cases record <;> simp [write, update, get?, broadcast]

@[simp] theorem get?_setPending (s : StatusStore) (now : Instant) (key k : BlockKey) :
    (s.setPending now key).get? k = if k = key then some ⟨.pending, now⟩ else s.get? k :=
  get?_write ..

@[simp] theorem get?_setResult (s : StatusStore) (now : Instant) (key k : BlockKey)
    (success : Bool) :
    (s.setResult now key success).get? k =
      if k = key then some ⟨if success then .success else .failure, now⟩ else s.get? k :=
  get?_write ..

@[simp] theorem get?_clear (s : StatusStore) (key k : BlockKey) :
    (s.clear key).get? k = if k = key then none else s.get? k :=
  get?_write ..

@[simp] theorem get?_restore (s : StatusStore) (key k : BlockKey)
    (record : Option ExecutionRecord) :
    (s.restore key record).get? k = if k = key then record else s.get? k :=
  get?_write ..

end StatusStore

end Runbook
