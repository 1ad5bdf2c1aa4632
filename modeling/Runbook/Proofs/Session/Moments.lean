import Mathlib.Data.Multiset.Filter
import Mathlib.Logic.Relation
import Runbook.Proofs.Execution.Outcome
import Runbook.Session

/-!
# Who is pending

Executions overlap, and all of them write to one store.  What matters of a moment is the store and
the executions that wait for their delay (`Moment`).  Four things can happen to it (`Move`): an
execution begins and runs to its delay, the delay of an execution ends, somebody from outside clears
a record or sets a result, and the subscriptions change.  Which execution moves next is left open.

The invariant is `Owned`: every record that is pending belongs to an execution in flight.  Only the
beginning of an execution makes a record pending, and then it is in flight itself.  A user who
declines gets the old record back, which may be the pending one of another execution; this one is
still in flight.  And an execution that ends takes its own record out of the pending state, so that
no other record loses its owner.
-/

namespace Runbook

/-- What overlapping executions have come to at one moment. -/
structure Moment where
  store : StatusStore
  /-- The executions that have started and not ended. -/
  inFlight : Multiset Started

/-- Whether the record of a key is pending. -/
def StatusStore.IsPending (s : StatusStore) (key : BlockKey) : Prop :=
  ∃ record, s.get? key = some record ∧ record.state = .pending

/-! ## Which records are pending -/

namespace StatusStore

variable {s t : StatusStore} {key : BlockKey}

theorem isPending_congr (h : t.get? key = s.get? key) : t.IsPending key ↔ s.IsPending key := by
  rw [IsPending, IsPending, h]

/-- A record that is not pending takes the key out of the pending ones. -/
theorem isPending_write {k : BlockKey} {record : Option ExecutionRecord}
    (h : ∀ r, record = some r → r.state ≠ .pending) :
    (s.write k record).IsPending key ↔ key ≠ k ∧ s.IsPending key := by
  by_cases hkey : key = k
  · rw [IsPending, get?_write, if_pos hkey]
    constructor
    · rintro ⟨r, hr, hpending⟩
      exact absurd hpending (h r hr)
    · exact fun hother => absurd hkey hother.1
  · have hsame : (s.write k record).get? key = s.get? key := by rw [get?_write, if_neg hkey]
    rw [isPending_congr hsame]
    exact ⟨fun hpending => ⟨hkey, hpending⟩, fun hother => hother.2⟩

theorem isPending_setResult {now : Instant} {k : BlockKey} {success : Bool} :
    (s.setResult now k success).IsPending key ↔ key ≠ k ∧ s.IsPending key := by
  refine isPending_write fun r hr => ?_
  cases hr
  cases success <;> simp

theorem isPending_clear {k : BlockKey} :
    (s.clear k).IsPending key ↔ key ≠ k ∧ s.IsPending key :=
  isPending_write nofun

/-- The beginning of an execution makes no record pending but its own, and this only if it waits. -/
theorem isPending_of_runToDelay {x : Execution} {now : Instant} {sink : Sink} {answers : Answers}
    (h : (x.runToDelay now sink answers s).store.IsPending key) :
    s.IsPending key ∨ key = x.key ∧ (x.runToDelay now sink answers s).phase.result? = none := by
  obtain ⟨record, hrecord, hpending⟩ := h
  cases x.stopped_runToDelay now sink answers s with
  | delivered phase _ _ _ _ records =>
      by_cases hkey : key = x.key
      · refine Or.inr ⟨hkey, ?_⟩
        rw [phase]
        rfl
      · rw [records, if_neg hkey] at hrecord
        exact Or.inl ⟨record, hrecord, hpending⟩
  | failed _ _ _ _ records =>
      rw [records] at hrecord
      by_cases hkey : key = x.key
      · rw [if_pos hkey] at hrecord
        obtain rfl := Option.some.inj hrecord
        cases hpending
      · rw [if_neg hkey] at hrecord
        exact Or.inl ⟨record, hrecord, hpending⟩
  | declined _ _ _ records =>
      rw [records] at hrecord
      exact Or.inl ⟨record, hrecord, hpending⟩

end StatusStore

namespace Moment

/-- One thing that can happen, without a mark or a record that is put back from outside. -/
inductive Move : Moment → Moment → Prop where
  /-- An execution begins and comes to its delay. -/
  | depart {store : StatusStore} {inFlight : Multiset Started} {now : Instant} {sink : Sink}
      {answers : Answers} (e : Started)
      (phase : e.phase = (e.execution.runToDelay now sink answers store).phase)
      (waits : e.phase.result? = none) :
      Move ⟨store, inFlight⟩
        ⟨(e.execution.runToDelay now sink answers store).store, e ::ₘ inFlight⟩
  /-- An execution begins and comes to its end before it can wait. -/
  | stop {store : StatusStore} {inFlight : Multiset Started} {now : Instant} {sink : Sink}
      {answers : Answers} (x : Execution) {result : ExecutionResult}
      (ends : (x.runToDelay now sink answers store).phase.result? = some result) :
      Move ⟨store, inFlight⟩ ⟨(x.runToDelay now sink answers store).store, inFlight⟩
  /-- The delay of an execution ends. -/
  | arrive {store : StatusStore} {inFlight : Multiset Started} {now : Instant} (e : Started)
      {command : Text} (phase : e.phase = .settling command) :
      Move ⟨store, e ::ₘ inFlight⟩ ⟨(e.execution.settled now e.phase store).2, inFlight⟩
  /-- The record of a key is forgotten. -/
  | clear {store : StatusStore} {inFlight : Multiset Started} (key : BlockKey) :
      Move ⟨store, inFlight⟩ ⟨store.clear key, inFlight⟩
  /-- A result is recorded for a key. -/
  | setResult {store : StatusStore} {inFlight : Multiset Started} (now : Instant) (key : BlockKey)
      (success : Bool) : Move ⟨store, inFlight⟩ ⟨store.setResult now key success, inFlight⟩
  /-- No record changes. -/
  | idle {store next : StatusStore} {inFlight : Multiset Started}
      (records : ∀ key, next.get? key = store.get? key) : Move ⟨store, inFlight⟩ ⟨next, inFlight⟩

/-- Any number of moves, in any order. -/
abbrev Moves : Moment → Moment → Prop := Relation.ReflTransGen Move

/-- Every pending record is that of an execution in flight. -/
def Owned (m : Moment) : Prop :=
  ∀ key, m.store.IsPending key → ∃ e ∈ m.inFlight, e.execution.key = key

variable {m m' : Moment}

/-! ## The invariant -/

/-- **Every move keeps the owners.** -/
theorem owned_of_move (h : m.Owned) (hmove : Move m m') : m'.Owned := by
  intro key hpending
  cases hmove with
  -- a record that was pending before has its owner still, and a new one is that of `e`
  | depart e phase waits =>
      rcases StatusStore.isPending_of_runToDelay hpending with hbefore | ⟨hkey, -⟩
      · obtain ⟨owner, howner, hkey⟩ := h key hbefore
        exact ⟨owner, Multiset.mem_cons_of_mem howner, hkey⟩
      · exact ⟨e, Multiset.mem_cons_self e _, hkey.symm⟩
  | stop x ends =>
      rcases StatusStore.isPending_of_runToDelay hpending with hbefore | ⟨-, hnone⟩
      · exact h key hbefore
      · rw [hnone] at ends
        cases ends
  | arrive e phase =>
      rw [phase] at hpending
      obtain ⟨hkey, hbefore⟩ := StatusStore.isPending_setResult.mp hpending
      obtain ⟨owner, howner, howned⟩ := h key hbefore
      -- the execution that ends does not own a record that stays pending
      rcases Multiset.mem_cons.mp howner with rfl | howner
      · exact absurd howned.symm hkey
      · exact ⟨owner, howner, howned⟩
  | clear k => exact h key (StatusStore.isPending_clear.mp hpending).2
  | setResult now k success => exact h key (StatusStore.isPending_setResult.mp hpending).2
  | idle records => exact h key ((StatusStore.isPending_congr (records key)).mp hpending)

theorem owned_of_moves (h : m.Owned) (hmoves : Moves m m') : m'.Owned := by
  induction hmoves with
  | refl => exact h
  | tail _ hmove ih => exact owned_of_move ih hmove

/-- At the beginning no record is pending. -/
theorem owned_empty (inFlight : Multiset Started) : (Moment.mk .empty inFlight).Owned := by
  rintro key ⟨record, hrecord, -⟩
  cases hrecord

end Moment

end Runbook
