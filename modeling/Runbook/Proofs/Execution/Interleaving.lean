import Mathlib.Logic.Function.Basic
import Runbook.Execution

/-!
# Executions take turns

Any number of executions work on one store, and each of them can be left waiting wherever it waits
for something.  A `Step` lets one execution go on with what has come for it, or lets somebody from
outside write a record.  Which step is next is left open, so a list of steps is one interleaving.

What a step of an execution does is told by `course_advance`: there are six ways to go on, and only
one of them, the question about a dangerous command, looks at the store.  All that follows is about
two scenes in which the same steps are taken, except that `i` takes none in the second.

* A step changes the records of its own key only (`get?_act_of_ne`).
* As far as two scenes agree on a set of keys, the steps of all others keep it that way
  (`agreeOn_act`), and so do the steps of `i`, as long as its own key is not in the set
  (`agreeOn_act_left`).

So the whole rest of a store never notices `i` (`agreeOn_run`), and nobody notices it any more after
its end (`agreeOn_run_of_ended`).
-/

namespace Runbook

/-! ## Going on with what has come -/

/-- What an execution can wait for. -/
inductive Signal where
  | begin
  | answer (yes : Bool)
  | reply (reply : Except SinkError Unit)
  | delayOver

/-- What a step does, said without the store that it is taken in. -/
inductive Effect where
  /-- The execution comes to this phase and writes these records of its key one after another. -/
  | goes (phase : Option Phase) (writes : List (Option ExecutionRecord))
  /-- The execution asks about its dangerous command. It keeps the record of the key in mind and
  makes it pending. -/
  | warns (now : Instant)

/-- The phase and the store after a step of an execution with this key. -/
def Effect.apply (key : BlockKey) (store : StatusStore) : Effect → Option Phase × StatusStore
  | .goes phase writes => (phase, writes.foldl (fun store record => store.write key record) store)
  | .warns now => (some (.warned (store.get? key)), store.setPending now key)

namespace Effect

variable {key k : BlockKey} {store store' : StatusStore}

theorem get?_foldl_write_congr (h : store.get? k = store'.get? k) (key : BlockKey)
    (writes : List (Option ExecutionRecord)) :
    (writes.foldl (fun store record => store.write key record) store).get? k =
      (writes.foldl (fun store record => store.write key record) store').get? k := by
  induction writes generalizing store store' with
  | nil => exact h
  | cons record rest ih => exact ih (by rw [StatusStore.get?_write, StatusStore.get?_write, h])

theorem get?_foldl_write_of_ne (h : k ≠ key) (writes : List (Option ExecutionRecord)) :
    (writes.foldl (fun store record => store.write key record) store).get? k = store.get? k := by
  induction writes generalizing store with
  | nil => rfl
  | cons record rest ih => rw [List.foldl_cons, ih, StatusStore.get?_write, if_neg h]

theorem get?_apply_of_ne (h : k ≠ key) (effect : Effect) :
    (effect.apply key store).2.get? k = store.get? k := by
  cases effect with
  | goes phase writes => exact get?_foldl_write_of_ne h writes
  | warns now => rw [apply, StatusStore.get?_setPending, if_neg h]

/-- Only the record of the own key matters. -/
theorem apply_congr (h : store.get? key = store'.get? key) (effect : Effect) :
    (effect.apply key store).1 = (effect.apply key store').1 ∧
      (effect.apply key store).2.get? key = (effect.apply key store').2.get? key := by
  cases effect with
  | goes phase writes => exact ⟨rfl, get?_foldl_write_congr h key writes⟩
  | warns now =>
      refine ⟨congrArg (fun record => some (Phase.warned record)) h, ?_⟩
      rw [apply, apply, StatusStore.get?_setPending, StatusStore.get?_setPending, if_pos rfl,
        if_pos rfl]

/-- What leaves the record of its key alone asks nothing, and so it does not look at the store. -/
theorem phase_eq_of_spares {effect : Effect}
    (h : ∀ store, (effect.apply key store).2.get? key = store.get? key)
    (store store' : StatusStore) :
    (effect.apply key store).1 = (effect.apply key store').1 := by
  cases effect with
  | goes phase writes => rfl
  | warns now =>
      have hempty := h .empty
      rw [apply, StatusStore.get?_setPending, if_pos rfl] at hempty
      cases hempty

end Effect

/-! ## The six ways on -/

/-- The user has declined. -/
abbrev Phase.cancelled : Phase := .ended (.ok .cancelled)

/-- Nothing has been asked about danger yet, and nothing has been written. -/
def IsFresh (phase : Option Phase) : Prop := phase = none ∨ phase = some .confirming

/-- The execution is past all questions and was not declined. -/
def Phase.IsCommitted : Phase → Prop
  | .sending _ | .settling _ => True
  | .ended result => result ≠ .ok .cancelled
  | .confirming | .warned _ => False

/-- The six ways on from a phase. -/
inductive Course : Option Phase → Effect → Prop where
  /-- What has come is not what the execution waits for. -/
  | stays (phase : Option Phase) : Course phase (.goes phase [])
  | asks : Course none (.goes (some .confirming) [])
  | declines : Course (some .confirming) (.goes (some .cancelled) [])
  | warns {phase : Option Phase} (fresh : IsFresh phase) (now : Instant) : Course phase (.warns now)
  | withdraws (previous : Option ExecutionRecord) :
      Course (some (.warned previous)) (.goes (some .cancelled) [previous])
  | commits {phase : Option Phase} {next : Phase} {writes : List (Option ExecutionRecord)}
      (alive : ∀ result, phase ≠ some (.ended result)) (committed : next.IsCommitted) :
      Course phase (.goes (some next) writes)

namespace Execution

variable {x : Execution} {now : Instant} {signal : Signal} {phase other : Option Phase}
  {store store' : StatusStore}

/-- Goes on with what has come. An execution that has not begun has no phase. -/
def advance (x : Execution) (now : Instant) (signal : Signal) (phase : Option Phase)
    (store : StatusStore) : Option Phase × StatusStore :=
  match signal, phase with
  | .begin, none => (x.start now store).map some id
  | .answer yes, some phase => (x.answered now yes phase store).map some id
  | .reply reply, some phase => (x.delivered now reply phase store).map some id
  | .delayOver, some phase => (x.settled now phase store).map some id
  | _, phase => (phase, store)

theorem exists_prepare (x : Execution) (now : Instant) (command : Text) :
    ∃ next writes, next.IsCommitted ∧ ∀ store,
      (x.prepare now command store).map some id =
        (Effect.goes (some next) writes).apply x.key store := by
  unfold prepare
  cases x.expand command with
  | error e => exact ⟨.ended (.error e), [some ⟨.failure, now⟩], nofun, fun _ => rfl⟩
  | ok text => exact ⟨.sending text, [], trivial, fun _ => rfl⟩

theorem course_proceed (x : Execution) (now : Instant) (fresh : IsFresh phase) :
    ∃ effect, Course phase effect ∧
      ∀ store, (x.proceed now store).map some id = effect.apply x.key store := by
  unfold proceed
  cases DenyList.sanitize x.request.command with
  | error _ => exact ⟨.warns now, .warns fresh now, fun _ => rfl⟩
  | ok command =>
      obtain ⟨next, writes, hcommitted, hprepare⟩ := exists_prepare x now command
      have halive : ∀ result, phase ≠ some (.ended result) := by
        rintro result rfl
        exact fresh.elim nofun nofun
      exact ⟨.goes (some next) (some ⟨.pending, now⟩ :: writes), .commits halive hcommitted,
        fun store => hprepare (store.setPending now x.key)⟩

theorem course_start (x : Execution) (now : Instant) :
    ∃ effect, Course none effect ∧
      ∀ store, (x.start now store).map some id = effect.apply x.key store := by
  unfold start
  cases x.settings.confirmBeforeExecute with
  | true => exact ⟨.goes (some .confirming) [], .asks, fun _ => rfl⟩
  | false => exact course_proceed x now (.inl rfl)

/-- **What a step does** depends on the phase, and on the store only where it asks about danger. -/
theorem course_advance (x : Execution) (now : Instant) (signal : Signal) (phase : Option Phase) :
    ∃ effect, Course phase effect ∧
      ∀ store, x.advance now signal phase store = effect.apply x.key store := by
  have hstays :
      ∃ effect, Course phase effect ∧ ∀ store, (phase, store) = effect.apply x.key store :=
    ⟨.goes phase [], .stays phase, fun _ => rfl⟩
  cases phase with
  | none =>
      cases signal with
      | begin => exact course_start x now
      | answer | reply | delayOver => exact hstays
  | some phase =>
      cases signal with
      | begin => exact hstays
      | answer yes =>
          cases phase with
          | confirming =>
              cases yes
              · exact ⟨_, .declines, fun _ => rfl⟩
              · exact course_proceed x now (.inr rfl)
          | warned previous =>
              cases yes
              · exact ⟨_, .withdraws previous, fun _ => rfl⟩
              · obtain ⟨next, writes, hcommitted, hprepare⟩ :=
                  exists_prepare x now x.request.command
                exact ⟨_, .commits nofun hcommitted, hprepare⟩
          | sending | settling | ended => exact hstays
      | reply reply =>
          cases phase with
          | sending command =>
              cases reply with
              | error e =>
                  exact ⟨.goes (some (.ended (.error (.sink e)))) [some ⟨.failure, now⟩],
                    .commits nofun nofun, fun _ => rfl⟩
              | ok =>
                  exact ⟨.goes (some (.settling command)) [], .commits nofun trivial,
                    fun _ => rfl⟩
          | confirming | warned | settling | ended => exact hstays
      | delayOver =>
          cases phase with
          | settling command =>
              exact ⟨.goes (some (.ended (.ok (.executed command)))) [some ⟨.success, now⟩],
                .commits nofun nofun, fun _ => rfl⟩
          | confirming | warned | sending | ended => exact hstays

theorem get?_advance_of_ne {key : BlockKey} (h : key ≠ x.key) :
    (x.advance now signal phase store).2.get? key = store.get? key := by
  obtain ⟨effect, -, heffect⟩ := course_advance x now signal phase
  rw [heffect, Effect.get?_apply_of_ne h]

theorem advance_congr (h : store.get? x.key = store'.get? x.key) :
    (x.advance now signal phase store).1 = (x.advance now signal phase store').1 ∧
      (x.advance now signal phase store).2.get? x.key =
        (x.advance now signal phase store').2.get? x.key := by
  obtain ⟨effect, -, heffect⟩ := course_advance x now signal phase
  rw [heffect, heffect]
  exact Effect.apply_congr h effect

theorem advance_phase_eq_of_spares
    (h : ∀ store, (x.advance now signal phase store).2.get? x.key = store.get? x.key)
    (store store' : StatusStore) :
    (x.advance now signal phase store).1 = (x.advance now signal phase store').1 := by
  obtain ⟨effect, -, heffect⟩ := course_advance x now signal phase
  have hspares : ∀ store, (effect.apply x.key store).2.get? x.key = store.get? x.key := by
    intro store
    rw [← heffect, h]
  rw [heffect, heffect, Effect.phase_eq_of_spares hspares store store']

end Execution

/-- The same phase, except that a question about a dangerous command may have another record in
mind. -/
inductive Alike : Option Phase → Option Phase → Prop where
  | same (phase : Option Phase) : Alike phase phase
  | warned (previous previous' : Option ExecutionRecord) :
      Alike (some (.warned previous)) (some (.warned previous'))

/-- Whatever the records are, the course of an execution is the same. -/
theorem Alike.advance {x : Execution} {phase other : Option Phase} (h : Alike phase other)
    (now : Instant) (signal : Signal) (store store' : StatusStore) :
    Alike (x.advance now signal phase store).1 (x.advance now signal other store').1 := by
  cases h with
  | same =>
      obtain ⟨effect, -, heffect⟩ := x.course_advance now signal phase
      rw [heffect, heffect]
      cases effect with
      | goes => exact .same _
      | warns => exact .warned _ _
  | warned previous previous' =>
      cases signal with
      | begin | reply | delayOver => exact .warned previous previous'
      | answer yes =>
          cases yes
          · exact .same _
          · obtain ⟨next, writes, -, hprepare⟩ := x.exists_prepare now x.request.command
            have hyes : ∀ record store, x.advance now (.answer true) (some (.warned record)) store =
                (x.prepare now x.request.command store).map some id := fun _ _ => rfl
            rw [hyes, hyes, hprepare, hprepare]
            exact .same _

/-! ## Scenes -/

/-- A store and those who work on it. -/
structure Scene (ι : Type) where
  store : StatusStore
  /-- Where each execution stands, if it has begun. -/
  phase : ι → Option Phase

/-- One thing that happens in a scene. -/
inductive Step (ι : Type) where
  /-- An execution goes on. -/
  | go (i : ι) (now : Instant) (signal : Signal)
  /-- Somebody else sets or removes a record. -/
  | write (key : BlockKey) (record : Option ExecutionRecord)

/-- The execution that goes on in a step. -/
def Step.actor? {ι : Type} : Step ι → Option ι
  | .go i _ _ => some i
  | .write _ _ => none

namespace Scene

variable {ι : Type} {xs : ι → Execution} {i j : ι} {w w' : Scene ι} {step : Step ι}
  {keys : BlockKey → Prop}

/-- Two scenes are the same to everybody but `i`, as far as these keys go. The courses of all others
are the same on all keys. -/
structure AgreeOn (xs : ι → Execution) (keys : BlockKey → Prop) (i : ι) (w w' : Scene ι) :
    Prop where
  records : ∀ key, keys key → w.store.get? key = w'.store.get? key
  phases : ∀ j, j ≠ i → keys (xs j).key → w.phase j = w'.phase j
  courses : ∀ j, j ≠ i → Alike (w.phase j) (w'.phase j)

theorem agreeOn_refl (xs : ι → Execution) (keys : BlockKey → Prop) (i : ι) (w : Scene ι) :
    AgreeOn xs keys i w w :=
  ⟨fun _ _ => rfl, fun _ _ _ => rfl, fun _ _ => .same _⟩

variable [DecidableEq ι]

/-- The scene after a step of the executions `xs`. -/
def act (xs : ι → Execution) (w : Scene ι) : Step ι → Scene ι
  | .go i now signal =>
    let after := (xs i).advance now signal (w.phase i) w.store
    ⟨after.2, Function.update w.phase i after.1⟩
  | .write key record => { w with store := w.store.write key record }

/-- The scene after some steps. -/
def run (xs : ι → Execution) (w : Scene ι) (steps : List (Step ι)) : Scene ι :=
  steps.foldl (act xs) w

/-- The steps that are not those of `i`. -/
def without (i : ι) (steps : List (Step ι)) : List (Step ι) :=
  steps.filter fun step => step.actor? ≠ some i

theorem run_append (w : Scene ι) (steps more : List (Step ι)) :
    run xs w (steps ++ more) = run xs (run xs w steps) more :=
  List.foldl_append

theorem without_append (i : ι) (steps more : List (Step ι)) :
    without i (steps ++ more) = without i steps ++ without i more :=
  List.filter_append ..

theorem without_cons_of_actor (h : step.actor? = some i) (rest : List (Step ι)) :
    without i (step :: rest) = without i rest :=
  List.filter_cons_of_neg (by simp [h])

theorem without_cons_of_ne (h : step.actor? ≠ some i) (rest : List (Step ι)) :
    without i (step :: rest) = step :: without i rest :=
  List.filter_cons_of_pos (by simp [h])

theorem phase_act_go_of_ne (h : j ≠ i) (now : Instant) (signal : Signal) :
    (act xs w (.go i now signal)).phase j = w.phase j :=
  Function.update_of_ne h ..

/-- The others stay where they are. -/
theorem phase_act_of_ne (h : step.actor? ≠ some i) : (act xs w step).phase i = w.phase i := by
  cases step with
  | go j now signal => exact phase_act_go_of_ne (fun hij => h (congrArg some hij.symm)) now signal
  | write => rfl

theorem phase_act_self (now : Instant) (signal : Signal) :
    (act xs w (.go i now signal)).phase i = ((xs i).advance now signal (w.phase i) w.store).1 :=
  Function.update_self ..

theorem phase_act_of_actor (hstep : step.actor? = some i) (h : j ≠ i) :
    (act xs w step).phase j = w.phase j :=
  phase_act_of_ne (by rw [hstep]; exact fun hij => h (Option.some.inj hij).symm)

theorem store_act_go (now : Instant) (signal : Signal) :
    (act xs w (.go i now signal)).store = ((xs i).advance now signal (w.phase i) w.store).2 := rfl

/-- A step changes the record of its own key only. -/
theorem get?_act_of_ne {key : BlockKey} (hstep : step.actor? = some i) (h : key ≠ (xs i).key) :
    (act xs w step).store.get? key = w.store.get? key := by
  cases step with
  | write => cases hstep
  | go j now signal =>
      obtain rfl := Option.some.inj hstep
      exact Execution.get?_advance_of_ne h

/-! ## Two scenes -/

/-- **A step of somebody else keeps what two scenes agree on.** -/
theorem agreeOn_act (h : AgreeOn xs keys i w w') (hstep : step.actor? ≠ some i) :
    AgreeOn xs keys i (act xs w step) (act xs w' step) := by
  cases step with
  | write key record =>
      refine ⟨fun k hk => ?_, h.phases, h.courses⟩
      rw [act, act, StatusStore.get?_write, StatusStore.get?_write, h.records k hk]
  | go j now signal =>
      have hji : j ≠ i := fun hji => hstep (congrArg some hji)
      -- the step reads and writes the key of `j` only:
      -- the scenes agree there, or it is none of `keys`
      refine ⟨fun k hk => ?_, fun l hl hkey => ?_, fun l hl => ?_⟩
      · rw [store_act_go, store_act_go]
        by_cases hown : k = (xs j).key
        · subst hown
          rw [h.phases j hji hk]
          exact (Execution.advance_congr (h.records _ hk)).2
        · rw [Execution.get?_advance_of_ne hown, Execution.get?_advance_of_ne hown, h.records k hk]
      · by_cases hlj : l = j
        · subst hlj
          rw [phase_act_self, phase_act_self, h.phases l hl hkey]
          exact (Execution.advance_congr (h.records _ hkey)).1
        · rw [phase_act_go_of_ne hlj, phase_act_go_of_ne hlj, h.phases l hl hkey]
      · by_cases hlj : l = j
        · subst hlj
          rw [phase_act_self, phase_act_self]
          exact (h.courses l hl).advance now signal _ _
        · rw [phase_act_go_of_ne hlj, phase_act_go_of_ne hlj]
          exact h.courses l hl

/-- Nobody notices a step of `i` that leaves the records as they are. -/
theorem agreeOn_act_left_of_records (h : AgreeOn xs keys i w w') (hstep : step.actor? = some i)
    (hrecords : ∀ key, keys key → (act xs w step).store.get? key = w.store.get? key) :
    AgreeOn xs keys i (act xs w step) w' := by
  refine ⟨fun key hkey => (hrecords key hkey).trans (h.records key hkey), fun j hj hkey => ?_,
    fun j hj => ?_⟩
  · rw [phase_act_of_actor hstep hj, h.phases j hj hkey]
  · rw [phase_act_of_actor hstep hj]
    exact h.courses j hj

/-- A step of `i` itself is seen on its own key only. -/
theorem agreeOn_act_left (h : AgreeOn xs keys i w w') (hkeys : ¬ keys (xs i).key)
    (hstep : step.actor? = some i) : AgreeOn xs keys i (act xs w step) w' := by
  refine agreeOn_act_left_of_records h hstep fun key hkey => ?_
  exact get?_act_of_ne hstep fun hown => hkeys (hown ▸ hkey)

/-- **The rest of the store never notices `i`.** -/
theorem agreeOn_run (h : AgreeOn xs keys i w w') (hkeys : ¬ keys (xs i).key)
    (steps : List (Step ι)) :
    AgreeOn xs keys i (run xs w steps) (run xs w' (without i steps)) := by
  induction steps generalizing w w' with
  | nil => exact h
  | cons step rest ih =>
      by_cases hstep : step.actor? = some i
      · rw [without_cons_of_actor hstep]
        exact ih (agreeOn_act_left h hkeys hstep)
      · rw [without_cons_of_ne hstep]
        exact ih (agreeOn_act h hstep)

/-- Nothing that comes for an execution after its end changes anything. -/
theorem act_of_ended {result : ExecutionResult} (hphase : w.phase i = some (.ended result))
    (hstep : step.actor? = some i) : act xs w step = w := by
  cases step with
  | write => cases hstep
  | go j now signal =>
      obtain rfl := Option.some.inj hstep
      obtain ⟨effect, hcourse, heffect⟩ := (xs j).course_advance now signal (w.phase j)
      have hstays : effect = .goes (w.phase j) [] := by
        rw [hphase] at hcourse ⊢
        cases hcourse with
        | stays => rfl
        | warns fresh => exact fresh.elim nofun nofun
        | commits alive => exact absurd rfl (alive result)
      have hadvance : (xs j).advance now signal (w.phase j) w.store = (w.phase j, w.store) := by
        rw [heffect, hstays]
        rfl
      rw [act, hadvance, Function.update_eq_self]

/-- **Nobody notices `i` any more after its end.** -/
theorem agreeOn_run_of_ended {result : ExecutionResult} (h : AgreeOn xs keys i w w')
    (hphase : w.phase i = some (.ended result)) (steps : List (Step ι)) :
    AgreeOn xs keys i (run xs w steps) (run xs w' (without i steps)) := by
  induction steps generalizing w w' with
  | nil => exact h
  | cons step rest ih =>
      by_cases hstep : step.actor? = some i
      · rw [without_cons_of_actor hstep, run, List.foldl_cons, act_of_ended hphase hstep]
        exact ih h hphase
      · rw [without_cons_of_ne hstep]
        exact ih (agreeOn_act h hstep) ((phase_act_of_ne hstep).trans hphase)

end Scene

end Runbook
