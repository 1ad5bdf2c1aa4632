import Runbook.Proofs.Session.Moments

/-!
# Sessions leave no record pending

The steps of a session are sequences of moves (`leads_step`).  Executions that end while the clock
moves end one after another; the one that the user waits for begins like any other and ends between
them.  So what all moves keep holds at every point of a session, also in the middle of a step: a
pending record has an execution in flight (`no_pending_left_behind`).

Two steps are left out because they are no part of an execution: a mark from outside
(`SessionStep.setPending`) and a record put back from outside (`SessionStep.restore`).
-/

namespace Runbook

/-- Whether a step neither marks a block as pending nor puts back a record by itself. -/
def SessionStep.IsOrdinary : SessionStep → Prop
  | .setPending _ | .restore _ _ => False
  | _ => True

namespace Session

open Moment

variable {s : Session}

/-- The session after some steps. -/
def stepAll (s : Session) (steps : List SessionStep) : Session :=
  steps.foldl (fun s step => (s.step step).2) s

/-- Whether an execution has not ended. -/
def isInFlight (e : Started) : Bool := e.phase.result?.isNone

/-- What matters of a session for its pending records. -/
def moment (s : Session) : Moment := ⟨s.store, s.started.filter isInFlight⟩

theorem moment_store (s : Session) : s.moment.store = s.store := rfl

/-- Executions suspend at their delay only. -/
def SuspendsAtDelay (started : List Started) : Prop :=
  ∀ e ∈ started, isInFlight e → ∃ command, e.phase = .settling command

/-! ## Time -/

theorem isDue_eq_false {time : Nat} {e : Started} (h : isInFlight e = false) :
    isDue time e = false := by
  rw [isDue, ← isInFlight, h, Bool.false_and]

theorem moves_settleAll {ends : List Started}
    (h : ∀ e ∈ ends, ∃ command, e.phase = .settling command)
    (store : StatusStore) (others : Multiset Started) :
    Moves ⟨store, ↑ends + others⟩ ⟨settleAll ends store, others⟩ := by
  induction ends generalizing store with
  | nil =>
      rw [Multiset.coe_nil, Multiset.zero_add]
      exact .refl
  | cons e rest ih =>
      obtain ⟨command, hphase⟩ := h e List.mem_cons_self
      have hrest := ih (fun e' he' => h e' (List.mem_cons_of_mem e he'))
        (e.execution.settled now e.phase store).2
      rw [← Multiset.cons_coe, Multiset.cons_add]
      exact .head (.arrive e hphase) hrest

/-- Of the executions in flight some are due, and the others stay in flight. -/
theorem inFlight_eq_add {started : List Started} (h : SuspendsAtDelay started) (time : Nat)
    (store : StatusStore) :
    (started.filter isInFlight : Multiset Started) =
      ↑(started.filter (isDue time)) +
        ↑((started.map (settleIfDue time store)).filter isInFlight) := by
  -- an entry that has ended is on no side, one in flight on the side that its due time says
  induction started with
  | nil => rfl
  | cons e rest ih =>
      have ih := ih fun e' he' => h e' (List.mem_cons_of_mem e he')
      rw [List.map_cons]
      cases hflight : isInFlight e with
      | false =>
          have hdue : isDue time e = false := isDue_eq_false hflight
          have hkept : settleIfDue time store e = e := by rw [settleIfDue, hdue]; rfl
          rw [List.filter_cons_of_neg (by simp [hflight]), List.filter_cons_of_neg (by simp [hdue]),
            hkept, List.filter_cons_of_neg (by simp [hflight]), ih]
      | true =>
          rw [List.filter_cons_of_pos hflight, ← Multiset.cons_coe, ih]
          cases hdue : isDue time e with
          | false =>
              have hkept : settleIfDue time store e = e := by rw [settleIfDue, hdue]; rfl
              rw [List.filter_cons_of_neg (by simp [hdue]), hkept, List.filter_cons_of_pos hflight,
                ← Multiset.cons_coe, Multiset.add_cons]
          | true =>
              obtain ⟨command, hphase⟩ := h e List.mem_cons_self hflight
              have hended : isInFlight (settleIfDue time store e) = false := by
                rw [settleIfDue, if_pos hdue, hphase]
                rfl
              rw [List.filter_cons_of_pos hdue, List.filter_cons_of_neg (by simp [hended]),
                ← Multiset.cons_coe, Multiset.cons_add]

theorem suspendsAtDelay_advanceTo (h : SuspendsAtDelay s.started) (time : Nat) :
    SuspendsAtDelay (s.advanceTo time).started := by
  intro e he hflight
  obtain ⟨e', he', rfl⟩ := List.mem_map.mp he
  cases hdue : isDue time e' with
  | false =>
      have hkept : settleIfDue time s.store e' = e' := by rw [settleIfDue, hdue]; rfl
      rw [hkept] at hflight ⊢
      exact h e' he' hflight
  | true =>
      have hflight' : isInFlight e' = true := by
        by_contra hended
        rw [isDue_eq_false (Bool.not_eq_true _ ▸ hended)] at hdue
        cases hdue
      obtain ⟨command, hphase⟩ := h e' he' hflight'
      rw [settleIfDue, if_pos hdue, hphase] at hflight
      cases hflight

/-- The clock moves, whatever else is in flight. -/
theorem moves_advanceTo (h : SuspendsAtDelay s.started) (time : Nat) (others : Multiset Started) :
    Moves ⟨s.store, s.moment.inFlight + others⟩
      ⟨(s.advanceTo time).store, (s.advanceTo time).moment.inFlight + others⟩ := by
  have hdue : ((dueAt time s.started : List Started) : Multiset Started) =
      ↑(s.started.filter (isDue time)) := Multiset.coe_eq_coe.mpr (List.mergeSort_perm _ _)
  have hwait : ∀ e ∈ dueAt time s.started, ∃ command, e.phase = .settling command := by
    intro e he
    obtain ⟨hmem, hdue⟩ := List.mem_filter.mp ((List.mergeSort_perm _ _).mem_iff.mp he)
    exact h e hmem (Bool.and_eq_true_iff.mp hdue).1
  -- the order in which they end does not matter for what is in flight
  have hsplit := inFlight_eq_add h time s.store
  rw [← hdue] at hsplit
  rw [moment, hsplit, Multiset.add_assoc]
  exact moves_settleAll hwait s.store _

/-! ## Steps -/

theorem settled_of_result?_eq_some {x : Execution} {phase : Phase} {result : ExecutionResult}
    (h : phase.result? = some result) (store : StatusStore) :
    x.settled now phase store = (phase, store) := by
  cases phase with
  | ended => rfl
  | _ => cases h

theorem phase_runToDelay (s : Session) (x : Execution) :
    (∃ command, (s.runToDelay x).phase = .settling command) ∨
      ∃ result, (s.runToDelay x).phase.result? = some result := by
  cases x.stopped_runToDelay now s.sinkMode.sink s.answers s.store with
  | delivered phase => exact Or.inl ⟨_, phase⟩
  | failed phase => exact Or.inr ⟨_, congrArg Phase.result? phase⟩
  | declined phase => exact Or.inr ⟨_, congrArg Phase.result? phase⟩

/-- Moves lead from one session to another, in which executions suspend at their delay, too. -/
def Leads (s t : Session) : Prop := Moves s.moment t.moment ∧ SuspendsAtDelay t.started

theorem Leads.trans {t u : Session} (hst : s.Leads t) (htu : t.Leads u) : s.Leads u :=
  ⟨hst.1.trans htu.1, htu.2⟩

theorem leads_of_records {t : Session} (h : SuspendsAtDelay s.started)
    (hrecords : ∀ key, t.store.get? key = s.store.get? key) (hstarted : t.started = s.started) :
    s.Leads t := by
  refine ⟨?_, hstarted ▸ h⟩
  rw [moment, moment, hstarted]
  exact .single (.idle hrecords)

theorem leads_advanceTo (h : SuspendsAtDelay s.started) (time : Nat) :
    s.Leads (s.advanceTo time) := by
  have hmoves := moves_advanceTo h time 0
  rw [Multiset.add_zero, Multiset.add_zero] at hmoves
  exact ⟨hmoves, suspendsAtDelay_advanceTo h time⟩

theorem leads_takeFinished (h : SuspendsAtDelay s.started) : s.Leads s.takeFinished.2 := by
  have htwice : (s.started.filter isInFlight).filter isInFlight = s.started.filter isInFlight := by
    rw [List.filter_filter]
    simp only [Bool.and_self]
  have hsame : s.takeFinished.2.moment = s.moment :=
    congrArg (fun l : List Started => Moment.mk s.store l) htwice
  exact ⟨hsame ▸ .refl, fun e he => h e (List.mem_filter.mp he).1⟩

/-- One more entry in the list of executions, which may have ended. -/
theorem leads_concat {t : Session} {e : Started} (h : SuspendsAtDelay s.started)
    (hstarted : t.started = s.started ++ [e])
    (he : (∃ command, e.phase = .settling command) ∧
        Moves s.moment ⟨t.store, e ::ₘ s.moment.inFlight⟩ ∨
      isInFlight e = false ∧ Moves s.moment ⟨t.store, s.moment.inFlight⟩) :
    s.Leads t := by
  have hmoment : t.moment = ⟨t.store, ↑([e].filter isInFlight) + s.moment.inFlight⟩ := by
    rw [moment, hstarted, List.filter_append, ← Multiset.coe_add, Multiset.add_comm]
    rfl
  have hsuspends : (isInFlight e → ∃ command, e.phase = .settling command) →
      SuspendsAtDelay t.started := by
    intro he' e' hmem hflight
    rw [hstarted] at hmem
    rcases List.mem_append.mp hmem with hmem | hmem
    · exact h e' hmem hflight
    · rw [List.mem_singleton.mp hmem] at hflight ⊢
      exact he' hflight
  rcases he with ⟨hwaits, hmoves⟩ | ⟨hended, hmoves⟩
  · have hflight : isInFlight e = true := by
      obtain ⟨command, hphase⟩ := hwaits
      rw [isInFlight, hphase]
      rfl
    rw [List.filter_cons_of_pos hflight, List.filter_nil, Multiset.coe_singleton,
      Multiset.singleton_add] at hmoment
    exact ⟨hmoment ▸ hmoves, hsuspends fun _ => hwaits⟩
  · rw [List.filter_cons_of_neg (by simp [hended]), List.filter_nil, Multiset.coe_nil,
      Multiset.zero_add] at hmoment
    exact ⟨hmoment ▸ hmoves, hsuspends fun hflight => by rw [hended] at hflight; cases hflight⟩

theorem depart_runToDelay {x : Execution} {command : Text}
    (h : (s.runToDelay x).phase = .settling command) (id : Text) (due : Nat)
    (others : Multiset Started) :
    Move ⟨s.store, others⟩ ⟨(s.runToDelay x).store, ⟨id, x, .settling command, due⟩ ::ₘ others⟩ :=
  .depart ⟨id, x, .settling command, due⟩ h.symm rfl

theorem stop_runToDelay {x : Execution} {result : ExecutionResult}
    (h : (s.runToDelay x).phase.result? = some result) (others : Multiset Started) :
    Move ⟨s.store, others⟩ ⟨(s.runToDelay x).store, others⟩ :=
  .stop x h

/-- A request is executed up to its delay, or to the end if there is no delay. -/
theorem leads_launch (h : SuspendsAtDelay s.started) (id : Text) (request : ExecuteRequest)
    (withDocument : Bool) : s.Leads (s.launch id request withDocument).2.2 := by
  refine leads_concat h rfl ?_
  dsimp only [launch]
  rcases phase_runToDelay s (s.execution request withDocument)
    with ⟨command, hphase⟩ | ⟨result, hresult⟩
  · have hdepart := depart_runToDelay hphase id (s.clock + s.delayOf (.settling command))
      s.moment.inFlight
    rw [hphase]
    by_cases hdelay : s.delayOf (.settling command) = 0
    · rw [if_pos hdelay, Execution.settle, hphase]
      exact Or.inr ⟨rfl, .tail (.single hdepart) (.arrive _ rfl)⟩
    · rw [if_neg hdelay, hphase]
      exact Or.inl ⟨⟨command, rfl⟩, .single hdepart⟩
  · have hended : (s.execution request withDocument).settle now
        (s.runToDelay (s.execution request withDocument)) =
          s.runToDelay (s.execution request withDocument) := by
      rw [Execution.settle, settled_of_result?_eq_some hresult]
    rw [hended, ite_self]
    refine Or.inr ⟨?_, .single (stop_runToDelay hresult _)⟩
    rw [isInFlight, hresult]
    rfl

/-- A request is executed to its end, and others may end before it. -/
theorem leads_execute (h : SuspendsAtDelay s.started) (request : ExecuteRequest)
    (withDocument : Bool) : s.Leads (s.execute request withDocument).2 := by
  let x := s.execution request withDocument
  let running : Session :=
    { s with store := (s.runToDelay x).store, answers := (s.runToDelay x).answers }
  have hbefore : SuspendsAtDelay (s.beforeEnd x).started :=
    suspendsAtDelay_advanceTo (s := running) h _
  -- the execution is in flight, or has ended already, while others end
  have hmoves : Moves s.moment ⟨(s.ending x).2, (s.beforeEnd x).moment.inFlight⟩ := by
    rcases phase_runToDelay s x with ⟨command, hphase⟩ | ⟨result, hresult⟩
    · have hdepart := depart_runToDelay hphase [] 0 s.moment.inFlight
      have hwait := moves_advanceTo (s := running) h (s.endOf x - 1)
        {⟨[], x, .settling command, 0⟩}
      rw [Multiset.add_comm, Multiset.singleton_add, Multiset.add_comm, Multiset.singleton_add]
        at hwait
      rw [ending, hphase]
      exact .tail (.head hdepart hwait) (.arrive _ rfl)
    · have hstop := stop_runToDelay hresult s.moment.inFlight
      have hwait := (leads_advanceTo (s := running) h (s.endOf x - 1)).1
      rw [ending, settled_of_result?_eq_some hresult]
      exact .head hstop hwait
  have hafter := leads_advanceTo (s := { s.beforeEnd x with store := (s.ending x).2 }) hbefore
    (s.endOf x)
  exact ⟨hmoves.trans hafter.1, hafter.2⟩

/-- **An ordinary step is a sequence of moves.** -/
theorem leads_step (h : SuspendsAtDelay s.started) {step : SessionStep} (hstep : step.IsOrdinary) :
    s.Leads (s.step step).2 := by
  cases step with
  | setDocument | render | setSink | get | save | subscribe =>
      exact leads_of_records h (fun _ => rfl) rfl
  | setPending | restore => cases hstep
  | capture id spec =>
      rw [Session.step]
      cases s.request? spec <;> exact leads_of_records h (fun _ => rfl) rfl
  | execute spec withDocument =>
      rw [Session.step]
      cases s.request? spec with
      | none => exact leads_of_records h (fun _ => rfl) rfl
      | some request => exact leads_execute h request withDocument
  | start id spec withDocument =>
      rw [Session.step]
      cases s.request? spec with
      | none => exact leads_of_records h (fun _ => rfl) rfl
      | some request =>
          have hlaunch := leads_launch h id request withDocument
          exact hlaunch.trans (leads_takeFinished hlaunch.2)
  | advance milliseconds =>
      have hadvance := leads_advanceTo h (s.clock + milliseconds)
      exact hadvance.trans (leads_takeFinished hadvance.2)
  | setResult key success => exact ⟨.single (.setResult now key success), h⟩
  | clear key | dismiss key => exact ⟨.single (.clear key), h⟩
  | receive id =>
      rw [Session.step]
      cases hreceived : s.store.receive? id with
      | none => exact leads_of_records h (fun _ => rfl) rfl
      | some received =>
          obtain ⟨subscription, -, rfl⟩ := Option.map_eq_some_iff.mp hreceived
          exact leads_of_records h (fun _ => rfl) rfl

theorem leads_stepAll {steps : List SessionStep} (h : SuspendsAtDelay s.started)
    (hsteps : ∀ step ∈ steps, step.IsOrdinary) : s.Leads (s.stepAll steps) := by
  induction steps generalizing s with
  | nil => exact ⟨.refl, h⟩
  | cons step rest ih =>
      have hstep := leads_step h (hsteps step List.mem_cons_self)
      exact hstep.trans (ih hstep.2 fun step' hstep' =>
        hsteps step' (List.mem_cons_of_mem _ hstep'))

/-! ## Whole sessions -/

/-- **No record is left pending.**  Between any two steps of a session, and at any point to which
moves lead from there, a pending record has an execution in flight; so nothing is pending while
nothing is in flight. -/
theorem no_pending_left_behind (document : Document) (settings : ExecutorSettings)
    (environment : Environment) (answers : Answers) {steps : List SessionStep}
    (hsteps : ∀ step ∈ steps, step.IsOrdinary) {m : Moment}
    (hmoves : Moves ((begin document settings environment answers).stepAll steps).moment m) :
    (∀ key, m.store.IsPending key → ∃ e ∈ m.inFlight, e.execution.key = key) ∧
      (m.inFlight = 0 → ∀ key, ¬ m.store.IsPending key) := by
  have hnone : SuspendsAtDelay (begin document settings environment answers).started := by
    intro e he
    cases he
  have howned : m.Owned :=
    owned_of_moves (owned_empty 0) ((leads_stepAll hnone hsteps).1.trans hmoves)
  refine ⟨howned, fun hempty key hpending => ?_⟩
  obtain ⟨e, he, -⟩ := howned key hpending
  rw [hempty] at he
  exact Multiset.notMem_zero e he

/-- A dangerous command runs; the user starts it again, declines, and so puts back a pending record,
which is that of the first execution. -/
theorem no_pending_left_behind_of_declined :
    let request : RequestSpec := ⟨.block "b", none, none, none⟩
    let s := (begin ⟨"book", "### a\nls\n### b\nrmdir x\n"⟩ .default (fun _ => none)
      (.inOrder [true, false])).stepAll [.start "1" request true, .start "2" request true]
    s.store.IsPending ⟨"book", 9⟩ ∧ ∃ e ∈ s.moment.inFlight, e.execution.key = ⟨"book", 9⟩ := by
  intro request s
  have hordinary : ∀ step ∈ [SessionStep.start "1" request true, .start "2" request true],
      step.IsOrdinary := by
    simp [SessionStep.IsOrdinary]
  have howned := (no_pending_left_behind ⟨"book", "### a\nls\n### b\nrmdir x\n"⟩ .default
    (fun _ => none) (.inOrder [true, false]) hordinary .refl).1 ⟨"book", 9⟩
  rw [moment_store] at howned
  have hpending : s.store.IsPending ⟨"book", 9⟩ := ⟨⟨.pending, 0⟩, by decide +kernel, rfl⟩
  exact ⟨hpending, howned hpending⟩

end Session

end Runbook
