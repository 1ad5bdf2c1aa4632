import Runbook.Proofs.Execution.Outcome

/-!
# All or nothing

An execution that runs to its end tells three parties what has come of it: the caller gets a result,
the sink may have taken a command, and the store has a record.  The three never contradict each
other (`run_all_or_nothing`).

* Executed: the sink has taken one command, the one that is reported, and the block has succeeded.
* An error: the sink has taken nothing, and the block has failed.
* Cancelled: nothing was handed to the sink in the first place, and every record is as before.

`Progress.sent` holds what the sink took.  What it was offered is `handed`: the reply of the sink to
anything else does not matter (`runToDelay_congr`), and what it took is what it accepts of that
(`sent_runToDelay`).
-/

namespace Runbook.Execution

variable {x : Execution} {now : Instant} {sink : Sink} {answers : Answers} {store : StatusStore}

/-- The sessions and commands that are handed to the sink, whether it takes them or not. -/
def handed (x : Execution) (now : Instant) (answers : Answers) (store : StatusStore) :
    List (Text × Text) :=
  match (x.consult now answers store).phase with
  | .sending command => [(x.settings.session, command)]
  | _ => []

/-! ## What is handed to the sink -/

theorem sent_consult (x : Execution) (now : Instant) (answers : Answers) (store : StatusStore) :
    (x.consult now answers store).sent = [] := by
  have hconsulted := consulted_consult x now answers store
  generalize x.consult now answers store = p at hconsulted ⊢
  cases hconsulted <;> rfl

/-- The sink has taken what it accepts of the commands that were handed to it. -/
theorem sent_runToDelay (x : Execution) (now : Instant) (sink : Sink) (answers : Answers)
    (store : StatusStore) :
    (x.runToDelay now sink answers store).sent =
      (x.handed now answers store).filter fun c => (sink c.1 c.2).toBool := by
  have hsent := sent_consult x now answers store
  unfold runToDelay deliver handed
  cases (x.consult now answers store).phase with
  | sending command =>
      simp only [hsent, List.nil_append, List.filter_singleton, Bool.cond_eq_ite]
  | _ => exact hsent

/-- Nothing but the reply to what is handed to the sink matters. -/
theorem runToDelay_congr {other : Sink}
    (h : ∀ c ∈ x.handed now answers store, sink c.1 c.2 = other c.1 c.2) :
    x.runToDelay now sink answers store = x.runToDelay now other answers store := by
  unfold handed at h
  unfold runToDelay deliver
  cases hphase : (x.consult now answers store).phase with
  | sending command =>
      rw [hphase] at h
      have hreply : sink x.settings.session command = other x.settings.session command :=
        h _ (List.mem_singleton_self _)
      simp only [hreply]
  | _ => rfl

theorem handed_of_expand_eq_error {e : ExecutionError} (h : x.expand x.request.command = .error e) :
    x.handed now answers store = [] := by
  have hconsulted := consulted_consult x now answers store
  unfold handed
  generalize x.consult now answers store = p at hconsulted ⊢
  cases hconsulted with
  | agreed => rw [prepare_of_error h]
  | declined => rfl

theorem handed_eq_nil_of_cancelled
    (h : (x.runToDelay now sink answers store).phase = .ended (.ok .cancelled)) :
    x.handed now answers store = [] := by
  unfold runToDelay deliver at h
  unfold handed
  cases hphase : (x.consult now answers store).phase with
  | sending command =>
      -- whatever the sink replies, the execution has not been cancelled
      cases hreply : sink x.settings.session command <;>
        simp [hphase, hreply, delivered, fail] at h
  | _ => rfl

/-! ## The end -/

theorem settle_of_settling {p : Progress} {command : Text} (h : p.phase = .settling command)
    (later : Instant) :
    x.settle later p = { p with
      phase := .ended (.ok (.executed command))
      store := p.store.setResult later x.key true } := by
  obtain ⟨phase, store, answers, prompts, sent⟩ := p
  obtain rfl : phase = .settling command := h
  rfl

theorem settle_of_ended {p : Progress} {result : ExecutionResult} (h : p.phase = .ended result)
    (later : Instant) : x.settle later p = p := by
  obtain ⟨phase, store, answers, prompts, sent⟩ := p
  obtain rfl : phase = .ended result := h
  rfl

theorem sent_settle (later : Instant) (p : Progress) : (x.settle later p).sent = p.sent := rfl

/-- What cannot be expanded ends with this error and sends nothing, unless the user has declined
before. -/
theorem run_of_expand_eq_error {e : ExecutionError} (h : x.expand x.request.command = .error e)
    (now : Instant) (sink : Sink) (answers : Answers) (store : StatusStore) :
    (x.run now sink answers store).sent = [] ∧
      ((x.run now sink answers store).phase = .ended (.error e) ∨
        (x.run now sink answers store).phase = .ended (.ok .cancelled) ∧
          false ∈ answers.replies (x.run now sink answers store).prompts.length) := by
  constructor
  · rw [run, sent_settle, sent_runToDelay, handed_of_expand_eq_error h]
    rfl
  cases stopped_runToDelay x now sink answers store with
  | delivered _ _ expanded =>
      rw [h] at expanded
      cases expanded
  | failed phase _ cause =>
      cases cause with
      | expand error =>
          obtain rfl := Except.error.inj (h.symm.trans error)
          rw [run, settle_of_ended phase]
          exact Or.inl phase
      | deliver expanded =>
          rw [h] at expanded
          cases expanded
  | declined phase _ reply =>
      rw [run, settle_of_ended phase]
      exact Or.inr ⟨phase, reply⟩

/-- **All or nothing.**  An execution begins now, and its delay ends later.  It comes to a result.
If it was executed, the sink has taken the command that is reported and no other, and the block has
succeeded.  If there was an error, the sink has taken nothing, and the block has failed.  If it was
cancelled, nothing was handed to the sink, so that any other sink would have done, and every record
is as before.  The records of other blocks never change, and an execution is cancelled exactly if a
question was answered with no. -/
theorem run_all_or_nothing (x : Execution) (now later : Instant) (sink : Sink) (answers : Answers)
    (store : StatusStore) :
    let p := x.settle later (x.runToDelay now sink answers store)
    ∃ result, p.phase = .ended result ∧
      (match result with
        | .ok (.executed command) =>
            p.sent = [(x.settings.session, command)] ∧
              p.store.get? x.key = some ⟨.success, later⟩
        | .error _ => p.sent = [] ∧ p.store.get? x.key = some ⟨.failure, now⟩
        | .ok .cancelled =>
            x.handed now answers store = [] ∧ p.sent = [] ∧
              (∀ other, x.settle later (x.runToDelay now other answers store) = p) ∧
                ∀ key, p.store.get? key = store.get? key) ∧
      (∀ key ≠ x.key, p.store.get? key = store.get? key) ∧
      (result = .ok .cancelled ↔ false ∈ answers.replies p.prompts.length) := by
  intro p
  cases stopped_runToDelay x now sink answers store with
  | @delivered text phase sent expanded accepted replies records =>
      have hsettle : p = _ := settle_of_settling phase later
      have hno : false ∉ answers.replies (x.runToDelay now sink answers store).prompts.length :=
        fun hmem => Bool.false_ne_true (replies false hmem)
      rw [hsettle]
      refine ⟨.ok (.executed text), rfl, ⟨sent, ?_⟩, fun key hkey => ?_, by simpa using hno⟩
      · rw [StatusStore.get?_setResult, if_pos rfl]
        rfl
      · rw [StatusStore.get?_setResult, if_neg hkey, records, if_neg hkey]
  | @failed e phase sent cause replies records =>
      have hsettle : p = x.runToDelay now sink answers store := settle_of_ended phase later
      have hno : false ∉ answers.replies (x.runToDelay now sink answers store).prompts.length :=
        fun hmem => Bool.false_ne_true (replies false hmem)
      rw [hsettle]
      refine ⟨.error e, phase, ⟨sent, ?_⟩, fun key hkey => ?_, by simpa using hno⟩
      · rw [records, if_pos rfl]
      · rw [records, if_neg hkey]
  | declined phase sent reply records =>
      have hsettle : p = x.runToDelay now sink answers store := settle_of_ended phase later
      have hhanded := handed_eq_nil_of_cancelled phase
      have hother : ∀ other, x.runToDelay now other answers store =
          x.runToDelay now sink answers store := by
        intro other
        apply runToDelay_congr
        rw [hhanded]
        intro c hc
        exact absurd hc List.not_mem_nil
      refine ⟨.ok .cancelled, hsettle ▸ phase, ⟨hhanded, hsettle ▸ sent, fun other => ?_, ?_⟩, ?_,
        ?_⟩
      · rw [hother other]
      · rw [hsettle]
        exact records
      · intro key _
        rw [hsettle]
        exact records key
      · rw [hsettle]
        simpa using reply

end Runbook.Execution
