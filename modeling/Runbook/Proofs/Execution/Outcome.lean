import Runbook.Proofs.Execution.Consent

/-!
# How an execution comes to its delay

Up to the delay there are about ten ways through an execution: two questions, five errors and the
delivery.  For everybody else there are three (`stopped_runToDelay`).  The command was delivered and
the block is pending; or there was an error, nothing was delivered and the block has failed; or the
user has declined, nothing was delivered and every record is as before.
-/

namespace Runbook.Execution

variable {x : Execution} {now : Instant} {sink : Sink} {answers : Answers} {store : StatusStore}

/-- Why an execution that nobody declined fails. -/
inductive FailsWith (x : Execution) (sink : Sink) : ExecutionError → Prop where
  | expand {e : ExecutionError} (error : x.expand x.request.command = .error e) : FailsWith x sink e
  | deliver {text : Text} {reason : SinkError} (expanded : x.expand x.request.command = .ok text)
      (refused : sink x.settings.session text = .error reason) : FailsWith x sink (.sink reason)

/-- How an execution stands at its delay, or at its end if it does not come to a delay. -/
inductive Stopped (x : Execution) (now : Instant) (sink : Sink) (answers : Answers)
    (store : StatusStore) (p : Progress) : Prop where
  | delivered {text : Text} (phase : p.phase = .settling text)
      (sent : p.sent = [(x.settings.session, text)])
      (expanded : x.expand x.request.command = .ok text)
      (accepted : sink x.settings.session text = .ok ())
      (replies : ∀ yes ∈ answers.replies p.prompts.length, yes = true)
      (records : ∀ key, p.store.get? key =
        if key = x.key then some ⟨.pending, now⟩ else store.get? key)
  | failed {e : ExecutionError} (phase : p.phase = .ended (.error e)) (sent : p.sent = [])
      (cause : x.FailsWith sink e)
      (replies : ∀ yes ∈ answers.replies p.prompts.length, yes = true)
      (records : ∀ key, p.store.get? key =
        if key = x.key then some ⟨.failure, now⟩ else store.get? key)
  | declined (phase : p.phase = .ended (.ok .cancelled)) (sent : p.sent = [])
      (reply : false ∈ answers.replies p.prompts.length)
      (records : ∀ key, p.store.get? key = store.get? key)

/-- A block that fails right after it became pending has failed, whatever its record was. -/
theorem get?_setResult_setPending (store : StatusStore) (now : Instant) (failed key : BlockKey) :
    ((store.setPending now failed).setResult now failed false).get? key =
      if key = failed then some ⟨.failure, now⟩ else store.get? key := by
  rw [StatusStore.get?_setResult, StatusStore.get?_setPending]
  by_cases hkey : key = failed
  · rw [if_pos hkey, if_pos hkey]
    rfl
  · rw [if_neg hkey, if_neg hkey, if_neg hkey]

/-- **Three ways to stop.** -/
theorem stopped_runToDelay (x : Execution) (now : Instant) (sink : Sink) (answers : Answers)
    (store : StatusStore) :
    x.Stopped now sink answers store (x.runToDelay now sink answers store) := by
  have hconsulted := consulted_consult x now answers store
  rw [runToDelay]
  generalize x.consult now answers store = p at hconsulted
  cases hconsulted with
  | declined _ hno hrecords =>
      exact .declined rfl rfl (by simpa [deliver] using hno) hrecords
  | agreed hyes =>
      have hreplies : ∀ yes ∈ answers.replies
          (List.replicate x.questions (confirmationPrompt x.request.command)).length,
            yes = true := by
        simpa using hyes
      cases hexpand : x.expand x.request.command with
      | error e =>
          rw [prepare_of_error hexpand]
          exact .failed rfl rfl (.expand hexpand) hreplies
            (get?_setResult_setPending store now x.key)
      | ok text =>
          rw [prepare_of_ok hexpand]
          cases hsink : sink x.settings.session text with
          | error reason =>
              simp only [deliver, hsink, delivered]
              exact .failed rfl rfl (.deliver hexpand hsink) hreplies
                (get?_setResult_setPending store now x.key)
          | ok =>
              simp only [deliver, hsink, delivered]
              exact .delivered rfl rfl hexpand hsink hreplies
                (StatusStore.get?_setPending store now x.key)

end Runbook.Execution
