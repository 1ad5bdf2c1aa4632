import Runbook.Execution
import Runbook.Proofs.DenyList.Shape
import Runbook.Proofs.Text.Ends

/-!
# What an execution asks

An execution asks once if the settings say so, and once if the command of its request is on the
deny-list: `questions` many times.  It goes on if all replies are yes.  One no ends it.

`consulted_consult` says this about all steps up to the last answer at once.  Either every reply was
yes and the command is prepared on a store in which the block is pending, or some reply was no and
every record is as before.  Claims about whole executions start from these two cases and do not look
at the single steps again.
-/

namespace Runbook

/-- The replies to the next `n` questions. -/
def Answers.replies : Nat → Answers → List Bool
  | 0, _ => []
  | n + 1, answers => answers.next.1 :: answers.next.2.replies n

/-- The answers that remain behind the next `n` questions. -/
def Answers.after : Nat → Answers → Answers
  | 0, answers => answers
  | n + 1, answers => answers.next.2.after n

theorem Answers.replies_always (n : Nat) (answer : Bool) :
    (Answers.always answer).replies n = List.replicate n answer := by
  induction n with
  | zero => rfl
  | succ n ih => rw [replies, List.replicate_succ, ← ih]; rfl

theorem Answers.true_mem_replies_iff {n : Nat} {answers : Answers}
    (h : ∀ yes ∈ answers.replies n, yes = true) : true ∈ answers.replies n ↔ 0 < n := by
  cases n with
  | zero => simp [replies]
  | succ n =>
      have hfirst : answers.next.1 = true := h _ List.mem_cons_self
      exact ⟨fun _ => Nat.succ_pos n, fun _ => hfirst ▸ List.mem_cons_self⟩

/-- Putting back what was known before a block became pending leaves every record as before. -/
theorem StatusStore.get?_restore_setPending (s : StatusStore) (now : Instant)
    (pending key : BlockKey) :
    ((s.setPending now pending).restore pending (s.get? pending)).get? key = s.get? key := by
  rw [get?_restore, get?_setPending]
  by_cases hkey : key = pending
  · rw [if_pos hkey, hkey]
  · rw [if_neg hkey, if_neg hkey]

namespace Execution

open DenyList

variable {x : Execution} {now : Instant} {answers : Answers} {store : StatusStore}

/-- How many questions there are about the command itself. -/
def warnings (x : Execution) : Nat := if IsDangerous (Text.trim x.request.command) then 1 else 0

/-- How many questions an execution asks if all are answered with yes. -/
def questions (x : Execution) : Nat :=
  x.warnings + if x.settings.confirmBeforeExecute then 1 else 0

/-- How an execution stands when nothing more is asked, if there are at most `count` further
questions behind those that were `asked`, and the user has these `answers` for them. -/
inductive Consulted (x : Execution) (now : Instant) (answers : Answers) (store : StatusStore)
    (count : Nat) (asked : List Text) : Progress → Prop where
  /-- Every reply was yes, and the command is prepared. -/
  | agreed (replies : ∀ yes ∈ answers.replies count, yes = true) :
      Consulted x now answers store count asked
        { phase := (x.prepare now x.request.command (store.setPending now x.key)).1
          store := (x.prepare now x.request.command (store.setPending now x.key)).2
          answers := answers.after count
          prompts := asked ++ List.replicate count (confirmationPrompt x.request.command)
          sent := [] }
  /-- The latest reply was no, and every record is as before. -/
  | declined {used : Nat} {restored : StatusStore} (within : used ≤ count)
      (reply : false ∈ answers.replies used)
      (records : ∀ key, restored.get? key = store.get? key) :
      Consulted x now answers store count asked
        { phase := .ended (.ok .cancelled)
          store := restored
          answers := answers.after used
          prompts := asked ++ List.replicate used (confirmationPrompt x.request.command)
          sent := [] }

/-! ## Preparing a command -/

theorem expand_trim (x : Execution) (command : Text) :
    x.expand (Text.trim command) = x.expand command := by
  simp only [expand, Book.findByCommand?, Text.trim_trim]

theorem prepare_trim (x : Execution) (now : Instant) (command : Text) (store : StatusStore) :
    x.prepare now (Text.trim command) store = x.prepare now command store := by
  rw [prepare, prepare, expand_trim]

theorem exists_of_expand_eq_ok {command text : Text} (h : x.expand command = .ok text) :
    ∃ document name included, x.document = some document ∧
      document.book.findByCommand? command = some name ∧
        document.book.expandBlock name = .ok included ∧
          text = Reference.expand included x.request.declared x.environment := by
  unfold expand at h
  cases hdocument : x.document with
  | none =>
      rw [hdocument] at h
      cases h
  | some document =>
      simp only [hdocument] at h
      cases hfound : document.book.findByCommand? command with
      | none =>
          rw [hfound] at h
          cases h
      | some name =>
          simp only [hfound] at h
          cases hincluded : document.book.expandBlock name with
          | error e =>
              rw [hincluded] at h
              cases h
          | ok included =>
              rw [hincluded] at h
              exact ⟨document, name, included, rfl, hfound, hincluded, (Except.ok.inj h).symm⟩

theorem prepare_of_ok {command text : Text} (h : x.expand command = .ok text) :
    x.prepare now command store = (.sending text, store) := by
  rw [prepare, h]

theorem prepare_of_error {command : Text} {e : ExecutionError} (h : x.expand command = .error e) :
    x.prepare now command store = (.ended (.error e), store.setResult now x.key false) := by
  rw [prepare, h]
  rfl

theorem prompt?_prepare (x : Execution) (now : Instant) (command : Text) (store : StatusStore) :
    x.prompt? (x.prepare now command store).1 = none := by
  cases h : x.expand command with
  | ok text => rw [prepare_of_ok h]; rfl
  | error e => rw [prepare_of_error h]; rfl

/-! ## Questions and replies -/

theorem ask_of_prompt?_eq_none {p : Progress} (h : x.prompt? p.phase = none) : x.ask now p = p := by
  rw [ask, h]

/-- Once the user has been consulted, nothing more is asked. -/
theorem Consulted.ask_eq {count : Nat} {asked : List Text} {p : Progress}
    (h : x.Consulted now answers store count asked p) : x.ask now p = p := by
  refine ask_of_prompt?_eq_none ?_
  cases h with
  | agreed => exact prompt?_prepare ..
  | declined => rfl

theorem ask_of_prompt?_eq_some {p : Progress} {prompt : Text}
    (h : x.prompt? p.phase = some prompt) :
    x.ask now p =
      { phase := (x.answered now p.answers.next.1 p.phase p.store).1
        store := (x.answered now p.answers.next.1 p.phase p.store).2
        answers := p.answers.next.2
        prompts := p.prompts ++ [prompt]
        sent := p.sent } := by
  rw [ask, h]

theorem consulted_ask_proceed (x : Execution) (now : Instant) (answers : Answers)
    (store : StatusStore) (asked : List Text) :
    x.Consulted now answers store x.warnings asked
      (x.ask now ⟨(x.proceed now store).1, (x.proceed now store).2, answers, asked, []⟩) := by
  by_cases hdanger : IsDangerous (Text.trim x.request.command)
  -- the block is pending while the question is open, and a no puts its record back
  · obtain ⟨danger, hsanitize⟩ := sanitize_of_isDangerous hdanger
    have hproceed : x.proceed now store =
        (.warned (store.get? x.key), store.setPending now x.key) := by
      rw [proceed, hsanitize]
    have hcount : x.warnings = 1 := if_pos hdanger
    rw [hproceed, hcount, ask_of_prompt?_eq_some rfl]
    cases hreply : answers.next.1 with
    | true => exact .agreed fun yes hyes => (List.mem_singleton.mp hyes).trans hreply
    | false =>
        refine .declined (Nat.le_refl 1) (List.mem_singleton.mpr hreply.symm) fun key => ?_
        exact StatusStore.get?_restore_setPending store now x.key key
  -- nothing to ask: sanitizing has trimmed the command, which its expansion does not see
  · have hproceed : x.proceed now store =
        x.prepare now x.request.command (store.setPending now x.key) := by
      rw [proceed, sanitize_of_not_isDangerous hdanger, ← prepare_trim]
    have hcount : x.warnings = 0 := if_neg hdanger
    have hnone := prompt?_prepare x now x.request.command (store.setPending now x.key)
    have hagreed : x.Consulted now answers store 0 asked _ :=
      .agreed fun yes hyes => absurd hyes List.not_mem_nil
    rw [List.replicate_zero, List.append_nil] at hagreed
    rw [hproceed, hcount, ask_of_prompt?_eq_none hnone]
    exact hagreed

/-- One more question in front, answered with yes. -/
theorem Consulted.cons {count : Nat} {asked : List Text} {p : Progress}
    (hyes : answers.next.1 = true)
    (h : x.Consulted now answers.next.2 store count
      (asked ++ [confirmationPrompt x.request.command]) p) :
    x.Consulted now answers store (count + 1) asked p := by
  have happend : ∀ n, asked ++ [confirmationPrompt x.request.command] ++
      List.replicate n (confirmationPrompt x.request.command) =
        asked ++ List.replicate (n + 1) (confirmationPrompt x.request.command) := by
    intro n
    rw [List.append_assoc, List.singleton_append, List.replicate_succ]
  cases h with
  | agreed replies =>
      rw [happend]
      refine .agreed fun yes hmem => ?_
      rcases List.mem_cons.mp hmem with rfl | hmem
      · exact hyes
      · exact replies yes hmem
  | declined within reply records =>
      rw [happend]
      exact .declined (Nat.succ_le_succ within) (List.mem_cons_of_mem _ reply) records

/-- **All questions at once.**  Either every reply was yes, and the command is prepared on a store
in which the block is pending; or the latest reply was no, and every record is as before. -/
theorem consulted_consult (x : Execution) (now : Instant) (answers : Answers)
    (store : StatusStore) :
    x.Consulted now answers store x.questions [] (x.consult now answers store) := by
  by_cases hconfirm : x.settings.confirmBeforeExecute
  · have hcount : x.questions = x.warnings + 1 := by rw [questions, if_pos hconfirm]
    have hstart : x.start now store = (.confirming, store) := by rw [start, if_pos hconfirm]
    simp only [consult, hstart, hcount]
    rw [ask_of_prompt?_eq_some (p := ⟨.confirming, store, answers, [], []⟩) rfl]
    cases hreply : answers.next.1 with
    | true => exact (consulted_ask_proceed x now answers.next.2 store _).cons hreply
    | false =>
        have hwithin : 1 ≤ x.warnings + 1 := Nat.le_add_left 1 _
        exact .declined hwithin (List.mem_singleton.mpr hreply.symm) fun key => rfl
  · have hcount : x.questions = x.warnings := by rw [questions, if_neg hconfirm]; rfl
    have hstart : x.start now store = x.proceed now store := by rw [start, if_neg hconfirm]
    have hasked := consulted_ask_proceed x now answers store []
    simp only [consult, hstart, hcount]
    rw [hasked.ask_eq]
    exact hasked

end Execution

end Runbook
