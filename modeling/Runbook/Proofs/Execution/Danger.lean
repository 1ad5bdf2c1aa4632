import Runbook.Proofs.Book.Live
import Runbook.Proofs.Execution.Consent
import Runbook.Proofs.Include.Reach
import Runbook.Proofs.Reference.Plain

/-!
# Danger and consent

The deny-list is asked about the command of the request, as the user sees it.  What goes to the sink
is its expansion.  So a dangerous text can be sent without any question: the command includes a
dangerous block, or a variable makes it dangerous (`danger_without_consent`).

What the check does promise is in `consent_of_danger`.  A dangerous text is sent with a yes exactly
if the settings ask before every execution or the command itself is dangerous.  And a dangerous text
is sent without a yes only if the command includes something or mentions a variable: any other
command is expanded to itself, up to carriage returns in front of line feeds, and these the
deny-list takes for the white space that line feeds are.
-/

namespace Runbook

open DenyList

namespace Execution

variable {x : Execution} {now : Instant} {answers : Answers} {store : StatusStore} {text : Text}

theorem questions_pos_iff :
    0 < x.questions ↔
      x.settings.confirmBeforeExecute ∨ IsDangerous (Text.trim x.request.command) := by
  rw [questions, warnings]
  by_cases hdanger : IsDangerous (Text.trim x.request.command)
  · rw [if_pos hdanger]
    exact ⟨fun _ => .inr hdanger, fun _ => by omega⟩
  · rw [if_neg hdanger]
    cases hconfirm : x.settings.confirmBeforeExecute <;> simp [hdanger]

/-- A command on its way to the sink is the expansion of the request, and every question was
answered with yes. -/
theorem of_phase_eq_sending (h : (x.consult now answers store).phase = .sending text) :
    x.expand x.request.command = .ok text ∧
      (x.consult now answers store).prompts.length = x.questions ∧
        ∀ yes ∈ answers.replies x.questions, yes = true := by
  have hconsulted := consulted_consult x now answers store
  generalize x.consult now answers store = p at h hconsulted
  cases hconsulted with
  | declined => cases h
  | agreed hyes =>
      refine ⟨?_, by simp, hyes⟩
      cases hexpand : x.expand x.request.command with
      | ok other =>
          rw [prepare_of_ok hexpand] at h
          rw [Phase.sending.inj h]
      | error e =>
          rw [prepare_of_error hexpand] at h
          cases h

/-- A command that includes nothing and mentions no variable is expanded to its lines. -/
theorem dropsReturns_of_expand (h : x.expand x.request.command = .ok text)
    (hinclude : ∀ line ∈ Text.lines (Text.trim x.request.command), Include.target? line = none)
    (hmention : ¬ Reference.Mentions (Text.trim x.request.command)) :
    Text.DropsReturns (Text.trim x.request.command) text := by
  -- neither includes nor variables change the lines, so only their endings are left to compare
  have hlines := Text.dropsReturns_join_lines (Text.getLast?_trim_ne x.request.command)
  have hplain : ¬ Reference.Mentions (Text.join "\n" (Text.lines (Text.trim x.request.command))) :=
    fun hm => hmention (Reference.mentions_of_dropsReturns hlines hm)
  obtain ⟨document, name, included, -, hfound, hincluded, rfl⟩ := exists_of_expand_eq_ok h
  have hexpanded : document.book.expandBlock name =
      .ok (Text.join "\n" (Text.lines (Text.trim x.request.command))) :=
    Include.expanded_of_no_include (Book.blockMap_get?_of_findByCommand? hfound) hinclude
  obtain rfl := Except.ok.inj (hincluded.symm.trans hexpanded)
  rw [Reference.expand_of_not_mentions hplain]
  exact hlines

/-- **What the check promises.**  A dangerous text goes to the sink with a yes exactly if the
settings ask before every execution or the command of the request is dangerous itself; without a yes
it does so only if the command includes another block or mentions a variable. -/
theorem consent_of_danger (h : (x.consult now answers store).phase = .sending text)
    (hdanger : IsDangerous text) :
    (true ∈ answers.replies (x.consult now answers store).prompts.length ↔
        x.settings.confirmBeforeExecute ∨ IsDangerous (Text.trim x.request.command)) ∧
      (true ∉ answers.replies (x.consult now answers store).prompts.length →
        (∃ line ∈ Text.lines (Text.trim x.request.command), (Include.target? line).isSome) ∨
          Reference.Mentions (Text.trim x.request.command)) := by
  obtain ⟨hexpand, hlength, hyes⟩ := of_phase_eq_sending h
  have hasked : true ∈ answers.replies (x.consult now answers store).prompts.length ↔
      x.settings.confirmBeforeExecute ∨ IsDangerous (Text.trim x.request.command) := by
    rw [hlength, Answers.true_mem_replies_iff hyes, questions_pos_iff]
  refine ⟨hasked, fun hno => ?_⟩
  by_contra hplain
  obtain ⟨hinclude, hmention⟩ := not_or.mp hplain
  have hnone : ∀ line ∈ Text.lines (Text.trim x.request.command), Include.target? line = none := by
    intro line hline
    by_contra hsome
    exact hinclude ⟨line, hline, Option.isSome_iff_ne_none.mpr hsome⟩
  have hdrops := dropsReturns_of_expand hexpand hnone hmention
  exact hno (hasked.mpr (Or.inr (isDangerous_of_dropsReturns hdrops hdanger)))

/-- A dangerous command that the user agrees to. -/
theorem consent_of_danger_agreed :
    let x : Execution := ⟨⟨"rm -rf build", ⟨"book", 0⟩, .empty⟩,
      some ⟨"book", "### wipe\nrm -rf build\n"⟩, .default, fun _ => none⟩
    (x.consult 0 (.inOrder [true]) .empty).phase = .sending "rm -rf build" ∧
      IsDangerous "rm -rf build" ∧
        true ∈ (Answers.inOrder [true]).replies
          (x.consult 0 (.inOrder [true]) .empty).prompts.length := by
  intro x
  have hphase : (x.consult 0 (.inOrder [true]) .empty).phase = .sending "rm -rf build" := rfl
  have hdanger : IsDangerous "rm -rf build" := by decide
  exact ⟨hphase, hdanger, (consent_of_danger hphase hdanger).1.mpr (.inr hdanger)⟩

/-- A dangerous text can be sent without any consent: here it is included. -/
theorem danger_without_consent :
    ¬ ∀ (x : Execution) (now : Instant) (answers : Answers) (store : StatusStore) (text : Text),
      (x.consult now answers store).phase = .sending text → IsDangerous text →
        true ∈ answers.replies (x.consult now answers store).prompts.length := by
  intro h
  let x : Execution := ⟨⟨"#include wipe", ⟨"book", 0⟩, .empty⟩,
    some ⟨"book", "### clean\n#include wipe\n\n### wipe\nrm -rf build\n"⟩, .default, fun _ => none⟩
  have hphase : (x.consult 0 (.always false) .empty).phase = .sending "rm -rf build" := rfl
  have hyes := h x 0 (.always false) .empty "rm -rf build" hphase (by decide)
  exact absurd hyes (by decide)

end Execution

end Runbook
