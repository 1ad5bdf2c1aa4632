import Runbook.Proofs.Book.Live
import Runbook.Proofs.Execution.AllOrNothing

/-!
# Only current blocks are executed

A request holds the text of a block as it was shown, and by the time of its execution the document
may be another one.  The execution does not trust the request.  It looks for a live block with this
very text in the document as it is now, and it is the block that is expanded, includes and all
(`executed_is_current`).  Of the request only the variables go into the command.

A block that lost its name to a later one does not count, unless the later one has the same text.
If no live block has the text of the request, the execution ends before anything is handed to the
sink.
-/

namespace Runbook.Execution

variable {x : Execution} {now : Instant} {sink : Sink} {answers : Answers} {store : StatusStore}

theorem expand_of_executed {command : Text}
    (h : (x.run now sink answers store).phase = .ended (.ok (.executed command))) :
    x.expand x.request.command = .ok command := by
  rw [run, settle] at h
  cases stopped_runToDelay x now sink answers store with
  | delivered phase _ expanded =>
      rw [phase] at h
      cases h
      exact expanded
  | failed phase =>
      rw [phase] at h
      cases h
  | declined phase =>
      rw [phase] at h
      cases h

/-- **Only current blocks are executed.**  Whatever the request says, a command that counts as
executed is the expansion of a live block of the document, the body of which is the trimmed command
of the request.  If there is no such block, nothing is handed to the sink, and the execution is
cancelled or ends with the error that no block matches. -/
theorem executed_is_current (request : ExecuteRequest) (document : Document)
    (settings : ExecutorSettings) (environment : Environment) (now : Instant) (sink : Sink)
    (answers : Answers) (store : StatusStore) :
    let x : Execution := ⟨request, some document, settings, environment⟩
    let p := x.run now sink answers store
    (∀ command, p.phase = .ended (.ok (.executed command)) →
        ∃ live ∈ document.book.executableBlocks, document.book.get? live.name = some live ∧
          live.body = Text.trim request.command ∧
            ∃ text, document.book.expandBlock live.name = .ok text ∧
              command = Reference.expand text request.declared environment) ∧
      ((∀ block ∈ document.book.executableBlocks, document.book.get? block.name = some block →
          block.body ≠ Text.trim request.command) →
        (p.phase = .ended (.ok .cancelled) ∨ p.phase = .ended (.error .noMatchingBlock)) ∧
          x.handed now answers store = [] ∧ p.sent = []) := by
  intro x p
  constructor
  · intro command hexecuted
    obtain ⟨current, name, text, hcurrent, hfound, htext, hcommand⟩ :=
      exists_of_expand_eq_ok (expand_of_executed hexecuted)
    obtain rfl := Option.some.inj hcurrent
    obtain ⟨live, hlive, hbody⟩ := Book.exists_live_of_findByCommand? hfound
    obtain rfl := Book.name_of_get?_eq_some hlive
    exact ⟨live, Book.mem_of_get?_eq_some hlive, hlive, hbody, text, htext, hcommand⟩
  · intro hnone
    have hfound : document.book.findByCommand? request.command = none := by
      by_contra hsome
      obtain ⟨name, hname⟩ := Option.ne_none_iff_exists'.mp hsome
      obtain ⟨live, hlive, hbody⟩ := Book.exists_live_of_findByCommand? hname
      obtain rfl := Book.name_of_get?_eq_some hlive
      exact hnone live (Book.mem_of_get?_eq_some hlive) hlive hbody
    have herror : x.expand x.request.command = .error .noMatchingBlock := by
      simp only [x, expand, hfound]
    obtain ⟨hsent, hphase⟩ := run_of_expand_eq_error herror now sink answers store
    refine ⟨?_, handed_of_expand_eq_error herror, hsent⟩
    rcases hphase with hfailed | ⟨hcancelled, -⟩
    · exact Or.inr hfailed
    · exact Or.inl hcancelled

/-- A made-up request for a text that the name has kept through a redefinition, and a stale one for
a text that it has lost. -/
theorem executed_is_current_of_shadowed :
    let document : Document :=
      ⟨"book", "### a\nls $X\n### a\nls $X\n### b\nold\n### b\nnew\n"⟩
    let made : ExecuteRequest := ⟨" ls $X\n", ⟨"elsewhere", 7⟩, .ofList [("X", "-l")]⟩
    let stale : ExecuteRequest := ⟨"old", ⟨"book", 24⟩, .empty⟩
    (Execution.run ⟨made, some document, .default, fun _ => none⟩ 0 (fun _ _ => .ok ())
        (.always false) .empty).phase = .ended (.ok (.executed "ls -l")) ∧
      (∃ live ∈ document.book.executableBlocks, document.book.get? live.name = some live ∧
        live.body = Text.trim made.command) ∧
        (Execution.run ⟨stale, some document, .default, fun _ => none⟩ 0 (fun _ _ => .ok ())
          (.always false) .empty).sent = [] := by
  intro document made stale
  have hexecuted :
      (Execution.run ⟨made, some document, .default, fun _ => none⟩ 0 (fun _ _ => .ok ())
        (.always false) .empty).phase = .ended (.ok (.executed "ls -l")) := rfl
  obtain ⟨live, hmem, hlive, hbody, -⟩ :=
    (executed_is_current made document .default (fun _ => none) 0 (fun _ _ => .ok ())
      (.always false) .empty).1 "ls -l" hexecuted
  have hnone : ∀ block ∈ document.book.executableBlocks,
      document.book.get? block.name = some block → block.body ≠ Text.trim stale.command := by
    decide
  obtain ⟨-, -, hsent⟩ :=
    (executed_is_current stale document .default (fun _ => none) 0 (fun _ _ => .ok ())
      (.always false) .empty).2 hnone
  exact ⟨hexecuted, ⟨live, hmem, hlive, hbody⟩, hsent⟩

end Runbook.Execution
