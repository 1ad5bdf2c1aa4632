import Runbook.Program
import Runbook.Proofs.Book.Live
import Runbook.Proofs.Execution.AllOrNothing
import Runbook.Proofs.Include.Reach
import Runbook.Session

/-!
# Executing a block and expanding it

A block is expanded by its name.  It is executed by its body: the request that its lens offers holds
the text of the block, and the execution looks for a live block with this text.  What it finds may
have another name, and so the expansion starts from another place in the graph of includes.

The two ways agree all the same (`run_agrees_with_expandBlock`).  Two names of one body expand alike
unless both run into a cycle (`Include.expanded_eq_of_get?_eq`), and a cycle is a cycle from both of
them, though another block may be the one that is met again.
-/

namespace Runbook

open Include

/-! ## The request of a name -/

/-- The lens of the live block offers its body, its key and the variables of the document. -/
theorem Document.request?_eq (document : Document) (seen : StatusStore) (shown : Instant)
    (name : Text) :
    document.request? seen shown name = (document.book.get? name).map fun block =>
      ⟨block.body, BlockKey.ofBlock document.uri block, document.book.declared⟩ := by
  rw [request?, lenses, ← List.map_reverse, List.find?_map, Book.get?]
  have hname : ((fun lens : Lens => decide (lens.name = name)) ∘
      Lens.ofBlock document document.book.declared seen shown) =
        fun block : Block => decide (block.name = name) := rfl
  rw [hname]
  cases document.book.executableBlocks.reverse.find? fun block => decide (block.name = name) <;> rfl

namespace Book

variable {book : Book} {name other : Text} {block : Block}

theorem blockMap_get?_of_findByCommand?_body (hblock : book.get? name = some block)
    (htrim : Text.trim block.body = block.body) (h : book.findByCommand? block.body = some other) :
    book.blockMap.get? name = some block.body ∧ book.blockMap.get? other = some block.body := by
  refine ⟨blockMap_get?_eq_some hblock, ?_⟩
  rw [blockMap_get?_of_findByCommand? h, htrim]

/-- The expansion from the name that is found agrees with the one from the name that was meant. -/
theorem expandBlock_of_findByCommand? (hblock : book.get? name = some block)
    (htrim : Text.trim block.body = block.body) (h : book.findByCommand? block.body = some other) :
    (¬ Revisits (book.expandBlock name) → book.expandBlock other = book.expandBlock name) ∧
      (Revisits (book.expandBlock name) → Revisits (book.expandBlock other)) := by
  obtain ⟨hname, hother⟩ := blockMap_get?_of_findByCommand?_body hblock htrim h
  refine ⟨fun hno => expanded_eq_of_get?_eq hname hother hno, fun hyes => ?_⟩
  by_contra hno
  have heq : book.expandBlock name = book.expandBlock other :=
    expanded_eq_of_get?_eq hother hname hno
  exact hno (heq ▸ hyes)

end Book

/-! ## Executions without a no -/

theorem Answers.false_not_mem_replies (n : Nat) : false ∉ (Answers.always true).replies n := by
  intro hno
  rw [replies_always] at hno
  exact absurd (List.eq_of_mem_replicate hno) (by decide)

namespace Execution

variable {x : Execution} {sink : Sink}

/-- What can be expanded is sent and counts as executed. -/
theorem run_of_expand_eq_ok {text : Text} (h : x.expand x.request.command = .ok text)
    (haccept : sink x.settings.session text = .ok ()) (now : Instant) (store : StatusStore) :
    (x.run now sink (.always true) store).phase = .ended (.ok (.executed text)) ∧
      (x.run now sink (.always true) store).sent = [(x.settings.session, text)] := by
  rw [run]
  cases stopped_runToDelay x now sink (.always true) store with
  | delivered phase sent expanded =>
      obtain rfl := Except.ok.inj (h.symm.trans expanded)
      rw [settle_of_settling phase]
      exact ⟨rfl, sent⟩
  | failed _ _ cause =>
      cases cause with
      | expand error =>
          rw [h] at error
          cases error
      | deliver expanded refused =>
          obtain rfl := Except.ok.inj (h.symm.trans expanded)
          rw [haccept] at refused
          cases refused
  | declined _ _ reply => exact absurd reply (Answers.false_not_mem_replies _)

/-- What cannot be expanded is not sent. -/
theorem fails_of_expand_eq_error {e : ExecutionError} (h : x.expand x.request.command = .error e)
    (now : Instant) (store : StatusStore) :
    (x.run now sink (.always true) store).phase = .ended (.error e) ∧
      (x.run now sink (.always true) store).sent = [] := by
  obtain ⟨hsent, hphase⟩ := run_of_expand_eq_error h now sink (.always true) store
  refine ⟨hphase.resolve_right ?_, hsent⟩
  rintro ⟨-, hno⟩
  exact Answers.false_not_mem_replies _ hno

end Execution

/-! ## Agreement -/

/-- The program prints the expansion of a block with the variables put in. -/
theorem World.expand_of_expandBlock {w : World} {file name text : Text} {loaded : Document}
    {block : Block} (hload : w.load file = .ok loaded) (hblock : loaded.book.get? name = some block)
    (htext : loaded.book.expandBlock name = .ok text) :
    ∃ messages, w.expand file name =
      .ok (w.exit 0 (Reference.expand text loaded.book.declared w.env ++ "\n") messages) := by
  rw [World.expand, hload]
  simp only [bind, Except.bind, hblock, htext]
  exact ⟨_, rfl⟩

/-- **Executing a block and expanding it agree.**  The request of a name, executed with every
question answered by yes and a sink that accepts, sends and reports the text that expanding the name
prints, and fails where expanding the name fails. -/
theorem run_agrees_with_expandBlock {document : Document} {block : Block}
    (hblock : block ∈ document.book.executableBlocks) {sink : Sink}
    (haccept : ∀ session command, sink session command = .ok ()) (seen store : StatusStore)
    (shown now : Instant) (settings : ExecutorSettings) (environment : Environment) :
    ∃ request, document.request? seen shown block.name = some request ∧
      let x : Execution := ⟨request, some document, settings, environment⟩
      let p := x.run now sink (.always true) store
      match document.book.expandBlock block.name with
      | .ok text =>
          let command := Reference.expand text document.book.declared environment
          p.phase = .ended (.ok (.executed command)) ∧ p.sent = [(settings.session, command)] ∧
            ∀ (w : World) (file : Text) (loaded : Document), w.load file = .ok loaded →
              loaded.text = document.text → w.env = environment →
                ∃ messages, w.expand file block.name = .ok (w.exit 0 (command ++ "\n") messages)
      | .error (.missingBlock missing) =>
          p.phase = .ended (.error (.expansion (.missingBlock missing))) ∧ p.sent = []
      | .error (.cyclicInclude _) =>
          ∃ revisited, p.phase = .ended (.error (.expansion (.cyclicInclude revisited))) ∧
            p.sent = [] := by
  obtain ⟨live, hlive⟩ := Book.exists_get?_of_mem hblock
  have htrim : Text.trim live.body = live.body :=
    Book.trim_body_of_mem (Book.mem_of_get?_eq_some hlive)
  obtain ⟨other, hother⟩ := Book.exists_findByCommand? hlive htrim
  obtain ⟨hsame, hcycle⟩ := Book.expandBlock_of_findByCommand? hlive htrim hother
  refine ⟨⟨live.body, BlockKey.ofBlock document.uri live, document.book.declared⟩, ?_, ?_⟩
  · rw [Document.request?_eq, hlive]
    rfl
  intro x p
  -- the execution starts from the name that it has found
  have hok : ∀ text, document.book.expandBlock other = .ok text →
      x.expand x.request.command =
        .ok (Reference.expand text document.book.declared environment) := by
    intro text htext
    simp only [x, Execution.expand, hother, htext]
  have herror : ∀ e, document.book.expandBlock other = .error e →
      x.expand x.request.command = .error (.expansion e) := by
    intro e he
    simp only [x, Execution.expand, hother, he]
  cases hmeant : document.book.expandBlock block.name with
  | ok text =>
      have hno : ¬ Revisits (document.book.expandBlock block.name) := by
        rw [hmeant]
        exact not_revisits_ok text
      have hexpand := hok text ((hsame hno).trans hmeant)
      have hrun := Execution.run_of_expand_eq_ok hexpand (haccept _ _) now store
      refine ⟨hrun.1, hrun.2, fun w file loaded hload htext henv => ?_⟩
      have hbook : loaded.book = document.book := by rw [Document.book, Document.book, htext]
      obtain ⟨messages, hmessages⟩ := World.expand_of_expandBlock hload (hbook ▸ hlive)
        (hbook ▸ hmeant)
      rw [hbook, henv] at hmessages
      exact ⟨messages, hmessages⟩
  | error e =>
      cases e with
      | missingBlock missing =>
          have hno : ¬ Revisits (document.book.expandBlock block.name) := by
            rw [hmeant]
            rintro ⟨revisited, hrevisited⟩
            cases hrevisited
          have hexpand := herror _ ((hsame hno).trans hmeant)
          exact Execution.fails_of_expand_eq_error hexpand now store
      | cyclicInclude revisited =>
          obtain ⟨again, hagain⟩ := hcycle ⟨revisited, hmeant⟩
          exact ⟨again, Execution.fails_of_expand_eq_error (herror _ hagain) now store⟩

/-- The second of two blocks with one body is found under the name of the first. -/
theorem run_agrees_with_expandBlock_of_shared_body :
    let document : Document :=
      ⟨"book", "### $VARIABLES\nX=1\n### a\n#include c\n### b\n#include c\n### c\necho $X\n"⟩
    ∃ block ∈ document.book.executableBlocks, block.name = "b" ∧
      document.book.findByCommand? block.body = some "a" ∧
        ∃ request, document.request? .empty 0 block.name = some request ∧
          (Execution.run ⟨request, some document, .default, fun _ => none⟩ 0 SinkMode.accepting.sink
            (.always true) .empty).phase = .ended (.ok (.executed "echo 1")) := by
  intro document
  obtain ⟨block, hblock, hname, hfound, htext⟩ :
      ∃ block ∈ document.book.executableBlocks, block.name = "b" ∧
        document.book.findByCommand? block.body = some "a" ∧
          document.book.expandBlock block.name = .ok "echo $X" := by
    decide
  obtain ⟨request, hrequest, hrun⟩ :=
    run_agrees_with_expandBlock hblock (fun _ _ => rfl) .empty .empty 0 0 .default fun _ => none
  rw [htext] at hrun
  exact ⟨block, hblock, hname, hfound, request, hrequest, hrun.1⟩

end Runbook
