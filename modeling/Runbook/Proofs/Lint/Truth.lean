import Runbook.Proofs.Lint.Clean
import Runbook.Proofs.Lint.Findings

/-!
# Whether the errors of lint are true

An error about a cycle is true: it stands at the header line of a live block, whose expansion was
tried.

An error about an include line says that the block with this line cannot be expanded.  That holds of
a live block (`expandBlock_of_namesMissing`).  Lint reads the lines of the other blocks, too, and of
such a block the error speaks by its name, which stands for a later block: what it says is true if
that block fails for a reason of its own, and else it is a false alarm (`truthful_iff`).
-/

namespace Runbook.Book

open Include

variable {book : Book} {block : Block} {source : Text} {fileId : Nat}

/-- What the finding says of blocks is true. A block that cannot be expanded according to its note
cannot be expanded, and the block at whose header line it reports a cycle fails with this cycle. -/
structure Truthful (book : Book) (d : Diagnostic) : Prop where
  missing : ∀ target name, d.SaysMissing target → cannotBeExpanded name ∈ d.notes →
    ∃ e, book.expandBlock name = .error e
  cycle : ∀ revisited, ∀ block ∈ book.blocks, d.SaysCycle revisited → d.span = block.header →
    book.expandBlock block.name = .error (.cyclicInclude revisited)

theorem expandBlock_of_namesMissing (hlive : book.get? block.name = some block)
    (h : book.NamesMissing block) :
    ∃ e, book.expandBlock block.name = .error e := by
  obtain ⟨line, hline, target, htarget, hnone⟩ := h
  have hbody : book.blockMap.get? block.name = some block.body := blockMap_get?_eq_some hlive
  have hedge : Edge book.blockMap block.name target :=
    ⟨block.body, hbody, line, hline,
      target?_of_target?_chomp (Text.not_mem_of_mem_lines hline) htarget⟩
  cases hexpand : book.expandBlock block.name with
  | error e => exact ⟨e, rfl⟩
  | ok text =>
      rw [expandBlock_eq] at hexpand
      have hsome := get?_isSome_of_reaches hexpand (.single hedge)
      rw [hnone] at hsome
      cases hsome

/-- **Which errors of lint are true.**  All of them are, and so is the verdict of a check, up to the
blocks that are not live.  The errors are true exactly if every such block that names a missing one
shares its name with a live block that cannot be expanded.  And if all blocks can be expanded, the
check fails exactly if such a block names a missing one. -/
theorem truthful_iff (source : Text) (fileId : Nat) :
    let book := parse source fileId
    ((∀ d ∈ book.lint, book.Truthful d) ↔
        ∀ block ∈ book.executableBlocks, book.get? block.name ≠ some block →
          book.NamesMissing block →
          ∃ e, book.expandBlock block.name = .error e) ∧
      ((∀ block ∈ book.executableBlocks, ∃ text, book.expandBlock block.name = .ok text) →
        (book.IsClean ↔ ∀ block ∈ book.executableBlocks,
          book.get? block.name ≠ some block → ¬ book.NamesMissing block)) := by
  intro book
  constructor
  · constructor
    · intro htrue block hblock _ hnames
      obtain ⟨d, hd, ⟨target, hwords⟩, hnote⟩ :=
        exists_saysMissing_iff.mpr ⟨block, hblock, rfl, hnames⟩
      exact (htrue d hd).missing target block.name hwords hnote
    · intro hshadowed d hd
      constructor
      · intro target name hwords hnote
        obtain ⟨block, hblock, rfl, hnames⟩ :=
          exists_saysMissing_iff.mp ⟨d, hd, ⟨target, hwords⟩, hnote⟩
        by_cases hlive : book.get? block.name = some block
        · exact expandBlock_of_namesMissing hlive hnames
        · exact hshadowed block hblock hlive hnames
      · intro revisited block hblock hwords hspan
        exact ((saysCycle_at_header_iff hblock).mp ⟨d, hd, hwords, hspan⟩).2
  · intro hok
    constructor
    · intro hclean block hblock _ hnames
      obtain ⟨d, hd, ⟨target, hwords⟩, -⟩ := exists_saysMissing_iff.mpr ⟨block, hblock, rfl, hnames⟩
      exact Diagnostic.not_isWarning_of_saysMissing hwords (hclean d hd)
    · intro hshadowed d hd
      rcases kind_of_mem_lint hd with hwarning | ⟨target, hwords⟩ | ⟨revisited, hwords⟩
      · exact hwarning
      · obtain ⟨block, hblock, -, hnames⟩ := exists_namesMissing_of_saysMissing hd hwords
        obtain ⟨text, htext⟩ := hok block hblock
        have hlive : book.get? block.name = some block := by
          by_contra hshadow
          exact hshadowed block hblock hshadow hnames
        obtain ⟨e, herror⟩ := expandBlock_of_namesMissing hlive hnames
        rw [htext] at herror
        cases herror
      · obtain ⟨block, hlive, hexpand, -⟩ := saysCycle_iff.mp ⟨hd, hwords⟩
        obtain ⟨text, htext⟩ := hok block (mem_of_get?_eq_some hlive)
        rw [hexpand] at htext
        cases htext

/-- A block that a later one of its name has replaced raises a false alarm, and the check fails. -/
theorem not_truthful_of_shadowed :
    let book := parse "### a\n#include b\n### a\nls\n" 0
    (∃ d ∈ book.lint, d.SaysMissing "b" ∧ cannotBeExpanded "a" ∈ d.notes) ∧
      book.expandBlock "a" = .ok "ls" ∧
      ¬ book.IsClean ∧ ∀ block ∈ book.executableBlocks, book.expandBlock block.name = .ok "ls" := by
  decide

end Runbook.Book
