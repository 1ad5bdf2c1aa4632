import Runbook.Proofs.Block.Parts
import Runbook.Proofs.Lint.Findings

/-!
# Where the findings of lint stand

A finding stands at the header line of a block, or at the include line that it is about.  The place
of a header line is one that the scanner has written down.  The place of an include line is counted
by lint from the start of the body, piece by piece, and the body itself has been trimmed before.

Both places hold the text that is meant, whatever characters and line endings are in front of it,
and an editor can mark it: the text is not empty, and it does not go beyond its line
(`lint_points_at_text`).
-/

namespace Runbook

/-- The finding stands inside the body of the block, and its note says that this block cannot be
expanded. -/
structure Diagnostic.StandsIn (d : Diagnostic) (source : Text) (block : Block) : Prop where
  notes : d.notes = [Book.cannotBeExpanded block.name]
  body : Text.PartAt source block.bodySpan block.body
  start_le : block.bodySpan.start ≤ d.span.start
  stop_le : d.span.stop ≤ block.bodySpan.stop

namespace Book

open Include

variable {book : Book} {block : Block} {d : Diagnostic} {source target : Text} {fileId : Nat}

/-- A finding that is not about an include line stands at the header line of a block. -/
theorem exists_header_of_mem_lint (hd : d ∈ book.lint) (h : ∀ target, ¬ d.SaysMissing target) :
    ∃ block ∈ book.blocks, d.span = block.header := by
  rcases mem_lint_iff.mp hd with hwarning | ⟨block, -, hmissing⟩ | ⟨block, hblock, hcycle⟩
  · exact (mem_warnings hwarning).2
  · obtain ⟨target, hwords⟩ := saysMissing_of_mem_missingIncludes hmissing
    exact absurd hwords (h target)
  · obtain ⟨-, revisited, -, rfl⟩ := includeCycle?_eq_some_iff.mp hcycle
    exact ⟨block, (List.mem_filter.mp hblock).1, rfl⟩

/-- A finding about an include line stands at this line, inside the body that it was read from. -/
theorem exists_directive_of_saysMissing (hd : d ∈ (parse source fileId).lint)
    (hwords : d.SaysMissing target) :
    ∃ line, Text.PartAt source d.span line ∧ '\n' ∉ line ∧ target? line = some target ∧
      target ∉ (parse source fileId).blockMap.keys ∧
        ∃ block ∈ (parse source fileId).executableBlocks, d.StandsIn source block := by
  obtain ⟨block, hblock, front, piece, back, hpieces, htarget, hnone, rfl⟩ :=
    saysMissing_iff.mp ⟨hd, hwords⟩
  have hpiece : piece ∈ Text.pieces block.body := by simp [hpieces]
  obtain ⟨ending, hchomp, -⟩ := Text.exists_chomped piece
  have hbody : block.body = front.flatten ++ (Text.chomp piece ++ (ending ++ back.flatten)) := by
    calc block.body = (front ++ piece :: back).flatten := by rw [← hpieces, Text.flatten_pieces]
      _ = front.flatten ++ (piece ++ back.flatten) := by rw [List.flatten_append, List.flatten_cons]
      _ = front.flatten ++ (Text.chomp piece ++ (ending ++ back.flatten)) := by
        rw [← List.append_assoc _ ending, ← hchomp]
  have hplaced : Block.Placed source block := Block.placed_of_mem_scan (List.mem_filter.mp hblock).1
  obtain ⟨hpart, hstop⟩ := hplaced.body.within hbody
  have hkey : target ∉ (parse source fileId).blockMap.keys := by
    rwa [Table.mem_keys_iff, Option.not_isSome_iff_eq_none]
  exact ⟨Text.chomp piece, hpart, Text.not_mem_chomp hpiece, htarget, hkey, block, hblock, rfl,
    hplaced.body, Nat.le_add_right _ _, hstop⟩

/-- **Findings point at the right text.**  The place of each is within a line of the source.  An
error about an include line stands at this line, which names the missing block, inside the body of a
block that bears the name in the note.  All other findings, warnings and cycles, stand at the header
line of a block. -/
theorem lint_points_at_text (hd : d ∈ (parse source fileId).lint) :
    let book := parse source fileId
    let text := Text.slice source d.span
    Text.WithinLine source d.span ∧
      (∀ target, d.SaysMissing target →
        ("#include" : Text) <+: text ∧ target? text = some target ∧ target ∉ book.blockMap.keys ∧
          ∃ block ∈ book.executableBlocks, d.StandsIn source block) ∧
      (d.isWarning ∨ (∃ revisited, d.SaysCycle revisited) →
        ∃ block ∈ book.blocks, d.span = block.header ∧ Block.Declares text block.name) ∧
      (d.isWarning ∨ (∃ target, d.SaysMissing target) ∨ ∃ revisited, d.SaysCycle revisited) := by
  intro book text
  by_cases hmissing : ∃ target, d.SaysMissing target
  · obtain ⟨target, hwords⟩ := hmissing
    obtain ⟨line, hpart, hfeed, htarget, hnone, hblock⟩ := exists_directive_of_saysMissing hd hwords
    obtain rfl : text = line := hpart.slice_eq
    obtain ⟨blanks, rest, hline, -⟩ := exists_of_target?_eq_some htarget
    have hword : ("#include" : Text) <+: text := ⟨blanks ++ rest, hline.symm⟩
    have hne : text ≠ [] := by
      intro hnil
      rw [hnil] at htarget
      cases htarget
    refine ⟨hpart.withinLine hne hfeed, fun other hother => ?_, ?_, .inr (.inl ⟨target, hwords⟩)⟩
    · obtain rfl : target = other := List.append_cancel_left (hwords.2.symm.trans hother.2)
      exact ⟨hword, htarget, hnone, hblock⟩
    · rintro (hwarning | ⟨revisited, hcycle⟩)
      · exact absurd hwarning (Diagnostic.not_isWarning_of_saysMissing hwords)
      · exact absurd hwords (Diagnostic.not_saysMissing_of_saysCycle hcycle)
  · rw [not_exists] at hmissing
    obtain ⟨block, hblock, hspan⟩ := exists_header_of_mem_lint hd hmissing
    obtain ⟨line, hpart, hfeed, hname⟩ := (Block.placed_of_mem_scan hblock).header
    rw [← hspan] at hpart
    obtain rfl : text = line := hpart.slice_eq
    have hne : text ≠ [] := fun hnil => Block.not_declares_nil (hnil ▸ hname)
    exact ⟨hpart.withinLine hne hfeed, fun target hwords => absurd hwords (hmissing target),
      fun _ => ⟨block, hblock, hspan, hname⟩, kind_of_mem_lint hd⟩

/-- White space around the body, carriage returns and characters of several bytes move no place. -/
theorem lint_points_at_text_unicode :
    let source : Text := "ü\r\n### naïve\r\n\u3000\r\n\techo ü\r\n#include nowhere\u00a0\r\n\r\n"
    let book := parse source 0
    ∃ d ∈ book.lint, d.SaysMissing "nowhere" ∧ Text.WithinLine source d.span ∧
      ("#include" : Text) <+: Text.slice source d.span ∧
      target? (Text.slice source d.span) = some "nowhere" ∧
      ∃ block ∈ book.executableBlocks, d.StandsIn source block := by
  intro source book
  obtain ⟨d, hd, hwords⟩ : ∃ d ∈ book.lint, d.SaysMissing "nowhere" := by decide
  obtain ⟨hplace, hmissing, -⟩ := lint_points_at_text hd
  obtain ⟨hword, htarget, -, hblock⟩ := hmissing _ hwords
  exact ⟨d, hd, hwords, hplace, hword, htarget, hblock⟩

end Book

end Runbook
