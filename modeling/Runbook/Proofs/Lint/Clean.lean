import Runbook.Proofs.Include.Reach
import Runbook.Proofs.Lint.Findings

/-!
# What a clean check promises

Lint looks for missing blocks line by line and for cycles block by block.  Together the two looks
cover every way in which an expansion can fail, on one condition: lint must see the include lines
that expansion sees.

* A cycle is found because lint expands the live block of each name (`not_isClean_of_cycle`).
* A missing block has a line that names it.  If the name is not empty, lint finds the same name on
  its chomped piece of that line (`not_isClean_of_missing` with `Include.target?_chomp`).
* A missing block with the empty name comes from a directive without a name.  Lint reports it unless
  the directive is hidden behind carriage returns (`Include.hiddenDirective_of_target?_chomp_ne`).

So in a book without errors the blocks that fail to expand are exactly those that reach a hidden
directive (`expandBlock_isOk_iff_of_isClean`).
-/

namespace Runbook.Book

open Include

variable {book : Book} {block : Block}

/-- Lint finds no error. -/
def IsClean (book : Book) : Prop := ∀ d ∈ book.lint, d.isWarning

instance : Decidable book.IsClean := inferInstanceAs (Decidable (∀ d ∈ book.lint, d.isWarning))

/-- Following include lines from the block leads to a line that lint does not know for a
directive. -/
def ReachesHidden (book : Book) (name : Text) : Prop :=
  ∃ other body, Reaches book.blockMap name other ∧ book.blockMap.get? other = some body ∧
    ∃ line ∈ Text.lines body, HiddenDirective line

/-! ## What lint reports -/

/-- If lint finds a name on a line of an executable block and no block has it, there is an error. -/
theorem not_isClean_of_missing (hblock : block ∈ book.executableBlocks) {line target : Text}
    (hline : line ∈ Text.lines block.body) (htarget : target? (Text.chomp line) = some target)
    (hmissing : book.blockMap.get? target = none) : ¬ book.IsClean := by
  intro hclean
  obtain ⟨d, hd, ⟨named, hwords⟩, -⟩ :=
    exists_saysMissing_iff.mpr ⟨block, hblock, rfl, line, hline, target, htarget, hmissing⟩
  exact Diagnostic.not_isWarning_of_saysMissing hwords (hclean d hd)

theorem not_isClean_of_cycle {name : Text} (hblock : book.get? name = some block)
    (hcycle : Revisits (book.expandBlock name)) : ¬ book.IsClean := by
  intro hclean
  obtain ⟨revisited, hrevisited⟩ := hcycle
  have hname := name_of_get?_eq_some hblock
  have hfound : book.includeCycle? block = some (includeCycle block revisited book.fileId) := by
    rw [includeCycle?, if_pos (by rw [isLive, hname, hblock]; simp), hname, hrevisited]
  obtain ⟨named, hwords⟩ := saysCycle_of_includeCycle? hfound
  have hmem := mem_lint_iff.mpr (.inr (.inr ⟨block, mem_of_get?_eq_some hblock, hfound⟩))
  exact Diagnostic.not_isWarning_of_saysCycle hwords (hclean _ hmem)

/-! ## Clean books -/

theorem exists_line_of_missing {name missing : Text} (hblock : book.get? name = some block)
    (h : book.expandBlock name = .error (.missingBlock missing)) :
    ∃ live, Reaches book.blockMap name live.name ∧ book.get? live.name = some live ∧
      ∃ line ∈ Text.lines live.body, target? line = some missing := by
  rw [expandBlock_eq] at h
  obtain ⟨hreach, hmissing⟩ := reaches_of_missingBlock h
  rcases hreach.cases_tail with rfl | ⟨includer, hincluder, body, hbody, line, hline, htarget⟩
  · rw [blockMap_get?, hblock] at hmissing
    cases hmissing
  · rw [blockMap_get?] at hbody
    obtain ⟨live, hlive, rfl⟩ := Option.map_eq_some_iff.mp hbody
    have hname := name_of_get?_eq_some hlive
    exact ⟨live, hname ▸ hincluder, hname ▸ hlive, line, hline, htarget⟩

/-- An expansion that succeeds has met no hidden directive, if no block has the empty name. -/
theorem not_reachesHidden_of_expandBlock {name text : Text} (hnil : book.blockMap.get? [] = none)
    (h : book.expandBlock name = .ok text) : ¬ book.ReachesHidden name := by
  rintro ⟨other, body, hreach, hbody, line, hline, hhidden⟩
  have hedge : Edge book.blockMap other [] :=
    ⟨body, hbody, line, hline, target?_of_hiddenDirective hhidden⟩
  rw [expandBlock_eq] at h
  have hsome := get?_isSome_of_reaches h (hreach.tail hedge)
  rw [hnil] at hsome
  cases hsome

/-- The live block of a clean book that cannot be expanded has met a hidden directive. -/
theorem reachesHidden_of_isClean {name : Text} {e : IncludeError} (hclean : book.IsClean)
    (hblock : book.get? name = some block) (h : book.expandBlock name = .error e) :
    book.ReachesHidden name := by
  cases e with
  | cyclicInclude revisited => exact absurd hclean (not_isClean_of_cycle hblock ⟨revisited, h⟩)
  | missingBlock missing =>
      obtain ⟨live, hreach, hlive, line, hline, htarget⟩ := exists_line_of_missing hblock h
      have hmissing := (reaches_of_missingBlock (expandBlock_eq book name ▸ h)).2
      have hunseen : target? (Text.chomp line) ≠ some missing := fun hseen =>
        not_isClean_of_missing (mem_of_get?_eq_some hlive) hline hseen hmissing hclean
      -- lint sees every directive that has a name
      have hnil : missing = [] := by
        by_contra hname
        exact hunseen (target?_chomp hname htarget)
      subst hnil
      refine ⟨live.name, live.body, hreach, blockMap_get?_eq_some hlive, line, hline, ?_⟩
      exact hiddenDirective_of_target?_chomp_ne (Text.not_mem_of_mem_lines hline) htarget hunseen

/-- **A clean check means that every block expands**, except for the blocks that reach a directive
which carriage returns hide from lint. -/
theorem expandBlock_isOk_iff_of_isClean {source : Text} {fileId : Nat}
    (hclean : (parse source fileId).IsClean)
    (hblock : block ∈ (parse source fileId).executableBlocks) :
    (∃ text, (parse source fileId).expandBlock block.name = .ok text) ↔
      ¬ (parse source fileId).ReachesHidden block.name := by
  constructor
  · rintro ⟨text, htext⟩
    exact not_reachesHidden_of_expandBlock (blockMap_get?_nil source fileId) htext
  · intro hhidden
    obtain ⟨live, hlive⟩ := exists_get?_of_mem hblock
    cases hexpand : (parse source fileId).expandBlock block.name with
    | ok text => exact ⟨text, rfl⟩
    | error e => exact absurd (reachesHidden_of_isClean hclean hlive hexpand) hhidden

/-- Carriage returns behind a name hide nothing. -/
theorem expandBlock_isOk_iff_of_isClean_named :
    let book := parse "### a\n#include b\r\r\nls\n### b\necho hi\n" 0
    book.IsClean ∧ ∃ block ∈ book.executableBlocks, block.name = "a" ∧
      ((∃ text, book.expandBlock block.name = .ok text) ↔ ¬ book.ReachesHidden block.name) := by
  intro book
  have hclean : book.IsClean := by decide
  obtain ⟨block, hblock, hname⟩ : ∃ block ∈ book.executableBlocks, block.name = "a" := by decide
  exact ⟨hclean, block, hblock, hname, expandBlock_isOk_iff_of_isClean hclean hblock⟩

/-- Behind the word alone they do: the check is clean, and the block misses the empty name. -/
theorem isClean_of_hidden_include :
    let book := parse "### a\n#include \r\r\nfoo\n" 0
    book.IsClean ∧ ∃ block ∈ book.executableBlocks,
      book.expandBlock block.name = .error (.missingBlock []) := by
  decide

end Runbook.Book
