import Runbook.Book
import Runbook.Proofs.Include.Expansion
import Runbook.Proofs.Text.Ends

/-!
# Live blocks

A name stands for one block, the last executable one that bears it.  Three definitions speak about
it: `Book.get?` finds the block, `Book.blockMap` its body, `Book.findByCommand?` its name.  They are
tied together here (`blockMap_get?`, `blockMap_get?_of_findByCommand?`, `exists_findByCommand?`), so
that later proofs can move between them.

The blocks of a source keep two promises of the scanner: their names are not empty
(`name_ne_nil_of_mem`) and their bodies are trimmed (`trim_body_of_mem`).
-/

namespace Runbook

namespace Block

/-! ## What scanning promises -/

theorem headerName?_ne_nil {line name : Text} (h : headerName? line = some name) : name ≠ [] := by
  unfold headerName? at h
  grind

theorem isHeader_of_mem_sections {pieces : List Text} {s : Section}
    (h : s ∈ (sections pieces).2) : isHeader s.head := by
  induction pieces with
  | nil => simp [sections] at h
  | cons piece pieces ih =>
      by_cases hheader : isHeader piece
      · simp only [sections, if_pos hheader] at h
        rcases List.mem_cons.mp h with rfl | h
        · exact hheader
        · exact ih h
      · simp only [sections, if_neg hheader] at h
        exact ih h

theorem exists_section_of_mem_ofSections {offset : Nat} {found : List Section} {b : Block}
    (h : b ∈ ofSections offset found) : ∃ s ∈ found, ∃ start, b = ofSection start s := by
  induction found generalizing offset with
  | nil => simp [ofSections] at h
  | cons s rest ih =>
      rcases List.mem_cons.mp h with rfl | h
      · exact ⟨s, List.mem_cons_self, offset, rfl⟩
      · obtain ⟨s', hs', start, rfl⟩ := ih h
        exact ⟨s', List.mem_cons_of_mem _ hs', start, rfl⟩

theorem name_ne_nil_of_mem_scan {source : Text} {b : Block} (h : b ∈ scan source) :
    b.name ≠ [] := by
  obtain ⟨s, hs, start, rfl⟩ := exists_section_of_mem_ofSections h
  have hheader := isHeader_of_mem_sections hs
  obtain ⟨name, hname⟩ := Option.isSome_iff_exists.mp hheader
  simp only [ofSection, hname, Option.getD_some]
  exact headerName?_ne_nil hname

theorem trim_body_of_mem_scan {source : Text} {b : Block} (h : b ∈ scan source) :
    Text.trim b.body = b.body := by
  obtain ⟨s, _, start, rfl⟩ := exists_section_of_mem_ofSections h
  exact Text.trim_trim _

end Block

namespace Book

variable {book : Book} {name : Text} {block : Block}

/-! ## Names and their blocks -/

/-- The body of a name is the body of its live block. -/
theorem blockMap_get? (book : Book) (name : Text) :
    book.blockMap.get? name = (book.get? name).map Block.body := by
  rw [blockMap, Table.get?_ofList, ← List.map_reverse, List.find?_map, Option.map_map]
  rfl

theorem blockMap_get?_eq_some (h : book.get? name = some block) :
    book.blockMap.get? name = some block.body := by
  rw [blockMap_get?, h]
  rfl

theorem mem_of_get?_eq_some (h : book.get? name = some block) :
    block ∈ book.executableBlocks :=
  List.mem_reverse.mp (List.mem_of_find?_eq_some h)

theorem name_of_get?_eq_some (h : book.get? name = some block) : block.name = name := by
  simpa using List.find?_some h

theorem exists_get?_of_mem (h : block ∈ book.executableBlocks) :
    ∃ live, book.get? block.name = some live := by
  rw [← Option.isSome_iff_exists, get?, List.find?_isSome]
  exact ⟨block, List.mem_reverse.mpr h, by simp⟩

theorem blockMap_get?_eq_none (h : ∀ b ∈ book.executableBlocks, b.name ≠ name) :
    book.blockMap.get? name = none := by
  rw [blockMap_get?, Option.map_eq_none_iff]
  by_contra hne
  obtain ⟨live, hlive⟩ := Option.ne_none_iff_exists'.mp hne
  exact h live (mem_of_get?_eq_some hlive) (name_of_get?_eq_some hlive)

theorem expandBlock_eq (book : Book) (name : Text) :
    book.expandBlock name = Include.expanded book.blockMap [] name := rfl

/-! ## Commands and their names -/

/-- A name that is found for a command has that command as its body. -/
theorem blockMap_get?_of_findByCommand? {command : Text}
    (h : book.findByCommand? command = some name) :
    book.blockMap.get? name = some (Text.trim command) := by
  obtain ⟨b, hb, rfl⟩ := Option.map_eq_some_iff.mp h
  have hfound := List.find?_some hb
  simp only [Bool.and_eq_true, decide_eq_true_eq] at hfound
  rw [hfound.2, hfound.1]

theorem exists_live_of_findByCommand? {command : Text}
    (h : book.findByCommand? command = some name) :
    ∃ live, book.get? name = some live ∧ live.body = Text.trim command := by
  have hbody := blockMap_get?_of_findByCommand? h
  rw [blockMap_get?] at hbody
  exact Option.map_eq_some_iff.mp hbody

/-- The body of a live block is found, though perhaps under another name. -/
theorem exists_findByCommand? {command : Text} (h : book.get? name = some block)
    (hcommand : Text.trim command = block.body) :
    ∃ other, book.findByCommand? command = some other := by
  rw [← Option.isSome_iff_exists, findByCommand?, Option.isSome_map, List.find?_isSome]
  refine ⟨block, mem_of_get?_eq_some h, ?_⟩
  rw [name_of_get?_eq_some h, blockMap_get?, h]
  simp [hcommand]

/-! ## Books of a source -/

theorem name_ne_nil_of_mem {source : Text} {fileId : Nat}
    (h : block ∈ (parse source fileId).executableBlocks) : block.name ≠ [] :=
  Block.name_ne_nil_of_mem_scan (List.mem_filter.mp h).1

theorem trim_body_of_mem {source : Text} {fileId : Nat}
    (h : block ∈ (parse source fileId).executableBlocks) : Text.trim block.body = block.body :=
  Block.trim_body_of_mem_scan (List.mem_filter.mp h).1

/-- No block of a source has the empty name. -/
theorem blockMap_get?_nil (source : Text) (fileId : Nat) :
    (parse source fileId).blockMap.get? [] = none :=
  blockMap_get?_eq_none fun _ => name_ne_nil_of_mem

end Book

end Runbook
