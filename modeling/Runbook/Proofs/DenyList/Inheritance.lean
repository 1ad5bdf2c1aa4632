import Runbook.Program
import Runbook.Proofs.Book.Live
import Runbook.Proofs.DenyList.Surroundings
import Runbook.Proofs.Include.Composition

/-!
# Danger comes with what is included

An include line is replaced by the expansion of its block, and joining the lines puts a line feed in
front of it and behind it at most.  So the expansion of an included block stands unbroken in that of
the block that includes it (`Include.exists_isInfix_of_edge`), along any chain of includes
(`Include.exists_isInfix_of_reaches`), and whatever is dangerous about it is dangerous there, too.
-/

namespace Runbook

theorem Text.isInfix_join (separator : Text) {part : Text} {parts : List Text} (h : part ∈ parts) :
    part <:+: join separator parts := by
  induction parts with
  | nil => cases h
  | cons first rest ih =>
      cases rest with
      | nil =>
          rw [List.mem_singleton.mp h]
          exact List.infix_rfl
      | cons second rest =>
          rw [join]
          rcases List.mem_cons.mp h with rfl | h
          · exact ⟨[], separator ++ join separator (second :: rest), by simp⟩
          · exact (ih h).trans (List.suffix_append _ _).isInfix

namespace Include

variable {blocks : BlockMap} {name included text : Text}

/-- What a block includes stands unbroken in its expansion. -/
theorem exists_isInfix_of_edge (h : expanded blocks [] name = .ok text)
    (hedge : Edge blocks name included) :
    ∃ part, expanded blocks [] included = .ok part ∧ part <:+: text := by
  obtain ⟨body, hbody, line, hline, htarget⟩ := hedge
  obtain ⟨body', texts, hbody', hlines, rfl⟩ := exists_body_of_eq_ok h
  obtain rfl := Option.some.inj (hbody.symm.trans hbody')
  obtain ⟨part, hmem, hpart⟩ := exists_text_of_mapM_eq_ok (expandedLines_of_eq_ok hlines) line hline
  rw [replacement, htarget] at hpart
  exact ⟨part, hpart, Text.isInfix_join "\n" hmem⟩

/-- So does what is included along a chain. -/
theorem exists_isInfix_of_reaches (h : expanded blocks [] name = .ok text)
    (hreach : Reaches blocks name included) :
    ∃ part, expanded blocks [] included = .ok part ∧ part <:+: text := by
  induction hreach with
  | refl => exact ⟨text, h, List.infix_rfl⟩
  | tail _ hedge ih =>
      obtain ⟨middle, hmiddle, hinfix⟩ := ih
      obtain ⟨part, hpart, hinner⟩ := exists_isInfix_of_edge hmiddle hedge
      exact ⟨part, hpart, hinner.trans hinfix⟩

end Include

/-- The program warns of a dangerous expansion before it prints it. -/
theorem World.expand_of_isDangerous {w : World} {file name text : Text} {document : Document}
    (hload : w.load file = .ok document) (htext : document.book.expandBlock name = .ok text)
    (hdanger : DenyList.IsDangerous text) :
    w.expand file name = .ok (w.exit 0 (Reference.expand text document.book.declared w.env ++ "\n")
      (reports document document.book.warnings ++
        ("warning: " ++ ("Potentially dangerous command detected: " ++ text) ++ "\n"))) := by
  obtain ⟨body, -, hbody, -⟩ := Include.exists_body_of_eq_ok htext
  rw [Book.blockMap_get?] at hbody
  obtain ⟨block, hblock, -⟩ := Option.map_eq_some_iff.mp hbody
  obtain ⟨p, hp⟩ := Option.isSome_iff_exists.mp (DenyList.isDangerous_trim.mpr hdanger)
  rw [World.expand, hload]
  simp only [bind, Except.bind, hblock, htext, DenyList.sanitize, hp]
  rfl

namespace DenyList

/-- **Danger is inherited.**  A text is dangerous if a part of it is.  If a block can be expanded,
so can every block that it includes, directly or along a chain; and if the expansion of one of them
is dangerous, its own expansion is dangerous, and the program says so when it prints it. -/
theorem danger_inherited :
    (∀ a s b : Text, IsDangerous s → IsDangerous (a ++ s ++ b)) ∧
      ∀ (document : Document) (name included text : Text),
        document.book.expandBlock name = .ok text →
          Include.Reaches document.book.blockMap name included →
            ∃ part, document.book.expandBlock included = .ok part ∧
              (IsDangerous part → IsDangerous text ∧
                ∀ (w : World) (file : Text), w.load file = .ok document →
                  w.expand file name =
                    .ok (w.exit 0 (Reference.expand text document.book.declared w.env ++ "\n")
                      (World.reports document document.book.warnings ++
                        ("warning: " ++ ("Potentially dangerous command detected: " ++ text) ++
                          "\n")))) := by
  refine ⟨fun a s b hs => isDangerous_of_isInfix (List.infix_append a s b) hs, ?_⟩
  intro document name included text htext hreach
  obtain ⟨part, hpart, hinfix⟩ := Include.exists_isInfix_of_reaches htext hreach
  refine ⟨part, hpart, fun hdanger => ?_⟩
  have hinherited : IsDangerous text := isDangerous_of_isInfix hinfix hdanger
  exact ⟨hinherited, fun w file hload => World.expand_of_isDangerous hload htext hinherited⟩

/-- A dangerous block at the end of a chain of includes, in a file that the program reads. -/
theorem danger_inherited_of_chain :
    let source : Text := "### a\necho hi\n#include b\n### b\n#include c\nls\n### c\nRM \t-rf x\n"
    let w : World := .ofFile "book" source
    w.load "book" = .ok ⟨"book", source⟩ ∧
      w.expand "book" "a" = .ok (w.exit 0 "echo hi\nRM \t-rf x\nls\n"
        "warning: Potentially dangerous command detected: echo hi\nRM \t-rf x\nls\n") := by
  intro source w
  let document : Document := ⟨"book", source⟩
  have hload : w.load "book" = .ok document := rfl
  have hname : document.book.expandBlock "a" = .ok "echo hi\nRM \t-rf x\nls" := by decide
  have hlast : document.book.expandBlock "c" = .ok "RM \t-rf x" := by decide
  have hfirst : Include.Edge document.book.blockMap "a" "b" :=
    ⟨"echo hi\n#include b", by decide, "#include b", by decide, by decide⟩
  have hsecond : Include.Edge document.book.blockMap "b" "c" :=
    ⟨"#include c\nls", by decide, "#include c", by decide, by decide⟩
  have hreach : Include.Reaches document.book.blockMap "a" "c" := .tail (.single hfirst) hsecond
  obtain ⟨part, hpart, hdanger⟩ := danger_inherited.2 document "a" "c" _ hname hreach
  obtain rfl := Except.ok.inj (hlast.symm.trans hpart)
  have hprinted : Reference.expand "echo hi\nRM \t-rf x\nls" document.book.declared w.env ++ "\n" =
      ("echo hi\nRM \t-rf x\nls\n" : Text) := by decide
  have hwarned : World.reports document document.book.warnings ++ ("warning: " ++
      ("Potentially dangerous command detected: " ++ "echo hi\nRM \t-rf x\nls") ++ "\n") =
        ("warning: Potentially dangerous command detected: echo hi\nRM \t-rf x\nls\n" : Text) := by
    decide
  refine ⟨hload, ?_⟩
  rw [(hdanger (by decide)).2 w "book" hload, hprinted, hwarned]

end DenyList

end Runbook
