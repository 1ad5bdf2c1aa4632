import Runbook.Proofs.Block.Parts
import Runbook.Proofs.Book.Live
import Runbook.Proofs.Include.Directive
import Runbook.Proofs.Include.Reach
import Runbook.Proofs.Text.Numbering

/-!
# Indented include lines

A directive stands in the first column: a line that is indented is plain text.  Expansion looks at
the lines of a body, which has been trimmed, and so it does not see the indentation of the first
one.

* Each line of a body is found in the source, at its number (`Parts.exists_writtenLine?`).  What the
  body has lost is the `indentation` in front of its first line, and white space behind its last
  one.
* So an include line stands in the first column of the source, unless it is the first line of its
  body (`exists_writtenLine?_of_includesAt`); this one may be indented by any white space.

The law holds in a block exactly if its body does not start with an include line that is indented
(`firstColumn_iff`).
-/

namespace Runbook

namespace Block

variable {source line gap trailing target : Text} {b : Block} {i : Nat}

/-- The line of the source that line `i` of the body was cut out of. -/
def writtenLine? (source : Text) (b : Block) (i : Nat) : Option Text :=
  (Text.lines source)[Text.lineOf source b.bodySpan.start + i]?

/-- What stands in front of the body on the line that it starts on. -/
def indentation (source : Text) (b : Block) : Text :=
  Text.lastLine (Text.takeBytes b.bodySpan.start source)

/-- Line `i` of the body is an include line. -/
def IncludesAt (b : Block) (i : Nat) (target : Text) : Prop :=
  ∃ line, (Text.lines b.body)[i]? = some line ∧ Include.target? line = some target

/-- Include lines of the body start in the first column of the source. -/
def FirstColumn (source : Text) (b : Block) : Prop :=
  ∀ i target, b.IncludesAt i target →
    ∃ written, b.writtenLine? source i = some written ∧ "#include" <+: written

theorem IncludesAt.body_ne_nil (h : b.IncludesAt i target) : b.body ≠ [] := by
  obtain ⟨line, hline, -⟩ := h
  intro hnil
  rw [hnil] at hline
  cases hline

/-- A line of the body as it stands in the source. -/
theorem Parts.exists_writtenLine? (h : Parts source b line gap trailing) {bodyLine : Text}
    (hline : (Text.lines b.body)[i]? = some bodyLine) :
    ∃ tail, b.writtenLine? source i =
      some ((if i = 0 then b.indentation source else []) ++ (bodyLine ++ tail)) := by
  have hhead : b.body.head? ≠ some '\n' := by
    rw [← h.trimmed]
    exact fun hfeed => Text.not_isBlank_of_head?_trim hfeed rfl
  have hlast : b.body.getLast? ≠ some '\r' := by
    rw [← h.trimmed]
    exact fun hreturn => Text.not_isBlank_of_getLast?_trim hreturn rfl
  obtain ⟨front, back, hsource, hspan⟩ := h.partAt_body
  have hstart : b.bodySpan.start = Text.byteLength front := congrArg Span.start hspan
  rw [writtenLine?, indentation, hstart, hsource, Text.lineOf_byteLength_append,
    Text.takeBytes_byteLength_append]
  exact Text.exists_getElem?_lines front back hhead hlast hline

theorem Parts.isBlank_indentation (h : Parts source b line gap trailing) (hbody : b.body ≠ []) :
    ∀ c ∈ b.indentation source, isBlank c := by
  obtain ⟨front, back, hsource, hspan⟩ := h.span
  have hfront : Text.byteLength (front ++ line ++ gap) = b.bodySpan.start := by
    rw [h.bodySpan, hspan]
    simp only [Text.byteLength_append, Nat.add_assoc]
  have hsplit : source = front ++ line ++ gap ++ (b.body ++ trailing ++ back) := by
    rw [hsource]
    simp only [List.append_assoc]
  -- the gap has the line feed of the header line, so the line of the body starts in it
  intro c hc
  rw [indentation, ← hfront, hsplit, Text.takeBytes_byteLength_append] at hc
  exact h.isBlank_gap c
    ((Text.lastLine_append_suffix _ (h.body_eq_nil_or.resolve_left hbody)).subset hc)

theorem exists_writtenLine?_of_includesAt (hb : b ∈ scan source) (h : b.IncludesAt i target) :
    ∃ rest, b.writtenLine? source i =
      some ((if i = 0 then b.indentation source else []) ++ ("#include" ++ rest)) := by
  obtain ⟨line, gap, trailing, hparts⟩ := exists_parts_of_mem_scan hb
  obtain ⟨bodyLine, hline, htarget⟩ := h
  obtain ⟨blanks, rest, rfl, -, -⟩ := Include.exists_of_target?_eq_some htarget
  obtain ⟨tail, hwritten⟩ := hparts.exists_writtenLine? hline
  exact ⟨blanks ++ rest ++ tail, by rw [hwritten, List.append_assoc _ _ tail]⟩

theorem isBlank_indentation (hb : b ∈ scan source) (hbody : b.body ≠ []) :
    ∀ c ∈ b.indentation source, isBlank c := by
  obtain ⟨line, gap, trailing, hparts⟩ := exists_parts_of_mem_scan hb
  exact hparts.isBlank_indentation hbody

/-- White space in front of the word takes it out of the first column. -/
theorem eq_nil_of_prefix_include {blanks rest : Text} (hblanks : ∀ c ∈ blanks, isBlank c)
    (h : ("#include" : Text) <+: blanks ++ ("#include" ++ rest)) : blanks = [] := by
  cases blanks with
  | nil => rfl
  | cons c blanks =>
      obtain ⟨hash, -⟩ := List.cons_prefix_cons.mp h
      exact absurd (hblanks c List.mem_cons_self) (hash ▸ by decide)

theorem firstColumn_iff (hb : b ∈ scan source) :
    b.FirstColumn source ↔ b.indentation source = [] ∨ ∀ target, ¬ b.IncludesAt 0 target := by
  constructor
  · intro hfirst
    by_contra hnot
    obtain ⟨hindent, target, hinclude⟩ :
        b.indentation source ≠ [] ∧ ∃ target, b.IncludesAt 0 target := by
      simpa using hnot
    obtain ⟨written, hwritten, hword⟩ := hfirst 0 target hinclude
    obtain ⟨rest, hline⟩ := exists_writtenLine?_of_includesAt hb hinclude
    obtain rfl := Option.some.inj (hwritten.symm.trans hline)
    exact hindent (eq_nil_of_prefix_include (isBlank_indentation hb hinclude.body_ne_nil) hword)
  · intro hfirst i target hinclude
    obtain ⟨rest, hline⟩ := exists_writtenLine?_of_includesAt hb hinclude
    have hnone : (if i = 0 then b.indentation source else []) = [] := by
      split
      · next hzero =>
          subst hzero
          exact hfirst.resolve_right fun hno => hno target hinclude
      · rfl
    exact ⟨_, hline, by rw [hnone]; exact List.prefix_append _ rest⟩

end Block

namespace Book

open Include

variable {source : Text} {fileId : Nat} {b : Block}

/-- A live block is expanded line by line, whatever comes of it. -/
theorem expandBlock_of_get? {book : Book} (h : book.get? b.name = some b) :
    book.expandBlock b.name = (expandedLines book.blockMap [b.name] b.body).map (Text.join "\n") :=
  expanded_of_get?_eq_some List.not_mem_nil (blockMap_get?_eq_some h)

/-- **Indentation decides, behind the first line.**  Expansion replaces the include lines of the
body and no others. Each of them starts in the first column of the source, except that the first
line of the body may be indented; and so the law holds in a block exactly if its body does not start
with an indented include line. -/
theorem includes_in_first_column (hb : b ∈ (parse source fileId).blocks) :
    (b.FirstColumn source ↔ b.indentation source = [] ∨ ∀ target, ¬ b.IncludesAt 0 target) ∧
      (∀ i target, b.IncludesAt i target → ∃ indent rest : Text,
        b.writtenLine? source i = some (indent ++ ("#include" ++ rest)) ∧
        (∀ c ∈ indent, isBlank c) ∧
          (i ≠ 0 → indent = [])) ∧
      ((parse source fileId).get? b.name = some b →
        (parse source fileId).expandBlock b.name =
          (expandedLines (parse source fileId).blockMap [b.name] b.body).map (Text.join "\n")) := by
  refine ⟨Block.firstColumn_iff hb, ?_, expandBlock_of_get?⟩
  intro i target hinclude
  obtain ⟨rest, hwritten⟩ := Block.exists_writtenLine?_of_includesAt hb hinclude
  refine ⟨_, rest, hwritten, ?_, fun hi => if_neg hi⟩
  split
  · exact Block.isBlank_indentation hb hinclude.body_ne_nil
  · simp

/-- An indented line behind the first one is plain text, and the one below it is not. -/
theorem includes_in_first_column_of_later_line :
    let source : Text := "### A\necho a\n### B\n\n ls\r\n\t#include A\n#include A \n"
    ∃ b ∈ (parse source 0).blocks, b.name = "B" ∧
    b.writtenLine? source 1 = some ("\t#include A" : Text) ∧
      (∀ target, ¬ b.IncludesAt 0 target) ∧ b.FirstColumn source ∧
        (expandedLines (parse source 0).blockMap [b.name] b.body).map (Text.join "\n") =
          .ok "ls\n\t#include A\necho a" := by
  intro source
  obtain ⟨b, hb, hname, hwritten, hlive, hline⟩ :
      ∃ b ∈ (parse source 0).blocks, b.name = "B" ∧
        b.writtenLine? source 1 = some ("\t#include A" : Text) ∧
        (parse source 0).get? b.name = some b ∧ (Text.lines b.body)[0]? = some ("ls" : Text) := by
          decide
  have hplain : ∀ target, ¬ b.IncludesAt 0 target := by
    rintro target ⟨line, hfirst, htarget⟩
    obtain rfl := Option.some.inj (hline.symm.trans hfirst)
    cases htarget
  obtain ⟨hlaw, -, hexpand⟩ := includes_in_first_column hb
  have htext : (parse source 0).expandBlock "B" = .ok "ls\n\t#include A\necho a" := by decide
  refine ⟨b, hb, hname, hwritten, hplain, hlaw.mpr (.inr hplain), ?_⟩
  rw [← hexpand hlive, hname, htext]

/-- The include line is indented, and it is expanded all the same. -/
theorem not_firstColumn_of_indented :
    let source : Text := "### A\necho a\n### B\n  #include A\n"
    ∃ b ∈ (parse source 0).blocks, b.name = "B" ∧
    b.writtenLine? source 0 = some ("  #include A" : Text) ∧
      ¬ b.FirstColumn source ∧ (parse source 0).expandBlock "B" = .ok "echo a" := by
  intro source
  obtain ⟨b, hb, hname, hwritten, hline⟩ :
      ∃ b ∈ (parse source 0).blocks, b.name = "B" ∧
        b.writtenLine? source 0 = some ("  #include A" : Text) ∧
        (Text.lines b.body)[0]? = some ("#include A" : Text) := by decide
  refine ⟨b, hb, hname, hwritten, fun hfirst => ?_, by decide⟩
  obtain ⟨written, hsame, hword⟩ := hfirst 0 "A" ⟨"#include A", hline, by decide⟩
  obtain rfl := Option.some.inj (hwritten.symm.trans hsame)
  exact absurd hword (by decide)

end Book

end Runbook
