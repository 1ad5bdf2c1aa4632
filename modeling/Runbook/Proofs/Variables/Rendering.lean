import Runbook.Program
import Runbook.Proofs.Block.Tiling
import Runbook.Proofs.Variables.History

/-!
# Printed variables read back

The program prints the variables of a runbook as lines `name=value`.  Behind a header line for
variables these lines declare the same table again (`Book.declared_reads_back`).

Nothing can get in the way, because names and values come from lines that were trimmed and split
(`VariableTable.Declarable`): a name is not empty, holds no equals sign and does not start like a
comment or a header line, and neither of the two holds a line feed or has white space at its ends.
So a written line is trimmed (`Declarable.fillsLine`) and declares what it was written for
(`Declarable.declaration?_written`), and the lines are found again one by one although the body of a
block is trimmed (`Text.lines_trim_unlines`).
-/

namespace Runbook

namespace Text

variable {line : Text} {ls : List Text}

/-! ## Lines that were written -/

/-- The text fills a line from its first character to its last one. -/
structure FillsLine (line : Text) : Prop where
  ne_nil : line ≠ []
  trimmed : trim line = line
  not_mem : '\n' ∉ line

theorem FillsLine.not_isBlank_of_head? (h : FillsLine line) : ∀ c ∈ line.head?, ¬ isBlank c :=
  (trim_eq_self_iff.mp h.trimmed).1

theorem FillsLine.not_isBlank_of_getLast? (h : FillsLine line) : ∀ c ∈ line.getLast?, ¬ isBlank c :=
  (trim_eq_self_iff.mp h.trimmed).2

theorem FillsLine.getLast?_ne (h : FillsLine line) : line.getLast? ≠ some '\r' := by
  intro hreturn
  exact h.not_isBlank_of_getLast? '\r' hreturn (by decide)

/-- Trimming takes away the last line feed, which no line needs. -/
theorem lines_trim_unlines (h : ∀ line ∈ ls, FillsLine line) : lines (trim (unlines ls)) = ls := by
  rcases List.eq_nil_or_concat' ls with rfl | ⟨init, last, rfl⟩
  · rfl
  rw [List.forall_mem_append, List.forall_mem_singleton] at h
  obtain ⟨hinit, hlast⟩ := h
  have hfirst : ∀ c ∈ (unlines init ++ last).head?, ¬ isBlank c := by
    cases init with
    | nil => exact hlast.not_isBlank_of_head?
    | cons line init =>
        have hline : FillsLine line := hinit line List.mem_cons_self
        rw [unlines_cons, List.append_assoc, List.head?_append_of_ne_nil _ hline.ne_nil]
        exact hline.not_isBlank_of_head?
  have hend : ∀ c ∈ (unlines init ++ last).getLast?, ¬ isBlank c := by
    rw [List.getLast?_append_of_ne_nil _ hlast.ne_nil]
    exact hlast.not_isBlank_of_getLast?
  have htrim : trim (unlines (init ++ [last])) = unlines init ++ last := by
    calc trim (unlines (init ++ [last]))
        = trim (unlines init ++ last) := by
          rw [unlines_concat]
          exact trim_append_of_isBlank (List.forall_mem_singleton.mpr rfl) _
      _ = unlines init ++ last := trim_eq_self_iff.mpr ⟨hfirst, hend⟩
  rw [htrim]
  apply lines_unlines_append _ hlast.ne_nil hlast.not_mem
  intro line hline
  exact ⟨(hinit line hline).not_mem, (hinit line hline).getLast?_ne⟩

end Text

namespace VariableTable

variable {line name value : Text} {table : VariableTable}

/-! ## Names and values -/

/-- What a line can declare. -/
structure Declarable (name value : Text) : Prop where
  named : name ≠ []
  not_comment : name.head? ≠ some '#'
  not_mem : '=' ∉ name
  trim_name : Text.trim name = name
  trim_value : Text.trim value = value
  feed_name : '\n' ∉ name
  feed_value : '\n' ∉ value

/-- The line that declares a variable. -/
def written (entry : Text × Text) : Text := entry.1 ++ '=' :: entry.2

theorem render_eq (table : VariableTable) :
    table.render = Text.unlines (table.entries.map written) := by
  rw [render]
  congr 1
  apply List.map_congr_left
  intro entry _
  simp [written]

theorem Declares.declarable (h : Declares line name value) (hline : '\n' ∉ line) :
    Declarable name value := by
  obtain ⟨-, hcomment, ⟨before, after, rfl, hbefore, rfl, rfl⟩, hnamed⟩ := h
  rw [List.mem_append, List.mem_cons, not_or, not_or] at hline
  -- the line starts with its name, which trimming has not cut off at the front
  have hhead : (Text.trim before).head? = (Text.trim (before ++ '=' :: after)).head? := by
    have hfront : Text.trim before <+: Text.trimStart before := List.rdropWhile_prefix isBlank _
    obtain ⟨rest, hrest⟩ := hfront
    rw [Text.trim_append_cons (by decide), ← hrest, List.append_assoc,
      List.head?_append_of_ne_nil _ hnamed]
  constructor
  case named => exact hnamed
  case not_comment => rwa [hhead]
  case not_mem => exact fun hmem => hbefore (Text.mem_of_mem_trim hmem)
  case trim_name => exact Text.trim_trim before
  case trim_value => exact Text.trim_trim after
  case feed_name => exact fun hmem => hline.1 (Text.mem_of_mem_trim hmem)
  case feed_value => exact fun hmem => hline.2.2 (Text.mem_of_mem_trim hmem)

/-- Every entry of a table that was read from a body can be declared. -/
theorem declarable_of_mem_parse {body : Text} {entry : Text × Text}
    (h : entry ∈ (parse body).entries) :
    Declarable entry.1 entry.2 := by
  have hdeclared : entry ∈ declarations body := Table.mem_of_mem_entries_ofList h
  obtain ⟨line, hline, hentry⟩ := List.mem_filterMap.mp hdeclared
  exact (declaration?_eq_some_iff.mp hentry).declarable (Text.not_mem_of_mem_lines hline)

/-! ## Written lines -/

theorem Declarable.head?_written (h : Declarable name value) :
    (written (name, value)).head? = name.head? :=
  List.head?_append_of_ne_nil _ h.named

theorem Declarable.fillsLine (h : Declarable name value) :
    Text.FillsLine (written (name, value)) where
  ne_nil := by simp [written]
  trimmed := by
    apply Text.trim_eq_self_iff.mpr
    constructor
    · rw [h.head?_written]
      exact (Text.trim_eq_self_iff.mp h.trim_name).1
    · intro c hc
      rw [written, List.getLast?_append_of_ne_nil _ (List.cons_ne_nil _ _),
        List.getLast?_cons] at hc
      cases hlast : value.getLast? with
      | none =>
          obtain rfl : '=' = c := by simpa [hlast] using hc
          decide
      | some d =>
          obtain rfl : d = c := by simpa [hlast] using hc
          exact (Text.trim_eq_self_iff.mp h.trim_value).2 d hlast
  not_mem := by simp [written, h.feed_name, h.feed_value]

/-- **A written line declares what it was written for.** -/
theorem Declarable.declaration?_written (h : Declarable name value) :
    declaration? (written (name, value)) = some (name, value) := by
  have hkept : Text.trim (name ++ '=' :: value) = name ++ '=' :: value := h.fillsLine.trimmed
  have hhead : (name ++ '=' :: value).head? = name.head? := h.head?_written
  rw [written, declaration?_of_split h.not_mem, hkept, hhead, h.trim_name, h.trim_value, if_neg]
  rintro (hcomment | hnil)
  · exact h.not_comment hcomment
  · exact h.named hnil

theorem Declarable.not_isHeader_written (h : Declarable name value) :
    ¬ Block.isHeader (written (name, value) ++ ['\n']) := by
  rw [Block.isHeader_iff]
  rintro ⟨other, gap, text, hchomp, -⟩
  have hkept : Text.chomp (written (name, value) ++ ['\n']) = name ++ '=' :: Text.chomp value := by
    rw [Text.chomp_append_feed]
    exact Text.dropEndWhile_append_cons (by decide)
  have hhead := congrArg List.head? (hkept.symm.trans hchomp)
  rw [List.head?_append_of_ne_nil _ h.named] at hhead
  exact h.not_comment hhead

/-- **What was rendered is parsed to the same table**, though trimming has taken the last line feed
away. -/
theorem parse_trim_render (h : ∀ entry ∈ table.entries, Declarable entry.1 entry.2) :
    parse (Text.trim table.render) = table := by
  have hlines : Text.lines (Text.trim table.render) = table.entries.map written := by
    rw [render_eq]
    apply Text.lines_trim_unlines
    intro line hline
    obtain ⟨entry, hentry, rfl⟩ := List.mem_map.mp hline
    exact (h entry hentry).fillsLine
  have hdeclarations : declarations (Text.trim table.render) = table.entries := by
    rw [declarations, hlines, List.filterMap_map]
    calc table.entries.filterMap (declaration? ∘ written)
        = table.entries.filterMap some :=
          List.filterMap_congr fun entry hentry => (h entry hentry).declaration?_written
      _ = table.entries := List.filterMap_some
  rw [parse, hdeclarations, Table.ofList_entries]

end VariableTable

/-! ## One block -/

namespace Block

variable {line rest name : Text}

/-- Pieces without a header line all stand in front of the first one. -/
theorem sections_of_not_isHeader {pieces : List Text} (h : ∀ piece ∈ pieces, ¬ isHeader piece) :
    sections pieces = (pieces, []) := by
  induction pieces with
  | nil => rfl
  | cons piece pieces ih =>
      rw [List.forall_mem_cons] at h
      rw [sections_cons, if_neg h.1, ih h.2]

/-- A header line in front of lines that are none makes one block. -/
theorem exists_scan_eq_singleton (hline : '\n' ∉ line) (hname : Declares line name)
    (hrest : ∀ piece ∈ Text.pieces rest, ¬ isHeader piece) :
    ∃ b, scan (line ++ '\n' :: rest) = [b] ∧ b.name = name ∧ b.body = Text.trim rest := by
  have hfeed : Declares (line ++ ['\n']) name := declares_append_feed.mpr hname
  have hheader : isHeader (line ++ ['\n']) := isHeader_iff.mpr ⟨name, hfeed⟩
  have hsections : sections (Text.pieces rest) = (Text.pieces rest, []) :=
    sections_of_not_isHeader hrest
  refine ⟨ofSection 0 ⟨line ++ ['\n'], Text.pieces rest⟩, ?_, ?_, ?_⟩
  · rw [scan_eq_scanFrom, scanFrom_append_feed hline, headed, if_pos hheader, scanFrom, hsections]
    rfl
  · rw [ofSection, declares_iff.mp hfeed]
    rfl
  · rw [ofSection, Text.flatten_pieces]

end Block

theorem Book.declarable_of_mem_declared {book : Book} {entry : Text × Text}
    (h : entry ∈ book.declared.entries) :
    VariableTable.Declarable entry.1 entry.2 := by
  unfold declared at h
  split at h
  · exact VariableTable.declarable_of_mem_parse h
  · cases h

theorem Book.warnings_singleton (block : Block) (fileId : Nat) :
    warnings ⟨[block], fileId⟩ = [] := by
  simp [warnings, warningsBehind, warningAt?]

/-- **Printed variables read back.**  The program prints the variables of a runbook as lines, one
for each variable. Behind a header line for variables, these lines are a runbook of one block,
without warnings, that declares the same variables in the same order. -/
theorem Book.declared_reads_back (source : Text) (fileId other : Nat) :
    let table := (parse source fileId).declared
    let again := parse ("### $VARIABLES\n" ++ table.render) other
    (∀ (w : World) (file : Text) (document : Document), w.load file = .ok document →
      document.text = source →
        w.vars file = .ok (w.exit 0 table.render [])) ∧
      table.render = table.entries.flatMap (fun entry => entry.1 ++ '=' :: entry.2 ++ ['\n']) ∧
      (∃ block, again.blocks = [block]) ∧ again.warnings = [] ∧ again.declared = table := by
  intro table again
  have hdeclarable : ∀ entry ∈ table.entries, VariableTable.Declarable entry.1 entry.2 :=
    fun _ => declarable_of_mem_declared
  have hpieces : ∀ piece ∈ Text.pieces table.render, ¬ Block.isHeader piece := by
    rw [VariableTable.render_eq, Text.pieces_unlines]
    · intro piece hpiece
      obtain ⟨line, hline, rfl⟩ := List.mem_map.mp hpiece
      obtain ⟨entry, hentry, rfl⟩ := List.mem_map.mp hline
      exact (hdeclarable entry hentry).not_isHeader_written
    · intro line hline
      obtain ⟨entry, hentry, rfl⟩ := List.mem_map.mp hline
      exact (hdeclarable entry hentry).fillsLine.not_mem
  have hname : Block.Declares "### $VARIABLES" variablesName :=
    ⟨' ', variablesName, by decide, .inl rfl, ⟨'$', by decide, by decide⟩, by decide⟩
  obtain ⟨block, hscan, hvariables, hbody⟩ :=
    Block.exists_scan_eq_singleton (by decide) hname hpieces
  have hagain : again = ⟨[block], other⟩ := congrArg (Book.mk · other) hscan
  have hdeclared : again.declared = VariableTable.parse block.body := by
    rw [hagain, declared, variablesBlock?, List.find?_singleton, Block.isVariables, hvariables]
    rfl
  refine ⟨?_, ?_, ⟨block, congrArg Book.blocks hagain⟩, ?_, ?_⟩
  · rintro w file document hload rfl
    rw [World.vars, hload]
    rfl
  · rw [VariableTable.render_eq, Text.unlines, List.map_map, List.flatMap_def]
    rfl
  · rw [hagain, warnings_singleton]
  · rw [hdeclared, hbody, VariableTable.parse_trim_render hdeclarable]

/-- A name with a carriage return, a value that starts with an equals sign, and one that has been
replaced by what looks like a comment. -/
theorem Book.declared_reads_back_of_redeclared :
    let source : Text :=
      "### $VARIABLES\n# note\n URL = http://x/?a=1 \r\nA\rB==\nURL=#$A\n\n### a\nls\n"
    let printed : Text := "URL=#$A\nA\rB==\n"
    let w : World := .ofFile "book" source
    w.load "book" = .ok ⟨"book", source⟩ ∧ w.vars "book" = .ok (w.exit 0 printed []) ∧
      (parse ("### $VARIABLES\n" ++ printed) 0).declared = (parse source 0).declared := by
  intro source printed w
  have hload : w.load "book" = .ok ⟨"book", source⟩ := rfl
  have hprinted : (parse source 0).declared.render = printed := by decide
  obtain ⟨hvars, -, -, -, hagain⟩ := declared_reads_back source 0 0
  rw [hprinted] at hvars hagain
  exact ⟨hload, hvars w "book" ⟨"book", source⟩ hload rfl, hagain⟩

end Runbook
