import Runbook.Proofs.Block.Locality
import Runbook.Proofs.Block.Parts
import Runbook.Proofs.Include.Composition
import Runbook.Proofs.Include.Directive

/-!
# Wrapping a block

A section whose body does nothing but include a block gives this block a second name.  The new name
expands to the same text, and whatever expanded before still does (`expandBlock_wrap`).

* The section in front of it gets a line feed more at its end, which trimming takes away
  (`contents_append_feed`), and so the new book has the contents of the old one and one more
  (`contents_wrapped`).
* A name that stands in a header line can be read back from an include line (`target?_include`),
  whatever characters it has: it is trimmed, not empty, and has no line feed.
* A name that was new is met by no expansion that succeeded (`Include.expanded_of_extends`).
-/

namespace Runbook

namespace Block

variable {name source : Text} {offset : Nat}

/-! ## Names in lines -/

theorem IsName.exists_not_isBlank (h : IsName name) : ∃ c ∈ name, ¬ isBlank c := by
  by_contra hall
  refine h.ne_nil ?_
  rw [← h.trimmed, Text.trim_eq_nil_iff]
  simpa using hall

theorem IsName.not_isBlank_of_head? (h : IsName name) : ∀ c ∈ name.head?, ¬ isBlank c :=
  (Text.trim_eq_self_iff.mp h.trimmed).1

theorem IsName.not_isBlank_of_getLast? (h : IsName name) : ∀ c ∈ name.getLast?, ¬ isBlank c :=
  (Text.trim_eq_self_iff.mp h.trimmed).2

/-- A header line for a name declares it. -/
theorem IsName.declares (h : IsName name) : Declares ("### " ++ name) name := by
  obtain ⟨c, hc, hblank⟩ := h.exists_not_isBlank
  have hend : ∀ c, ¬ isBlank c → ¬ (c = '\n' || c = '\r') = true := fun c hblank hend =>
    hblank (Include.isBlank_of_isLineEnd hend)
  have hkept : Text.chomp name = name :=
    Text.dropEndWhile_eq_self fun c hc => hend c (h.not_isBlank_of_getLast? c hc)
  refine ⟨' ', name, ?_, .inl rfl, h.exists_not_isBlank, h.trimmed.symm⟩
  rw [Text.chomp, Text.dropEndWhile_append_of_exists ⟨c, hc, hend c hblank⟩, ← Text.chomp, hkept]
  rfl

/-! ## Contents -/

/-- The name and the body that are read off a section. -/
def Section.content (s : Section) : Text × Text :=
  ((headerName? (Text.chomp s.head)).getD [], Text.trim s.rest.flatten)

theorem map_content_ofSections (offset : Nat) (found : List Section) :
    (ofSections offset found).map (fun b => (b.name, b.body)) = found.map Section.content := by
  induction found generalizing offset with
  | nil => rfl
  | cons s rest ih =>
      rw [ofSections, List.map_cons, ih, List.map_cons]
      rfl

/-- A line feed at the end of the source changes neither names nor bodies. The text in front of the
first header line gets white space at its end at most. -/
theorem sections_append_feed (source : Text) :
    (sections (Text.pieces (source ++ ['\n']))).2.map Section.content =
        (sections (Text.pieces source)).2.map Section.content ∧
      ∃ ending, (∀ c ∈ ending, isBlank c) ∧ (sections (Text.pieces (source ++ ['\n']))).1.flatten =
        (sections (Text.pieces source)).1.flatten ++ ending := by
  induction source using Text.lineInduction with
  | nil => exact ⟨rfl, ['\n'], List.forall_mem_singleton.mpr rfl, rfl⟩
  | last line hne hline =>
      have hheader : isHeader (line ++ ['\n']) = isHeader line := by
        rw [isHeader, Text.chomp_append_feed, isHeader]
      rw [Text.pieces_append_feed hline, Text.pieces_of_not_mem hne hline, Text.pieces,
        sections_singleton, sections_singleton, hheader]
      split
      · refine ⟨?_, [], by simp, rfl⟩
        simp only [List.map_singleton, Section.content, Text.chomp_append_feed]
      · exact ⟨rfl, ['\n'], List.forall_mem_singleton.mpr rfl, by simp⟩
  | feed line rest hline ih =>
      obtain ⟨hcontent, ending, hending, hfront⟩ := ih
      rw [List.append_assoc, List.cons_append, Text.pieces_append_feed hline,
        Text.pieces_append_feed hline, sections_cons, sections_cons]
      split
      · refine ⟨?_, [], by simp, rfl⟩
        -- the body of this section ends with the white space that is new
        simp only [List.map_cons, Section.content, hfront, Text.trim_append_of_isBlank hending,
          hcontent]
      · exact ⟨hcontent, ending, hending,
          by simp only [List.flatten_cons, hfront, List.append_assoc]⟩

end Block

namespace Include

/-- A name can be read back from an include line. -/
theorem target?_include {name : Text} (h : Block.IsName name) :
    target? ("#include " ++ name) = some name := by
  have hkept : Text.trimEnd name = name := Text.dropEndWhile_eq_self h.not_isBlank_of_getLast?
  have hgap : ∀ c ∈ ([' '] : Text), isBlank c := List.forall_mem_singleton.mpr rfl
  have htarget := target?_append hgap h.not_isBlank_of_head?
  rwa [if_neg (by simp), if_neg h.ne_nil, if_neg h.not_mem, hkept] at htarget

theorem not_mem_include {name : Text} (h : Block.IsName name) :
    '\n' ∉ ("#include " ++ name : Text) :=
  List.not_mem_append (by decide) h.not_mem

theorem trim_include {name : Text} (h : Block.IsName name) :
    Text.trim ("#include " ++ name) = "#include " ++ name := by
  apply Text.trim_eq_self_iff.mpr
  constructor
  · intro c hc
    obtain rfl : '#' = c := Option.some.inj hc
    decide
  · rw [List.getLast?_append_of_ne_nil _ h.ne_nil]
    exact h.not_isBlank_of_getLast?

theorem not_isHeader_include (name : Text) :
    ¬ Block.isHeader (("#include " ++ name) ++ ['\n']) := by
  rw [Block.isHeader_iff]
  rintro ⟨other, blank, text, hchomp, -⟩
  rw [Text.chomp_append_feed] at hchomp
  have hword : Text.chomp ("#include " ++ name) = "#include" ++ Text.chomp (' ' :: name) :=
    chomp_include (' ' :: name)
  rw [hword] at hchomp
  injection hchomp with _ hsecond
  injection hsecond with hchar
  exact absurd hchar (by decide)

end Include

namespace Book

open Include

variable {d n z text : Text} {fileId : Nat}

/-- The names and bodies of all blocks, in order. -/
def contents (book : Book) : List (Text × Text) := book.blocks.map fun b => (b.name, b.body)

theorem contents_parse (source : Text) (fileId : Nat) :
    (parse source fileId).contents =
      (Block.sections (Text.pieces source)).2.map Block.Section.content :=
  Block.map_content_ofSections _ _

theorem contents_append_feed (source : Text) (fileId : Nat) :
    (parse (source ++ ['\n']) fileId).contents = (parse source fileId).contents := by
  rw [contents_parse, contents_parse]
  exact (Block.sections_append_feed source).1

/-- What names stand for is decided by the contents. -/
theorem blockMap_eq (book : Book) :
    book.blockMap = .ofList (book.contents.filter (·.1 ≠ variablesName)) := by
  rw [contents, List.filter_map, blockMap, executableBlocks]
  congr 2
  exact List.filter_congr fun b _ => by simp [Block.isVariables]

/-- The section that gives a block another name, behind a line feed that ends the last line in front
of it. -/
def wrapper (z n : Text) : Text := "\n### " ++ z ++ "\n#include " ++ n ++ "\n"

theorem wrapper_eq (z n : Text) :
    wrapper z n = '\n' :: (("### " ++ z) ++ '\n' :: (("#include " ++ n) ++ ['\n'])) := by
  have hheader : ("\n### " : Text) = '\n' :: "### " := rfl
  have hinclude : ("\n#include " : Text) = '\n' :: "#include " := rfl
  have hfeed : ("\n" : Text) = ['\n'] := rfl
  unfold wrapper
  rw [hheader, hinclude, hfeed]
  simp only [List.append_assoc, List.cons_append]

/-- Contents of texts that can be cut in front of a header line. -/
theorem contents_append {s t name : Text} (hs : s = [] ∨ s.getLast? = some '\n')
    (ht : Block.HeaderAt t 0 name) :
    (parse (s ++ t) fileId).contents = (parse s fileId).contents ++ (parse t fileId).contents := by
  have hblocks : (parse (s ++ t) fileId).blocks = (parse s fileId).blocks ++
      (parse t fileId).blocks.map (·.shift (Text.byteLength s)) := Block.scan_append hs ht
  rw [contents, hblocks, List.map_append, List.map_map]
  rfl

theorem contents_wrapped (hz : Block.IsName z) (hn : Block.IsName n) :
    (parse (d ++ wrapper z n) fileId).contents =
      (parse d fileId).contents ++ [(z, "#include " ++ n)] := by
  have hheader : '\n' ∉ ("### " ++ z : Text) := List.not_mem_append (by decide) hz.not_mem
  have hdeclares : Block.Declares (("### " ++ z) ++ ['\n']) z :=
    Block.declares_append_feed.mpr hz.declares
  have hat : Block.HeaderAt (("### " ++ z) ++ '\n' :: (("#include " ++ n) ++ ['\n'])) 0 z :=
    (Block.headerAt_append_feed hheader).mpr (.inl ⟨rfl, hz.declares⟩)
  have hcontents :
      (parse (("### " ++ z) ++ '\n' :: (("#include " ++ n) ++ ['\n'])) fileId).contents =
      [(z, "#include " ++ n)] := by
    rw [contents_parse, Text.pieces_append_feed hheader,
      Text.pieces_append_feed (not_mem_include hn), Text.pieces, Block.sections_cons,
      if_pos (Block.isHeader_iff.mpr ⟨z, hdeclares⟩), Block.sections_singleton,
      if_neg (not_isHeader_include n), List.map_singleton, Block.Section.content,
      Block.declares_iff.mp hdeclares, List.flatten_singleton,
      Text.trim_append_of_isBlank (List.forall_mem_singleton.mpr rfl), trim_include hn]
    rfl
  rw [wrapper_eq, List.append_cons, contents_append (by simp) hat, contents_append_feed, hcontents]

theorem blockMap_wrapped (hz : Block.IsName z) (hvariables : z ≠ variablesName)
    (hn : Block.IsName n) :
    (parse (d ++ wrapper z n) fileId).blockMap =
      (parse d fileId).blockMap.insert z ("#include " ++ n) := by
  rw [blockMap_eq, contents_wrapped hz hn, List.filter_append, List.filter_singleton, blockMap_eq]
  simp [hvariables, Table.ofList, List.foldl_append]

/-- **Wrapping a block changes nothing.**  Where a section is appended whose body includes a block
that can be expanded, under a name that is new, this name expands to the text of the block. All
names that could be expanded before still expand to what they did. -/
theorem expandBlock_wrap (hexpand : (parse d fileId).expandBlock n = .ok text) (hz : Block.IsName z)
    (hnew : ∀ b ∈ (parse d fileId).executableBlocks, b.name ≠ z) (hvariables : z ≠ variablesName) :
    let wrapped := parse (d ++ wrapper z n) fileId
    wrapped.expandBlock z = .ok text ∧
      ∀ name other, (parse d fileId).expandBlock name = .ok other →
        wrapped.expandBlock name = .ok other := by
  intro wrapped
  obtain ⟨body, texts, hbody, -, -⟩ := exists_body_of_eq_ok hexpand
  have hn : Block.IsName n := by
    rw [blockMap_get?] at hbody
    obtain ⟨live, hlive, -⟩ := Option.map_eq_some_iff.mp hbody
    rw [← name_of_get?_eq_some hlive]
    exact Block.isName_of_mem_scan (List.mem_filter.mp (mem_of_get?_eq_some hlive)).1
  have hmap : wrapped.blockMap = (parse d fileId).blockMap.insert z ("#include " ++ n) :=
    blockMap_wrapped hz hvariables hn
  have hnone : (parse d fileId).blockMap.get? z = none := blockMap_get?_eq_none hnew
  have hlarger : ∀ x body, (parse d fileId).blockMap.get? x = some body →
      wrapped.blockMap.get? x = some body := by
    intro x body hx
    have hne : x ≠ z := by
      rintro rfl
      rw [hnone] at hx
      cases hx
    rw [hmap, Table.get?_insert, if_neg hne, hx]
  constructor
  · have hget : wrapped.blockMap.get? z = some ("#include " ++ n) := by
      rw [hmap, Table.get?_insert, if_pos rfl]
    have hinner : expanded wrapped.blockMap [z] n = .ok text :=
      expanded_of_extends hexpand hlarger (by simp [hnone])
    have hline : replacement (expanded wrapped.blockMap [z]) ("#include " ++ n) = .ok text := by
      rw [replacement, target?_include hn]
      exact hinner
    have hlines : expandedLines wrapped.blockMap [z] ("#include " ++ n) = .ok [text] := by
      rw [expandedLines,
        Text.lines_of_not_mem (List.append_ne_nil_of_right_ne_nil _ hn.ne_nil) (not_mem_include hn)]
      exact mapM_eq_ok_of_forall₂ (.cons hline .nil)
    rw [expandBlock_eq, expanded_of_get?_eq_some List.not_mem_nil hget, hlines]
    rfl
  · exact fun name other hother => expanded_of_extends hother hlarger (by simp)

/-- Names with a control character, blanks inside and characters of several bytes, and a source that
ends with a carriage return. -/
theorem expandBlock_wrap_of_unicode :
    let d : Text := "### a\u0007 ü\nls\r\n### b\n#include a\u0007 ü\r\nmake\r"
    let wrapped := parse (d ++ wrapper "日\u3000本" "b") 0
    (parse d 0).expandBlock "b" = .ok "ls\nmake" ∧ Block.IsName "日\u3000本" ∧
      (∀ b ∈ (parse d 0).executableBlocks, b.name ≠ "日\u3000本") ∧
      ("日\u3000本" : Text) ≠ variablesName ∧
      wrapped.expandBlock "日\u3000本" = .ok "ls\nmake" ∧
      wrapped.expandBlock "a\u0007 ü" = .ok "ls" := by
  intro d wrapped
  have hexpand : (parse d 0).expandBlock "b" = .ok "ls\nmake" := by decide
  have hz : Block.IsName "日\u3000本" := ⟨by decide, by decide, by decide⟩
  have hnew : ∀ b ∈ (parse d 0).executableBlocks, b.name ≠ "日\u3000本" := by decide
  have hvariables : ("日\u3000本" : Text) ≠ variablesName := by decide
  obtain ⟨hwrapped, hothers⟩ := expandBlock_wrap hexpand hz hnew hvariables
  exact ⟨hexpand, hz, hnew, hvariables, hwrapped, hothers _ _ (by decide)⟩

end Book

end Runbook
