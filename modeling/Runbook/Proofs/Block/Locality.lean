import Runbook.Proofs.Block.Tiling

/-!
# Scanning is local

Where a source ends with a line feed and the text behind it begins with a header line, the scanner
can be cut: it has nothing open that the text behind could change.  The last block ends there
anyway, at the end of the source in one case and at the next header line in the other, and the
sections behind know of the source in front only by its length (`scan_append`).

So appending sections leaves all blocks in front of them alone, and their keys
(`Book.parse_append`).
-/

namespace Runbook

namespace Block

variable {name s t : Text} {offset : Nat}

/-! ## Sections side by side -/

/-- Sections can be cut in front of a header line. -/
theorem sections_append {front back : List Text} (h : (sections back).1 = []) :
    sections (front ++ back) = ((sections front).1, (sections front).2 ++ (sections back).2) := by
  induction front with
  | nil => exact Prod.ext h rfl
  | cons piece front ih =>
      rw [List.cons_append, sections_cons, ih, sections_cons]
      split <;> rfl

/-- A source that begins with a header line has nothing in front of it. -/
theorem preamble_of_headerAt (h : HeaderAt t 0 name) : (sections (Text.pieces t)).1 = [] := by
  induction t using Text.lineInduction with
  | nil => rfl
  | last line hne hline =>
      have hheader : isHeader line := isHeader_iff.mpr ⟨name, ((headerAt_of_not_mem hline).mp h).2⟩
      rw [Text.pieces_of_not_mem hne hline, sections_singleton, if_pos hheader]
  | feed line rest hline =>
      rcases (headerAt_append_feed hline).mp h with ⟨-, hname⟩ | ⟨behind, hplace, -⟩
      · have hheader : isHeader (line ++ ['\n']) :=
          isHeader_iff.mpr ⟨name, declares_append_feed.mpr hname⟩
        rw [Text.pieces_append_feed hline, sections_cons, if_pos hheader]
      -- a header line further down is at an offset of its own
      · have hpos := Text.byteLength_pos (List.concat_ne_nil '\n' line)
        omega

/-! ## Blocks side by side -/

theorem ofSection_add (offset distance : Nat) (s : Section) :
    ofSection (offset + distance) s = (ofSection offset s).shift distance := by
  simp only [ofSection, shift, Span.shift, Block.mk.injEq, Span.mk.injEq, true_and]
  omega

/-- Sections that are further to the right give the same blocks, further to the right. -/
theorem ofSections_add (offset distance : Nat) (found : List Section) :
    ofSections (offset + distance) found = (ofSections offset found).map (·.shift distance) := by
  induction found generalizing offset with
  | nil => rfl
  | cons s rest ih =>
      rw [ofSections, ofSections, List.map_cons, ← ih, ofSection_add, Nat.add_right_comm]

theorem ofSections_append (offset : Nat) (found more : List Section) :
    ofSections offset (found ++ more) =
      ofSections offset found ++ ofSections
        (offset + Text.byteLength (sectionsText found)) more := by
  induction found generalizing offset with
  | nil => rfl
  | cons s rest ih =>
      have hlength : offset + Text.byteLength (sectionsText (s :: rest)) =
          offset + Text.byteLength s.text + Text.byteLength (sectionsText rest) := by
        rw [sectionsText, List.map_cons, List.flatten_cons, Text.byteLength_append, ← Nat.add_assoc,
          sectionsText]
      rw [List.cons_append, ofSections, ih, ofSections, List.cons_append, hlength]

theorem scan_eq_ofSections (source : Text) :
    scan source =
      ofSections (Text.byteLength (preamble source)) (sections (Text.pieces source)).2 := rfl

/-- **Scanning is local.**  The blocks of a source and those of a text that begins with a header
line stand side by side. -/
theorem scan_append (hs : s = [] ∨ s.getLast? = some '\n') (ht : HeaderAt t 0 name) :
    scan (s ++ t) = scan s ++ (scan t).map (·.shift (Text.byteLength s)) := by
  have hfirst := preamble_of_headerAt ht
  -- the seam is in front of a header line, where nothing but the length of `s` is known of it
  have hsections : sections (Text.pieces (s ++ t)) =
      ((sections (Text.pieces s)).1,
        (sections (Text.pieces s)).2 ++ (sections (Text.pieces t)).2) := by
    rw [Text.pieces_append hs, sections_append hfirst]
  have hlength : Text.byteLength (preamble s) +
      Text.byteLength (sectionsText (sections (Text.pieces s)).2) = Text.byteLength s := by
    rw [← Text.byteLength_append, preamble_append_sectionsText]
  have hback : scan t = ofSections 0 (sections (Text.pieces t)).2 := by
    rw [scan_eq_ofSections, preamble, hfirst]
    rfl
  rw [scan_eq_ofSections, preamble, hsections, ofSections_append, ← preamble, hlength, hback,
    ← ofSections_add, Nat.zero_add, ← scan_eq_ofSections]

end Block

/-- **Parsing is local.**  Behind a source that is empty or ends with a line feed, a text whose
first line is a header line adds its own blocks, further to the right by the length of the source.
The blocks of the source stay as they are, and so do their keys. -/
theorem Book.parse_append {s t name : Text} (document : Text) (fileId : Nat)
    (hs : s = [] ∨ s.getLast? = some '\n') (ht : Block.HeaderAt t 0 name) :
    (parse (s ++ t) fileId).blocks =
        (parse s fileId).blocks ++
          (parse t fileId).blocks.map (·.shift (Text.byteLength s)) ∧
      (parse (s ++ t) fileId).blocks.map (BlockKey.ofBlock document) =
        (parse s fileId).blocks.map (BlockKey.ofBlock document) ++
          ((parse t fileId).blocks.map (BlockKey.ofBlock document)).map
            fun key => ⟨key.document, key.offset + Text.byteLength s⟩ := by
  have hblocks : (parse (s ++ t) fileId).blocks =
      (parse s fileId).blocks ++ (parse t fileId).blocks.map (·.shift (Text.byteLength s)) :=
    Block.scan_append hs ht
  refine ⟨hblocks, ?_⟩
  rw [hblocks, List.map_append, List.map_map, List.map_map]
  rfl

/-- The last block of the source has blank lines behind its body, and characters of two bytes in
front of it. -/
theorem Book.parse_append_of_blank_lines :
    let s : Text := "é\n### a\nls \n\n"
    let t : Text := "###\tb \r\n x\n### c"
    s.getLast? = some '\n' ∧ Block.HeaderAt t 0 "b" ∧
      (parse (s ++ t) 0).blocks =
        (parse s 0).blocks ++ (parse t 0).blocks.map (·.shift 14) ∧
      (parse (s ++ t) 0).blocks.map (BlockKey.ofBlock "book") =
        [⟨"book", 3⟩, ⟨"book", 14⟩, ⟨"book", 25⟩] := by
  intro s t
  have hlast : s.getLast? = some '\n' := by decide
  have hheader : Block.HeaderAt t 0 "b" := by
    refine ⟨"###\tb \r", ⟨[], "\n x\n### c", rfl, rfl, by decide, by simp, by simp⟩, ?_⟩
    exact ⟨'\t', "b ", by decide, .inr rfl, ⟨'b', by decide, by decide⟩, by decide⟩
  obtain ⟨hblocks, hkeys⟩ := parse_append "book" 0 (.inr hlast) hheader
  exact ⟨hlast, hheader, hblocks, hkeys.trans (by decide)⟩

end Runbook
