import Runbook.Proofs.Book.Live
import Runbook.Proofs.Text.Places

/-!
# Blocks tile their source

The blocks of a source are read off its sections, one for each header line.  Seen from the source,
the header lines alone decide: a block starts where a header line starts and nowhere else, it bears
the name that this line declares, and it reaches to the next block or the end (`scan_tiles`).

`scanFrom` is the scanner at an offset, so that it can be taken line by line
(`scanFrom_append_feed`). What a line declares is said by `Declares`, without the scanner;
`headerName?_eq_some_iff` ties the two.
-/

namespace Runbook

namespace Block

variable {line name source rest : Text} {offset place spot : Nat}

/-! ## Header lines -/

/-- A line is three hash signs, a space or a tab, and text that is not blank, whatever line feeds
and carriage returns stand at its end. The name is that text, trimmed. -/
def Declares (line name : Text) : Prop :=
  ∃ (gap : Char) (text : Text), Text.chomp line = "###" ++ gap :: text ∧ (gap = ' ' ∨ gap = '\t') ∧
    (∃ c ∈ text, ¬ isBlank c) ∧ name = Text.trim text

/-- A line of the source that starts at this offset declares the name. -/
def HeaderAt (source : Text) (offset : Nat) (name : Text) : Prop :=
  ∃ line, Text.LineAt source offset line ∧ Declares line name

theorem headerName?_eq_some_iff :
    headerName? line = some name ↔
      ∃ (gap : Char) (text : Text), line = "###" ++ gap :: text ∧ (gap = ' ' ∨ gap = '\t') ∧
        (∃ c ∈ text, ¬ isBlank c) ∧ name = Text.trim text := by
  have hnamed : ∀ text, (∃ c ∈ text, ¬ isBlank c) ↔ Text.trim text ≠ [] := by
    intro text
    simp [Text.trim_eq_nil_iff]
  have hblank : ∀ gap, gap = ' ' ∨ gap = '\t' → isBlank gap := by
    rintro gap (rfl | rfl) <;> rfl
  simp only [hnamed]
  constructor
  · intro h
    unfold headerName? at h
    cases hfront : Text.dropFront? "###" line with
    | none =>
        rw [hfront] at h
        cases h
    | some behind =>
        rw [hfront] at h
        cases behind with
        | nil => simp at h
        | cons gap text =>
            simp only [List.head?_cons, Option.some.injEq] at h
            split at h
            · next hgap =>
                rw [Text.trim_cons_of_isBlank (hblank gap hgap)] at h
                split at h
                · cases h
                · next hname =>
                    exact ⟨gap, text, Text.dropFront?_eq_some_iff.mp hfront, hgap, hname,
                      (Option.some.inj h).symm⟩
            · cases h
  · rintro ⟨gap, text, rfl, hgap, hname, rfl⟩
    simp only [headerName?, Text.dropFront?_eq_some_iff.mpr rfl, List.head?_cons, Option.some.injEq,
      if_pos hgap, Text.trim_cons_of_isBlank (hblank gap hgap), if_neg hname]

theorem declares_iff : Declares line name ↔ headerName? (Text.chomp line) = some name :=
  headerName?_eq_some_iff.symm

theorem isHeader_iff : isHeader line ↔ ∃ name, Declares line name := by
  simp only [isHeader, Option.isSome_iff_exists, declares_iff]

theorem declares_append_feed : Declares (line ++ ['\n']) name ↔ Declares line name := by
  rw [Declares, Text.chomp_append_feed, Declares]

theorem not_declares_nil : ¬ Declares [] name := by
  rintro ⟨gap, text, h, -⟩
  cases h

/-- The only header line of a text without a line feed is the whole text. -/
theorem headerAt_of_not_mem (h : '\n' ∉ line) :
    HeaderAt line place name ↔ place = 0 ∧ Declares line name := by
  simp only [HeaderAt, Text.lineAt_of_not_mem h]
  constructor
  · rintro ⟨_, ⟨rfl, rfl⟩, hname⟩
    exact ⟨rfl, hname⟩
  · rintro ⟨rfl, hname⟩
    exact ⟨line, ⟨rfl, rfl⟩, hname⟩

theorem headerAt_append_feed (h : '\n' ∉ line) :
    HeaderAt (line ++ '\n' :: rest) place name ↔
      (place = 0 ∧ Declares line name) ∨
        ∃ behind, place = Text.byteLength (line ++ ['\n']) + behind ∧
        HeaderAt rest behind name := by
  simp only [HeaderAt, Text.lineAt_append_feed h]
  constructor
  · rintro ⟨other, ⟨rfl, rfl⟩ | ⟨behind, rfl, hother⟩, hname⟩
    · exact .inl ⟨rfl, hname⟩
    · exact .inr ⟨behind, rfl, other, hother, hname⟩
  · rintro (⟨rfl, hname⟩ | ⟨behind, rfl, other, hother, hname⟩)
    · exact ⟨line, .inl ⟨rfl, rfl⟩, hname⟩
    · exact ⟨other, .inr ⟨behind, rfl, hother⟩, hname⟩

/-! ## Scanning line by line -/

/-- The text in front of the first header line. -/
def preamble (source : Text) : Text := (sections (Text.pieces source)).1.flatten

/-- The blocks of a source that starts at an offset. -/
def scanFrom (offset : Nat) (source : Text) : List Block :=
  ofSections (offset + Text.byteLength (preamble source)) (sections (Text.pieces source)).2

theorem scan_eq_scanFrom (source : Text) : scan source = scanFrom 0 source := by
  rw [scanFrom, Nat.zero_add]
  rfl

@[simp] theorem scanFrom_nil (offset : Nat) : scanFrom offset [] = [] := rfl

theorem sections_singleton (piece : Text) :
    sections [piece] = if isHeader piece then ([], [⟨piece, []⟩]) else ([piece], []) := rfl

theorem sections_cons (piece : Text) (pieces : List Text) :
    sections (piece :: pieces) =
      if isHeader piece then ([], ⟨piece, (sections pieces).1⟩ :: (sections pieces).2)
      else (piece :: (sections pieces).1, (sections pieces).2) := rfl

theorem head_mem_of_mem_sections {pieces : List Text} {s : Section} (h : s ∈ (sections pieces).2) :
    s.head ∈ pieces := by
  induction pieces with
  | nil => cases h
  | cons piece pieces ih =>
      rw [sections_cons] at h
      split at h
      · rcases List.mem_cons.mp h with rfl | h
        · exact List.mem_cons_self
        · exact List.mem_cons_of_mem piece (ih h)
      · exact List.mem_cons_of_mem piece (ih h)

/-- The block that a piece of the source starts, if it is a header line. The pieces behind it, up to
the next header line, are `others`. -/
def headed (offset : Nat) (piece : Text) (others : List Text) : List Block :=
  if isHeader piece then [ofSection offset ⟨piece, others⟩] else []

theorem exists_mem_headed_iff {others : List Text} :
    (∃ b ∈ headed offset line others, b.start = spot ∧ b.name = name) ↔
      spot = offset ∧ Declares line name := by
  unfold headed
  split
  · next hheader =>
      obtain ⟨declared, hdeclared⟩ := Option.isSome_iff_exists.mp hheader
      simp only [List.mem_singleton, exists_eq_left, declares_iff, ofSection, hdeclared,
        Block.start, Option.getD_some, Option.some.injEq, eq_comm]
  · next hheader =>
      rw [isHeader_iff] at hheader
      constructor
      · rintro ⟨b, hb, -⟩
        cases hb
      · exact fun h => absurd ⟨name, h.2⟩ hheader

theorem scanFrom_of_not_mem (hne : line ≠ []) (h : '\n' ∉ line) :
    scanFrom offset line = headed offset line [] := by
  rw [scanFrom, preamble, Text.pieces_of_not_mem hne h, sections_singleton, headed]
  split <;> simp [ofSections]

/-- A header line in front of a source starts a block, which takes in what was in front of the first
header line. Any other line is only passed over. -/
theorem scanFrom_append_feed (h : '\n' ∉ line) :
    scanFrom offset (line ++ '\n' :: rest) =
      headed offset (line ++ ['\n']) (sections (Text.pieces rest)).1 ++
        scanFrom (offset + Text.byteLength (line ++ ['\n'])) rest := by
  rw [scanFrom, preamble, Text.pieces_append_feed h, sections_cons, headed]
  split
  · simp [ofSections, scanFrom, preamble, Section.text, Nat.add_assoc]
  · simp [scanFrom, preamble, Nat.add_assoc]

/-- **Blocks start where header lines start**, and bear the names that these lines declare. -/
theorem exists_mem_scanFrom_iff :
    (∃ b ∈ scanFrom offset source, b.start = spot ∧ b.name = name) ↔
      ∃ place, spot = offset + place ∧ HeaderAt source place name := by
  induction source using Text.lineInduction generalizing offset with
  | nil => simp [headerAt_of_not_mem, not_declares_nil]
  | last line hne hline =>
      rw [scanFrom_of_not_mem hne hline, exists_mem_headed_iff]
      simp only [headerAt_of_not_mem hline]
      constructor
      · rintro ⟨rfl, hname⟩
        exact ⟨0, rfl, rfl, hname⟩
      · rintro ⟨_, rfl, rfl, hname⟩
        exact ⟨rfl, hname⟩
  | feed line rest hline ih =>
      rw [scanFrom_append_feed hline]
      simp only [List.mem_append, or_and_right, exists_or, exists_mem_headed_iff, ih,
        declares_append_feed, headerAt_append_feed hline]
      constructor
      · rintro (⟨rfl, hname⟩ | ⟨behind, rfl, hbehind⟩)
        · exact ⟨0, rfl, .inl ⟨rfl, hname⟩⟩
        · exact ⟨_, Nat.add_assoc .., .inr ⟨behind, rfl, hbehind⟩⟩
      · rintro ⟨_, rfl, ⟨rfl, hname⟩ | ⟨behind, rfl, hbehind⟩⟩
        · exact .inl ⟨rfl, hname⟩
        · exact .inr ⟨behind, (Nat.add_assoc ..).symm, hbehind⟩

theorem headerAt_of_mem_scan {b : Block} (h : b ∈ scan source) :
    HeaderAt source b.start b.name := by
  rw [scan_eq_scanFrom] at h
  obtain ⟨place, hplace, hheader⟩ := exists_mem_scanFrom_iff.mp ⟨b, h, rfl, rfl⟩
  rwa [hplace, Nat.zero_add]

/-- No header line is in front of the first one. -/
theorem not_headerAt_preamble : ¬ HeaderAt (preamble source) place name := by
  induction source using Text.lineInduction generalizing place with
  | nil => simp [preamble, Text.pieces, sections, headerAt_of_not_mem, not_declares_nil]
  | last line hne hline =>
      rw [preamble, Text.pieces_of_not_mem hne hline, sections_singleton]
      split
      · simp [headerAt_of_not_mem, not_declares_nil]
      · next hheader =>
          rw [isHeader_iff] at hheader
          rw [List.flatten_singleton, headerAt_of_not_mem hline]
          exact fun h => hheader ⟨name, h.2⟩
  | feed line rest hline ih =>
      rw [preamble, Text.pieces_append_feed hline, sections_cons]
      split
      · simp [headerAt_of_not_mem, not_declares_nil]
      · next hheader =>
          rw [isHeader_iff] at hheader
          rw [List.flatten_cons, List.append_assoc, List.singleton_append,
            headerAt_append_feed hline]
          rintro (⟨-, hname⟩ | ⟨behind, -, hbehind⟩)
          · exact hheader ⟨name, declares_append_feed.mpr hname⟩
          · exact ih hbehind

/-! ## Spans side by side -/

/-- The spans of the blocks lie side by side: the first one starts at `start`, each ends where the
next one begins, and the last one ends at `stop`. -/
def Tiles (start : Nat) : List Block → Nat → Prop
  | [], stop => start = stop
  | b :: rest, stop =>
    b.span.start = start ∧ b.span.start < b.span.stop ∧ Tiles b.span.stop rest stop

/-- The text of sections one after another. -/
def sectionsText (found : List Section) : Text := (found.map Section.text).flatten

theorem preamble_append_sectionsText (source : Text) :
    preamble source ++ sectionsText (sections (Text.pieces source)).2 = source := by
  rw [preamble, sectionsText, flatten_sections, Text.flatten_pieces]

/-- The span of a block is as long as its section. -/
theorem span_ofSection (offset : Nat) (s : Section) :
    (ofSection offset s).span = ⟨offset, offset + Text.byteLength s.text⟩ := by
  simp [ofSection, Section.text, Nat.add_assoc]

theorem head_ne_nil_of_isHeader {s : Section} (h : isHeader s.head) : s.head ≠ [] := by
  intro hnil
  obtain ⟨name, hname⟩ := isHeader_iff.mp h
  exact not_declares_nil (hnil ▸ hname)

theorem tiles_ofSections {found : List Section} (h : ∀ s ∈ found, isHeader s.head) :
    Tiles offset (ofSections offset found) (offset + Text.byteLength (sectionsText found)) := by
  induction found generalizing offset with
  | nil => simp [ofSections, Tiles, sectionsText]
  | cons s rest ih =>
      have hpos : 0 < Text.byteLength s.text := by
        rw [Section.text, Text.byteLength_append]
        exact Nat.add_pos_left
          (Text.byteLength_pos (head_ne_nil_of_isHeader (h s List.mem_cons_self))) _
      have hrest : Tiles (offset + Text.byteLength s.text)
          (ofSections (offset + Text.byteLength s.text) rest)
          (offset + Text.byteLength s.text + Text.byteLength (sectionsText rest)) :=
        ih fun s' hs' => h s' (List.mem_cons_of_mem _ hs')
      rw [ofSections, Tiles, span_ofSection]
      refine ⟨rfl, Nat.lt_add_of_pos_right hpos, ?_⟩
      rwa [sectionsText, List.map_cons, List.flatten_cons, Text.byteLength_append, ← Nat.add_assoc]

theorem le_start_of_tiles {start stop : Nat} {blocks : List Block} (h : Tiles start blocks stop) :
    ∀ b ∈ blocks, start ≤ b.start := by
  induction blocks generalizing start with
  | nil => simp
  | cons first rest ih =>
      obtain ⟨hfirst, hlt, hrest⟩ := h
      intro b hb
      rcases List.mem_cons.mp hb with rfl | hb
      · exact hfirst.ge
      · have := ih hrest b hb
        omega

/-- Blocks that lie side by side start one behind the other. -/
theorem pairwise_start_of_tiles {start stop : Nat} {blocks : List Block}
    (h : Tiles start blocks stop) : blocks.Pairwise (·.start < ·.start) := by
  induction blocks generalizing start with
  | nil => exact List.Pairwise.nil
  | cons first rest ih =>
      obtain ⟨-, hlt, hrest⟩ := h
      refine List.pairwise_cons.mpr ⟨fun b hb => ?_, ih hrest⟩
      exact hlt.trans_le (le_start_of_tiles hrest b hb)

/-- Cut out of the source, the span of each block is the text of its section. -/
theorem slices_ofSections {front : Text} {found : List Section}
    (h : source = front ++ sectionsText found) :
    (ofSections (Text.byteLength front) found).map (fun b => Text.slice source b.span) =
      found.map Section.text := by
  induction found generalizing front with
  | nil => rfl
  | cons s rest ih =>
      have hsource : source = front ++ (s.text ++ sectionsText rest) := h
      have hrest : (ofSections (Text.byteLength (front ++ s.text)) rest).map
          (fun b => Text.slice source b.span) = rest.map Section.text :=
        ih (by rw [hsource, List.append_assoc])
      rw [Text.byteLength_append] at hrest
      rw [ofSections, List.map_cons, List.map_cons, hrest, span_ofSection]
      congr 1
      rw [hsource, Text.slice_append]

end Block

/-- **Blocks tile their source.**  The header lines of a source, and nothing else, start its blocks
and give them their names, which are never empty.  The blocks stand in the order of the source, side
by side up to its end, behind a text without header lines, and so they make up the whole source and
have keys of their own. -/
theorem Book.parse_tiles (document source : Text) (fileId : Nat) :
    let blocks := (Book.parse source fileId).blocks
    (∀ offset name, (∃ b ∈ blocks, b.start = offset ∧ b.name = name) ↔
        Block.HeaderAt source offset name) ∧
      (∀ b ∈ blocks, b.name ≠ []) ∧
      blocks.Pairwise (·.start < ·.start) ∧
      (blocks.map (BlockKey.ofBlock document)).Nodup ∧
      ∃ preamble, source = preamble ++ (blocks.map fun b => Text.slice source b.span).flatten ∧
        Block.Tiles (Text.byteLength preamble) blocks (Text.byteLength source) ∧
        ∀ offset name, ¬ Block.HeaderAt preamble offset name := by
  intro blocks
  have hsource : source = Block.preamble source ++ Block.sectionsText
      (Block.sections (Text.pieces source)).2 := (Block.preamble_append_sectionsText source).symm
  have hblocks : blocks = Block.ofSections (Text.byteLength (Block.preamble source))
      (Block.sections (Text.pieces source)).2 := rfl
  have hscan : blocks = Block.scanFrom 0 source := Block.scan_eq_scanFrom source
  have htiles : Block.Tiles (Text.byteLength (Block.preamble source)) blocks
      (Text.byteLength source) := by
    conv => rhs; rw [hsource]
    rw [Text.byteLength_append, hblocks]
    exact Block.tiles_ofSections fun s hs => Block.isHeader_of_mem_sections hs
  have hsorted := Block.pairwise_start_of_tiles htiles
  refine ⟨fun offset name => ?_, fun b hb => Block.name_ne_nil_of_mem_scan hb, hsorted, ?_,
    Block.preamble source, ?_, htiles, fun offset name => Block.not_headerAt_preamble⟩
  · rw [hscan, Block.exists_mem_scanFrom_iff]
    simp
  · -- keys differ because the offsets in them do
    refine List.pairwise_map.mpr (hsorted.imp fun {a b} hlt heq => ?_)
    exact hlt.ne (congrArg BlockKey.offset heq)
  · rw [hblocks, Block.slices_ofSections hsource]
    exact hsource

end Runbook
