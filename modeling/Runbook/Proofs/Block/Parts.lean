import Runbook.Proofs.Block.Tiling

/-!
# Where the parts of a block stand

A block holds texts and places, and it has both from one section: the texts from the section itself,
the places from the length of what is in front of them.  Here the block is cut into its `Parts`,
which stand in the source side by side: the header line without its line ending, white space, the
trimmed body, and white space again.

* A section is these parts, one behind the other (`exists_parts_ofSection`), whether its body is
  empty or not.
* Each part is at the place that the block gives for it (`Parts.partAt_header` and the lemmas behind
  it).

So the places of a block cut its texts out of the source (`placed_of_mem_scan`,
`Book.slices_exact`).
-/

namespace Runbook

namespace Block

variable {source front back : Text} {b : Block} {s : Section}

/-- The block stands in the source as its header line, white space, its body and white space again,
side by side. -/
structure Parts (source : Text) (b : Block) (line gap trailing : Text) : Prop where
  span : Text.PartAt source b.span (line ++ (gap ++ (b.body ++ trailing)))
  header : b.header = ⟨b.span.start, b.span.start + Text.byteLength line⟩
  bodySpan : b.bodySpan = ⟨b.span.start + Text.byteLength (line ++ gap),
    b.span.start + Text.byteLength (line ++ gap) + Text.byteLength b.body⟩
  trimmed : Text.trim b.body = b.body
  name : headerName? line = some b.name
  chomped : Text.chomp line = line
  not_mem : '\n' ∉ line
  isBlank_gap : ∀ c ∈ gap, isBlank c
  isBlank_trailing : ∀ c ∈ trailing, isBlank c
  body_eq_nil_or : b.body = [] ∨ '\n' ∈ gap

theorem exists_section_at_of_mem {found : List Section}
    (hsource : source = front ++ sectionsText found)
    (hb : b ∈ ofSections (Text.byteLength front) found) :
    ∃ s ∈ found, ∃ before after, source = before ++ (s.text ++ after) ∧
      b = ofSection (Text.byteLength before) s := by
  induction found generalizing front with
  | nil => cases hb
  | cons s rest ih =>
      have hsplit : source = front ++ (s.text ++ sectionsText rest) := hsource
      rw [ofSections, ← Text.byteLength_append] at hb
      rcases List.mem_cons.mp hb with rfl | hb
      · exact ⟨s, List.mem_cons_self, front, sectionsText rest, hsplit, rfl⟩
      · obtain ⟨other, hother, before, after, heq, hb⟩ := ih (by rw [hsplit, List.append_assoc]) hb
        exact ⟨other, List.mem_cons_of_mem s hother, before, after, heq, hb⟩

theorem rest_eq_nil_or_of_mem_sections (hs : s ∈ (sections (Text.pieces source)).2) :
    s.rest = [] ∨ s.head.getLast? = some '\n' := by
  induction source using Text.lineInduction with
  | nil => cases hs
  | last line hne hline =>
      rw [Text.pieces_of_not_mem hne hline, sections_singleton] at hs
      split at hs
      · rw [List.mem_singleton.mp hs]
        exact .inl rfl
      · cases hs
  | feed line rest hline ih =>
      rw [Text.pieces_append_feed hline, sections_cons] at hs
      split at hs
      · rcases List.mem_cons.mp hs with rfl | hs
        · exact .inr (by simp)
        · exact ih hs
      · exact ih hs

/-- A block that is read off a section has the parts of the section. -/
theorem exists_parts_ofSection (hsource : source = front ++ (s.text ++ back))
    (hheader : isHeader s.head)
    (hfeed : '\n' ∉ Text.chomp s.head) (hrest : s.rest = [] ∨ s.head.getLast? = some '\n') :
    ∃ line gap trailing, Parts source (ofSection (Text.byteLength front) s) line gap trailing := by
  obtain ⟨name, hname⟩ := Option.isSome_iff_exists.mp hheader
  obtain ⟨ending, hhead, hending⟩ := Text.exists_chomped s.head
  obtain ⟨leading, trailing, hstart, hend, hleading, htrailing⟩ :=
    Text.exists_trimmed s.rest.flatten
  have hraw : s.rest.flatten = leading ++ (Text.trim s.rest.flatten ++ trailing) := by
    rw [← hend, ← hstart]
  have htext : s.text =
      Text.chomp s.head ++ (ending ++ leading ++ (Text.trim s.rest.flatten ++ trailing)) := by
    rw [List.append_assoc ending, ← hraw, ← List.append_assoc, ← hhead, Section.text]
  have hlength :
      Text.byteLength s.head = Text.byteLength (Text.chomp s.head) + Text.byteLength ending := by
    rw [← Text.byteLength_append, ← hhead]
  -- the body starts behind the white space that is taken away in front of it
  have hleft : Text.byteLength s.rest.flatten - Text.byteLength (Text.trimStart s.rest.flatten) =
      Text.byteLength leading := by
    have hlength := congrArg Text.byteLength hstart
    rw [Text.byteLength_append] at hlength
    omega
  refine ⟨Text.chomp s.head, ending ++ leading, trailing, ?_⟩
  constructor
  case span =>
    refine ⟨front, back, ?_, ?_⟩
    · exact hsource.trans (congrArg (fun text => front ++ (text ++ back)) htext)
    · exact (span_ofSection _ s).trans (by rw [htext]; rfl)
  case header => rfl
  case bodySpan =>
    rw [ofSection, hleft, hlength]
    simp only [Text.byteLength_append, ← Nat.add_assoc]
  case trimmed => exact Text.trim_trim _
  case name => rw [ofSection, hname]; rfl
  case chomped => exact Text.dropEndWhile_dropEndWhile fun _ => id
  case not_mem => exact hfeed
  case isBlank_gap =>
    intro c hc
    rcases List.mem_append.mp hc with hc | hc
    · rcases hending c hc with rfl | rfl <;> rfl
    · exact hleading c hc
  case isBlank_trailing => exact htrailing
  case body_eq_nil_or =>
    rcases hrest with hrest | hlast
    · left
      rw [ofSection, hrest]
      rfl
    · right
      have hmem : '\n' ∈ Text.chomp s.head ++ ending := hhead ▸ List.mem_of_getLast? hlast
      exact List.mem_append_left _ ((List.mem_append.mp hmem).resolve_left hfeed)

theorem exists_parts_of_mem_scan (hb : b ∈ scan source) :
    ∃ line gap trailing, Parts source b line gap trailing := by
  obtain ⟨s, hs, front, back, hsource, rfl⟩ :=
    exists_section_at_of_mem (preamble_append_sectionsText source).symm hb
  exact exists_parts_ofSection hsource (isHeader_of_mem_sections hs)
    (Text.not_mem_chomp (head_mem_of_mem_sections hs)) (rest_eq_nil_or_of_mem_sections hs)

section Parts

variable {line gap trailing : Text} (h : Parts source b line gap trailing)
include h

theorem Parts.partAt_header : Text.PartAt source b.header line := by
  rw [h.header]
  exact (h.span.within (List.nil_append _).symm).1

theorem Parts.partAt_gap : Text.PartAt source ⟨b.header.stop, b.bodySpan.start⟩ gap := by
  rw [h.header, h.bodySpan, Text.byteLength_append, ← Nat.add_assoc]
  exact (h.span.within rfl).1

theorem Parts.partAt_body : Text.PartAt source b.bodySpan b.body := by
  rw [h.bodySpan]
  exact (h.span.within (List.append_assoc line gap _).symm).1

theorem Parts.partAt_trailing : Text.PartAt source ⟨b.bodySpan.stop, b.span.stop⟩ trailing := by
  have hparts :
      line ++ (gap ++ (b.body ++ trailing)) = line ++ gap ++ b.body ++ (trailing ++ []) := by
    simp only [List.append_assoc, List.append_nil]
  have htrailing := (h.span.within hparts).1
  rw [h.span.stop_eq, hparts, h.bodySpan]
  simpa only [Text.byteLength_append, Text.byteLength_nil, Nat.add_assoc,
    Nat.add_zero] using htrailing

end Parts

/-- The parts of the block stand in the source at the places that the block gives for them. -/
structure Placed (source : Text) (b : Block) : Prop where
  header : ∃ line, Text.PartAt source b.header line ∧ '\n' ∉ line ∧ Declares line b.name
  body : Text.PartAt source b.bodySpan b.body

theorem placed_of_mem_scan (hb : b ∈ scan source) : Placed source b := by
  obtain ⟨line, gap, trailing, h⟩ := exists_parts_of_mem_scan hb
  have hname : Declares line b.name := by
    rw [declares_iff, h.chomped]
    exact h.name
  exact ⟨⟨line, h.partAt_header, h.not_mem, hname⟩, h.partAt_body⟩

/-- What a header line can name. -/
structure IsName (name : Text) : Prop where
  ne_nil : name ≠ []
  trimmed : Text.trim name = name
  not_mem : '\n' ∉ name

theorem isName_of_mem_scan (hb : b ∈ scan source) : IsName b.name := by
  obtain ⟨line, gap, trailing, h⟩ := exists_parts_of_mem_scan hb
  obtain ⟨blank, text, rfl, -, -, hname⟩ := headerName?_eq_some_iff.mp h.name
  refine ⟨name_ne_nil_of_mem_scan hb, by rw [hname, Text.trim_trim], fun hfeed => ?_⟩
  rw [hname] at hfeed
  exact h.not_mem
    (List.mem_append_right _ (List.mem_cons_of_mem blank (Text.mem_of_mem_trim hfeed)))

/-- The places of the block are slices of the source between characters, in order, and they cut out
of it what the block holds: the trimmed body, and a header line that names the block. Between them
is white space only. -/
structure Exact (source : Text) (b : Block) : Prop where
  partAt : ∀ place ∈ [b.header, b.bodySpan, b.span],
    Text.PartAt source place (Text.slice source place)
  start_eq : b.span.start = b.header.start
  header_le : b.header.start ≤ b.header.stop
  header_le_body : b.header.stop ≤ b.bodySpan.start
  body_le : b.bodySpan.start ≤ b.bodySpan.stop
  body_le_span : b.bodySpan.stop ≤ b.span.stop
  slice_body : Text.slice source b.bodySpan = b.body
  head_body : ∀ c ∈ b.body.head?, ¬ isBlank c
  last_body : ∀ c ∈ b.body.getLast?, ¬ isBlank c
  blank_front : ∀ c ∈ Text.slice source ⟨b.header.stop, b.bodySpan.start⟩, isBlank c
  blank_back : ∀ c ∈ Text.slice source ⟨b.bodySpan.stop, b.span.stop⟩, isBlank c
  not_mem_header : '\n' ∉ Text.slice source b.header
  name_header : ∃ text, Text.slice source b.header = "###" ++ text ∧ b.name = Text.trim text

end Block

/-- **Slices are exact.**  The places of each block cut its texts out of the source, and what they
leave out of the block is white space. -/
theorem Book.slices_exact {source : Text} {fileId : Nat} {b : Block}
    (hb : b ∈ (parse source fileId).blocks) :
    b.Exact source := by
  obtain ⟨line, gap, trailing, h⟩ := Block.exists_parts_of_mem_scan hb
  have hline : Text.slice source b.header = line := h.partAt_header.slice_eq
  have hgap : Text.slice source ⟨b.header.stop, b.bodySpan.start⟩ = gap := h.partAt_gap.slice_eq
  have htrailing : Text.slice source ⟨b.bodySpan.stop, b.span.stop⟩ = trailing :=
    h.partAt_trailing.slice_eq
  constructor
  case partAt =>
    simp only [List.forall_mem_cons]
    refine ⟨?_, ?_, ?_, by simp⟩
    · exact hline.symm ▸ h.partAt_header
    · exact h.partAt_body.slice_eq.symm ▸ h.partAt_body
    · exact h.span.slice_eq.symm ▸ h.span
  case start_eq => rw [h.header]
  case header_le => exact h.partAt_header.start_le_stop
  case header_le_body => exact h.partAt_gap.start_le_stop
  case body_le => exact h.partAt_body.start_le_stop
  case body_le_span => exact h.partAt_trailing.start_le_stop
  case slice_body => exact h.partAt_body.slice_eq
  case head_body =>
    rw [← h.trimmed]
    exact fun c => Text.not_isBlank_of_head?_trim
  case last_body =>
    rw [← h.trimmed]
    exact fun c => Text.not_isBlank_of_getLast?_trim
  case blank_front => exact hgap.symm ▸ h.isBlank_gap
  case blank_back => exact htrailing.symm ▸ h.isBlank_trailing
  case not_mem_header => exact hline.symm ▸ h.not_mem
  case name_header =>
    obtain ⟨blank, text, hhash, hblank, -, hname⟩ := Block.headerName?_eq_some_iff.mp h.name
    refine ⟨blank :: text, hline.trans hhash, ?_⟩
    rw [hname, Text.trim_cons_of_isBlank]
    rcases hblank with rfl | rfl <;> rfl

/-- A body of nothing but white space, of several bytes and with carriage returns, between two other
blocks. -/
theorem Book.slices_exact_of_blank_body :
    let source : Text := "é\n### a\nls\n###\t b  c\u00a0\r\r\n\u3000\r\n \u2028\r\n\u0085\n### d"
    ∃ b ∈ (parse source 0).blocks, b.name = "b  c" ∧ b.body = [] ∧ b.bodySpan = ⟨40, 40⟩ ∧
    b.Exact source := by
  intro source
  obtain ⟨b, hb, hname, hbody, hspan⟩ :
      ∃ b ∈ (parse source 0).blocks, b.name = "b  c" ∧ b.body = [] ∧ b.bodySpan = ⟨40, 40⟩ := by
        decide
  exact ⟨b, hb, hname, hbody, hspan, slices_exact hb⟩

end Runbook
