import Mathlib.Data.List.Forall2
import Runbook.Lint
import Runbook.Proofs.Block.Tiling
import Runbook.Proofs.Text.LineEndings

/-!
# Both kinds of line endings mean the same

A runbook can be written with line feeds, or with a carriage return in front of each of them.  Both
cut it into the same blocks: the blocks of one source are the counterparts of the blocks of the
other, one by one (`counterparts_scan`).  A counterpart has the same name and the same lines, its
body has a carriage return in front of each line feed, and it starts later by one byte for each line
in front of it.

What a book is asked for depends on no more than that: on names (warnings, variables, live blocks),
on lines (expansions, declarations), on chomped pieces (include lines), and on whether two blocks
start at the same place (`Counterpart.start_eq_iff`).
-/

namespace Runbook

/-- What a diagnostic says, without its place. -/
def Diagnostic.finding (d : Diagnostic) : Severity × Text := (d.severity, d.message)

namespace Block

variable {source : Text} {b c other another : Block}

/-- A block of a source, and the same block where the lines end with a carriage return and a line
feed. -/
structure Counterpart (source : Text) (b other : Block) : Prop where
  name : other.name = b.name
  body : other.body = Text.withReturns b.body
  lines : Text.lines other.body = Text.lines b.body
  start : other.start = b.start + Text.lineOf source b.start

theorem Counterpart.isVariables (h : Counterpart source b other) :
    other.isVariables = b.isVariables := by
  rw [Block.isVariables, h.name, Block.isVariables]

/-- Counterparts start at the same place if the blocks do. -/
theorem Counterpart.start_eq_iff (hb : Counterpart source b other)
    (hc : Counterpart source c another) :
    other.start = another.start ↔ b.start = c.start := by
  rw [hb.start, hc.start]
  constructor
  · intro h
    -- a block further down has no fewer lines in front of it,
    -- and so it starts later in the other source
    rcases Nat.lt_trichotomy b.start c.start with hlt | heq | hlt
    · have := Text.lineOf_le_lineOf hlt.le source
      omega
    · exact heq
    · have := Text.lineOf_le_lineOf hlt.le source
      omega
  · exact fun h => by rw [h]

/-! ## Scanning -/

/-- A section whose lines end with a carriage return and a line feed. -/
def Section.withReturns (s : Section) : Section :=
  ⟨Text.withReturns s.head, s.rest.map Text.withReturns⟩

theorem Section.text_withReturns (s : Section) : s.withReturns.text = Text.withReturns s.text := by
  rw [text, Section.withReturns, ← Text.withReturns_flatten, ← Text.withReturns_append, text]

theorem sections_withReturns {pieces : List Text}
    (h : ∀ piece ∈ pieces, Text.chomp (Text.withReturns piece) = Text.chomp piece) :
    sections (pieces.map Text.withReturns) =
      ((sections pieces).1.map Text.withReturns,
        (sections pieces).2.map Section.withReturns) := by
  induction pieces with
  | nil => rfl
  | cons piece pieces ih =>
      obtain ⟨hpiece, hrest⟩ := List.forall_mem_cons.mp h
      have hheader : isHeader (Text.withReturns piece) = isHeader piece := by
        rw [isHeader, hpiece, isHeader]
      rw [List.map_cons, sections_cons, ih hrest, hheader, sections_cons]
      split <;> rfl

theorem counterpart_ofSection {front back : Text} {s : Section}
    (hsource : source = front ++ (s.text ++ back)) (hreturn : '\r' ∉ source)
    (hhead : Text.chomp (Text.withReturns s.head) = Text.chomp s.head) :
    Counterpart source (ofSection (Text.byteLength front) s)
      (ofSection (Text.byteLength (Text.withReturns front)) s.withReturns) where
  name := by rw [ofSection, Section.withReturns, hhead, ofSection]
  body := by
    rw [ofSection, Section.withReturns, ← Text.withReturns_flatten, Text.trim_withReturns,
      ofSection]
  lines := by
    have hbody : '\r' ∉ Text.trim s.rest.flatten := by
      intro hmem
      refine hreturn (hsource ▸ ?_)
      simp only [Section.text, List.mem_append]
      exact .inr (.inl (.inr (Text.mem_of_mem_trim hmem)))
    rw [ofSection, Section.withReturns, ← Text.withReturns_flatten, Text.trim_withReturns,
      ofSection]
    exact Text.lines_withReturns hbody
  start := by
    have hline : Text.lineOf source (Text.byteLength front) = front.count '\n' :=
      hsource ▸ Text.lineOf_byteLength_append front _
    exact (Text.byteLength_withReturns front).trans (by rw [Block.start, ofSection, hline])

theorem counterparts_ofSections {front : Text} {found : List Section}
    (hsource : source = front ++ sectionsText found) (hreturn : '\r' ∉ source)
    (hheads : ∀ s ∈ found, Text.chomp (Text.withReturns s.head) = Text.chomp s.head) :
    List.Forall₂ (Counterpart source) (ofSections (Text.byteLength front) found)
      (ofSections (Text.byteLength (Text.withReturns front)) (found.map Section.withReturns)) := by
  induction found generalizing front with
  | nil => exact .nil
  | cons s rest ih =>
      obtain ⟨hhead, hrest⟩ := List.forall_mem_cons.mp hheads
      have hsplit : source = front ++ (s.text ++ sectionsText rest) := hsource
      -- both scanners go on behind the section,
      -- each at the length of what is in front in its own source
      have hfront : source = front ++ s.text ++ sectionsText rest := by
        rw [hsplit, List.append_assoc]
      have hbehind := ih hfront hrest
      rw [Text.withReturns_append, ← Section.text_withReturns, Text.byteLength_append,
        Text.byteLength_append] at hbehind
      exact .cons (counterpart_ofSection hsplit hreturn hhead) hbehind

/-- **The blocks of both sources belong to each other.** -/
theorem counterparts_scan (hreturn : '\r' ∉ source) :
    List.Forall₂ (Counterpart source) (scan source) (scan (Text.withReturns source)) := by
  have hchomp : ∀ piece ∈ Text.pieces source,
      Text.chomp (Text.withReturns piece) = Text.chomp piece := fun _ => Text.chomp_of_mem_pieces
  have hother : scan (Text.withReturns source) =
      ofSections (Text.byteLength (Text.withReturns (preamble source)))
        ((sections (Text.pieces source)).2.map Section.withReturns) := by
    rw [scan, Text.pieces_withReturns, sections_withReturns hchomp, preamble,
      Text.withReturns_flatten]
  rw [hother]
  exact counterparts_ofSections (preamble_append_sectionsText source).symm hreturn
    fun s hs => hchomp _ (head_mem_of_mem_sections hs)

end Block

namespace Book

open Block

variable {source : Text} {book other : Book} {b c : Block}

/-! ## Lists of counterparts -/

theorem rel_find? {α β : Type} {R : α → β → Prop} {p : α → Bool} {q : β → Bool} {l : List α}
    {l' : List β} (hlists : List.Forall₂ R l l') (h : ∀ a b, R a b → q b = p a) :
    Option.Rel R (l.find? p) (l'.find? q) := by
  induction hlists with
  | nil => exact .none
  | @cons a b l l' hab _ ih =>
      rw [List.find?_cons, List.find?_cons, h a b hab]
      cases p a with
      | true => exact .some hab
      | false => exact ih

theorem map_eq_map {α β γ : Type} {R : α → β → Prop} {f : α → γ} {g : β → γ} {l : List α}
    {l' : List β} (hlists : List.Forall₂ R l l') (h : ∀ a b, R a b → g b = f a) :
    l'.map g = l.map f := by
  rw [← List.forall₂_eq_eq_eq, List.forall₂_map_left_iff, List.forall₂_map_right_iff]
  exact (hlists.flip).imp fun b a hab => h a b hab

/-! ## Warnings -/

theorem finding_warningAt? {earlier earlier' : List Block} {fileId fileId' : Nat}
    (hearlier : List.Forall₂ (Counterpart source) earlier earlier') (hb : Counterpart source b c) :
    (warningAt? fileId' earlier' c).map Diagnostic.finding =
      (warningAt? fileId earlier b).map Diagnostic.finding := by
  rw [warningAt?, warningAt?, hb.isVariables]
  split
  · have hany : earlier'.any (·.isVariables) = earlier.any (·.isVariables) := by
      have hmap := map_eq_map hearlier fun _ _ hb => hb.isVariables
      have hid := congrArg (List.any · id) hmap
      rwa [List.any_map, List.any_map] at hid
    rw [hany]
    split <;> rfl
  · have hnearest : Option.Rel (Counterpart source) (earlier.find? (·.name = b.name))
        (earlier'.find? (·.name = c.name)) :=
      rel_find? hearlier fun _ _ hother => by rw [hother.name, hb.name]
    generalize earlier.find? (·.name = b.name) = nearest,
      earlier'.find? (·.name = c.name) = nearest' at hnearest
    cases hnearest with
    | none => rfl
    | some hother =>
        simp only [Option.map_some, shadowedBlock, Diagnostic.finding, hother.name]

theorem finding_warningsBehind {earlier earlier' blocks blocks' : List Block} {fileId fileId' : Nat}
    (hearlier : List.Forall₂ (Counterpart source) earlier earlier')
    (hblocks : List.Forall₂ (Counterpart source) blocks blocks') :
    (warningsBehind fileId' earlier' blocks').map Diagnostic.finding =
      (warningsBehind fileId earlier blocks).map Diagnostic.finding := by
  induction hblocks generalizing earlier earlier' with
  | nil => rfl
  | cons hb _ ih =>
      rw [warningsBehind, warningsBehind, List.map_append, List.map_append, ih (.cons hb hearlier),
        ← Option.toList_map, ← Option.toList_map, finding_warningAt? hearlier hb]

/-! ## Books -/

/-- The blocks of one book are the counterparts of the blocks of the other. -/
def Counterparts (source : Text) (book other : Book) : Prop :=
  List.Forall₂ (Counterpart source) book.blocks other.blocks

section Counterparts

variable (h : Counterparts source book other)
include h

theorem counterparts_executableBlocks :
    List.Forall₂ (Counterpart source) book.executableBlocks other.executableBlocks :=
  List.rel_filter (fun _ _ hb => by simp [hb.isVariables]) h

theorem rel_get? (name : Text) :
    Option.Rel (Counterpart source) (book.get? name) (other.get? name) :=
  rel_find? (List.rel_reverse (counterparts_executableBlocks h)) fun _ _ hb => by rw [hb.name]

theorem map_lines_blockMap (name : Text) :
    (other.blockMap.get? name).map Text.lines = (book.blockMap.get? name).map Text.lines := by
  have hlive := rel_get? h name
  rw [blockMap_get?, blockMap_get?]
  generalize book.get? name = live, other.get? name = live' at hlive
  cases hlive with
  | none => rfl
  | some hb => exact congrArg some hb.lines

theorem contains_blockMap (name : Text) :
    other.blockMap.contains name = book.blockMap.contains name := by
  have hisSome := congrArg Option.isSome (map_lines_blockMap h name)
  rwa [Option.isSome_map, Option.isSome_map] at hisSome

theorem expandBlock_of_counterparts (name : Text) :
    other.expandBlock name = book.expandBlock name :=
  Include.expanded_eq_of_lines_eq (map_lines_blockMap h) [] name

theorem declared_of_counterparts : other.declared = book.declared := by
  have hfirst : Option.Rel (Counterpart source) book.variablesBlock? other.variablesBlock? :=
    rel_find? h fun _ _ hb => hb.isVariables
  rw [declared, declared]
  generalize book.variablesBlock? = first, other.variablesBlock? = first' at hfirst
  cases hfirst with
  | none => rfl
  | some hb => simp only [VariableTable.parse, VariableTable.declarations, hb.lines]

/-! ### Include lines and cycles -/

theorem finding_missingIncludesFrom {pieces : List Text}
    (hpieces : ∀ piece ∈ pieces, Text.chomp (Text.withReturns piece) = Text.chomp piece)
    (offset offset' : Nat) :
    (other.missingIncludesFrom c offset' (pieces.map Text.withReturns)).map Diagnostic.finding =
      (book.missingIncludesFrom b offset pieces).map Diagnostic.finding := by
  induction pieces generalizing offset offset' with
  | nil => rfl
  | cons piece pieces ih =>
      obtain ⟨hpiece, hrest⟩ := List.forall_mem_cons.mp hpieces
      rw [List.map_cons, missingIncludesFrom, missingIncludesFrom, List.map_append, List.map_append,
        ih hrest, hpiece]
      cases Include.target? (Text.chomp piece) with
      | none => rfl
      | some target =>
          simp only [contains_blockMap h]
          split <;> rfl

theorem finding_missingIncludes (hb : Counterpart source b c) :
    (other.missingIncludes c).map Diagnostic.finding =
      (book.missingIncludes b).map Diagnostic.finding := by
  rw [missingIncludes, hb.body, Text.pieces_withReturns, missingIncludes]
  exact finding_missingIncludesFrom h (fun _ => Text.chomp_of_mem_pieces) _ _

theorem isLive_of_counterpart (hb : Counterpart source b c) : other.isLive c = book.isLive b := by
  have hlive := rel_get? h b.name
  rw [isLive, hb.name, isLive]
  generalize book.get? b.name = live, other.get? b.name = live' at hlive
  cases hlive with
  | none => rfl
  | some hl => simp only [Option.map_some, Option.some.injEq, hl.start_eq_iff hb]

theorem finding_includeCycle? (hb : Counterpart source b c) :
    (other.includeCycle? c).map Diagnostic.finding =
      (book.includeCycle? b).map Diagnostic.finding := by
  rw [includeCycle?, isLive_of_counterpart h hb, hb.name, expandBlock_of_counterparts h,
    includeCycle?]
  split
  · cases book.expandBlock b.name with
    | ok text => rfl
    | error e => cases e <;> rfl
  · rfl

/-- Lint finds the same in both books, at the places where it is there. -/
theorem finding_lint : other.lint.map Diagnostic.finding = book.lint.map Diagnostic.finding := by
  have hexecutable := counterparts_executableBlocks h
  have hwarnings : other.warnings.map Diagnostic.finding = book.warnings.map Diagnostic.finding :=
    finding_warningsBehind .nil h
  have hmissing := congrArg List.flatten
    (map_eq_map hexecutable fun _ _ hb => finding_missingIncludes h hb)
  have hcycles := congrArg (List.filterMap id)
    (map_eq_map hexecutable fun _ _ hb => finding_includeCycle? h hb)
  rw [← List.flatMap_def, ← List.flatMap_def] at hmissing
  rw [List.filterMap_map, List.filterMap_map] at hcycles
  rw [lint, lint, List.map_append, List.map_append, List.map_append, List.map_append, hwarnings,
    List.map_flatMap, List.map_flatMap, List.map_filterMap, List.map_filterMap, hmissing]
  exact congrArg _ hcycles

end Counterparts

/-- **Both kinds of line endings mean the same.**  Where a source without carriage returns gets one
in front of each line feed, the blocks keep their names, and their bodies change by these returns
only; a block starts later by one byte for each line in front of it.  Variables, expansions and
their errors are the same byte for byte, and lint finds the same. -/
theorem parse_withReturns (fileId : Nat) (hreturn : '\r' ∉ source) :
    let book := parse source fileId
    let other := parse (Text.withReturns source) fileId
    other.blocks.map Block.name = book.blocks.map Block.name ∧
      other.blocks.map Block.body = book.blocks.map (fun b => Text.withReturns b.body) ∧
      other.blocks.map Block.start =
        book.blocks.map (fun b => b.start + Text.lineOf source b.start) ∧
      other.declared = book.declared ∧
      (∀ name, other.expandBlock name = book.expandBlock name) ∧
      other.lint.map Diagnostic.finding = book.lint.map Diagnostic.finding := by
  intro book other
  have h : Counterparts source book other := counterparts_scan hreturn
  exact ⟨map_eq_map h fun _ _ hb => hb.name, map_eq_map h fun _ _ hb => hb.body,
    map_eq_map h fun _ _ hb => hb.start, declared_of_counterparts h, expandBlock_of_counterparts h,
    finding_lint h⟩

/-- Duplicate names, a body of white space, a directive without a name, a cycle, a missing block,
and a header line at the end of the source. -/
theorem parse_withReturns_of_findings :
    let source : Text := "x\n### a\n\t\n \n### b\n#include a\n### $VARIABLES\nX = 1\n\n" ++
      "### a\n#include a\n#include \nls\n#include d\n### e"
    let other := parse (Text.withReturns source) 0
    '\r' ∉ source ∧ other.declared = .ofList [("X", "1")] ∧
      other.expandBlock "b" = .error (.cyclicInclude "a") ∧
        other.lint.map (fun d => (d.severity, String.ofList d.message)) =
          [(.warning, "block `a` is shadowed by a later block"),
            (.error, "included block does not exist: d"),
            (.error, "recursive #include detected for block: a"),
            (.error, "recursive #include detected for block: a")] := by
  intro source other
  have hreturn : '\r' ∉ source := by decide
  obtain ⟨-, -, -, hdeclared, hexpand, hlint⟩ := parse_withReturns 0 hreturn
  have hshown := congrArg (List.map fun d => (d.1, String.ofList d.2)) hlint
  rw [List.map_map, List.map_map] at hshown
  exact ⟨hreturn, hdeclared.trans (by decide), (hexpand "b").trans (by decide),
    hshown.trans (by decide)⟩

end Book

end Runbook
