import Runbook.Lint
import Runbook.Proofs.Book.Shadowing
import Runbook.Proofs.Include.Directive

/-!
# What lint finds

A finding is known by its severity and its words: a warning, an include line that names no block
(`SaysMissing`), or an expansion that comes back to a block (`SaysCycle`).  Each kind comes from one
part of lint, and from a finding one can read off where it comes from:

* an include line that names no block, as lint reads it, from a chomped piece of the body of an
  executable block (`saysMissing_iff`);
* a cycle from the expansion of a live block, at whose header line it stands (`saysCycle_iff`), and
  which is the only block that has this header line (`saysCycle_at_header_iff`).
-/

namespace Runbook

namespace Diagnostic

/-- The finding says that no block has the name on an include line. -/
def SaysMissing (d : Diagnostic) (target : Text) : Prop :=
  d.severity = .error ∧ d.message = "included block does not exist: " ++ target

/-- The finding says that an expansion comes back to a block. -/
def SaysCycle (d : Diagnostic) (revisited : Text) : Prop :=
  d.severity = .error ∧ d.message = "recursive #include detected for block: " ++ revisited

variable {d : Diagnostic} {target revisited : Text}

instance : Decidable (d.SaysMissing target) := inferInstanceAs (Decidable (_ ∧ _))

instance : Decidable (d.SaysCycle revisited) := inferInstanceAs (Decidable (_ ∧ _))

theorem not_saysMissing_of_saysCycle (h : d.SaysCycle revisited) : ¬ d.SaysMissing target := by
  intro hmissing
  have hwords := h.2.symm.trans hmissing.2
  simp at hwords

theorem not_isWarning_of_saysMissing (h : d.SaysMissing target) : ¬ d.isWarning := by
  simp [isWarning, h.1]

theorem not_isWarning_of_saysCycle (h : d.SaysCycle revisited) : ¬ d.isWarning := by
  simp [isWarning, h.1]

end Diagnostic

namespace Block

variable {source : Text} {b c : Block}

theorem header_start_of_mem_scan (h : b ∈ scan source) : b.header.start = b.start := by
  obtain ⟨s, -, offset, rfl⟩ := exists_section_of_mem_ofSections h
  rfl

theorem eq_of_start_eq (hb : b ∈ scan source) (hc : c ∈ scan source) (h : b.start = c.start) :
    b = c := by
  have hnodup : ((scan source).map Block.start).Nodup :=
    List.pairwise_map.mpr ((pairwise_start_scan source).imp Nat.ne_of_lt)
  exact List.inj_on_of_nodup_map hnodup hb hc h

end Block

namespace Book

open Include

variable {book : Book} {block : Block} {d : Diagnostic} {source target revisited : Text}
  {fileId : Nat}

theorem mem_lint_iff :
    d ∈ book.lint ↔
      d ∈ book.warnings ∨ (∃ block ∈ book.executableBlocks, d ∈ book.missingIncludes block) ∨
        ∃ block ∈ book.executableBlocks, book.includeCycle? block = some d := by
  simp only [lint, List.mem_append, List.mem_flatMap, List.mem_filterMap, or_assoc]

/-! ## Warnings -/

theorem mem_warningsBehind {earlier blocks : List Block}
    (h : d ∈ warningsBehind fileId earlier blocks) :
    d.severity = .warning ∧ ∃ b, (b ∈ earlier ∨ b ∈ blocks) ∧ d.span = b.header := by
  induction blocks generalizing earlier with
  | nil => cases h
  | cons block rest ih =>
      rw [warningsBehind, List.mem_append, Option.mem_toList] at h
      rcases h with h | h
      · unfold warningAt? at h
        split at h
        · split at h
          · cases h
            exact ⟨rfl, block, .inr List.mem_cons_self, rfl⟩
          · cases h
        · obtain ⟨first, hfirst, rfl⟩ := Option.map_eq_some_iff.mp h
          exact ⟨rfl, first, .inl (List.mem_of_find?_eq_some hfirst), rfl⟩
      · obtain ⟨hseverity, b, hb, hspan⟩ := ih h
        refine ⟨hseverity, b, ?_, hspan⟩
        rcases hb with hb | hb
        · rcases List.mem_cons.mp hb with rfl | hb
          · exact .inr List.mem_cons_self
          · exact .inl hb
        · exact .inr (List.mem_cons_of_mem block hb)

theorem mem_warnings (h : d ∈ book.warnings) :
    d.severity = .warning ∧ ∃ b ∈ book.blocks, d.span = b.header := by
  obtain ⟨hseverity, b, hb, hspan⟩ := mem_warningsBehind h
  exact ⟨hseverity, b, by simpa using hb, hspan⟩

/-! ## Include lines -/

theorem mem_missingIncludesFrom_cons {offset : Nat} {first : Text} {rest : List Text} :
    d ∈ book.missingIncludesFrom block offset (first :: rest) ↔
      (∃ target, target? (Text.chomp first) = some target ∧ book.blockMap.get? target = none ∧
        d = missingInclude block target
          ⟨offset, offset + Text.byteLength (Text.chomp first)⟩ book.fileId) ∨
      d ∈ book.missingIncludesFrom block (offset + Text.byteLength first) rest := by
  rw [missingIncludesFrom, List.mem_append]
  apply or_congr_left
  cases htarget : target? (Text.chomp first) with
  | none => simp
  | some target =>
      cases hbody : book.blockMap.get? target with
      | none => simp [Table.contains, hbody]
      | some body => simp [Table.contains, hbody]

/-- Each finding about an include line stands at the chomped piece that it was read from. -/
theorem mem_missingIncludesFrom_iff {offset : Nat} {pieces : List Text} :
    d ∈ book.missingIncludesFrom block offset pieces ↔
      ∃ front piece back target, pieces = front ++ piece :: back ∧
        target? (Text.chomp piece) = some target ∧ book.blockMap.get? target = none ∧
        d = missingInclude block target
          ⟨offset + Text.byteLength front.flatten,
            offset + Text.byteLength front.flatten + Text.byteLength (Text.chomp piece)⟩
          book.fileId := by
  induction pieces generalizing offset with
  | nil => simp [missingIncludesFrom]
  | cons first rest ih =>
      have hoffset (front : List Text) :
          offset + Text.byteLength first + Text.byteLength front.flatten =
            offset + Text.byteLength (first :: front).flatten := by
        rw [List.flatten_cons, Text.byteLength_append, Nat.add_assoc]
      rw [mem_missingIncludesFrom_cons, ih]
      constructor
      · rintro (⟨target, htarget, hmissing, hd⟩ |
          ⟨front, piece, back, target, hrest, htarget, hmissing, hd⟩)
        · exact ⟨[], first, rest, target, rfl, htarget, hmissing, hd⟩
        · rw [hoffset] at hd
          exact ⟨first :: front, piece, back, target, by rw [hrest, List.cons_append], htarget,
            hmissing, hd⟩
      · rintro ⟨front, piece, back, target, hpieces, htarget, hmissing, hd⟩
        cases front with
        | nil =>
            obtain ⟨rfl, rfl⟩ := List.cons.inj hpieces
            exact .inl ⟨target, htarget, hmissing, hd⟩
        | cons other front =>
            obtain ⟨rfl, rfl⟩ := List.cons.inj hpieces
            rw [← hoffset] at hd
            exact .inr ⟨front, piece, back, target, rfl, htarget, hmissing, hd⟩

/-- The block has an include line, as lint reads it, for a block that does not exist. -/
def NamesMissing (book : Book) (block : Block) : Prop :=
  ∃ line ∈ Text.lines block.body, ∃ target, target? (Text.chomp line) = some target ∧
    book.blockMap.get? target = none

/-- The note of a finding about an include line. -/
def cannotBeExpanded (name : Text) : Text := "`" ++ name ++ "` cannot be expanded"

theorem saysMissing_of_mem_missingIncludes (h : d ∈ book.missingIncludes block) :
    ∃ target, d.SaysMissing target := by
  obtain ⟨front, piece, back, target, -, -, -, rfl⟩ := mem_missingIncludesFrom_iff.mp h
  exact ⟨target, rfl, rfl⟩

/-! ## Cycles -/

theorem includeCycle?_eq_some_iff :
    book.includeCycle? block = some d ↔
      book.isLive block ∧
      ∃ revisited, book.expandBlock block.name = .error (.cyclicInclude revisited) ∧
        d = includeCycle block revisited book.fileId := by
  unfold includeCycle?
  by_cases hlive : book.isLive block
  · rw [if_pos hlive]
    rcases book.expandBlock block.name with (missing | revisited) | text <;> simp [hlive, eq_comm]
  · simp [hlive]

theorem saysCycle_of_includeCycle? (h : book.includeCycle? block = some d) :
    ∃ revisited, d.SaysCycle revisited := by
  obtain ⟨-, revisited, -, rfl⟩ := includeCycle?_eq_some_iff.mp h
  exact ⟨revisited, rfl, rfl⟩

theorem isLive_iff (h : block ∈ (parse source fileId).executableBlocks) :
    (parse source fileId).isLive block ↔ (parse source fileId).get? block.name = some block := by
  obtain ⟨live, hlive⟩ := exists_get?_of_mem h
  have hmem : ∀ {b}, b ∈ (parse source fileId).executableBlocks → b ∈ Block.scan source :=
    fun hb => (List.mem_filter.mp hb).1
  rw [isLive, hlive]
  simp only [Option.map_some, Option.some.injEq, decide_eq_true_eq]
  constructor
  · intro hstart
    exact Block.eq_of_start_eq (hmem (mem_of_get?_eq_some hlive)) (hmem h) hstart
  · rintro rfl
    rfl

/-! ## Kinds of findings -/

theorem kind_of_mem_lint (h : d ∈ book.lint) :
    d.isWarning ∨ (∃ target, d.SaysMissing target) ∨ ∃ revisited, d.SaysCycle revisited := by
  rcases mem_lint_iff.mp h with hwarning | ⟨block, -, hmissing⟩ | ⟨block, -, hcycle⟩
  · exact .inl (decide_eq_true (mem_warnings hwarning).1)
  · exact .inr (.inl (saysMissing_of_mem_missingIncludes hmissing))
  · exact .inr (.inr (saysCycle_of_includeCycle? hcycle))

/-- The findings about include lines are those of the executable blocks, the ones that are not live
among them. -/
theorem saysMissing_iff :
    d ∈ book.lint ∧ d.SaysMissing target ↔
      ∃ block ∈ book.executableBlocks, ∃ front piece back,
        Text.pieces block.body = front ++ piece :: back ∧
        target? (Text.chomp piece) = some target ∧ book.blockMap.get? target = none ∧
        d = missingInclude block target
          ⟨block.bodySpan.start + Text.byteLength front.flatten,
            block.bodySpan.start + Text.byteLength front.flatten + Text.byteLength
              (Text.chomp piece)⟩
          book.fileId := by
  rw [mem_lint_iff]
  constructor
  · rintro ⟨hwarning | ⟨block, hblock, hmissing⟩ | ⟨block, -, hcycle⟩, hwords⟩
    · have hseverity := hwords.1.symm.trans (mem_warnings hwarning).1
      cases hseverity
    · obtain ⟨front, piece, back, other, hpieces, htarget, hnone, rfl⟩ :=
        mem_missingIncludesFrom_iff.mp hmissing
      obtain rfl : other = target := List.append_cancel_left hwords.2
      exact ⟨block, hblock, front, piece, back, hpieces, htarget, hnone, rfl⟩
    · obtain ⟨revisited, hrevisited⟩ := saysCycle_of_includeCycle? hcycle
      exact absurd hwords (Diagnostic.not_saysMissing_of_saysCycle hrevisited)
  · rintro ⟨block, hblock, front, piece, back, hpieces, htarget, hnone, rfl⟩
    refine ⟨.inr (.inl ⟨block, hblock, ?_⟩), rfl, rfl⟩
    exact mem_missingIncludesFrom_iff.mpr ⟨front, piece, back, target, hpieces, htarget, hnone, rfl⟩

/-- The note of a finding about an include line gives the name of the block that the line stands
in. -/
theorem exists_namesMissing_of_saysMissing (hd : d ∈ book.lint) (hwords : d.SaysMissing target) :
    ∃ block ∈ book.executableBlocks, d.notes = [cannotBeExpanded block.name] ∧
    book.NamesMissing block := by
  obtain ⟨block, hblock, front, piece, back, hpieces, htarget, hnone, rfl⟩ :=
    saysMissing_iff.mp ⟨hd, hwords⟩
  have hpiece : piece ∈ Text.pieces block.body := by simp [hpieces]
  refine ⟨block, hblock, rfl, Text.dropLineEnd piece, List.mem_map_of_mem hpiece, target, ?_, hnone⟩
  rwa [Text.chomp_dropLineEnd]

/-- A block cannot be expanded according to a note exactly if a block of its name has an include
line for a block that does not exist. -/
theorem exists_saysMissing_iff {name : Text} :
    (∃ d ∈ book.lint, (∃ target, d.SaysMissing target) ∧ cannotBeExpanded name ∈ d.notes) ↔
      ∃ block ∈ book.executableBlocks, block.name = name ∧ book.NamesMissing block := by
  constructor
  · rintro ⟨d, hd, ⟨target, hwords⟩, hnote⟩
    obtain ⟨block, hblock, hnotes, hnames⟩ := exists_namesMissing_of_saysMissing hd hwords
    rw [hnotes, List.mem_singleton] at hnote
    have hname : name = block.name := List.append_cancel_left (List.append_cancel_right hnote)
    exact ⟨block, hblock, hname.symm, hnames⟩
  · rintro ⟨block, hblock, rfl, line, hline, target, htarget, hnone⟩
    obtain ⟨piece, hpiece, rfl⟩ := List.mem_map.mp hline
    rw [Text.chomp_dropLineEnd] at htarget
    obtain ⟨front, back, hpieces⟩ := List.append_of_mem hpiece
    obtain ⟨hd, hwords⟩ :=
      saysMissing_iff.mpr ⟨block, hblock, front, piece, back, hpieces, htarget, hnone, rfl⟩
    exact ⟨_, hd, ⟨target, hwords⟩, List.mem_singleton_self _⟩

/-- The findings about cycles are those of the live blocks whose expansion comes back to an open
block. -/
theorem saysCycle_iff :
    d ∈ (parse source fileId).lint ∧ d.SaysCycle revisited ↔
      ∃ block, (parse source fileId).get? block.name = some block ∧
        (parse source fileId).expandBlock block.name = .error (.cyclicInclude revisited) ∧
        d = includeCycle block revisited fileId := by
  rw [mem_lint_iff]
  constructor
  · rintro ⟨hwarning | ⟨block, -, hmissing⟩ | ⟨block, hblock, hcycle⟩, hwords⟩
    · have hseverity := hwords.1.symm.trans (mem_warnings hwarning).1
      cases hseverity
    · obtain ⟨target, htarget⟩ := saysMissing_of_mem_missingIncludes hmissing
      exact absurd htarget (Diagnostic.not_saysMissing_of_saysCycle hwords)
    · obtain ⟨hlive, other, hexpand, rfl⟩ := includeCycle?_eq_some_iff.mp hcycle
      obtain rfl : other = revisited := List.append_cancel_left hwords.2
      exact ⟨block, (isLive_iff hblock).mp hlive, hexpand, rfl⟩
  · rintro ⟨block, hlive, hexpand, rfl⟩
    have hblock := mem_of_get?_eq_some hlive
    have hfound :=
      includeCycle?_eq_some_iff.mpr ⟨(isLive_iff hblock).mpr hlive, revisited, hexpand, rfl⟩
    exact ⟨.inr (.inr ⟨block, hblock, hfound⟩), rfl, rfl⟩

/-- A cycle that is reported at the header line of a block is one of this block. -/
theorem saysCycle_at_header_iff (hblock : block ∈ (parse source fileId).blocks) :
    (∃ d ∈ (parse source fileId).lint, d.SaysCycle revisited ∧ d.span = block.header) ↔
      (parse source fileId).get? block.name = some block ∧
        (parse source fileId).expandBlock block.name = .error (.cyclicInclude revisited) := by
  constructor
  · rintro ⟨d, hd, hwords, hspan⟩
    obtain ⟨other, hlive, hexpand, rfl⟩ := saysCycle_iff.mp ⟨hd, hwords⟩
    have hother : other ∈ Block.scan source := (List.mem_filter.mp (mem_of_get?_eq_some hlive)).1
    have hstart : other.start = block.start := by
      rw [← Block.header_start_of_mem_scan hother, ← Block.header_start_of_mem_scan hblock]
      exact congrArg Span.start hspan
    obtain rfl := Block.eq_of_start_eq hother hblock hstart
    exact ⟨hlive, hexpand⟩
  · rintro ⟨hlive, hexpand⟩
    obtain ⟨hd, hwords⟩ := saysCycle_iff.mpr ⟨block, hlive, hexpand, rfl⟩
    exact ⟨_, hd, hwords, rfl⟩

end Book

end Runbook
