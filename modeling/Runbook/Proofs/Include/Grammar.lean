import Runbook.Proofs.Include.Directive

/-!
# The grammar of include lines

An include line is the word, white space, and text that is more than white space; trimmed, this text
is the name (`Directive`).  Where the white space ends and the text begins is left open, since
trimming takes the rest of the white space away.

All such lines are recognised, and so are lines that hold nothing but white space behind the word,
if it is more than one character (`Nameless`).  These include the empty name, which no block has.
-/

namespace Runbook.Include

variable {line name : Text}

/-- The line is the word, white space, and text that is not all white space, and the name is this
text without the white space around it. -/
def Directive (line name : Text) : Prop :=
  ∃ blanks rest, line = "#include" ++ (blanks ++ rest) ∧ blanks ≠ [] ∧ (∀ b ∈ blanks, isBlank b) ∧
    (∃ c ∈ rest, ¬ isBlank c) ∧ name = Text.trim rest

/-- The line is the word and at least two characters of white space. -/
def Nameless (line : Text) : Prop :=
  ∃ blanks, line = "#include" ++ blanks ∧ (∀ b ∈ blanks, isBlank b) ∧ 2 ≤ blanks.length

theorem Directive.ne_nil (h : Directive line name) : name ≠ [] := by
  obtain ⟨-, rest, -, -, -, ⟨c, hc, hink⟩, rfl⟩ := h
  exact fun hnil => hink (Text.trim_eq_nil_iff.mp hnil c hc)

/-- A line with a name has more than white space behind the word. -/
theorem Directive.not_nameless (h : Directive line name) : ¬ Nameless line := by
  obtain ⟨blanks, rest, rfl, -, -, ⟨c, hc, hink⟩, -⟩ := h
  rintro ⟨all, hline, hall, -⟩
  have hbehind : blanks ++ rest = all := List.append_cancel_left hline
  exact hink (hall c (hbehind ▸ List.mem_append_right blanks hc))

/-! ## What is recognised -/

theorem target?_of_nameless (hfeed : '\n' ∉ line) (h : Nameless line) : target? line = some [] := by
  obtain ⟨blanks, rfl, hblanks, hlength⟩ := h
  have hne : blanks ≠ [] := List.ne_nil_of_length_pos (by omega)
  have hlast : blanks.getLast? ≠ some '\n' := fun hlast =>
    hfeed (List.mem_append_right _ (List.mem_of_getLast? hlast))
  rw [← List.append_nil blanks, target?_append hblanks (by simp), if_neg hne, if_pos rfl,
    if_pos ⟨hlength, hlast⟩]

theorem target?_of_directive (hfeed : '\n' ∉ line) (h : Directive line name) :
    target? line = some name := by
  obtain ⟨blanks, rest, rfl, hne, hblanks, ⟨c, hc, hink⟩, rfl⟩ := h
  obtain ⟨leading, trailing, hrest, -, hleading, -⟩ := Text.exists_trimmed rest
  have hall : ∀ b ∈ blanks ++ leading, isBlank b := fun b hb =>
    (List.mem_append.mp hb).elim (hblanks b) (hleading b)
  -- the name begins where the last white space in front of it ends
  have hcut : ("#include" : Text) ++ (blanks ++ rest) =
      "#include" ++ (blanks ++ leading ++ Text.trimStart rest) := by
    rw [List.append_assoc, ← hrest]
  have hname : Text.trimStart rest ≠ [] := fun hnil =>
    hink (List.dropWhile_eq_nil_iff.mp hnil c hc)
  rw [hcut] at hfeed ⊢
  rw [target?_append hall fun _ => Text.not_isBlank_of_head?_trimStart, if_neg (by simp [hne]),
    if_neg hname, if_neg fun hmem => hfeed (List.mem_append_right _ (List.mem_append_right _ hmem)),
    Text.trim]

theorem directive_or_nameless (h : target? line = some name) :
    Directive line name ∨ Nameless line ∧ name = [] := by
  obtain ⟨blanks, rest, rfl, hblanks, hfirst⟩ := exists_of_target?_eq_some h
  rw [target?_append hblanks hfirst] at h
  cases rest with
  | nil =>
      obtain ⟨hlength, rfl⟩ : 2 ≤ blanks.length ∧ name = [] := by grind
      exact .inr ⟨⟨blanks, by rw [List.append_nil], hblanks, hlength⟩, rfl⟩
  | cons c rest =>
      have hc : ¬ isBlank c := hfirst c rfl
      have htrim : Text.trim (c :: rest) = Text.trimEnd (c :: rest) := by
        rw [Text.trim, Text.trimStart, List.dropWhile_cons_of_neg hc]
      obtain ⟨hne, hname⟩ : blanks ≠ [] ∧ name = Text.trimEnd (c :: rest) := by grind
      exact .inl
        ⟨blanks, c :: rest, rfl, hne, hblanks, ⟨c, List.mem_cons_self, hc⟩, hname.trans htrim.symm⟩

/-- **A line is an include line by the grammar, or it is nameless and includes the empty name.**  So
the grammar says all about a line if and only if the line is not nameless. -/
theorem target?_grammar (hfeed : '\n' ∉ line) :
    (∀ name, target? line = some name ↔ Directive line name ∨ Nameless line ∧ name = []) ∧
    (target? line = some [] ↔ Nameless line) ∧
    ((∀ name, target? line = some name ↔ Directive line name) ↔ ¬ Nameless line) := by
  have hall (name : Text) : target? line = some name ↔
      Directive line name ∨ Nameless line ∧ name = [] := by
    constructor
    · exact directive_or_nameless
    · rintro (hdirective | ⟨hnameless, rfl⟩)
      · exact target?_of_directive hfeed hdirective
      · exact target?_of_nameless hfeed hnameless
  refine ⟨hall, ⟨fun h => ?_, target?_of_nameless hfeed⟩, fun hlaw hnameless => ?_,
    fun hnamed name => ?_⟩
  · exact ((hall []).mp h).elim (fun hdirective => absurd rfl hdirective.ne_nil) And.left
  · exact ((hlaw []).mp (target?_of_nameless hfeed hnameless)).ne_nil rfl
  · rw [hall name]
    simp [hnamed]

/-- White space of several kinds, around a name and in it. -/
theorem target?_grammar_of_spaced_name :
    '\n' ∉ ("#include \t my  block\u00a0\r" : Text) ∧
      Directive "#include \t my  block\u00a0\r" "my  block" ∧
      target? "#include \t my  block\u00a0\r" = some "my  block" ∧
      (target? "#include \t my  block\u00a0\r" = some [] ↔
        Nameless "#include \t my  block\u00a0\r") := by
  have hfeed : '\n' ∉ ("#include \t my  block\u00a0\r" : Text) := by decide
  have hdirective : Directive "#include \t my  block\u00a0\r" "my  block" :=
    ⟨" \t", " my  block\u00a0\r", rfl, by decide, List.all_eq_true.mp rfl,
      ⟨'m', by decide, by decide⟩, by decide⟩
  obtain ⟨hall, hempty, -⟩ := target?_grammar hfeed
  exact ⟨hfeed, hdirective, (hall "my  block").mpr (.inl hdirective), hempty⟩

/-- Two blanks behind the word are read as one blank and a name, of which trimming leaves
nothing. -/
theorem target?_of_two_blanks :
    target? "#include  " = some [] ∧ (¬ ∃ name, Directive "#include  " name) ∧
      target? "#include " = none := by
  have hnameless : Nameless "#include  " := ⟨"  ", rfl, List.all_eq_true.mp rfl, by decide⟩
  exact ⟨by decide, fun ⟨_, hdirective⟩ => hdirective.not_nameless hnameless, by decide⟩

end Runbook.Include
