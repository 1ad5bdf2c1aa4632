import Runbook.Include
import Runbook.Proofs.Text.Lines

/-!
# Include lines read in two ways

Expansion looks for directives in the lines of a body, lint in its chomped pieces.  What the two see
of a line differs in carriage returns at its end.

* A directive with a name does not mind: the name is trimmed anyway (`target?_chomp`).
* Behind the word alone, or the word and one blank, carriage returns make a directive without a
  name, and chomping makes it plain text again: a `HiddenDirective`.  Any other line without a line
  feed that has an empty name keeps it when it is chomped (`hiddenDirective_of_target?_chomp_ne`).
-/

namespace Runbook.Include

variable {line name : Text}

/-! ## What a directive looks like -/

theorem target?_append {blanks rest : Text} (hblanks : ∀ b ∈ blanks, isBlank b)
    (hrest : ∀ c ∈ rest.head?, ¬ isBlank c) :
    target? ("#include" ++ (blanks ++ rest)) =
      if blanks = [] then none
      else if rest = [] then
        if 2 ≤ blanks.length ∧ blanks.getLast? ≠ some '\n' then some [] else none
      else if '\n' ∈ rest then none
      else some (Text.trimEnd rest) := by
  have htake : rest.takeWhile isBlank = [] := by
    cases rest with
    | nil => rfl
    | cons c rest => exact List.takeWhile_cons_of_neg (hrest c rfl)
  have hdrop : rest.dropWhile isBlank = rest := by
    cases rest with
    | nil => rfl
    | cons c rest => exact List.dropWhile_cons_of_neg (hrest c rfl)
  rw [target?, Text.dropFront?_eq_some_iff.mpr rfl]
  simp only [List.takeWhile_append_of_pos hblanks, List.dropWhile_append_of_pos hblanks, htake,
    hdrop, List.append_nil]

/-- A line that is a directive is the word, white space, and what follows. -/
theorem exists_of_target?_eq_some (h : target? line = some name) :
    ∃ blanks rest, line = "#include" ++ (blanks ++ rest) ∧ (∀ b ∈ blanks, isBlank b) ∧
      ∀ c ∈ rest.head?, ¬ isBlank c := by
  unfold target? at h
  cases hfront : Text.dropFront? "#include" line with
  | none => rw [hfront] at h; cases h
  | some behind =>
      refine ⟨behind.takeWhile isBlank, behind.dropWhile isBlank, ?_,
        fun b hb => List.mem_takeWhile_imp hb, fun c hc => ?_⟩
      · rw [List.takeWhile_append_dropWhile]
        exact Text.dropFront?_eq_some_iff.mp hfront
      · have := List.head?_dropWhile_not isBlank behind
        rw [Option.mem_def.mp hc] at this
        simpa using this

/-! ## Carriage returns at the end -/

theorem isBlank_of_isLineEnd {c : Char} (h : (c = '\n' || c = '\r') = true) : isBlank c = true := by
  rcases Bool.or_eq_true_iff.mp h with h | h <;> rw [of_decide_eq_true h] <;> rfl

/-- A directive with a name has that name also when the line is chomped. -/
theorem target?_chomp (hname : name ≠ []) (h : target? line = some name) :
    target? (Text.chomp line) = some name := by
  obtain ⟨blanks, rest, rfl, hblanks, hrest⟩ := exists_of_target?_eq_some h
  rw [target?_append hblanks hrest] at h
  cases rest with
  | nil => grind
  | cons c rest =>
      have hc : ¬ isBlank c := hrest c rfl
      have hkept : ¬ (c = '\n' || c = '\r') = true := fun hend => hc (isBlank_of_isLineEnd hend)
      -- chomping stops in the name, at the latest at its first character
      have hchomp : Text.chomp (("#include" : Text) ++ (blanks ++ c :: rest)) =
          "#include" ++ (blanks ++ c :: Text.chomp rest) := by
        rw [← List.append_assoc, Text.chomp, Text.dropEndWhile_append_cons hkept, List.append_assoc]
        rfl
      have htrim : Text.trimEnd (c :: Text.chomp rest) = Text.trimEnd (c :: rest) := by
        rw [← List.nil_append (c :: Text.chomp rest), Text.chomp,
          ← Text.dropEndWhile_append_cons hkept]
        exact Text.dropEndWhile_dropEndWhile fun _ => isBlank_of_isLineEnd
      have hfeed : '\n' ∉ c :: rest := by grind
      have hfeed' : '\n' ∉ c :: Text.chomp rest := fun hmem =>
        hfeed (List.mem_cons.mpr ((List.mem_cons.mp hmem).imp_right Text.mem_of_mem_dropEndWhile))
      rw [hchomp, target?_append hblanks (by simpa using hc), htrim]
      grind

/-- White space behind a directive leaves it as it is. -/
theorem target?_append_of_isBlank {ending : Text} (hending : ∀ c ∈ ending, isBlank c)
    (hfeed : '\n' ∉ ending)
    (h : target? line = some name) : target? (line ++ ending) = some name := by
  obtain ⟨blanks, rest, rfl, hblanks, hrest⟩ := exists_of_target?_eq_some h
  rw [target?_append hblanks hrest] at h
  rw [List.append_assoc, List.append_assoc]
  cases rest with
  | nil =>
      -- the whole of the line behind the word is white space, and the more of it the better
      have hall : ∀ b ∈ blanks ++ ending, isBlank b := by
        intro b hb
        rcases List.mem_append.mp hb with hb | hb
        · exact hblanks b hb
        · exact hending b hb
      obtain ⟨hlength, hblank, rfl⟩ :
          2 ≤ blanks.length ∧ blanks.getLast? ≠ some '\n' ∧ name = [] := by
        grind
      have hlast : (blanks ++ ending).getLast? ≠ some '\n' := by
        rw [List.getLast?_append]
        cases hend : ending.getLast? with
        | none => exact hblank
        | some c =>
            rintro ⟨⟩
            exact hfeed (List.mem_of_getLast? hend)
      have hlonger : 2 ≤ (blanks ++ ending).length := by
        rw [List.length_append]
        omega
      have hne : blanks ++ ending ≠ [] := List.ne_nil_of_length_pos (by omega)
      rw [List.nil_append, ← List.append_nil (blanks ++ ending), target?_append hall (by simp),
        if_neg hne, if_pos rfl, if_pos ⟨hlonger, hlast⟩]
  | cons c rest =>
      have htrim : Text.trimEnd (c :: rest ++ ending) = Text.trimEnd (c :: rest) :=
        Text.dropEndWhile_append_of_all hending
      rw [target?_append hblanks (by simpa using hrest), htrim]
      grind

/-- A chomped line that is a directive was one before, of the same name. -/
theorem target?_of_target?_chomp (hfeed : '\n' ∉ line) (h : target? (Text.chomp line) = some name) :
    target? line = some name := by
  obtain ⟨ending, hline, hends⟩ := Text.exists_chomped line
  rw [hline] at hfeed ⊢
  refine target?_append_of_isBlank ?_ (fun hmem => hfeed (List.mem_append_right _ hmem)) h
  intro c hc
  rcases hends c hc with rfl | rfl <;> rfl

/-- A line that has lost its carriage return is a directive only if it was one before. -/
theorem target?_of_target?_dropReturn (h : target? (Text.dropReturn line) = some name) :
    target? line = some name := by
  rcases Text.dropReturn_eq_or line with hkept | hdropped
  · rwa [hkept] at h
  · rw [hdropped]
    exact target?_append_of_isBlank (List.forall_mem_singleton.mpr rfl) (by decide) h

/-- A line that is a directive without a name, but plain text once it is chomped: the word, at most
one blank, and carriage returns. -/
def HiddenDirective (line : Text) : Prop :=
  ∃ front returns, line = "#include" ++ (front ++ List.replicate returns '\r') ∧
    (∀ c ∈ front, isBlank c) ∧ front.length ≤ 1 ∧ 2 ≤ front.length + returns

/-- A hidden directive includes the empty name. -/
theorem target?_of_hiddenDirective (h : HiddenDirective line) : target? line = some [] := by
  obtain ⟨front, returns, rfl, hfront, hlength, hreturns⟩ := h
  have hblanks : ∀ b ∈ front ++ List.replicate returns '\r', isBlank b := by
    intro b hb
    rcases List.mem_append.mp hb with hb | hb
    · exact hfront b hb
    · rw [List.eq_of_mem_replicate hb]
      rfl
  obtain ⟨others, rfl⟩ : ∃ n, returns = n + 1 := ⟨returns - 1, by omega⟩
  rw [← List.append_nil (front ++ _), target?_append hblanks (by simp), if_neg (by simp),
    if_pos rfl, if_pos]
  refine ⟨by simpa using hreturns, ?_⟩
  rw [List.replicate_succ', ← List.append_assoc, List.getLast?_concat]
  decide

theorem chomp_include (blanks : Text) :
    Text.chomp (("#include" : Text) ++ blanks) = "#include" ++ Text.chomp blanks :=
  Text.dropEndWhile_append_cons (s := "#includ") (c := 'e') (by decide)

/-- A line without a line feed that includes the empty name, and does not do so once it is chomped,
is a hidden directive. -/
theorem hiddenDirective_of_target?_chomp_ne (hfeed : '\n' ∉ line) (h : target? line = some [])
    (hchomp : target? (Text.chomp line) ≠ some []) : HiddenDirective line := by
  obtain ⟨blanks, rest, rfl, hblanks, hrest⟩ := exists_of_target?_eq_some h
  rw [target?_append hblanks hrest] at h
  cases rest with
  | cons c rest =>
      have htrim : Text.trimEnd (c :: rest) = [] := by grind
      exact absurd (Text.dropEndWhile_eq_nil_iff.mp htrim c List.mem_cons_self) (hrest c rfl)
  | nil =>
      rw [List.append_nil] at hfeed hchomp ⊢
      have hlength : 2 ≤ blanks.length := by grind
      obtain ⟨ending, hending, hends⟩ := Text.exists_chomped blanks
      have hreturns : ∀ c ∈ ending, c = '\r' := by
        intro c hc
        have hmem : c ∈ blanks := by
          rw [hending]
          exact List.mem_append_right _ hc
        have hne : c ≠ '\n' := fun heq => hfeed (List.mem_append_right _ (heq ▸ hmem))
        exact (hends c hc).resolve_left hne
      have hfront : ∀ b ∈ Text.chomp blanks, isBlank b := fun b hb =>
        hblanks b (Text.mem_of_mem_dropEndWhile hb)
      refine ⟨Text.chomp blanks, ending.length, ?_, hfront, ?_, ?_⟩
      · rw [← List.eq_replicate_of_mem hreturns, ← hending]
      · rw [chomp_include, ← List.append_nil (Text.chomp blanks),
          target?_append hfront (by simp)] at hchomp
        have hlast : (Text.chomp blanks).getLast? ≠ some '\n' := fun hlast =>
          Text.not_of_getLast?_dropEndWhile hlast (by decide)
        grind
      · rw [← List.length_append, ← hending]
        exact hlength

end Runbook.Include
