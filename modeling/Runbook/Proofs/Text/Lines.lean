import Runbook.Proofs.Text.Ends

/-!
# Texts line by line

`pieces` and `lines` recurse on characters; proofs about lines want to recurse on lines.  Every text
is empty, or one line without a line feed, or such a line, a line feed and another text
(`lineInduction`), and on each of these `pieces` and `lines` have an equation.
-/

namespace Runbook.Text

variable {line rest s t : Text} {ls : List Text}

/-- A text line by line: nothing, a last line without a line feed, or a line in front of more. -/
theorem lineInduction {motive : Text → Prop} (nil : motive [])
    (last : ∀ line, line ≠ [] → '\n' ∉ line → motive line)
    (feed : ∀ line rest, '\n' ∉ line → motive rest → motive (line ++ '\n' :: rest)) (t : Text) :
    motive t := by
  induction hlength : t.length using Nat.strongRecOn generalizing t with
  | ind n ih =>
      subst hlength
      by_cases hfeed : '\n' ∈ t
      · obtain ⟨line, rest, rfl, hline⟩ := List.eq_append_cons_of_mem hfeed
        exact feed line rest hline (ih rest.length (by simp; omega) rest rfl)
      · cases t with
        | nil => exact nil
        | cons c t => exact last (c :: t) (by simp) hfeed

/-! ## Pieces -/

theorem pieces_cons_of_ne {c : Char} {piece : Text} {others : List Text} (hc : c ≠ '\n')
    (h : pieces t = piece :: others) : pieces (c :: t) = (c :: piece) :: others := by
  rw [pieces, if_neg hc, h]

theorem pieces_of_not_mem (hne : line ≠ []) (h : '\n' ∉ line) : pieces line = [line] := by
  induction line with
  | nil => exact absurd rfl hne
  | cons c line ih =>
      rw [List.mem_cons, not_or] at h
      cases line with
      | nil => rw [pieces, if_neg (Ne.symm h.1), pieces]
      | cons d line => exact pieces_cons_of_ne (Ne.symm h.1) (ih (by simp) h.2)

theorem pieces_append_feed (h : '\n' ∉ line) :
    pieces (line ++ '\n' :: rest) = (line ++ ['\n']) :: pieces rest := by
  induction line with
  | nil => rw [List.nil_append, pieces, if_pos rfl, List.nil_append]
  | cons c line ih =>
      rw [List.mem_cons, not_or] at h
      exact pieces_cons_of_ne (Ne.symm h.1) (ih h.2)

/-- Behind a line feed a text can be cut, and so can its pieces. -/
theorem pieces_append (h : s = [] ∨ s.getLast? = some '\n') (t : Text) :
    pieces (s ++ t) = pieces s ++ pieces t := by
  induction s using lineInduction with
  | nil => rfl
  | last line hne hline =>
      rcases h with rfl | hlast
      · exact absurd rfl hne
      · exact absurd (List.mem_of_getLast? hlast) hline
  | feed line rest hline ih =>
      have hrest : rest = [] ∨ rest.getLast? = some '\n' := by
        cases rest with
        | nil => exact .inl rfl
        | cons c rest => exact .inr (by simpa using h)
      rw [List.append_assoc, List.cons_append, pieces_append_feed hline, ih hrest,
        pieces_append_feed hline, List.cons_append]

/-! ## Lines -/

/-- A line without the carriage return that is part of its ending. -/
def dropReturn (line : Text) : Text := (dropBack? ['\r'] line).getD line

theorem dropLineEnd_of_not_mem (h : '\n' ∉ line) : dropLineEnd line = line := by
  have hnone : dropBack? ['\n'] line = none := by
    rw [Option.eq_none_iff_forall_ne_some]
    intro front hfront
    rw [dropBack?_eq_some_iff.mp hfront] at h
    simp at h
  rw [dropLineEnd, hnone]

theorem dropLineEnd_append_feed (line : Text) : dropLineEnd (line ++ ['\n']) = dropReturn line := by
  rw [dropLineEnd, dropBack?_eq_some_iff.mpr rfl]
  rfl

@[simp] theorem dropReturn_append_return (line : Text) : dropReturn (line ++ ['\r']) = line := by
  rw [dropReturn, dropBack?_eq_some_iff.mpr rfl, Option.getD_some]

/-- A line has lost its carriage return, or has none to lose. -/
theorem dropReturn_eq_or (line : Text) :
    dropReturn line = line ∨ line = dropReturn line ++ ['\r'] := by
  unfold dropReturn
  cases hreturn : dropBack? ['\r'] line with
  | none => exact .inl rfl
  | some front => exact .inr (dropBack?_eq_some_iff.mp hreturn)

theorem dropReturn_eq_self (h : line.getLast? ≠ some '\r') : dropReturn line = line := by
  refine (dropReturn_eq_or line).resolve_right fun hreturn => h ?_
  rw [hreturn, List.getLast?_concat]

@[simp] theorem lines_nil : lines [] = [] := rfl

theorem lines_of_not_mem (hne : line ≠ []) (h : '\n' ∉ line) : lines line = [line] := by
  rw [lines, pieces_of_not_mem hne h, List.map_singleton, dropLineEnd_of_not_mem h]

theorem lines_append_feed (h : '\n' ∉ line) :
    lines (line ++ '\n' :: rest) = dropReturn line :: lines rest := by
  rw [lines, pieces_append_feed h, List.map_cons, dropLineEnd_append_feed, lines]

/-- Behind a line feed a text can be cut, and so can its lines. -/
theorem lines_append (h : s = [] ∨ s.getLast? = some '\n') (t : Text) :
    lines (s ++ t) = lines s ++ lines t := by
  rw [lines, pieces_append h, List.map_append, lines, lines]

theorem mem_of_mem_dropReturn {c : Char} (h : c ∈ dropReturn line) : c ∈ line := by
  rcases dropReturn_eq_or line with heq | heq
  · exact heq ▸ h
  · rw [heq]
    exact List.mem_append_left _ h

/-- A line holds no line feed. -/
theorem not_mem_of_mem_lines (h : line ∈ lines t) : '\n' ∉ line := by
  induction t using lineInduction with
  | nil => simp at h
  | last other hne hother =>
      rw [lines_of_not_mem hne hother, List.mem_singleton] at h
      exact h ▸ hother
  | feed other rest hother ih =>
      rw [lines_append_feed hother] at h
      rcases List.mem_cons.mp h with rfl | h
      · exact fun hfeed => hother (mem_of_mem_dropReturn hfeed)
      · exact ih h

theorem not_mem_chomp {piece : Text} (h : piece ∈ pieces t) : '\n' ∉ chomp piece := by
  intro hfeed
  rw [← chomp_dropLineEnd] at hfeed
  have hline : dropLineEnd piece ∈ lines t := List.mem_map_of_mem h
  exact not_mem_of_mem_lines hline (mem_of_mem_dropEndWhile hfeed)

/-! ## Lines that were written -/

@[simp] theorem unlines_nil : unlines [] = [] := rfl

theorem unlines_cons (line : Text) (ls : List Text) :
    unlines (line :: ls) = line ++ '\n' :: unlines ls := by
  simp [unlines]

theorem unlines_concat (ls : List Text) (last : Text) :
    unlines (ls ++ [last]) = unlines ls ++ last ++ ['\n'] := by
  simp [unlines]

theorem pieces_unlines (h : ∀ line ∈ ls, '\n' ∉ line) :
    pieces (unlines ls) = ls.map (· ++ ['\n']) := by
  induction ls with
  | nil => rfl
  | cons line ls ih =>
      rw [List.forall_mem_cons] at h
      rw [unlines_cons, pieces_append_feed h.1, ih h.2, List.map_cons]

/-- Written lines read back, except for carriage returns at their ends. The last one needs no line
feed. -/
theorem lines_unlines_append {last : Text}
    (h : ∀ line ∈ ls, '\n' ∉ line ∧ line.getLast? ≠ some '\r')
    (hne : last ≠ []) (hlast : '\n' ∉ last) : lines (unlines ls ++ last) = ls ++ [last] := by
  induction ls with
  | nil => exact lines_of_not_mem hne hlast
  | cons line ls ih =>
      rw [List.forall_mem_cons] at h
      have hline : dropReturn line = line := dropReturn_eq_self h.1.2
      rw [unlines_cons, List.append_assoc, List.cons_append, lines_append_feed h.1.1, ih h.2, hline,
        List.cons_append]

end Runbook.Text
