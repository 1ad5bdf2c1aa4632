import Runbook.Proofs.Text.Places

/-!
# Lines by number

A line has a number, counted from 0.  Where a text is read from the middle on, its lines are the
lines of the whole text, with numbers that are larger by the number of line feeds in front
(`getElem?_lines_append`).  The first one may have more in front of it on its line, which is the
`lastLine` of what is in front; and the last one may go on behind the part that was read
(`exists_getElem?_lines`).

The number of a line also says where it stands: behind all lines with smaller numbers and their line
feeds (`LineAt.getElem?_splitOn`).  So lines at different places have different numbers
(`LineAt.lineOf_lt_lineOf`).
-/

namespace Runbook.Text

variable {line s t front : Text} {i : Nat}

/-! ## From the middle of a text on -/

/-- What stands behind the last line feed. -/
def lastLine (t : Text) : Text := t.rtakeWhile (· ≠ '\n')

theorem not_mem_lastLine (t : Text) : '\n' ∉ lastLine t := by
  intro hfeed
  simpa using List.mem_rtakeWhile_imp hfeed

theorem lastLine_suffix (t : Text) : lastLine t <:+ t := List.rtakeWhile_suffix _ t

/-- Only what follows the last line feed matters. -/
theorem lastLine_append_suffix (s : Text) (h : '\n' ∈ t) : lastLine (s ++ t) <:+ t := by
  rcases List.suffix_or_suffix_of_suffix (lastLine_suffix (s ++ t)) (List.suffix_append s t)
    with hshort | hlong
  · exact hshort
  · exact absurd (hlong.subset h) (not_mem_lastLine _)

/-- In front of the last line there is nothing, or a line feed. -/
theorem exists_eq_append_lastLine (t : Text) :
    ∃ whole, t = whole ++ lastLine t ∧ (whole = [] ∨ whole.getLast? = some '\n') := by
  refine ⟨t.rdropWhile (· ≠ '\n'), List.rdropWhile_append_rtakeWhile.symm, ?_⟩
  by_cases hne : t.rdropWhile (· ≠ '\n') = []
  · exact .inl hne
  · right
    rw [List.getLast?_eq_some_getLast hne]
    simpa using List.rdropWhile_last_not (· ≠ '\n') t hne

/-- A line that ends with a line feed has been counted with it. -/
theorem length_lines (h : t = [] ∨ t.getLast? = some '\n') : (lines t).length = t.count '\n' := by
  induction t using lineInduction with
  | nil => rfl
  | last line hne hline =>
      rcases h with rfl | hlast
      · exact absurd rfl hne
      · exact absurd (List.mem_of_getLast? hlast) hline
  | feed line rest hline ih =>
      have hrest : rest = [] ∨ rest.getLast? = some '\n' := by
        cases rest with
        | nil => exact .inl rfl
        | cons c rest => exact .inr (by simpa using h)
      rw [lines_append_feed hline, List.length_cons, ih hrest, List.count_append,
        List.count_eq_zero_of_not_mem hline, List.count_cons_self, Nat.zero_add]

/-- The lines from the middle of a text on. -/
theorem getElem?_lines_append (s t : Text) (i : Nat) :
    (lines (s ++ t))[s.count '\n' + i]? = (lines (lastLine s ++ t))[i]? := by
  obtain ⟨whole, hs, hwhole⟩ := exists_eq_append_lastLine s
  generalize lastLine s = last, not_mem_lastLine s = hlast at hs ⊢
  have hcount : s.count '\n' = (lines whole).length := by
    rw [length_lines hwhole, hs, List.count_append, List.count_eq_zero_of_not_mem hlast,
      Nat.add_zero]
  rw [hcount, hs, List.append_assoc, lines_append hwhole,
    List.getElem?_append_right (Nat.le_add_right _ _), Nat.add_sub_cancel_left]

/-! ## A line that is cut in two -/

theorem dropReturn_append (s : Text) (ht : t ≠ []) : dropReturn (s ++ t) = s ++ dropReturn t := by
  obtain ⟨init, c, rfl⟩ := (List.eq_nil_or_concat' t).resolve_left ht
  by_cases hc : c = '\r'
  · subst hc
    rw [← List.append_assoc, dropReturn_append_return, dropReturn_append_return]
  · rw [dropReturn_eq_self (by simpa using hc), dropReturn_eq_self (by simpa using hc)]

/-- What stands in front of a text on its first line, changes this line only. -/
theorem lines_append_of_not_mem {others : List Text} (hfront : '\n' ∉ front)
    (hhead : t.head? ≠ some '\n')
    (h : lines t = line :: others) : lines (front ++ t) = (front ++ line) :: others := by
  induction t using lineInduction with
  | nil => cases h
  | last last hne hlast =>
      rw [lines_of_not_mem hne hlast] at h
      obtain ⟨rfl, rfl⟩ := List.cons.inj h
      exact lines_of_not_mem (List.append_ne_nil_of_right_ne_nil front hne)
        (List.not_mem_append hfront hlast)
  | feed first rest hfirst =>
      have hne : first ≠ [] := by
        rintro rfl
        exact hhead rfl
      rw [lines_append_feed hfirst] at h
      obtain ⟨rfl, rfl⟩ := List.cons.inj h
      rw [← List.append_assoc, lines_append_feed (List.not_mem_append hfront hfirst),
        dropReturn_append front hne]

/-- The lines of a text are those of a longer one, except that the last of them may go on. -/
theorem exists_getElem?_lines_append (back : Text) (hlast : t.getLast? ≠ some '\r')
    (h : (lines t)[i]? = some line) :
    ∃ tail, (lines (t ++ back))[i]? = some (line ++ tail) := by
  induction t using lineInduction generalizing i with
  | nil => cases h
  | last last hne hfeed =>
      rw [lines_of_not_mem hne hfeed, List.getElem?_singleton] at h
      obtain ⟨rfl, rfl⟩ : i = 0 ∧ last = line := by simpa using h
      -- this is the line that may go on, up to the first line feed behind it
      by_cases hback : '\n' ∈ back
      · obtain ⟨tail, rest, rfl, htail⟩ := List.eq_append_cons_of_mem hback
        rw [← List.append_assoc, lines_append_feed (List.not_mem_append hfeed htail)]
        by_cases hnil : tail = []
        · refine ⟨[], ?_⟩
          rw [hnil, List.append_nil, dropReturn_eq_self hlast]
          rfl
        · exact ⟨dropReturn tail, by rw [dropReturn_append _ hnil]; rfl⟩
      · refine ⟨back, ?_⟩
        rw [lines_of_not_mem (List.append_ne_nil_of_left_ne_nil hne back)
            (List.not_mem_append hfeed hback)]
        rfl
  | feed first rest hfirst ih =>
      rw [lines_append_feed hfirst] at h
      rw [List.append_assoc, List.cons_append, lines_append_feed hfirst]
      cases i with
      | zero =>
          rw [List.getElem?_cons_zero] at h ⊢
          exact ⟨[], by rw [h, List.append_nil]⟩
      | succ i =>
          have hrest : rest.getLast? ≠ some '\r' := by
            intro hreturn
            refine hlast ?_
            rw [List.getLast?_append, List.getLast?_cons, hreturn]
            rfl
          rw [List.getElem?_cons_succ] at h ⊢
          exact ih hrest h

/-- The lines of a part of a text, in the text: what is in front of the part is in front of its
first line, and what follows the part is behind its last one. -/
theorem exists_getElem?_lines (front back : Text) (hhead : t.head? ≠ some '\n')
    (hlast : t.getLast? ≠ some '\r')
    (h : (lines t)[i]? = some line) :
    ∃ tail, (lines (front ++ (t ++ back)))[front.count '\n' + i]? =
      some ((if i = 0 then lastLine front else []) ++ (line ++ tail)) := by
  obtain ⟨tail, htail⟩ := exists_getElem?_lines_append back hlast h
  refine ⟨tail, ?_⟩
  have hhead' : (t ++ back).head? ≠ some '\n' := by
    cases t with
    | nil => cases h
    | cons c t => exact hhead
  rw [getElem?_lines_append]
  cases hlines : lines (t ++ back) with
  | nil =>
      rw [hlines] at htail
      cases htail
  | cons first others =>
      rw [hlines] at htail
      rw [lines_append_of_not_mem (not_mem_lastLine front) hhead' hlines]
      cases i with
      | zero => simpa using htail
      | succ i => simpa using htail

/-! ## Between line feeds -/

theorem splitOn_of_not_mem (h : '\n' ∉ line) : line.splitOn '\n' = [line] := by
  apply List.splitOnP_eq_singleton
  intro c hc
  simpa using ne_of_mem_of_not_mem hc h

theorem splitOn_append_feed (s t : Text) :
    (s ++ '\n' :: t).splitOn '\n' = s.splitOn '\n' ++ t.splitOn '\n' :=
  List.splitOnP_append_cons s t rfl

/-- There is one more part than there are line feeds between them. -/
theorem length_splitOn (t : Text) : (t.splitOn '\n').length = t.count '\n' + 1 := by
  induction t using lineInduction with
  | nil => rfl
  | last line hne hline =>
    rw [splitOn_of_not_mem hline, List.count_eq_zero_of_not_mem hline, List.length_singleton]
  | feed line rest hline ih =>
      rw [splitOn_append_feed, List.length_append, ih, splitOn_of_not_mem hline, List.count_append,
        List.count_cons_self, List.count_eq_zero_of_not_mem hline, List.length_singleton]
      omega

theorem unlines_splitOn (t : Text) : unlines (t.splitOn '\n') = t ++ ['\n'] := by
  induction t using lineInduction with
  | nil => rfl
  | last line hne hline => rw [splitOn_of_not_mem hline, unlines_cons, unlines_nil]
  | feed line rest hline ih =>
      rw [splitOn_append_feed, splitOn_of_not_mem hline, List.singleton_append, unlines_cons, ih,
        List.append_assoc, List.cons_append]

/-- A line is found by its number, and it stands behind all lines with smaller numbers. -/
theorem LineAt.getElem?_splitOn {offset : Nat} (h : LineAt t offset line) :
    (t.splitOn '\n')[lineOf t offset]? = some line ∧
      byteLength (unlines ((t.splitOn '\n').take (lineOf t offset))) = offset := by
  obtain ⟨before, after, rfl, rfl, hline, hbefore, hafter⟩ := h
  have hfirst : ∃ others, (line ++ after).splitOn '\n' = line :: others := by
    cases after with
    | nil => exact ⟨[], by rw [List.append_nil, splitOn_of_not_mem hline]⟩
    | cons c after =>
        obtain rfl : c = '\n' := hafter c rfl
        exact ⟨after.splitOn '\n',
          by rw [splitOn_append_feed, splitOn_of_not_mem hline, List.singleton_append]⟩
  obtain ⟨others, hfirst⟩ := hfirst
  rw [lineOf_byteLength_append]
  rcases List.eq_nil_or_concat' before with rfl | ⟨init, c, rfl⟩
  · simp [hfirst]
  · obtain rfl : c = '\n' := hbefore c (by simp)
    have hlength : (init ++ ['\n']).count '\n' = (init.splitOn '\n').length := by
      simp [length_splitOn]
    rw [hlength, List.append_assoc, List.singleton_append, splitOn_append_feed, hfirst,
      List.getElem?_append_right (Nat.le_refl _), List.take_left, unlines_splitOn]
    simp

/-- Lines are numbered in the order of their places. -/
theorem LineAt.lineOf_lt_lineOf {later : Text} {offset place : Nat} (h : LineAt t offset line)
    (hlater : LineAt t place later) (hlt : offset < place) : lineOf t offset < lineOf t place := by
  apply lt_of_le_of_ne (lineOf_le_lineOf hlt.le t)
  intro heq
  -- the number of a line determines its place
  have hplace := hlater.getElem?_splitOn.2
  rw [← heq, h.getElem?_splitOn.2] at hplace
  exact hlt.ne hplace

end Runbook.Text
