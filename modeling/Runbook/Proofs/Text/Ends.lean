import Mathlib.Data.List.DropRight
import Runbook.Text.Blank
import Runbook.Text.Lines

/-!
# The ends of texts

Three readers strip the end of a text: `trim` takes white space away, `chomp` every line feed and
carriage return, `dropLineEnd` one line ending.  All of them are `dropEndWhile` in the end, and what
the last two take away is white space, so `trim` does not see whether they were there.

The statements that later modules use are `trim_trim` and `chomp_dropLineEnd`: a line of
`Text.lines` and a chomped piece differ in carriage returns at their end at most.
-/

namespace Runbook.Text

variable {p q : Char → Bool} {s t : Text}

/-! ## Dropping at the end -/

theorem dropEndWhile_eq_rdropWhile (p : Char → Bool) (t : Text) :
    dropEndWhile p t = t.rdropWhile p := rfl

/-- What is dropped anyway may stand behind the text or not. -/
theorem dropEndWhile_append_of_all (h : ∀ c ∈ t, p c) :
    dropEndWhile p (s ++ t) = dropEndWhile p s := by
  unfold dropEndWhile
  rw [List.reverse_append, List.dropWhile_append_of_pos fun c hc => h c (List.mem_reverse.mp hc)]

/-- Dropping does not go beyond a character that is kept. -/
theorem dropEndWhile_append_of_exists (h : ∃ c ∈ t, ¬ p c) :
    dropEndWhile p (s ++ t) = s ++ dropEndWhile p t := by
  obtain ⟨c, hc, hp⟩ := h
  have hne : t.reverse.dropWhile p ≠ [] := by
    rw [Ne, List.dropWhile_eq_nil_iff]
    exact fun hall => hp (hall c (List.mem_reverse.mpr hc))
  unfold dropEndWhile
  rw [List.reverse_append, List.dropWhile_append, if_neg (by simpa using hne),
    List.reverse_append, List.reverse_reverse]

theorem dropEndWhile_dropEndWhile (h : ∀ c, p c → q c) :
    dropEndWhile q (dropEndWhile p t) = dropEndWhile q t := by
  unfold dropEndWhile
  rw [List.reverse_reverse]
  congr 1
  induction t.reverse with
  | nil => rfl
  | cons c r ih =>
      by_cases hp : p c
      · rw [List.dropWhile_cons_of_pos hp, List.dropWhile_cons_of_pos (h c hp), ih]
      · rw [List.dropWhile_cons_of_neg hp]

theorem dropEndWhile_eq_nil_iff : dropEndWhile p t = [] ↔ ∀ c ∈ t, p c :=
  List.rdropWhile_eq_nil_iff

/-- A character that is kept keeps the text in front of it. -/
theorem dropEndWhile_append_cons {c : Char} (h : ¬ p c) :
    dropEndWhile p (s ++ c :: t) = s ++ c :: dropEndWhile p t := by
  by_cases hall : ∀ d ∈ t, p d
  · rw [dropEndWhile_eq_nil_iff.mpr hall, ← List.singleton_append, ← List.append_assoc,
      dropEndWhile_append_of_all hall, dropEndWhile_eq_rdropWhile,
      List.rdropWhile_concat_neg _ _ _ h]
  · rw [List.append_cons, dropEndWhile_append_of_exists (by simpa using hall), ← List.append_cons]

theorem mem_of_mem_dropEndWhile {c : Char} (h : c ∈ dropEndWhile p t) : c ∈ t :=
  (List.rdropWhile_prefix p t).subset h

theorem exists_dropped (p : Char → Bool) (t : Text) :
    ∃ ending, t = dropEndWhile p t ++ ending ∧ ∀ c ∈ ending, p c :=
  ⟨t.rtakeWhile p, List.rdropWhile_append_rtakeWhile.symm, fun _ => List.mem_rtakeWhile_imp⟩

theorem not_of_getLast?_dropEndWhile {c : Char} (h : (dropEndWhile p t).getLast? = some c) :
    ¬ p c := by
  have hne : dropEndWhile p t ≠ [] := by
    intro hnil
    rw [hnil] at h
    cases h
  rw [List.getLast?_eq_some_getLast hne] at h
  cases h
  exact List.rdropWhile_last_not p t hne

/-- Nothing is dropped behind a character that is kept. -/
theorem dropEndWhile_eq_self (h : ∀ c ∈ t.getLast?, ¬ p c) : dropEndWhile p t = t := by
  rw [dropEndWhile_eq_rdropWhile, List.rdropWhile_eq_self_iff]
  exact fun hne => h _ (List.getLast?_eq_some_getLast hne)

/-! ## Cuts at a character -/

/-- Where a character first occurs, a text is cut in one way only. -/
theorem eq_of_append_eq_append {α : Type} {c : α} {s s' t t' : List α} (hs : c ∉ s) (hs' : c ∉ s')
    (ht : ∀ d ∈ t.head?, d = c) (ht' : ∀ d ∈ t'.head?, d = c) (h : s ++ t = s' ++ t') : s = s' := by
  rcases List.append_eq_append_iff.mp h with ⟨more, rfl, rfl⟩ | ⟨more, rfl, rfl⟩
  · cases more with
    | nil => rw [List.append_nil]
    | cons d more => exact absurd (by simp [ht d rfl]) hs'
  · cases more with
    | nil => rw [List.append_nil]
    | cons d more => exact absurd (by simp [ht' d rfl]) hs

/-- Where a character last occurs, too. -/
theorem append_cons_inj {c : Char} {s' t' : Text} (ht : c ∉ t) (ht' : c ∉ t') :
    s ++ c :: t = s' ++ c :: t' ↔ s = s' ∧ t = t' := by
  constructor
  · intro h
    have hreverse : t.reverse ++ c :: s.reverse = t'.reverse ++ c :: s'.reverse := by
      simpa using congrArg List.reverse h
    have hback : t.reverse = t'.reverse :=
      eq_of_append_eq_append (by simpa using ht) (by simpa using ht') (by simp) (by simp) hreverse
    obtain rfl := List.reverse_inj.mp hback
    exact ⟨List.append_cancel_right h, rfl⟩
  · rintro ⟨rfl, rfl⟩
    rfl

/-- A text is split where the character first occurs. -/
theorem splitOnce?_append_cons {c : Char} (h : c ∉ s) (t : Text) :
    splitOnce? [c] (s ++ c :: t) = some (s, t) := by
  induction s with
  | nil => simp [splitOnce?, dropFront?]
  | cons d s ih =>
      rw [List.mem_cons, not_or] at h
      simp [splitOnce?, dropFront?, h.1, ih h.2]

theorem splitOnce?_of_not_mem {c : Char} (h : c ∉ t) : splitOnce? [c] t = none := by
  induction t with
  | nil => rfl
  | cons d t ih =>
      rw [List.mem_cons, not_or] at h
      simp [splitOnce?, dropFront?, h.1, ih h.2]

/-! ## Trimming -/

/-- What `trimEnd` leaves of a text that does not start with white space does not either. -/
theorem trimStart_trimEnd (h : trimStart t = t) : trimStart (trimEnd t) = trimEnd t := by
  have hprefix : trimEnd t <+: t := List.rdropWhile_prefix isBlank t
  cases hend : trimEnd t with
  | nil => rfl
  | cons c r =>
      obtain ⟨u, hu⟩ := hprefix
      rw [hend] at hu
      rw [trimStart, ← hu, List.dropWhile_eq_self_iff] at h
      rw [trimStart, List.dropWhile_eq_self_iff]
      exact fun _ => h (by simp)

@[simp] theorem trim_trim (t : Text) : trim (trim t) = trim t := by
  have hstart : trimStart (trimStart t) = trimStart t := List.dropWhile_idempotent _ _
  unfold trim
  rw [trimStart_trimEnd hstart]
  exact List.rdropWhile_idempotent isBlank _

/-- Nothing is left of a text that is all white space, and only of such a text. -/
theorem trim_eq_nil_iff : trim t = [] ↔ ∀ c ∈ t, isBlank c := by
  rw [trim, trimEnd, dropEndWhile_eq_nil_iff, trimStart]
  constructor
  · intro h c hc
    rw [← List.takeWhile_append_dropWhile (p := isBlank) (l := t), List.mem_append] at hc
    rcases hc with hc | hc
    · exact List.mem_takeWhile_imp hc
    · exact h c hc
  · intro h c hc
    exact h c ((List.dropWhile_suffix isBlank).subset hc)

/-- The trimmed text stands behind the white space that `trimStart` takes away, and in front of the
rest of the white space. -/
theorem exists_trimmed (t : Text) :
    ∃ leading trailing, t = leading ++ trimStart t ∧ trimStart t = trim t ++ trailing ∧
      (∀ c ∈ leading, isBlank c) ∧ ∀ c ∈ trailing, isBlank c := by
  obtain ⟨trailing, htrailing, hblank⟩ := exists_dropped isBlank (trimStart t)
  exact ⟨t.takeWhile isBlank, trailing, List.takeWhile_append_dropWhile.symm, htrailing,
    fun _ hc => List.mem_takeWhile_imp hc, hblank⟩

theorem not_isBlank_of_head?_trimStart {c : Char} (h : c ∈ (trimStart t).head?) : ¬ isBlank c := by
  have hkept := List.head?_dropWhile_not isBlank t
  rw [show t.dropWhile isBlank = trimStart t from rfl, Option.mem_def.mp h] at hkept
  simpa using hkept

theorem not_isBlank_of_head?_trim {c : Char} (h : c ∈ (trim t).head?) : ¬ isBlank c := by
  obtain ⟨-, trailing, -, htrailing, -, -⟩ := exists_trimmed t
  refine not_isBlank_of_head?_trimStart (t := t) ?_
  rw [htrailing, List.head?_append, Option.mem_def.mp h]
  rfl

theorem not_isBlank_of_getLast?_trim {c : Char} (h : c ∈ (trim t).getLast?) : ¬ isBlank c :=
  not_of_getLast?_dropEndWhile h

theorem mem_of_mem_trim {c : Char} (h : c ∈ trim t) : c ∈ t :=
  (List.dropWhile_suffix isBlank).subset (mem_of_mem_dropEndWhile h)

/-- White space at the end makes no difference. -/
theorem trim_append_of_isBlank {ending : Text} (h : ∀ c ∈ ending, isBlank c) (t : Text) :
    trim (t ++ ending) = trim t := by
  rw [trim, trim, trimStart, trimStart, List.dropWhile_append]
  split
  · next hnil =>
      have hending : ending.dropWhile isBlank = [] := List.dropWhile_eq_nil_iff.mpr h
      rw [hending, List.isEmpty_iff.mp hnil]
  · exact dropEndWhile_append_of_all h

theorem trim_cons_of_isBlank {c : Char} (h : isBlank c) (t : Text) : trim (c :: t) = trim t := by
  rw [trim, trim, trimStart, List.dropWhile_cons_of_pos h, trimStart]

/-- A character that is kept keeps the text behind it. -/
theorem trimStart_append_cons {c : Char} (h : ¬ isBlank c) (s t : Text) :
    trimStart (s ++ c :: t) = trimStart s ++ c :: t := by
  rw [trimStart, trimStart, List.dropWhile_append, List.dropWhile_cons_of_neg h]
  split
  · next hnil => rw [List.isEmpty_iff.mp hnil, List.nil_append]
  · rfl

/-- Trimming does not go beyond a character that is kept. -/
theorem trim_append_cons {c : Char} (h : ¬ isBlank c) (s t : Text) :
    trim (s ++ c :: t) = trimStart s ++ c :: trimEnd t := by
  calc trim (s ++ c :: t)
      = trimEnd (trimStart s ++ c :: t) := by rw [trim, trimStart_append_cons h]
    _ = trimStart s ++ c :: trimEnd t := dropEndWhile_append_cons h

@[simp] theorem trim_trimStart (t : Text) : trim (trimStart t) = trim t := by
  have hstart : trimStart (trimStart t) = trimStart t := List.dropWhile_idempotent _ _
  rw [trim, hstart, trim]

@[simp] theorem trim_trimEnd (t : Text) : trim (trimEnd t) = trim t := by
  obtain ⟨ending, ht, hending⟩ := exists_dropped isBlank t
  calc trim (trimEnd t)
      = trim (trimEnd t ++ ending) := (trim_append_of_isBlank hending _).symm
    _ = trim t := congrArg trim ht.symm

/-- A text is trimmed if it starts and ends with characters that are kept. -/
theorem trim_eq_self_iff :
    trim t = t ↔ (∀ c ∈ t.head?, ¬ isBlank c) ∧ ∀ c ∈ t.getLast?, ¬ isBlank c := by
  constructor
  · intro h
    rw [← h]
    exact ⟨fun c => not_isBlank_of_head?_trim, fun c => not_isBlank_of_getLast?_trim⟩
  · rintro ⟨hfirst, hlast⟩
    have hstart : trimStart t = t := by
      cases t with
      | nil => rfl
      | cons c t => exact List.dropWhile_cons_of_neg (hfirst c rfl)
    rw [trim, hstart]
    exact dropEndWhile_eq_self hlast

theorem getLast?_trim_ne (t : Text) : (trim t).getLast? ≠ some '\n' := fun h =>
  not_isBlank_of_getLast?_trim h (by decide)

/-! ## Line endings -/

theorem dropBack?_eq_some_iff {back rest : Text} :
    dropBack? back t = some rest ↔ t = rest ++ back := by
  unfold dropBack?
  constructor
  · intro h
    obtain ⟨r, hr, rfl⟩ := Option.map_eq_some_iff.mp h
    rw [dropFront?_eq_some_iff] at hr
    rw [← List.reverse_reverse t, hr, List.reverse_append, List.reverse_reverse]
  · rintro rfl
    rw [List.reverse_append, dropFront?_eq_some_iff.mpr rfl, Option.map_some, List.reverse_reverse]

/-- The line ending that a piece loses is made of line feeds and carriage returns. -/
theorem exists_lineEnd (piece : Text) :
    ∃ ending, piece = dropLineEnd piece ++ ending ∧ ∀ c ∈ ending, c = '\n' ∨ c = '\r' := by
  unfold dropLineEnd
  cases hfeed : dropBack? ['\n'] piece with
  | none => exact ⟨[], by simp, by simp⟩
  | some line =>
      rw [dropBack?_eq_some_iff] at hfeed
      cases hreturn : dropBack? ['\r'] line with
      | none => exact ⟨['\n'], by simp [hfeed, hreturn], by simp⟩
      | some rest =>
          have hline := dropBack?_eq_some_iff.mp hreturn
          refine ⟨['\r', '\n'], ?_, by simp⟩
          simp only [hreturn, Option.getD_some]
          rw [hfeed, hline, List.append_assoc, List.singleton_append]

theorem exists_chomped (piece : Text) :
    ∃ ending, piece = chomp piece ++ ending ∧ ∀ c ∈ ending, c = '\n' ∨ c = '\r' := by
  obtain ⟨ending, hpiece, hending⟩ := exists_dropped (fun c => c = '\n' || c = '\r') piece
  exact ⟨ending, hpiece, fun c hc => by simpa using hending c hc⟩

theorem chomp_append_feed (line : Text) : chomp (line ++ ['\n']) = chomp line :=
  dropEndWhile_append_of_all (by simp)

/-- Behind a line ending that was dropped, `chomp` finds what it would have found anyway. -/
theorem chomp_dropLineEnd (piece : Text) : chomp (dropLineEnd piece) = chomp piece := by
  obtain ⟨ending, hpiece, hending⟩ := exists_lineEnd piece
  conv_rhs => rw [hpiece]
  exact (dropEndWhile_append_of_all fun c hc => by simpa using hending c hc).symm

end Runbook.Text
