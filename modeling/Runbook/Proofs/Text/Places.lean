import Runbook.Proofs.Text.Lines

/-!
# Places in a text

A place is a byte offset.  Cutting a text at the places where a part of it starts and stops gives
that part (`slice_append`), and a line has a place, too: `LineAt` says which lines a text has and
where they start, without reading the text from its front.  Where a text is cut behind a line feed,
so are its lines (`lineAt_append_feed`).

`PartAt` does the same for spans.  The offsets of a part that is found inside of another part count
from the start of that one (`PartAt.within`).
-/

namespace Runbook.Text

variable {t line rest part inner before after : Text} {span : Span} {offset : Nat}

/-! ## Slices -/

theorem byteLength_pos (h : t ≠ []) : 0 < byteLength t := by
  cases t with
  | nil => exact absurd rfl h
  | cons c t =>
      rw [byteLength_cons]
      exact Nat.add_pos_left c.utf8Size_pos _

@[simp] theorem dropBytes_byteLength_append (front t : Text) :
    dropBytes (byteLength front) (front ++ t) = t := by
  induction front with
  | nil =>
      cases t with
      | nil => rfl
      | cons c t => exact if_neg (Nat.not_le.mpr c.utf8Size_pos)
  | cons c front ih =>
      rw [byteLength_cons, List.cons_append, dropBytes, if_pos (Nat.le_add_right _ _),
        Nat.add_sub_cancel_left, ih]

@[simp] theorem takeBytes_byteLength_append (front t : Text) :
    takeBytes (byteLength front) (front ++ t) = front := by
  induction front with
  | nil =>
      cases t with
      | nil => rfl
      | cons c t => exact if_neg (Nat.not_le.mpr c.utf8Size_pos)
  | cons c front ih =>
      rw [byteLength_cons, List.cons_append, takeBytes, if_pos (Nat.le_add_right _ _),
        Nat.add_sub_cancel_left, ih]

/-- The slice at the place of a part is that part. -/
theorem slice_append (front part back : Text) :
    slice (front ++ (part ++ back)) ⟨byteLength front, byteLength front + byteLength part⟩ =
      part := by
  rw [slice, dropBytes_byteLength_append, Nat.add_sub_cancel_left, takeBytes_byteLength_append]

/-! ## Parts -/

/-- The text has this part at this place, which starts and stops between characters. -/
def PartAt (t : Text) (span : Span) (part : Text) : Prop :=
  ∃ before after, t = before ++ (part ++ after) ∧
    span = ⟨byteLength before, byteLength before + byteLength part⟩

theorem PartAt.slice_eq (h : PartAt t span part) : slice t span = part := by
  obtain ⟨before, after, rfl, rfl⟩ := h
  exact slice_append before part after

theorem PartAt.stop_eq (h : PartAt t span part) : span.stop = span.start + byteLength part := by
  obtain ⟨before, after, rfl, rfl⟩ := h
  rfl

theorem PartAt.start_le_stop (h : PartAt t span part) : span.start ≤ span.stop :=
  h.stop_eq ▸ Nat.le_add_right _ _

theorem PartAt.start_lt_stop (h : PartAt t span part) (hne : part ≠ []) :
    span.start < span.stop := by
  obtain ⟨before, after, rfl, rfl⟩ := h
  exact Nat.lt_add_of_pos_right (byteLength_pos hne)

theorem PartAt.stop_le (h : PartAt t span part) : span.stop ≤ byteLength t := by
  obtain ⟨before, after, rfl, rfl⟩ := h
  rw [byteLength_append, byteLength_append, ← Nat.add_assoc]
  exact Nat.le_add_right _ _

/-- A part of a part, found by what is in front of it there. -/
theorem PartAt.within (h : PartAt t span part) (hpart : part = before ++ (inner ++ after)) :
    PartAt t ⟨span.start + byteLength before, span.start + byteLength before + byteLength inner⟩
      inner ∧
      span.start + byteLength before + byteLength inner ≤ span.stop := by
  obtain ⟨front, back, rfl, rfl⟩ := h
  subst hpart
  constructor
  · exact ⟨front ++ before, after ++ back, by simp only [List.append_assoc],
      by simp only [byteLength_append]⟩
  · simp only [byteLength_append]
    omega

/-- A place in the text that an editor can mark: it is not empty, it starts and stops between
characters, and it does not go beyond its line. -/
structure WithinLine (t : Text) (span : Span) : Prop where
  start_lt_stop : span.start < span.stop
  stop_le : span.stop ≤ byteLength t
  partAt : PartAt t span (slice t span)
  not_mem : '\n' ∉ slice t span

theorem PartAt.withinLine (h : PartAt t span part) (hne : part ≠ []) (hfeed : '\n' ∉ part) :
    WithinLine t span where
  start_lt_stop := h.start_lt_stop hne
  stop_le := h.stop_le
  partAt := h.slice_eq.symm ▸ h
  not_mem := h.slice_eq.symm ▸ hfeed

/-! ## Numbers of lines -/

theorem takeBytes_mono {shorter longer : Nat} (h : shorter ≤ longer) (t : Text) :
    takeBytes shorter t <+: takeBytes longer t := by
  induction t generalizing shorter longer with
  | nil => exact List.prefix_refl _
  | cons c t ih =>
      rw [takeBytes, takeBytes]
      split
      · next hfits =>
          rw [if_pos (hfits.trans h), List.cons_prefix_cons]
          exact ⟨rfl, ih (Nat.sub_le_sub_right h _)⟩
      · exact List.nil_prefix

/-- Further to the right no line has a smaller number. -/
theorem lineOf_le_lineOf {offset later : Nat} (h : offset ≤ later) (t : Text) :
    lineOf t offset ≤ lineOf t later :=
  (takeBytes_mono h t).sublist.count_le '\n'

theorem lineOf_byteLength_append (front t : Text) :
    lineOf (front ++ t) (byteLength front) = front.count '\n' := by
  rw [lineOf, takeBytes_byteLength_append]

/-! ## Lines -/

/-- The text has this line, without its line feed, behind `offset` bytes. -/
def LineAt (t : Text) (offset : Nat) (line : Text) : Prop :=
  ∃ before after, t = before ++ (line ++ after) ∧ byteLength before = offset ∧ '\n' ∉ line ∧
    (∀ c ∈ before.getLast?, c = '\n') ∧ ∀ c ∈ after.head?, c = '\n'

/-- A text that ends with a line feed, if with anything, but has none, is empty. -/
theorem eq_nil_of_getLast? (h : '\n' ∉ t) (hlast : ∀ c ∈ t.getLast?, c = '\n') : t = [] := by
  rw [← List.getLast?_eq_none_iff, Option.eq_none_iff_forall_not_mem]
  intro c hc
  exact h (hlast c hc ▸ List.mem_of_getLast? hc)

/-- A text that starts with a line feed, if with anything, but has none, is empty. -/
theorem eq_nil_of_head? (h : '\n' ∉ t) (hhead : ∀ c ∈ t.head?, c = '\n') : t = [] := by
  rw [← List.head?_eq_none_iff, Option.eq_none_iff_forall_not_mem]
  intro c hc
  exact h (hhead c hc ▸ List.mem_of_head? hc)

/-- A text without a line feed is one line. -/
theorem lineAt_of_not_mem {last : Text} (h : '\n' ∉ last) :
    LineAt last offset line ↔ offset = 0 ∧ line = last := by
  constructor
  · rintro ⟨before, after, rfl, rfl, -, hbefore, hafter⟩
    rw [List.mem_append, List.mem_append, not_or, not_or] at h
    obtain rfl := eq_nil_of_getLast? h.1 hbefore
    obtain rfl := eq_nil_of_head? h.2.2 hafter
    simp
  · rintro ⟨rfl, rfl⟩
    exact ⟨[], [], by simp, rfl, h, by simp, by simp⟩

/-- The lines of a text are its first line, and those behind the first line feed. -/
theorem lineAt_append_feed {first : Text} (h : '\n' ∉ first) :
    LineAt (first ++ '\n' :: rest) offset line ↔
      (offset = 0 ∧ line = first) ∨
        ∃ place, offset = byteLength (first ++ ['\n']) + place ∧ LineAt rest place line := by
  constructor
  · rintro ⟨before, after, heq, rfl, hline, hbefore, hafter⟩
    rcases List.append_eq_append_iff.mp heq with ⟨more, rfl, hmore⟩ | ⟨more, rfl, hmore⟩
    · cases more with
      | nil =>
          -- the line starts right behind the first one, without a line feed between them
          rw [List.append_nil] at hbefore
          obtain rfl := eq_nil_of_getLast? h hbefore
          exact .inl ⟨rfl, eq_of_append_eq_append hline h hafter (by simp) hmore.symm⟩
      | cons c more =>
          obtain ⟨rfl, hrest⟩ := List.cons.inj hmore
          refine .inr
            ⟨byteLength more, by simp [Nat.add_assoc], more, after, hrest, rfl, hline, ?_, hafter⟩
          intro c hc
          refine hbefore c ?_
          rw [List.getLast?_append, List.getLast?_cons, Option.mem_def.mp hc]
          rfl
    · rw [List.mem_append, not_or] at h
      obtain rfl := eq_nil_of_getLast? h.1 hbefore
      exact .inl ⟨rfl, eq_of_append_eq_append hline h.2 hafter (by simp) hmore⟩
  · rintro (⟨rfl, rfl⟩ | ⟨place, rfl, before, after, rfl, rfl, hline, hbefore, hafter⟩)
    · exact ⟨[], '\n' :: rest, rfl, rfl, h, by simp, by simp⟩
    · refine ⟨first ++ '\n' :: before, after, by simp, by simp [Nat.add_assoc], hline, ?_, hafter⟩
      intro c hc
      rw [List.getLast?_append, List.getLast?_cons] at hc
      cases hlast : before.getLast? with
      | none => simpa [hlast, eq_comm] using hc
      | some d => exact hbefore c (by simpa [hlast] using hc)

end Runbook.Text
