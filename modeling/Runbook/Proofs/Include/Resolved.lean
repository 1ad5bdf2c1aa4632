import Runbook.Proofs.Include.Directive
import Runbook.Proofs.Include.Reach
import Runbook.Proofs.Text.Returns

/-!
# No directive survives expansion

The text that an expansion comes to is cut into lines once more by whoever reads it, at other places
than the bodies were: an included block brings line feeds of its own, may be empty, and may end with
a carriage return that was the last character of its body and is now part of a line ending.

None of this makes a directive.  A line loses a carriage return at most, which turns no plain text
into one (`target?_of_target?_dropReturn`).  So the property of holding no include line, `Resolved`,
passes from texts to the texts joined (`resolved_join`), and by induction on the open names to
expansions (`expandIncludes_resolved`).
-/

namespace Runbook.Include

variable {blocks : BlockMap} {opened : OpenNames} {name line s t text : Text}

/-- No line of the text is an include line. -/
def Resolved (t : Text) : Prop := ∀ line ∈ Text.lines t, target? line = none

@[simp] theorem resolved_nil : Resolved [] := by simp [Resolved]

theorem resolved_of_not_mem (hfeed : '\n' ∉ line) (h : target? line = none) : Resolved line := by
  cases line with
  | nil => exact resolved_nil
  | cons c line =>
      intro other hother
      rw [Text.lines_of_not_mem (List.cons_ne_nil c line) hfeed, List.mem_singleton] at hother
      rwa [hother]

theorem target?_dropReturn (h : target? line = none) : target? (Text.dropReturn line) = none := by
  rw [Option.eq_none_iff_forall_ne_some] at h ⊢
  exact fun name hname => h name (target?_of_target?_dropReturn hname)

/-- A line feed behind a resolved text ends its last line, or adds an empty one. -/
theorem Resolved.append_feed (h : Resolved s) : Resolved (s ++ ['\n']) := by
  induction s using Text.lineInduction with
  | nil =>
      intro line hline
      rw [List.mem_singleton.mp hline]
      rfl
  | last last hne hlast =>
      intro line hline
      rw [Text.lines_append_feed hlast, Text.lines_nil, List.mem_singleton] at hline
      rw [hline]
      exact target?_dropReturn (h last (by simp [Text.lines_of_not_mem hne hlast]))
  | feed first rest hfirst ih =>
      rw [Resolved, Text.lines_append_feed hfirst, List.forall_mem_cons] at h
      rw [Resolved, List.append_assoc, List.cons_append, Text.lines_append_feed hfirst,
        List.forall_mem_cons]
      exact ⟨h.1, ih h.2⟩

theorem Resolved.append (hs : Resolved s) (ht : Resolved t) : Resolved (s ++ '\n' :: t) := by
  have hcut : Text.lines (s ++ '\n' :: t) = Text.lines (s ++ ['\n']) ++ Text.lines t := by
    rw [List.append_cons, Text.lines_append (by simp)]
  rw [Resolved, hcut, List.forall_mem_append]
  exact ⟨hs.append_feed, ht⟩

/-- Resolved texts can be joined. -/
theorem resolved_join {texts : List Text} (h : ∀ t ∈ texts, Resolved t) :
    Resolved (Text.join "\n" texts) := by
  induction texts with
  | nil => exact resolved_nil
  | cons first rest ih =>
      obtain ⟨hfirst, hrest⟩ := List.forall_mem_cons.mp h
      by_cases hnil : rest = []
      · rw [hnil]
        exact hfirst
      · rw [Text.join_cons _ _ hnil]
        exact hfirst.append (ih hrest)

/-- **No directive survives expansion.**  No line of the text that an expansion comes to is an
include line. -/
theorem expandIncludes_resolved (h : (expandIncludes name blocks opened).1 = .ok text) :
    ∀ line ∈ Text.lines text, target? line = none := by
  -- one more name is open while the included blocks are expanded
  induction opened using openNames_induction blocks generalizing name text with
  | step opened ih =>
      obtain ⟨body, texts, hbody, hlines, rfl⟩ := exists_body_of_eq_ok h
      refine resolved_join fun part hpart => ?_
      obtain ⟨line, hline, hreplaced⟩ := exists_line_of_mapM_eq_ok hlines part hpart
      rw [replacement] at hreplaced
      cases htarget : target? line with
      | none =>
          rw [htarget] at hreplaced
          cases hreplaced
          exact resolved_of_not_mem (Text.not_mem_of_mem_lines hline) htarget
      | some target =>
          rw [htarget] at hreplaced
          exact ih name (not_mem_of_eq_ok h) (Table.mem_keys_of_get? hbody) hreplaced

/-- An empty block, and a block whose last line ends with a carriage return that the line feed
behind it turns into a line ending. -/
theorem expandIncludes_resolved_of_returns :
    let blocks : BlockMap :=
      .ofList [("a", "#include b\r\r\n#include c\r\n #include b"), ("b", ""),
        ("c", "ls\r\r\n#include\r")]
    let text : Text := "\nls\r\n#include\r\n #include b"
    (expandIncludes "a" blocks []).1 = .ok text ∧
    Text.lines text = ["", "ls", "#include", " #include b"] ∧
      ∀ line ∈ Text.lines text, target? line = none := by
  intro blocks text
  have hexpand : (expandIncludes "a" blocks []).1 = .ok text := by decide
  exact ⟨hexpand, by decide, expandIncludes_resolved hexpand⟩

end Runbook.Include
