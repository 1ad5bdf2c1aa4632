import Runbook.Proofs.Text.Lines

/-!
# Carriage returns in front of line feeds

A text that is cut into lines and put together again has lost some carriage returns and nothing else
(`dropsReturns_join_lines`).  `DropsReturns` says so from character to character, and so it can be
cut where either text is cut (`DropsReturns.exists_append`): a part without a line feed is a part of
both.
-/

namespace Runbook.Text

variable {s t u : Text}

/-- The second text is the first one without some of the carriage returns in front of line feeds. -/
inductive DropsReturns : Text → Text → Prop where
  | nil : DropsReturns [] []
  | keep {s t : Text} (c : Char) (rest : DropsReturns s t) : DropsReturns (c :: s) (c :: t)
  | drop {s t : Text} (rest : DropsReturns s t) : DropsReturns ('\r' :: '\n' :: s) ('\n' :: t)

namespace DropsReturns

/-- The same front in front of both. -/
theorem append_left (front : Text) (h : DropsReturns s t) :
    DropsReturns (front ++ s) (front ++ t) := by
  induction front with
  | nil => exact h
  | cons c front ih => exact .keep c ih

theorem refl (t : Text) : DropsReturns t t := by
  simpa using append_left t .nil

/-- Where the second text is cut, the first one can be cut. -/
theorem exists_append (h : DropsReturns s (t ++ u)) :
    ∃ s₁ s₂, s = s₁ ++ s₂ ∧ DropsReturns s₁ t ∧ DropsReturns s₂ u := by
  induction t generalizing s with
  | nil => exact ⟨[], s, rfl, .nil, h⟩
  | cons c t ih =>
      cases h with
      | keep c rest =>
          obtain ⟨s₁, s₂, rfl, hfront, hback⟩ := ih rest
          exact ⟨c :: s₁, s₂, rfl, .keep c hfront, hback⟩
      | drop rest =>
          obtain ⟨s₁, s₂, rfl, hfront, hback⟩ := ih rest
          exact ⟨'\r' :: '\n' :: s₁, s₂, rfl, .drop hfront, hback⟩

/-- A text without line feeds has lost nothing. -/
theorem eq_of_not_mem (h : DropsReturns s t) (hfeed : '\n' ∉ t) : s = t := by
  induction h with
  | nil => rfl
  | keep c _ ih =>
      rw [List.mem_cons, not_or] at hfeed
      rw [ih hfeed.2]
  | drop => exact absurd List.mem_cons_self hfeed

theorem mem_or_eq {c : Char} (h : DropsReturns s t) (hc : c ∈ s) : c ∈ t ∨ c = '\r' := by
  induction h with
  | nil => cases hc
  | keep d _ ih =>
      rcases List.mem_cons.mp hc with rfl | hc
      · exact .inl List.mem_cons_self
      · exact (ih hc).imp_left (List.mem_cons_of_mem d)
  | drop _ ih =>
      rcases List.mem_cons.mp hc with rfl | hc
      · exact .inr rfl
      · rcases List.mem_cons.mp hc with rfl | hc
        · exact .inl List.mem_cons_self
        · exact (ih hc).imp_left (List.mem_cons_of_mem _)

theorem ne_nil (h : DropsReturns s t) (ht : t ≠ []) : s ≠ [] := by
  cases h with
  | nil => exact ht
  | keep | drop => exact List.cons_ne_nil _ _

end DropsReturns

theorem lines_ne_nil (h : t ≠ []) : lines t ≠ [] := by
  intro hnil
  have hpieces : pieces t = [] := List.map_eq_nil_iff.mp hnil
  exact h (by rw [← flatten_pieces t, hpieces]; rfl)

theorem join_cons (separator first : Text) {rest : List Text} (h : rest ≠ []) :
    join separator (first :: rest) = first ++ (separator ++ join separator rest) := by
  cases rest with
  | nil => exact absurd rfl h
  | cons second rest => exact List.append_assoc ..

/-- The lines of a text, joined again, are the text without carriage returns in front of line feeds,
if no line feed stands at its end. -/
theorem dropsReturns_join_lines (h : t.getLast? ≠ some '\n') :
    DropsReturns t (join "\n" (lines t)) := by
  induction t using lineInduction with
  | nil => exact .nil
  | last line hne hline =>
      rw [lines_of_not_mem hne hline]
      exact .refl line
  | feed line rest hline ih =>
      have hrest : rest ≠ [] := by
        rintro rfl
        exact h (by simp)
      have hlast : rest.getLast? ≠ some '\n' := by
        rw [List.getLast?_append, List.getLast?_cons_of_ne_nil hrest] at h
        intro hfeed
        rw [hfeed] at h
        exact h rfl
      -- the return of this line, if it had one, is what the joined text has lost
      rw [lines_append_feed hline, join_cons _ _ (lines_ne_nil hrest)]
      rcases dropReturn_eq_or line with hkept | hdropped
      · rw [hkept]
        exact .append_left line (.keep '\n' (ih hlast))
      · conv_lhs => rw [hdropped]
        rw [List.append_assoc]
        exact .append_left _ (.drop (ih hlast))

end Runbook.Text
