import Mathlib.Data.List.Forall2
import Mathlib.Logic.Relation
import Runbook.Proofs.Include.Expansion

/-!
# The blocks that an expansion reaches

An include line of the body of `a` that names `b` is an edge from `a` to `b` (`Edge`).  An expansion
follows the edges, and what it comes to can be read off them:

* an expansion that succeeds expands every block that it reaches (`exists_ok_of_reaches`), so all of
  them are there (`get?_isSome_of_reaches`);
* an expansion that fails does so at a block that it reaches (`exists_reaches_of_eq_error`): one
  that is missing, or one that was open before or lies on a cycle.

The open names matter for cycles only.  An expansion that does not come back to an open block stays
the same with other names open, as long as none of the new ones can be expanded without coming back
to an open block itself (`expanded_congr`).  Fewer open names are a special case.  Another one is a
second name for the same body: `expanded_eq_of_get?_eq` says that two names of one body expand
alike.
-/

namespace Runbook.Include

variable {blocks : BlockMap} {opened : OpenNames} {name : Text}

/-- Some line of the body of `a` includes `b`. -/
def Edge (blocks : BlockMap) (a b : Text) : Prop :=
  ∃ body, blocks.get? a = some body ∧ ∃ line ∈ Text.lines body, target? line = some b

/-- Following include lines from `a` leads to `b`, perhaps along no line at all. -/
abbrev Reaches (blocks : BlockMap) : Text → Text → Prop := Relation.ReflTransGen (Edge blocks)

/-- Following at least one include line from the block leads back to it. -/
def OnCycle (blocks : BlockMap) (name : Text) : Prop := Relation.TransGen (Edge blocks) name name

/-- The expansion has come back to an open block. -/
def Revisits {α : Type} (result : Except IncludeError α) : Prop :=
  ∃ name, result = .error (.cyclicInclude name)

@[simp] theorem not_revisits_ok {α : Type} (a : α) :
    ¬ Revisits (.ok a : Except IncludeError α) := by
  simp [Revisits]

@[simp] theorem revisits_map {α β : Type} (f : α → β) (result : Except IncludeError α) :
    Revisits (result.map f) ↔ Revisits result := by
  cases result <;> simp [Revisits, Except.map]

theorem revisits_expanded_of_mem (h : name ∈ opened) : Revisits (expanded blocks opened name) :=
  ⟨name, expanded_of_mem h⟩

/-! ## Lines one by one -/

section Lines

variable {f g : Text → Except IncludeError Text} {lines : List Text}

theorem forall₂_of_mapM_eq_ok {texts : List Text} (h : lines.mapM f = .ok texts) :
    List.Forall₂ (fun line text => f line = .ok text) lines texts := by
  induction lines generalizing texts with
  | nil =>
      cases h
      exact .nil
  | cons first rest ih =>
      rw [List.mapM_cons] at h
      cases hfirst : f first with
      | error e => rw [hfirst] at h; cases h
      | ok text =>
          cases hrest : rest.mapM f with
          | error e => rw [hfirst, hrest] at h; cases h
          | ok others =>
              rw [hfirst, hrest] at h
              cases h
              exact .cons hfirst (ih hrest)

theorem mapM_eq_ok_of_forall₂ {texts : List Text}
    (h : List.Forall₂ (fun line text => f line = .ok text) lines texts) :
    lines.mapM f = .ok texts := by
  induction h with
  | nil => rfl
  | cons hfirst _ ih =>
      rw [List.mapM_cons, hfirst, ih]
      rfl

theorem exists_mem_of_forall₂ {α β : Type} {R : α → β → Prop} {as : List α} {bs : List β}
    (h : List.Forall₂ R as bs) : ∀ a ∈ as, ∃ b ∈ bs, R a b := by
  induction h with
  | nil => simp
  | cons hfirst _ ih =>
      intro a ha
      rcases List.mem_cons.mp ha with rfl | ha
      · exact ⟨_, List.mem_cons_self, hfirst⟩
      · obtain ⟨b, hb, hR⟩ := ih a ha
        exact ⟨b, List.mem_cons_of_mem _ hb, hR⟩

theorem exists_text_of_mapM_eq_ok {texts : List Text} (h : lines.mapM f = .ok texts) :
    ∀ line ∈ lines, ∃ text ∈ texts, f line = .ok text :=
  exists_mem_of_forall₂ (forall₂_of_mapM_eq_ok h)

theorem exists_line_of_mapM_eq_ok {texts : List Text} (h : lines.mapM f = .ok texts) :
    ∀ text ∈ texts, ∃ line ∈ lines, f line = .ok text :=
  exists_mem_of_forall₂ (forall₂_of_mapM_eq_ok h).flip

theorem exists_error_of_mapM_eq_error {e : IncludeError} (h : lines.mapM f = .error e) :
    ∃ line ∈ lines, f line = .error e := by
  induction lines with
  | nil => cases h
  | cons first rest ih =>
      rw [List.mapM_cons] at h
      cases hfirst : f first with
      | error e' =>
          rw [hfirst] at h
          cases h
          exact ⟨first, List.mem_cons_self, hfirst⟩
      | ok text =>
          cases hrest : rest.mapM f with
          | error e' =>
              rw [hfirst, hrest] at h
              cases h
              obtain ⟨line, hline, hf⟩ := ih hrest
              exact ⟨line, List.mem_cons_of_mem _ hline, hf⟩
          | ok others => rw [hfirst, hrest] at h; cases h

/-- Two ways to expand lines agree if they agree on each line that does not come back to an open
block: behind the first one that does, no line is looked at. -/
theorem mapM_eq_of_not_revisits (h : ¬ Revisits (lines.mapM f))
    (hfg : ∀ line ∈ lines, ¬ Revisits (f line) → g line = f line) :
    lines.mapM g = lines.mapM f := by
  induction lines with
  | nil => rfl
  | cons first rest ih =>
      rw [List.mapM_cons] at h
      have hfirst : ¬ Revisits (f first) := by
        rintro ⟨x, hx⟩
        exact h ⟨x, by rw [hx]; rfl⟩
      rw [List.mapM_cons, List.mapM_cons, hfg first List.mem_cons_self hfirst]
      cases hf : f first with
      | error e => rfl
      | ok text =>
          have hrest : ¬ Revisits (rest.mapM f) := by
            rintro ⟨x, hx⟩
            exact h ⟨x, by rw [hf, hx]; rfl⟩
          rw [ih hrest fun line hline => hfg line (List.mem_cons_of_mem _ hline)]

end Lines

/-! ## Success and failure -/

theorem not_mem_of_eq_ok {text : Text} (h : expanded blocks opened name = .ok text) :
    name ∉ opened := by
  intro hmem
  rw [expanded_of_mem hmem] at h
  cases h

theorem exists_body_of_eq_ok {text : Text} (h : expanded blocks opened name = .ok text) :
    ∃ body texts, blocks.get? name = some body ∧
      expandedLines blocks (name :: opened) body = .ok texts ∧ text = Text.join "\n" texts := by
  have hopen := not_mem_of_eq_ok h
  cases hbody : blocks.get? name with
  | none =>
      rw [expanded_of_get?_eq_none hopen hbody] at h
      cases h
  | some body =>
      rw [expanded_of_get?_eq_some hopen hbody] at h
      cases hlines : expandedLines blocks (name :: opened) body with
      | error e => rw [hlines] at h; cases h
      | ok texts =>
          rw [hlines] at h
          cases h
          exact ⟨body, texts, rfl, hlines, rfl⟩

theorem exists_ok_of_edge {text target : Text} (h : expanded blocks opened name = .ok text)
    (hedge : Edge blocks name target) :
    ∃ text', expanded blocks (name :: opened) target = .ok text' := by
  obtain ⟨body, hbody, line, hline, htarget⟩ := hedge
  obtain ⟨body', texts, hbody', hlines, -⟩ := exists_body_of_eq_ok h
  obtain rfl := Option.some.inj (hbody.symm.trans hbody')
  obtain ⟨text', -, htext'⟩ := exists_text_of_mapM_eq_ok hlines line hline
  rw [replacement, htarget] at htext'
  exact ⟨text', htext'⟩

/-- An expansion that succeeds expands every block that it reaches, with more names open. -/
theorem exists_ok_of_reaches {text target : Text} (h : expanded blocks opened name = .ok text)
    (hreach : Reaches blocks name target) :
    ∃ opened' text', opened ⊆ opened' ∧ expanded blocks opened' target = .ok text' := by
  -- along the path from its start: each block on it is expanded while the ones before it are open
  induction hreach using Relation.ReflTransGen.head_induction_on generalizing opened text with
  | refl => exact ⟨opened, text, List.Subset.refl opened, h⟩
  | head hedge _ ih =>
      obtain ⟨text', h'⟩ := exists_ok_of_edge h hedge
      obtain ⟨opened', last, hsub, hlast⟩ := ih h'
      exact ⟨opened', last, fun x hx => hsub (List.mem_cons_of_mem _ hx), hlast⟩

/-- An expansion that succeeds finds every block that it reaches. -/
theorem get?_isSome_of_reaches {text target : Text} (h : expanded blocks opened name = .ok text)
    (hreach : Reaches blocks name target) : (blocks.get? target).isSome := by
  obtain ⟨opened', text', -, htarget⟩ := exists_ok_of_reaches h hreach
  obtain ⟨body, texts, hbody, -⟩ := exists_body_of_eq_ok htarget
  exact Option.isSome_of_eq_some hbody

/-- What goes wrong in a block goes wrong in one of the blocks that it includes. -/
theorem exists_edge_of_eq_error {body : Text} {e : IncludeError} (hopen : name ∉ opened)
    (hbody : blocks.get? name = some body) (h : expanded blocks opened name = .error e) :
    ∃ target, Edge blocks name target ∧ expanded blocks (name :: opened) target = .error e := by
  rw [expanded_of_get?_eq_some hopen hbody] at h
  cases hlines : expandedLines blocks (name :: opened) body with
  | ok texts => rw [hlines] at h; cases h
  | error e' =>
      rw [hlines] at h
      cases h
      obtain ⟨line, hline, herror⟩ := exists_error_of_mapM_eq_error hlines
      cases htarget : target? line with
      | none => rw [replacement, htarget] at herror; cases herror
      | some target =>
          rw [replacement, htarget] at herror
          exact ⟨target, ⟨body, hbody, line, hline, htarget⟩, herror⟩

/-- **Where an expansion fails.**  It reaches a block that is missing, or one that it must not enter
because it was open before or lies on a cycle. -/
theorem exists_reaches_of_eq_error {e : IncludeError} (h : expanded blocks opened name = .error e) :
    ∃ source, Reaches blocks name source ∧
      (e = .missingBlock source ∧ blocks.get? source = none ∨
        e = .cyclicInclude source ∧ (source ∈ opened ∨ OnCycle blocks source)) := by
  induction opened using openNames_induction blocks generalizing name with
  | step opened ih =>
      by_cases hopen : name ∈ opened
      · rw [expanded_of_mem hopen] at h
        exact ⟨name, .refl, Or.inr ⟨(Except.error.inj h).symm, Or.inl hopen⟩⟩
      cases hbody : blocks.get? name with
      | none =>
          rw [expanded_of_get?_eq_none hopen hbody] at h
          exact ⟨name, .refl, Or.inl ⟨(Except.error.inj h).symm, hbody⟩⟩
      | some body =>
          obtain ⟨next, hedge, herror⟩ := exists_edge_of_eq_error hopen hbody h
          obtain ⟨source, hreach, hsource⟩ := ih name hopen (Table.mem_keys_of_get? hbody) herror
          refine ⟨source, .head hedge hreach, hsource.imp_right ?_⟩
          rintro ⟨he, hmem | hcycle⟩
          · rcases List.mem_cons.mp hmem with rfl | hmem
            -- the block that was opened last: the way back to it is a cycle
            · exact ⟨he, Or.inr (Relation.TransGen.head' hedge hreach)⟩
            · exact ⟨he, Or.inl hmem⟩
          · exact ⟨he, Or.inr hcycle⟩

theorem reaches_of_missingBlock {missing : Text}
    (h : expanded blocks opened name = .error (.missingBlock missing)) :
    Reaches blocks name missing ∧ blocks.get? missing = none := by
  obtain ⟨source, hreach, ⟨he, hnone⟩ | ⟨he, -⟩⟩ := exists_reaches_of_eq_error h
  · cases he
    exact ⟨hreach, hnone⟩
  · cases he

theorem reaches_of_cyclicInclude {revisited : Text}
    (h : expanded blocks opened name = .error (.cyclicInclude revisited)) :
    Reaches blocks name revisited ∧ (revisited ∈ opened ∨ OnCycle blocks revisited) := by
  obtain ⟨source, hreach, ⟨he, -⟩ | ⟨he, hrevisited⟩⟩ := exists_reaches_of_eq_error h
  · cases he
  · cases he
    exact ⟨hreach, hrevisited⟩

/-! ## Other open names -/

/-- An expansion that does not come back to an open block does not depend on the open names, unless
a new one of them could have been expanded on the way. -/
theorem expanded_congr {others : OpenNames} (h : ¬ Revisits (expanded blocks opened name))
    (hothers : ∀ x ∈ others, x ∉ opened → ∀ any, Revisits (expanded blocks any x)) :
    expanded blocks others name = expanded blocks opened name := by
  induction opened using openNames_induction blocks generalizing name others with
  | step opened ih =>
      have hopen : name ∉ opened := fun hmem => h (revisits_expanded_of_mem hmem)
      have hopen' : name ∉ others := fun hmem => h (hothers name hmem hopen opened)
      cases hbody : blocks.get? name with
      | none => rw [expanded_of_get?_eq_none hopen hbody, expanded_of_get?_eq_none hopen' hbody]
      | some body =>
          rw [expanded_of_get?_eq_some hopen hbody] at h ⊢
          rw [expanded_of_get?_eq_some hopen' hbody]
          congr 1
          rw [revisits_map] at h
          refine mapM_eq_of_not_revisits h fun line _ hline => ?_
          cases htarget : target? line with
          | none => simp only [replacement, htarget]
          | some target =>
              simp only [replacement, htarget] at hline ⊢
              refine ih name hopen (Table.mem_keys_of_get? hbody) hline fun x hx hx' => ?_
              simp only [List.mem_cons, not_or] at hx'
              exact hothers x ((List.mem_cons.mp hx).resolve_left hx'.1) hx'.2

theorem expandedLines_congr {others : OpenNames} {body : Text}
    (h : ¬ Revisits (expandedLines blocks opened body))
    (hothers : ∀ x ∈ others, x ∉ opened → ∀ any, Revisits (expanded blocks any x)) :
    expandedLines blocks others body = expandedLines blocks opened body := by
  refine mapM_eq_of_not_revisits h fun line _ hline => ?_
  cases htarget : target? line with
  | none => simp only [replacement, htarget]
  | some target =>
      simp only [replacement, htarget] at hline ⊢
      exact expanded_congr hline hothers

/-- A block that is expanded without coming back to an open block is not open itself, and its lines
do not come back to one either. -/
theorem not_revisits_expandedLines {body : Text} (h : ¬ Revisits (expanded blocks opened name))
    (hbody : blocks.get? name = some body) :
    ¬ Revisits (expandedLines blocks (name :: opened) body) := by
  have hopen : name ∉ opened := fun hmem => h (revisits_expanded_of_mem hmem)
  rw [expanded_of_get?_eq_some hopen hbody] at h
  simpa using h

/-- **Two names of one body expand alike**, as long as one of them does not run into a cycle. -/
theorem expanded_eq_of_get?_eq {a b body : Text} (ha : blocks.get? a = some body)
    (hb : blocks.get? b = some body) (h : ¬ Revisits (expanded blocks [] a)) :
    expanded blocks [] b = expanded blocks [] a := by
  have hself := not_revisits_expandedLines h ha
  have hclosed : expandedLines blocks [] body = expandedLines blocks [a] body :=
    expandedLines_congr hself (by simp)
  -- `b` is open in its own expansion: either it never expands, or its lines have done so elsewhere
  have hother : expandedLines blocks [b] body = expandedLines blocks [] body := by
    by_cases hnever : ∀ any, Revisits (expanded blocks any b)
    · refine expandedLines_congr (hclosed ▸ hself) fun x hx _ => ?_
      rw [List.mem_singleton.mp hx]
      exact hnever
    · obtain ⟨any, hany⟩ := not_forall.mp hnever
      have hwide := not_revisits_expandedLines hany hb
      calc expandedLines blocks [b] body
          = expandedLines blocks (b :: any) body := expandedLines_congr hwide (by simp_all)
        _ = expandedLines blocks [] body := (expandedLines_congr hwide (by simp)).symm
  rw [expanded_of_get?_eq_some List.not_mem_nil ha,
    expanded_of_get?_eq_some List.not_mem_nil hb, hother, hclosed]

end Runbook.Include
