import Mathlib.Data.List.Basic
import Runbook.Include

/-!
# Expansion without its bound

`Include.expandWithin` carries two things that no reader of an expansion wants to see: a bound on
the depth, and the list of open names that it hands on.  Both are settled here, once.  The bound
that `Include.expandIncludes` computes is never exhausted, any larger one gives the same result, and
the names that are open afterwards are the ones that were open before (`expandWithin_eq`).

What remains is `expanded blocks opened name`, the result alone, with the equation that one would
write down for it: an open name is a cycle (`expanded_of_mem`), a name without a block is missing
(`expanded_of_get?_eq_none`), and else the lines of the body are replaced one by one and joined
again (`expanded_of_get?_eq_some`).

Every later proof about expansions is an induction along `openNames_induction`: a body is expanded
with one more of the finitely many block names open.
-/

namespace Runbook.Include

variable {blocks : BlockMap} {opened : OpenNames} {name : Text}

/-- What the expansion of a block comes to while other blocks are open. -/
def expanded (blocks : BlockMap) (opened : OpenNames) (name : Text) : Except IncludeError Text :=
  (expandIncludes name blocks opened).1

/-- What stands in the place of a line: the expansion of the block that it includes, or the line. -/
def replacement (expand : Text → Except IncludeError Text) (line : Text) :
    Except IncludeError Text :=
  match target? line with
  | some name => expand name
  | none => .ok line

/-- What the lines of a body come to, up to the first error. -/
def expandedLines (blocks : BlockMap) (opened : OpenNames) (body : Text) :
    Except IncludeError (List Text) :=
  (Text.lines body).mapM (replacement (expanded blocks opened))

/-! ## The depth that an expansion needs -/

theorem depthBound_cons_lt (hname : name ∉ opened) (hblock : name ∈ blocks.keys) :
    depthBound blocks (name :: opened) < depthBound blocks opened := by
  have hsub : (blocks.keys.filter (· ∉ name :: opened)).Sublist
      (blocks.keys.filter (· ∉ opened)) := by
    refine List.monotone_filter_right _ fun key hkey => ?_
    simp only [List.mem_cons, not_or, decide_eq_true_eq] at hkey ⊢
    exact hkey.2
  have hne : (blocks.keys.filter (· ∉ name :: opened)) ≠ (blocks.keys.filter (· ∉ opened)) := by
    intro heq
    have hmem : name ∈ blocks.keys.filter (· ∉ opened) := by simp [hname, hblock]
    rw [← heq] at hmem
    simp at hmem
  have hlt := Nat.lt_of_le_of_ne hsub.length_le fun hlength => hne (hsub.eq_of_length hlength)
  unfold depthBound
  omega

/-- A property of lists of open names holds if it holds whenever it holds with one more block open:
there are only finitely many blocks. -/
theorem openNames_induction {motive : OpenNames → Prop} (blocks : BlockMap)
    (step : ∀ opened, (∀ name, name ∉ opened → name ∈ blocks.keys → motive (name :: opened)) →
      motive opened) (opened : OpenNames) : motive opened := by
  induction hdepth : depthBound blocks opened using Nat.strongRecOn generalizing opened with
  | ind depth ih =>
      subst hdepth
      exact step opened fun name hname hblock =>
        ih _ (depthBound_cons_lt hname hblock) (name :: opened) rfl

/-- Lines are expanded like their includes: if these come to `f` and leave the open names alone, the
lines come to their replacements by `f` and leave the open names alone. -/
theorem expandLines_eq {expand : Text → OpenNames → Expansion Text}
    {f : Text → Except IncludeError Text} (h : ∀ name, expand name opened = some (f name, opened))
    (lines : List Text) :
    expandLines expand lines opened = some (lines.mapM (replacement f), opened) := by
  induction lines with
  | nil => rfl
  | cons line rest ih =>
      rw [List.mapM_cons, expandLines]
      cases htarget : target? line with
      | none =>
          simp only [replacement, htarget, ih]
          cases rest.mapM (replacement f) <;> rfl
      | some name =>
          simp only [replacement, htarget, h name]
          cases f name with
          | error e => rfl
          | ok text =>
              simp only [ih]
              cases rest.mapM (replacement f) <;> rfl

/-- Every large enough depth gives the same result, with the same names open as before. -/
theorem exists_expandWithin_eq (blocks : BlockMap) (opened : OpenNames) :
    ∀ name, ∃ result, ∀ depth, depthBound blocks opened ≤ depth →
      expandWithin blocks depth name opened = some (result, opened) := by
  induction opened using openNames_induction blocks with
  | step opened ih =>
      intro name
      by_cases hopen : name ∈ opened
      · refine ⟨.error (.cyclicInclude name), fun depth hdepth => ?_⟩
        obtain ⟨depth, rfl⟩ : ∃ d, depth = d + 1 :=
          ⟨depth - 1, by unfold depthBound at hdepth; omega⟩
        simp [expandWithin, hopen]
      cases hbody : blocks.get? name with
      | none =>
          refine ⟨.error (.missingBlock name), fun depth hdepth => ?_⟩
          obtain ⟨depth, rfl⟩ : ∃ d, depth = d + 1 :=
            ⟨depth - 1, by unfold depthBound at hdepth; omega⟩
          simp [expandWithin, hopen, hbody]
      | some body =>
          have hblock : name ∈ blocks.keys := Table.mem_keys_of_get? hbody
          choose f hf using ih name hopen hblock
          refine ⟨((Text.lines body).mapM (replacement f)).map (Text.join "\n"),
            fun depth hdepth => ?_⟩
          -- one level is used up here, and the bound behind it is smaller by one at least
          have hlt := depthBound_cons_lt hopen hblock
          obtain ⟨depth, rfl⟩ : ∃ d, depth = d + 1 := ⟨depth - 1, by omega⟩
          have hlines := expandLines_eq (fun target => hf target depth (by omega)) (Text.lines body)
          rw [expandWithin, if_neg hopen]
          simp only [hbody, hlines]
          cases (Text.lines body).mapM (replacement f) <;> simp [Except.map]

/-- The bound on the depth is inert: any depth from the computed one on gives the result, and an
expansion leaves the open names as it found them. -/
theorem expandWithin_eq {depth : Nat} (h : depthBound blocks opened ≤ depth) :
    expandWithin blocks depth name opened = some (expanded blocks opened name, opened) := by
  obtain ⟨result, hresult⟩ := exists_expandWithin_eq blocks opened name
  rw [expanded, expandIncludes, hresult _ (Nat.le_refl _), hresult depth h, Option.getD_some]

theorem expandIncludes_eq (name : Text) (blocks : BlockMap) (opened : OpenNames) :
    expandIncludes name blocks opened = (expanded blocks opened name, opened) := by
  rw [expandIncludes, expandWithin_eq (Nat.le_refl _), Option.getD_some]

/-! ## The equation of an expansion -/

theorem expanded_of_mem (h : name ∈ opened) :
    expanded blocks opened name = .error (.cyclicInclude name) := by
  have hone : expandWithin blocks (depthBound blocks opened) name opened =
      some (.error (.cyclicInclude name), opened) := by
    simp [depthBound, expandWithin, h]
  rw [expanded, expandIncludes, hone, Option.getD_some]

theorem expanded_of_get?_eq_none (h : name ∉ opened) (hbody : blocks.get? name = none) :
    expanded blocks opened name = .error (.missingBlock name) := by
  have hone : expandWithin blocks (depthBound blocks opened) name opened =
      some (.error (.missingBlock name), opened) := by
    simp [depthBound, expandWithin, h, hbody]
  rw [expanded, expandIncludes, hone, Option.getD_some]

theorem expanded_of_get?_eq_some {body : Text} (h : name ∉ opened)
    (hbody : blocks.get? name = some body) :
    expanded blocks opened name =
      (expandedLines blocks (name :: opened) body).map (Text.join "\n") := by
  have hlt := depthBound_cons_lt h (Table.mem_keys_of_get? hbody)
  have hlines := expandLines_eq (f := expanded blocks (name :: opened))
    (fun _ => expandWithin_eq (Nat.le_of_lt hlt)) (Text.lines body)
  have hone : expandWithin blocks (depthBound blocks opened + 1) name opened =
      some ((expandedLines blocks (name :: opened) body).map (Text.join "\n"), opened) := by
    rw [expandWithin, if_neg h]
    simp only [hbody, hlines, expandedLines]
    cases (Text.lines body).mapM (replacement (expanded blocks (name :: opened))) <;>
      simp [Except.map]
  have heq : expandWithin blocks (depthBound blocks opened + 1) name opened =
      some (expanded blocks opened name, opened) := expandWithin_eq (Nat.le_succ _)
  rw [hone] at heq
  exact (Prod.mk.inj (Option.some.inj heq)).1.symm

/-- A body without include lines is expanded to its lines. -/
theorem expanded_of_no_include {body : Text} (hbody : blocks.get? name = some body)
    (h : ∀ line ∈ Text.lines body, target? line = none) :
    expanded blocks [] name = .ok (Text.join "\n" (Text.lines body)) := by
  have hlines : expandedLines blocks [name] body = .ok (Text.lines body) := by
    unfold expandedLines
    generalize Text.lines body = lines at h
    induction lines with
    | nil => rfl
    | cons line rest ih =>
        obtain ⟨hline, hrest⟩ := List.forall_mem_cons.mp h
        rw [List.mapM_cons, replacement, hline, ih hrest]
        rfl
  rw [expanded_of_get?_eq_some List.not_mem_nil hbody, hlines]
  rfl

/-- Of the bodies only the lines matter. -/
theorem expanded_eq_of_lines_eq {others : BlockMap}
    (h : ∀ name, (others.get? name).map Text.lines = (blocks.get? name).map Text.lines)
    (opened : OpenNames) : ∀ name, expanded others opened name = expanded blocks opened name := by
  induction opened using openNames_induction blocks with
  | step opened ih =>
      intro name
      by_cases hopen : name ∈ opened
      · rw [expanded_of_mem hopen, expanded_of_mem hopen]
      have hlines := h name
      cases hbody : blocks.get? name with
      | none =>
          rw [hbody, Option.map_none, Option.map_eq_none_iff] at hlines
          rw [expanded_of_get?_eq_none hopen hlines, expanded_of_get?_eq_none hopen hbody]
      | some body =>
          rw [hbody, Option.map_some, Option.map_eq_some_iff] at hlines
          obtain ⟨other, hother, hlines⟩ := hlines
          have hinner : expanded others (name :: opened) = expanded blocks (name :: opened) :=
            funext (ih name hopen (Table.mem_keys_of_get? hbody))
          rw [expanded_of_get?_eq_some hopen hother, expanded_of_get?_eq_some hopen hbody,
            expandedLines, hlines, hinner, expandedLines]

end Runbook.Include
