import Runbook.Proofs.Include.Expansion

/-!
# Open names are restored

The names of the blocks that an expansion is inside of are one list, which is handed from call to
call and from line to line.  A call opens its name and closes it again, whichever way it ends.  A
call for a name that is open already must not close it, because that name belongs to a call further
out.

So each call hands back the names that it was given, however deep it goes and wherever it fails
(`eq_of_expandWithin`): the lines of a body do (`eq_of_expandLines`), and the name in front of them
is the one that is closed.  Every line of a body then meets the same open names, and an expansion
can be written down without handing them on (`expandIncludes_restores`).

The list stands for the set of its names: their order and number do not matter
(`expanded_eq_of_mem_iff`).
-/

namespace Runbook.Include

variable {blocks : BlockMap} {opened after : OpenNames} {name : Text}

/-! ## Calls hand back what they were given -/

/-- Lines hand back the open names if the includes in them do. -/
theorem eq_of_expandLines {expand : Text → OpenNames → Expansion Text}
    (h : ∀ name result after, expand name opened = some (result, after) → after = opened)
    {lines : List Text} {result : Except IncludeError (List Text)}
    (hlines : expandLines expand lines opened = some (result, after)) : after = opened := by
  induction lines generalizing result with
  | nil =>
      cases hlines
      rfl
  | cons line rest ih =>
      rw [expandLines] at hlines
      split at hlines
      · cases hlines
      · next e later herror =>
          cases hlines
          split at herror
          · exact h _ _ _ herror
          · cases herror
      · next text later hok =>
          -- the lines behind the first one start from the same names
          obtain rfl : later = opened := by
            split at hok
            · exact h _ _ _ hok
            · cases hok
              rfl
          cases hrest : expandLines expand rest later with
          | none =>
              rw [hrest] at hlines
              cases hlines
          | some found =>
              obtain ⟨found, last⟩ := found
              have hlast : last = after := by
                rw [hrest] at hlines
                cases found <;> cases hlines <;> rfl
              exact ih (hlast ▸ hrest)

/-- A call hands back the open names, at any depth. -/
theorem eq_of_expandWithin {depth : Nat} {result : Except IncludeError Text}
    (h : expandWithin blocks depth name opened = some (result, after)) : after = opened := by
  induction depth generalizing name opened result after with
  | zero => cases h
  | succ depth ih =>
      have hclose : (name :: opened).erase name = opened := List.erase_cons_head name opened
      rw [expandWithin] at h
      split at h
      · cases h
        rfl
      split at h
      · cases h
        exact hclose
      · next body hbody =>
          cases hlines :
            expandLines (expandWithin blocks depth) (Text.lines body) (name :: opened) with
          | none =>
              rw [hlines] at h
              cases h
          | some found =>
              obtain ⟨found, last⟩ := found
              obtain rfl := eq_of_expandLines (fun _ _ _ => ih) hlines
              rw [hlines] at h
              cases found <;>
                · cases h
                  exact hclose

/-! ## Open names as a set -/

/-- Only which names are open matters. -/
theorem expanded_eq_of_mem_iff {others : OpenNames} (h : ∀ x, x ∈ others ↔ x ∈ opened) :
    expanded blocks others name = expanded blocks opened name := by
  induction opened using openNames_induction blocks generalizing name others with
  | step opened ih =>
      by_cases hopen : name ∈ opened
      · rw [expanded_of_mem hopen, expanded_of_mem ((h name).mpr hopen)]
      have hopen' : name ∉ others := mt (h name).mp hopen
      cases hbody : blocks.get? name with
      | none => rw [expanded_of_get?_eq_none hopen hbody, expanded_of_get?_eq_none hopen' hbody]
      | some body =>
          have hinner : expanded blocks (name :: others) = expanded blocks (name :: opened) :=
            funext fun target => ih name hopen (Table.mem_keys_of_get? hbody) (by simp [h])
          rw [expanded_of_get?_eq_some hopen hbody, expanded_of_get?_eq_some hopen' hbody,
            expandedLines, expandedLines, hinner]

/-! ## The open names of an expansion -/

/-- **The open names are restored.**  Whatever an expansion comes to, the names that are open
afterwards are those that were open before, and the same holds for each call on its way.  A name
that was open stays open behind the error that it is a cycle.  So each include line of a body is
expanded with the names that the body was met with and its own name open, whatever the lines before
it have opened and closed. -/
theorem expandIncludes_restores (name : Text) (blocks : BlockMap) (opened : OpenNames) :
    (expandIncludes name blocks opened).2 = opened ∧
      (∀ depth result after, expandWithin blocks depth name opened = some (result, after) →
        after = opened) ∧
      (∀ revisited ∈ opened,
        expandIncludes revisited blocks opened = (.error (.cyclicInclude revisited), opened)) ∧
      (expandIncludes name blocks opened).1 =
        (if name ∈ opened then .error (.cyclicInclude name)
        else
          match blocks.get? name with
          | none => .error (.missingBlock name)
          | some body =>
            ((Text.lines body).mapM (replacement fun target =>
              (expandIncludes target blocks (name :: opened)).1)).map (Text.join "\n")) ∧
      ∀ same : OpenNames, (∀ x, x ∈ same ↔ x ∈ opened) →
        (expandIncludes name blocks same).1 = (expandIncludes name blocks opened).1 := by
  refine ⟨by rw [expandIncludes_eq], fun _ _ _ => eq_of_expandWithin, fun revisited hmem => ?_, ?_,
    fun same hsame => expanded_eq_of_mem_iff hsame⟩
  · rw [expandIncludes_eq, expanded_of_mem hmem]
  · change expanded blocks opened name = _
    split
    · next hopen => exact expanded_of_mem hopen
    · next hopen =>
        split
        · next hbody => exact expanded_of_get?_eq_none hopen hbody
        · next body hbody => exact expanded_of_get?_eq_some hopen hbody

/-- A block is missing two calls further in. -/
example :
    expandIncludes "B" (.ofList [("A", "#include missing"), ("B", "#include A")]) ["outer".toList] =
    (.error (.missingBlock "missing"), ["outer".toList]) := by
  decide

end Runbook.Include
