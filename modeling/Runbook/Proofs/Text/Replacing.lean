import Runbook.Proofs.Text.Ends
import Runbook.Text.Replace

/-!
# Replacing part by part

`replaceBy` reads a text once from left to right.  What it makes of a front and of the text behind
can be told apart in three cases: the front is recognised as a whole
(`replaceBy_append_of_eq_some`), nothing is recognised in it (`replaceBy_append_of_not_mem`), or no
recognised part crosses the cut (`replaceBy_append`).
-/

namespace Runbook.Text

variable {recognise : Recogniser} {front s t : Text} {c : Char}

/-! ## Fronts -/

@[simp] theorem dropFront?_append (front t : Text) : dropFront? front (front ++ t) = some t :=
  dropFront?_eq_some_iff.mpr rfl

/-- What is no front of a text is none of a longer text either, if the longer text goes on with a
character that the front has not. -/
theorem dropFront?_append_cons_eq_none (hc : c ∉ front) (hs : dropFront? front s = none)
    (t : Text) :
    dropFront? front (s ++ c :: t) = none := by
  rw [Option.eq_none_iff_forall_ne_some]
  intro rest hrest
  rw [dropFront?_eq_some_iff] at hrest
  rcases List.append_eq_append_iff.mp hrest with ⟨more, rfl, hmore⟩ | ⟨more, rfl, -⟩
  · cases more with
    | nil => simp [dropFront?_eq_some_iff.mpr (List.append_nil s).symm] at hs
    | cons e more =>
        obtain rfl := (List.cons.inj hmore).1
        exact hc (by simp)
  · rw [dropFront?_append] at hs
    cases hs

theorem dropFront?_eq_none_of_not_mem (hc : c ∈ front) (hs : c ∉ s) :
    dropFront? front s = none := by
  rw [Option.eq_none_iff_forall_ne_some]
  intro rest hrest
  rw [dropFront?_eq_some_iff] at hrest
  exact hs (hrest ▸ List.mem_append_left rest hc)

/-! ## Replacing -/

/-- A front that is recognised as a whole is replaced. -/
theorem replaceBy_append_of_eq_some {value : Text} (hne : front ≠ [])
    (h : recognise (front ++ t) = some (value, front.length)) :
    replaceBy recognise (front ++ t) = value ++ replaceBy recognise t := by
  cases front with
  | nil => exact absurd rfl hne
  | cons c front =>
      rw [List.cons_append] at h ⊢
      rw [replaceBy_cons, h]
      simp

/-- Recognition starts at this character only. -/
def StartsAt (recognise : Recogniser) (c : Char) : Prop := ∀ d t, d ≠ c → recognise (d :: t) = none

/-- A front in which nothing is recognised is copied. -/
theorem replaceBy_append_of_eq_none (h : ∀ u, u ≠ [] → u <:+ front → recognise (u ++ t) = none) :
    replaceBy recognise (front ++ t) = front ++ replaceBy recognise t := by
  induction front with
  | nil => rfl
  | cons c front ih =>
      have hcut := ih fun u hne hu => h u hne (hu.trans (List.suffix_cons c front))
      rw [List.cons_append, replaceBy_cons, ← List.cons_append,
        h (c :: front) (List.cons_ne_nil c front) (List.suffix_refl _)]
      exact congrArg _ hcut

/-- A front without the character at which recognition starts is copied. -/
theorem replaceBy_append_of_not_mem (hstart : StartsAt recognise c) (h : c ∉ front) (t : Text) :
    replaceBy recognise (front ++ t) = front ++ replaceBy recognise t := by
  refine replaceBy_append_of_eq_none fun u hne hu => ?_
  obtain ⟨d, u, rfl⟩ := List.exists_cons_of_ne_nil hne
  refine hstart d _ fun heq => h (hu.subset ?_)
  simp [heq]

/-- A front that holds the character only at its start, where nothing is recognised, is copied. -/
theorem replaceBy_cons_append_of_eq_none (hstart : StartsAt recognise c) (h : c ∉ front)
    (hnone : recognise (c :: (front ++ t)) = none) :
    replaceBy recognise (c :: (front ++ t)) = c :: (front ++ replaceBy recognise t) := by
  rw [replaceBy_cons, hnone]
  exact congrArg _ (replaceBy_append_of_not_mem hstart h t)

/-- Text can be replaced on both sides of a cut by itself if recognition does not look beyond the
cut. -/
theorem replaceBy_append (h : ∀ u, u ≠ [] → u <:+ s → recognise (u ++ t) = recognise u)
    (hlength : ∀ u, u <:+ s → ∀ found ∈ recognise u, found.2 ≤ u.length) :
    replaceBy recognise (s ++ t) = replaceBy recognise s ++ replaceBy recognise t := by
  induction hn : s.length using Nat.strongRecOn generalizing s with
  | ind n ih =>
      subst hn
      cases s with
      | nil => rfl
      | cons c s =>
          have hcut : ∀ u, u <:+ s → replaceBy recognise (u ++ t) =
              replaceBy recognise u ++ replaceBy recognise t := fun u hu =>
            have hall : u <:+ c :: s := hu.trans (List.suffix_cons c s)
            ih u.length (Nat.lt_succ_of_le hu.length_le) (fun v hv hvu => h v hv (hvu.trans hall))
              (fun v hvu => hlength v (hvu.trans hall)) rfl
          rw [List.cons_append, replaceBy_cons, replaceBy_cons, ← List.cons_append,
            h (c :: s) (by simp) (List.suffix_refl _)]
          cases hfound : recognise (c :: s) with
          | none => exact congrArg _ (hcut s (List.suffix_refl s))
          | some found =>
              obtain ⟨value, count⟩ := found
              have hcount : count - 1 ≤ s.length := by
                have := hlength (c :: s) (List.suffix_refl _) _ hfound
                simp only [List.length_cons] at this
                omega
              simp only [List.drop_append_of_le_length hcount, hcut _ (List.drop_suffix _ _),
                List.append_assoc]

end Runbook.Text
