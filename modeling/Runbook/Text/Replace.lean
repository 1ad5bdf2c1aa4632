import Runbook.Text.Basic

/-!
# Replacing from left to right

A recogniser looks at the front of a text.  It either finds nothing, or gives a replacement and the
number of characters that the replacement stands for.  `replaceBy` reads a text once from left to
right: what is recognised is replaced, any other character is copied, and a replacement is never
read again.
-/

namespace Runbook.Text

/-- Looks for something at the front of a text: a replacement, and how many characters, at least
one, it replaces. -/
abbrev Recogniser := Text → Option (Text × Nat)

/-- Replaces in a text whose first `skip` characters are part of what was recognised last. -/
def replaceByFrom (recognise : Recogniser) : Nat → Text → Text
  | _, [] => []
  | skip + 1, _ :: t => replaceByFrom recognise skip t
  | 0, c :: t =>
    match recognise (c :: t) with
    | some (replacement, count) => replacement ++ replaceByFrom recognise (count - 1) t
    | none => c :: replaceByFrom recognise 0 t

/-- Replaces all that is recognised, from left to right. -/
def replaceBy (recognise : Recogniser) (t : Text) : Text := replaceByFrom recognise 0 t

theorem replaceByFrom_eq_replaceBy_drop (recognise : Recogniser) (skip : Nat) (t : Text) :
    replaceByFrom recognise skip t = replaceBy recognise (t.drop skip) := by
  induction skip generalizing t with
  | zero => rfl
  | succ skip ih =>
    cases t with
    | nil => rfl
    | cons c t => simp [replaceByFrom, ih]

@[simp] theorem replaceBy_nil (recognise : Recogniser) : replaceBy recognise [] = [] := rfl

/-- One step of replacing. -/
theorem replaceBy_cons (recognise : Recogniser) (c : Char) (t : Text) :
    replaceBy recognise (c :: t) =
      match recognise (c :: t) with
      | some (replacement, count) => replacement ++ replaceBy recognise (t.drop (count - 1))
      | none => c :: replaceBy recognise t := by
  rw [replaceBy, replaceByFrom]
  cases recognise (c :: t) with
  | none => rfl
  | some found => simp [replaceByFrom_eq_replaceBy_drop]

/-- Recognises one fixed text, which is not empty. -/
def literally (needle value : Text) : Recogniser := fun t =>
  if startsWith t needle then some (value, needle.length) else none

/-- Replaces every occurrence of `needle` by `value`. -/
def replaceAll (needle value t : Text) : Text := replaceBy (literally needle value) t

end Runbook.Text
