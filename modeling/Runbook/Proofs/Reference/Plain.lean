import Runbook.Proofs.Text.Returns
import Runbook.Reference

/-!
# Texts without references

A reference starts with a dollar sign or holds `process.env`.  A text with neither is plain: no pass
of `Reference.expand` finds anything in it, whatever the variables are (`expand_of_not_mentions`).
-/

namespace Runbook

namespace Text

variable {t needle : Text}

theorem splitOnce?_isSome_iff :
    (splitOnce? needle t).isSome ↔ ∃ before after, t = before ++ (needle ++ after) := by
  induction t with
  | nil =>
      rw [splitOnce?, Option.isSome_map]
      constructor
      · intro h
        obtain ⟨rest, hrest⟩ := Option.isSome_iff_exists.mp h
        have hneedle : [] = needle ++ rest := dropFront?_eq_some_iff.mp hrest
        exact ⟨[], rest, hneedle⟩
      · rintro ⟨before, after, h⟩
        have hback : needle ++ after = [] := (List.append_eq_nil_iff.mp h.symm).2
        have hneedle : dropFront? needle [] = some after := dropFront?_eq_some_iff.mpr hback.symm
        rw [hneedle]
        rfl
  | cons c t ih =>
      rw [splitOnce?]
      cases hfront : dropFront? needle (c :: t) with
      | some rest =>
          have hneedle : c :: t = needle ++ rest := dropFront?_eq_some_iff.mp hfront
          exact ⟨fun _ => ⟨[], rest, hneedle⟩, fun _ => rfl⟩
      | none =>
          simp only [Option.isSome_map, ih]
          constructor
          · rintro ⟨before, after, rfl⟩
            exact ⟨c :: before, after, rfl⟩
          · rintro ⟨before, after, h⟩
            cases before with
            | nil =>
                rw [List.nil_append] at h
                rw [dropFront?_eq_some_iff.mpr h] at hfront
                cases hfront
            | cons d before => exact ⟨before, after, (List.cons.inj h).2⟩

/-- A text contains a needle if the needle is a part of it. -/
theorem contains_iff : contains t needle ↔ ∃ before after, t = before ++ (needle ++ after) :=
  splitOnce?_isSome_iff

theorem contains_iff_isInfix : contains t needle ↔ needle <:+: t := by
  rw [contains_iff, List.IsInfix]
  simp only [List.append_assoc, eq_comm]

/-- A part without a line feed is in the text, too, if it is in the text without carriage
returns. -/
theorem contains_of_dropsReturns {s : Text} (h : DropsReturns s t) (hneedle : '\n' ∉ needle)
    (hcontains : contains t needle) : contains s needle := by
  obtain ⟨before, after, rfl⟩ := contains_iff.mp hcontains
  obtain ⟨before', rest, rfl, -, hrest⟩ := h.exists_append
  obtain ⟨part, after', rfl, hpart, -⟩ := hrest.exists_append
  rw [hpart.eq_of_not_mem hneedle]
  exact contains_iff.mpr ⟨before', after', rfl⟩

/-- Where nothing is recognised, nothing is replaced. -/
theorem replaceBy_eq_self {recognise : Recogniser} (h : ∀ u, u <:+ t → recognise u = none) :
    replaceBy recognise t = t := by
  induction t with
  | nil => rfl
  | cons c t ih =>
      rw [replaceBy_cons, h _ (List.suffix_refl _)]
      exact congrArg _ (ih fun u hu => h u (hu.trans (List.suffix_cons c t)))

end Text

namespace Reference

variable {t : Text}

/-- The text may refer to a variable. -/
def Mentions (t : Text) : Prop := Text.contains t "$" ∨ Text.contains t "process.env"

theorem mentions_of_mem (h : '$' ∈ t) : Mentions t := by
  obtain ⟨before, after, rfl⟩ := List.append_of_mem h
  exact .inl (Text.contains_iff.mpr ⟨before, after, rfl⟩)

theorem mentions_of_dropsReturns {s : Text} (h : Text.DropsReturns s t) (ht : Mentions t) :
    Mentions s :=
  ht.imp (Text.contains_of_dropsReturns h (by decide)) (Text.contains_of_dropsReturns h (by decide))

/-! ## Nothing to recognise -/

/-- What starts with a dollar sign is not found at the end of a plain text. -/
theorem dropFront?_dollar (h : ¬ Mentions t) {u : Text} (hu : u <:+ t) (front : Text) :
    Text.dropFront? ('$' :: front) u = none := by
  rw [Option.eq_none_iff_forall_ne_some]
  intro rest hrest
  rw [Text.dropFront?_eq_some_iff] at hrest
  exact h (mentions_of_mem (hu.subset (hrest ▸ List.mem_cons_self)))

theorem expandDeclared_of_not_mentions (h : ¬ Mentions t) (declaration : Text × Text) :
    expandDeclared t declaration = t := by
  have hbraced : Text.replaceAll (braced declaration.1) declaration.2 t = t := by
    refine Text.replaceBy_eq_self fun u hu => ?_
    have hnone : Text.dropFront? (braced declaration.1) u = none := dropFront?_dollar h hu _
    rw [Text.literally, Text.startsWith, hnone]
    rfl
  rw [expandDeclared, hbraced]
  refine Text.replaceBy_eq_self fun u hu => ?_
  rw [bareOf, bare, dropFront?_dollar h hu]

theorem substitute_eq_self {form : Form} (env : Environment) (h : ∀ u, u <:+ t → form u = none) :
    substitute form env t = t :=
  Text.replaceBy_eq_self fun u hu => by rw [resolving, h u hu, Option.map_none]

theorem dropFront?_processEnv (h : ¬ Mentions t) {u : Text} (hu : u <:+ t) :
    Text.dropFront? "\x7bprocess.env." u = none := by
  rw [Option.eq_none_iff_forall_ne_some]
  intro rest hrest
  obtain ⟨before, rfl⟩ := hu
  rw [Text.dropFront?_eq_some_iff] at hrest
  exact h (.inr (Text.contains_iff.mpr ⟨before ++ ['\x7b'], '.' :: rest, by simp [hrest]⟩))

theorem processEnvForm_eq_none (h : ¬ Mentions t) {u : Text} (hu : u <:+ t) :
    processEnvForm u = none := by
  rw [processEnvForm, enclosed, dropFront?_processEnv h hu]

theorem bracedForm_eq_none (h : ¬ Mentions t) {u : Text} (hu : u <:+ t) : bracedForm u = none := by
  have hnone : Text.dropFront? "$\x7b" u = none := dropFront?_dollar h hu ['\x7b']
  rw [bracedForm, enclosed, hnone]

theorem bareForm_eq_none (h : ¬ Mentions t) {u : Text} (hu : u <:+ t) : bareForm u = none := by
  unfold bareForm
  split
  · exact absurd (mentions_of_mem (hu.subset List.mem_cons_self)) h
  · rfl

/-- **A text without references stays as it is.** -/
theorem expand_of_not_mentions (h : ¬ Mentions t) (declared : VariableTable) (env : Environment) :
    expand t declared env = t := by
  have hdeclared : declared.entries.foldl expandDeclared t = t := by
    induction declared.entries with
    | nil => rfl
    | cons declaration rest ih =>
        rw [List.foldl_cons, expandDeclared_of_not_mentions h, ih]
  simp only [expand, hdeclared]
  rw [substitute_eq_self env fun u hu => processEnvForm_eq_none h hu,
    substitute_eq_self env fun u hu => bracedForm_eq_none h hu,
    substitute_eq_self env fun u hu => bareForm_eq_none h hu]

end Reference

end Runbook
