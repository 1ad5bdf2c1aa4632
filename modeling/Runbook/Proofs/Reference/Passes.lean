import Runbook.Proofs.Text.Replacing
import Runbook.Reference

/-!
# Expansion pass by pass

Expansion is a list of passes, each over the whole text (`expand_eq_runAll`): two for each declared
variable and three for the environment.  What a pass does to a reference whose name is an identifier
is said here once for each pass and each form, for any text behind the reference.  A braced
reference and one to the environment end with their brace; a bare one ends where no identifier goes
on, so for it the text behind has to be `Bounded`.  Behind such a cut, a pass for the bare form
reads nothing that it has begun to read in front of it (`replaceBare_append`,
`substitute_bareForm_append`).
-/

namespace Runbook

variable {name other value s t : Text} {env : Environment}

/-! ## Names -/

/-- A name that a reference of any form can bear. -/
def IsIdentifier (name : Text) : Prop :=
  name.head?.any isIdentifierStart ∧ ∀ c ∈ name, isIdentifierChar c

instance : DecidablePred IsIdentifier := fun name =>
  -- tests the characters of the name, where all characters there are could be tested as well
  have := List.decidableBAll (fun c => isIdentifierChar c = true) name
  inferInstanceAs (Decidable (name.head?.any isIdentifierStart ∧ ∀ c ∈ name, isIdentifierChar c))

/-- No identifier goes on at the front of the text. -/
def Bounded (t : Text) : Prop := ∀ c ∈ t.head?, ¬ isIdentifierChar c

instance : DecidablePred Bounded
  | [] => .isTrue (by simp [Bounded])
  | c :: _ => decidable_of_iff (¬ isIdentifierChar c) (by simp [Bounded])

theorem ne_brace_of_isIdentifierStart {c : Char} (hc : isIdentifierStart c) : c ≠ '\x7b' := by
  rintro rfl
  cases hc

theorem any_head?_of_bounded (ht : Bounded t) : t.head?.any isIdentifierChar = false := by
  cases t with
  | nil => rfl
  | cons c t => simpa using ht c rfl

theorem takeWhile_append_of_bounded (ht : Bounded t) (s : Text) :
    (s ++ t).takeWhile isIdentifierChar = s.takeWhile isIdentifierChar := by
  induction s with
  | nil =>
      cases t with
      | nil => rfl
      | cons c t => exact List.takeWhile_cons_of_neg (ht c rfl)
  | cons c s ih => simp [List.takeWhile_cons, ih]

theorem takeWhile_isIdentifierChar (hname : ∀ c ∈ name, isIdentifierChar c) (ht : Bounded t) :
    (name ++ t).takeWhile isIdentifierChar = name := by
  rw [takeWhile_append_of_bounded ht, List.takeWhile_eq_self_iff.mpr hname]

namespace IsIdentifier

theorem exists_cons (h : IsIdentifier name) :
    ∃ c rest, name = c :: rest ∧ isIdentifierStart c := by
  cases name with
  | nil => simp [IsIdentifier] at h
  | cons c rest => exact ⟨c, rest, rfl, by simpa using h.1⟩

theorem ne_nil (h : IsIdentifier name) : name ≠ [] := by
  obtain ⟨c, rest, rfl, -⟩ := h.exists_cons
  exact List.cons_ne_nil c rest

/-- A character that is none of an identifier is not in the name. -/
theorem not_mem (h : IsIdentifier name) {c : Char} (hc : isIdentifierChar c = false) : c ∉ name :=
  fun hmem => by simp [h.2 c hmem] at hc

/-- An identifier may go on with any characters of identifiers. -/
theorem append (h : IsIdentifier name) (ht : ∀ c ∈ t, isIdentifierChar c) :
    IsIdentifier (name ++ t) := by
  obtain ⟨c, rest, rfl, hc⟩ := h.exists_cons
  exact ⟨by simpa using hc, fun d hd => (List.mem_append.mp hd).elim (h.2 d) (ht d)⟩

end IsIdentifier

namespace Reference

/-! ## The passes -/

/-- The passes of an expansion, in order. -/
def passes (declared : VariableTable) (env : Environment) : List (Text → Text) :=
  declared.entries.flatMap (fun e => [Text.replaceAll (braced e.1) e.2, replaceBare e.1 e.2]) ++
    [substitute processEnvForm env, substitute bracedForm env, substitute bareForm env]

/-- Runs passes one after another. -/
def runAll (passes : List (Text → Text)) (t : Text) : Text :=
  passes.foldl (fun t pass => pass t) t

theorem expand_eq_runAll (t : Text) (declared : VariableTable) (env : Environment) :
    expand t declared env = runAll (passes declared env) t := by
  have hdeclared : ∀ t, declared.entries.foldl expandDeclared t =
      runAll (declared.entries.flatMap fun e =>
        [Text.replaceAll (braced e.1) e.2, replaceBare e.1 e.2]) t := by
    induction declared.entries with
    | nil => exact fun t => rfl
    | cons e rest ih => exact fun t => ih (expandDeclared t e)
  rw [expand, hdeclared, passes, runAll, runAll, List.foldl_append]
  rfl

/-- The passes for the environment, in order. -/
def substituteAll (env : Environment) (t : Text) : Text :=
  substitute bareForm env (substitute bracedForm env (substitute processEnvForm env t))

theorem expand_eq_substituteAll (t : Text) (declared : VariableTable) (env : Environment) :
    expand t declared env = substituteAll env (declared.entries.foldl expandDeclared t) := rfl

/-! ## Where recognition starts -/

theorem startsAt_literally_braced (name value : Text) :
    Text.StartsAt (Text.literally (braced name) value) '$' := by
  intro c t hc
  have hnone : Text.dropFront? (braced name) (c :: t) = none := if_neg (Ne.symm hc)
  rw [Text.literally, Text.startsWith, hnone]
  rfl

theorem startsAt_bareOf (name value : Text) : Text.StartsAt (bareOf name value) '$' := by
  intro c t hc
  have hnone : Text.dropFront? (bare name) (c :: t) = none := if_neg (Ne.symm hc)
  rw [bareOf, hnone]

theorem startsAt_resolving {form : Form} {c : Char} (h : ∀ d t, d ≠ c → form (d :: t) = none)
    (env : Environment) : Text.StartsAt (resolving form env) c := by
  intro d t hd
  rw [resolving, h d t hd]
  rfl

theorem startsAt_processEnvForm (env : Environment) :
    Text.StartsAt (resolving processEnvForm env) '\x7b' := by
  refine startsAt_resolving (fun c t hc => ?_) env
  have hnone : Text.dropFront? "\x7bprocess.env." (c :: t) = none := if_neg (Ne.symm hc)
  rw [processEnvForm, enclosed, hnone]

theorem startsAt_bracedForm (env : Environment) : Text.StartsAt (resolving bracedForm env) '$' := by
  refine startsAt_resolving (fun c t hc => ?_) env
  have hnone : Text.dropFront? "$\x7b" (c :: t) = none := if_neg (Ne.symm hc)
  rw [bracedForm, enclosed, hnone]

theorem bareForm_of_ne {c : Char} (hc : c ≠ '$') (t : Text) : bareForm (c :: t) = none := by
  unfold bareForm
  split
  · next heq => exact absurd (List.cons.inj heq).1 hc
  · rfl

theorem startsAt_bareForm (env : Environment) : Text.StartsAt (resolving bareForm env) '$' :=
  startsAt_resolving (fun _ t hc => bareForm_of_ne hc t) env

theorem braced_append (name t : Text) :
    braced name ++ t = '$' :: (('\x7b' :: name ++ ['\x7d']) ++ t) := by
  simp [braced]

theorem enclosed_assoc (opening name t : Text) :
    opening ++ name ++ ("\x7d" : Text) ++ t = opening ++ (name ++ '\x7d' :: t) := by
  rw [List.append_assoc, List.append_assoc]
  rfl

/-! ## References that a pass passes over -/

section PassedOver

variable {recognise : Text.Recogniser} (hstart : Text.StartsAt recognise '$')
  (hname : IsIdentifier name)

include hstart hname

theorem replaceBy_braced_of_eq_none (hnone : recognise (braced name ++ t) = none) :
    Text.replaceBy recognise (braced name ++ t) = braced name ++ Text.replaceBy recognise t := by
  have hdollar : '$' ∉ '\x7b' :: name ++ ['\x7d'] := by
    simpa using hname.not_mem (c := '$') rfl
  rw [braced_append] at hnone ⊢
  rw [Text.replaceBy_cons_append_of_eq_none hstart hdollar hnone, braced_append]

theorem replaceBy_bare_of_eq_none (hnone : recognise (bare name ++ t) = none) :
    Text.replaceBy recognise (bare name ++ t) = bare name ++ Text.replaceBy recognise t :=
  Text.replaceBy_cons_append_of_eq_none hstart (hname.not_mem rfl) hnone

theorem replaceBy_processEnv (t : Text) :
    Text.replaceBy recognise (processEnv name ++ t) =
      processEnv name ++ Text.replaceBy recognise t := by
  have hdollar : '$' ∉ processEnv name := by
    unfold processEnv
    simp only [List.mem_append, not_or]
    exact ⟨⟨by decide, hname.not_mem rfl⟩, by decide⟩
  exact Text.replaceBy_append_of_not_mem hstart hdollar t

end PassedOver

/-! ## Declared variables: the pass for the braced form -/

/-- A braced reference starts with another one only if the names are the same. -/
theorem dropFront?_braced (hname : IsIdentifier name) (hother : IsIdentifier other) (t : Text) :
    Text.dropFront? (braced name) (braced other ++ t) = if other = name then some t else none := by
  split
  · next heq => rw [heq, Text.dropFront?_append]
  · next hne =>
      rw [Option.eq_none_iff_forall_ne_some]
      intro rest hrest
      rw [Text.dropFront?_eq_some_iff, braced_append, braced_append] at hrest
      simp only [List.cons_append, List.append_assoc, List.cons.injEq, true_and] at hrest
      exact hne (Text.eq_of_append_eq_append (c := '\x7d') (hother.not_mem rfl) (hname.not_mem rfl)
        (by simp) (by simp) hrest)

theorem dropFront?_braced_bare (hother : IsIdentifier other) (name t : Text) :
    Text.dropFront? (braced name) (bare other ++ t) = none := by
  obtain ⟨c, rest, rfl, hc⟩ := hother.exists_cons
  have hne := (ne_brace_of_isIdentifierStart hc).symm
  simp [braced, bare, Text.dropFront?, hne]

theorem replaceAll_braced (hname : IsIdentifier name) (hother : IsIdentifier other)
    (value t : Text) :
    Text.replaceAll (braced name) value (braced other ++ t) =
      (if other = name then value else braced other) ++ Text.replaceAll (braced name) value t := by
  have hfront := dropFront?_braced hname hother t
  split
  · next heq =>
      rw [if_pos heq, heq] at hfront
      rw [heq]
      refine Text.replaceBy_append_of_eq_some (by simp [braced]) ?_
      rw [Text.literally, Text.startsWith, hfront]
      rfl
  · next hne =>
      rw [if_neg hne] at hfront
      refine replaceBy_braced_of_eq_none (startsAt_literally_braced name value) hother ?_
      rw [Text.literally, Text.startsWith, hfront]
      rfl

theorem replaceAll_bare (hother : IsIdentifier other) (name value t : Text) :
    Text.replaceAll (braced name) value (bare other ++ t) =
      bare other ++ Text.replaceAll (braced name) value t := by
  refine replaceBy_bare_of_eq_none (startsAt_literally_braced name value) hother ?_
  rw [Text.literally, Text.startsWith, dropFront?_braced_bare hother]
  rfl

/-! ## Declared variables: the pass for the bare form -/

theorem replaceBare_braced (hname : IsIdentifier name) (hother : IsIdentifier other)
    (value t : Text) :
    replaceBare name value (braced other ++ t) = braced other ++ replaceBare name value t := by
  refine replaceBy_braced_of_eq_none (startsAt_bareOf name value) hother ?_
  obtain ⟨c, rest, rfl, hc⟩ := hname.exists_cons
  have hne := ne_brace_of_isIdentifierStart hc
  simp [bareOf, braced, bare, Text.dropFront?, hne]

/-- Characters of identifiers are found in front of the cut or not at all. -/
theorem dropFront?_append_of_bounded (hname : ∀ c ∈ name, isIdentifierChar c) (ht : Bounded t)
    (s : Text) : Text.dropFront? name (s ++ t) = (Text.dropFront? name s).map (· ++ t) := by
  induction name generalizing s with
  | nil => rfl
  | cons c name ih =>
      cases s with
      | cons d s =>
          simp only [List.cons_append, Text.dropFront?]
          split
          · exact ih (fun e he => hname e (List.mem_cons_of_mem c he)) s
          · rfl
      | nil =>
          cases t with
          | nil => rfl
          | cons d t =>
              have hne : c ≠ d := fun heq => ht d rfl (heq ▸ hname c List.mem_cons_self)
              exact if_neg hne

theorem bareOf_append (hname : IsIdentifier name) (value : Text) (ht : Bounded t) (hs : s ≠ []) :
    bareOf name value (s ++ t) = bareOf name value s := by
  obtain ⟨c, s, rfl⟩ := List.exists_cons_of_ne_nil hs
  have hfront : Text.dropFront? (bare name) (c :: s ++ t) =
      (Text.dropFront? (bare name) (c :: s)).map (· ++ t) := by
    simp only [bare, List.cons_append, Text.dropFront?]
    split
    · exact dropFront?_append_of_bounded hname.2 ht s
    · rfl
  have hhead (rest : Text) :
      (rest ++ t).head?.any isIdentifierChar = rest.head?.any isIdentifierChar := by
    cases rest with
    | cons d rest => rfl
    | nil => exact any_head?_of_bounded ht
  rw [bareOf, bareOf, hfront]
  cases Text.dropFront? (bare name) (c :: s) with
  | none => rfl
  | some rest => simp only [Option.map_some, hhead]

/-- The pass for a declared bare reference does not look beyond a cut behind which no identifier
goes on. -/
theorem replaceBare_append (hname : IsIdentifier name) (value s : Text) (ht : Bounded t) :
    replaceBare name value (s ++ t) = replaceBare name value s ++ replaceBare name value t := by
  refine Text.replaceBy_append
    (fun u hne _ => bareOf_append hname value ht hne) fun u _ found hfound => ?_
  rw [bareOf] at hfound
  cases hfront : Text.dropFront? (bare name) u with
  | none => simp [hfront] at hfound
  | some rest =>
      obtain rfl := Text.dropFront?_eq_some_iff.mp hfront
      have hcount : found.2 = (bare name).length := by
        rw [hfront] at hfound
        simp only [Option.mem_def] at hfound
        split at hfound <;> exact congrArg Prod.snd (Option.some.inj hfound).symm
      simp [hcount]

theorem replaceBare_bare (hname : IsIdentifier name) (hother : IsIdentifier other) (value : Text)
    (ht : Bounded t) :
    replaceBare name value (bare other ++ t) =
      (if other = name then value else bare other) ++ replaceBare name value t := by
  have hstart := startsAt_bareOf name value
  have hfront : Text.dropFront? (bare name) (bare other ++ t) =
      (Text.dropFront? name other).map (· ++ t) :=
    (if_pos rfl).trans (dropFront?_append_of_bounded hname.2 ht other)
  cases hrest : Text.dropFront? name other with
  | none =>
      have hne : other ≠ name := by
        rintro rfl
        simpa [hrest] using Text.dropFront?_append other []
      rw [hrest] at hfront
      rw [if_neg hne]
      refine replaceBy_bare_of_eq_none hstart hother ?_
      rw [bareOf, hfront]
      rfl
  | some rest =>
      rw [hrest] at hfront
      obtain rfl := Text.dropFront?_eq_some_iff.mp hrest
      cases rest with
      | nil =>
          rw [if_pos (List.append_nil name)]
          refine Text.replaceBy_append_of_eq_some (by simp [bare]) ?_
          rw [bareOf, hfront, List.append_nil]
          simp [any_head?_of_bounded ht]
      | cons c more =>
          -- the name is the front of a longer one, which is passed over
          have hc : isIdentifierChar c := hother.2 c (by simp)
          have hmore : '$' ∉ c :: more := fun hmem =>
            hother.not_mem rfl (List.mem_append_right name hmem)
          have hcut : bare (name ++ c :: more) ++ t = bare name ++ (c :: more ++ t) := by
            simp [bare]
          have hkept : bareOf name value (bare name ++ (c :: more ++ t)) =
              some (bare name, (bare name).length) := by
            rw [bareOf, Text.dropFront?_append]
            exact if_pos hc
          rw [if_neg (by simp), hcut, replaceBare,
            Text.replaceBy_append_of_eq_some (by simp [bare]) hkept,
            Text.replaceBy_append_of_not_mem hstart hmore]
          simp [bare, replaceBare]

/-! ## The environment -/

/-- What a pass for the environment makes of a reference of its form. -/
theorem substitute_append_of_eq_some {form : Form} {reference : Text} (hne : reference ≠ [])
    (h : form (reference ++ t) = some (name, reference.length)) :
    substitute form env (reference ++ t) =
      (env.value? name).getD reference ++ substitute form env t := by
  refine Text.replaceBy_append_of_eq_some hne ?_
  rw [resolving, h, Option.map_some]
  simp only [List.take_left]

theorem enclosed_append {opening : Text} (hne : name ≠ []) (hclose : '\x7d' ∉ name) (t : Text) :
    enclosed opening (opening ++ (name ++ '\x7d' :: t)) =
      some (name, opening.length + name.length + 1) := by
  have hname : ∀ c ∈ name, decide (c ≠ '\x7d') = true := by
    intro c hc
    simpa using fun heq : c = '\x7d' => hclose (heq ▸ hc)
  have htake : (name ++ '\x7d' :: t).takeWhile (· ≠ '\x7d') = name := by
    rw [List.takeWhile_append_of_pos hname, List.takeWhile_cons_of_neg (by simp), List.append_nil]
  have hdrop : (name ++ '\x7d' :: t).dropWhile (· ≠ '\x7d') = '\x7d' :: t := by
    rw [List.dropWhile_append_of_pos hname, List.dropWhile_cons_of_neg (by simp)]
  rw [enclosed, Text.dropFront?_append]
  simp only [htake, hdrop]
  simp [hne]

/-- A reference that ends with a brace gives way to the value of its variable, or stays. -/
theorem substitute_enclosed {opening : Text} (hname : IsIdentifier name) (env : Environment)
    (t : Text) :
    substitute (enclosed opening) env (opening ++ name ++ ("\x7d" : Text) ++ t) =
      (env.value? name).getD (opening ++ name ++ ("\x7d" : Text)) ++
        substitute (enclosed opening) env t := by
  refine substitute_append_of_eq_some (by simp) ?_
  rw [enclosed_assoc, enclosed_append hname.ne_nil (hname.not_mem rfl)]
  simp [Nat.add_assoc]

/-! ## The environment: the pass for the environment form -/

theorem substitute_processEnvForm_of_not_mem (env : Environment) (h : '\x7b' ∉ s) (t : Text) :
    substitute processEnvForm env (s ++ t) = s ++ substitute processEnvForm env t :=
  Text.replaceBy_append_of_not_mem (startsAt_processEnvForm env) h t

theorem substitute_processEnvForm_processEnv (hname : IsIdentifier name) (env : Environment)
    (t : Text) :
    substitute processEnvForm env (processEnv name ++ t) =
      (env.value? name).getD (processEnv name) ++ substitute processEnvForm env t :=
  substitute_enclosed hname env t

theorem substitute_processEnvForm_braced (hname : IsIdentifier name) (env : Environment)
    (t : Text) :
    substitute processEnvForm env (braced name ++ t) =
      braced name ++ substitute processEnvForm env t := by
  have hdollar : ∀ u, substitute processEnvForm env ('$' :: u) =
      '$' :: substitute processEnvForm env u :=
    substitute_processEnvForm_of_not_mem env (s := ['$']) (by decide)
  have hbehind : '\x7b' ∉ name ++ ['\x7d'] := by
    simpa using hname.not_mem (c := '\x7b') rfl
  -- an identifier has no dot, so what follows the opening brace is not `process.env.`
  have hnone : processEnvForm ('\x7b' :: (name ++ ['\x7d'] ++ t)) = none := by
    have hfront : Text.dropFront? "process.env." (name ++ '\x7d' :: t) = none :=
      Text.dropFront?_append_cons_eq_none (by decide)
        (Text.dropFront?_eq_none_of_not_mem (c := '.') (by decide) (hname.not_mem rfl)) t
    have hopening :
        Text.dropFront? "\x7bprocess.env." ('\x7b' :: (name ++ ['\x7d'] ++ t)) = none := by
      rw [List.append_assoc]
      exact hfront
    rw [processEnvForm, enclosed, hopening]
  rw [braced_append, hdollar, List.append_assoc, List.cons_append, ← List.append_assoc]
  rw [substitute, Text.replaceBy_cons_append_of_eq_none (startsAt_processEnvForm env) hbehind
    (by rw [resolving, hnone, Option.map_none]), braced_append]
  simp [substitute]

theorem substitute_processEnvForm_bare (hname : IsIdentifier name) (env : Environment) (t : Text) :
    substitute processEnvForm env (bare name ++ t) = bare name ++ substitute processEnvForm env t :=
  substitute_processEnvForm_of_not_mem env (by simpa [bare] using hname.not_mem (c := '\x7b') rfl) t

/-! ## The environment: the pass for the braced form -/

theorem substitute_bracedForm_braced (hname : IsIdentifier name) (env : Environment) (t : Text) :
    substitute bracedForm env (braced name ++ t) =
      (env.value? name).getD (braced name) ++ substitute bracedForm env t :=
  substitute_enclosed hname env t

theorem substitute_bracedForm_bare (hname : IsIdentifier name) (env : Environment) (t : Text) :
    substitute bracedForm env (bare name ++ t) = bare name ++ substitute bracedForm env t := by
  refine replaceBy_bare_of_eq_none (startsAt_bracedForm env) hname ?_
  obtain ⟨c, rest, rfl, hc⟩ := hname.exists_cons
  have hne := (ne_brace_of_isIdentifierStart hc).symm
  simp [resolving, bracedForm, enclosed, bare, Text.dropFront?, hne]

/-! ## The environment: the pass for the bare form -/

theorem length_le_of_bareForm_eq_some {found : Text × Nat} (h : bareForm s = some found) :
    found.2 ≤ s.length := by
  unfold bareForm at h
  dsimp only at h
  split at h
  · split at h
    · cases h
      simpa using (List.takeWhile_sublist _).length_le
    · cases h
  · cases h

theorem bareForm_append (ht : Bounded t) (hs : s ≠ []) : bareForm (s ++ t) = bareForm s := by
  obtain ⟨c, s, rfl⟩ := List.exists_cons_of_ne_nil hs
  by_cases hc : c = '$'
  · subst hc
    simp only [List.cons_append, bareForm, takeWhile_append_of_bounded ht]
  · rw [List.cons_append, bareForm_of_ne hc, bareForm_of_ne hc]

theorem substitute_bareForm_append (env : Environment) (s : Text) (ht : Bounded t) :
    substitute bareForm env (s ++ t) = substitute bareForm env s ++ substitute bareForm env t := by
  refine Text.replaceBy_append (fun u hne _ => ?_) fun u _ found hfound => ?_
  · rw [resolving, resolving, bareForm_append ht hne]
    cases hform : bareForm u with
    | none => rfl
    | some found =>
        simp only [Option.map_some,
          List.take_append_of_le_length (length_le_of_bareForm_eq_some hform)]
  · obtain ⟨reference, hform, rfl⟩ := Option.map_eq_some_iff.mp hfound
    have hle := length_le_of_bareForm_eq_some hform
    exact hle

theorem substitute_bareForm_bare (hname : IsIdentifier name) (env : Environment) (ht : Bounded t) :
    substitute bareForm env (bare name ++ t) =
      (env.value? name).getD (bare name) ++ substitute bareForm env t := by
  refine substitute_append_of_eq_some (by simp [bare]) ?_
  rw [bare, List.cons_append, bareForm]
  simp only [takeWhile_isIdentifierChar hname.2 ht, hname.1, if_true, List.length_cons]

theorem substitute_bareForm_braced (hname : IsIdentifier name) (env : Environment) (t : Text) :
    substitute bareForm env (braced name ++ t) = braced name ++ substitute bareForm env t := by
  refine replaceBy_braced_of_eq_none (startsAt_bareForm env) hname ?_
  rw [braced_append, resolving, bareForm]
  simp [isIdentifierChar]

end Reference

end Runbook
