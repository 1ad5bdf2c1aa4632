import Runbook.Proofs.Reference.Passes
import Runbook.Proofs.Reference.Plain

/-!
# With braces and without

A reference with braces and one without are resolved in different passes, the braced one first.  So
the value of the braced one is read once more by the pass for the bare form that comes next, and the
value of the bare one is not.  That is the whole difference (`expand_braced_bare`):

* a declared value is put in with its own bare references to itself resolved once;
* a value of the environment is put in with its bare references to the environment resolved;
* without a value, each reference stays as it is written.

All texts below have the reference in the middle.  What stands around it is kept by every pass
(`replaceBy_around`), and it cannot become part of a reference in the value, because no identifier
goes on behind the cut (`replaceBare_append`, `substitute_bareForm_append`).
-/

namespace Runbook.Reference

variable {name other value s t before behind : Text} {declared : VariableTable} {env : Environment}

/-! ## What stands around a reference -/

/-- Texts around a reference that take no part in it: they mention no variable, and the one behind
does not go on with an identifier. -/
structure Around (before behind : Text) : Prop where
  plain_before : ¬ Mentions before
  plain_behind : ¬ Mentions behind
  bounded : Bounded behind

/-- The declaration has nothing to do with the reference, whatever its form is. -/
def PassesOver (before name behind : Text) (e : Text × Text) : Prop :=
  expandDeclared (before ++ braced name ++ behind) e = before ++ braced name ++ behind ∧
    expandDeclared (before ++ bare name ++ behind) e = before ++ bare name ++ behind

section Around

variable (h : Around before behind)

include h

/-- What stands around is kept by a pass that recognises references by their dollar sign. -/
theorem replaceBy_around {recognise : Text.Recogniser} (hstart : Text.StartsAt recognise '$')
    (hmiddle : Text.replaceBy recognise (s ++ behind) = t ++ Text.replaceBy recognise behind) :
    Text.replaceBy recognise (before ++ s ++ behind) = before ++ t ++ behind := by
  have hbefore : '$' ∉ before := fun hmem => h.plain_before (mentions_of_mem hmem)
  have hbehind : '$' ∉ behind := fun hmem => h.plain_behind (mentions_of_mem hmem)
  have hkept : Text.replaceBy recognise behind = behind := by
    simpa using Text.replaceBy_append_of_not_mem hstart hbehind []
  rw [List.append_assoc, Text.replaceBy_append_of_not_mem hstart hbefore, hmiddle, hkept,
    List.append_assoc]

/-- The pass for the environment form recognises nothing. It would have to do so in front of the
dollar sign, since no name of a reference holds what this form starts with. -/
theorem substitute_processEnvForm_around {reference : Text}
    (hmiddle : substitute processEnvForm env ('$' :: reference ++ behind) =
      '$' :: reference ++ substitute processEnvForm env behind) :
    substitute processEnvForm env (before ++ '$' :: reference ++ behind) =
      before ++ '$' :: reference ++ behind := by
  have hbefore (u : Text) (hu : u <:+ before) :
      resolving processEnvForm env (u ++ ('$' :: reference ++ behind)) = none := by
    have hfront : Text.dropFront? "\x7bprocess.env." u = none :=
      dropFront?_processEnv h.plain_before hu
    have hnone : Text.dropFront? "\x7bprocess.env." (u ++ ('$' :: reference ++ behind)) = none :=
      Text.dropFront?_append_cons_eq_none (by decide) hfront _
    rw [resolving, processEnvForm, enclosed, hnone, Option.map_none]
  have hkept : substitute processEnvForm env behind = behind :=
    substitute_eq_self env fun u hu => processEnvForm_eq_none h.plain_behind hu
  rw [List.append_assoc, substitute, Text.replaceBy_append_of_eq_none fun u _ hu => hbefore u hu,
    ← substitute, hmiddle, hkept]

theorem replaceBare_around (hname : IsIdentifier name) (value s : Text) :
    replaceBare name value (before ++ s ++ behind) = before ++ replaceBare name value s ++ behind :=
  replaceBy_around h (startsAt_bareOf name value) (replaceBare_append hname value s h.bounded)

/-! ## Declared variables -/

/-- Only the declaration of its name changes a reference. -/
theorem passesOver_of_ne {e : Text × Text} (he : IsIdentifier e.1) (hname : IsIdentifier name)
    (hne : name ≠ e.1) : PassesOver before name behind e := by
  have hstart := startsAt_literally_braced e.1 e.2
  have hstart' := startsAt_bareOf e.1 e.2
  have hbraced := replaceAll_braced he hname e.2 behind
  have hbare := replaceBare_bare he hname e.2 h.bounded
  rw [if_neg hne] at hbraced hbare
  constructor
  · rw [expandDeclared, Text.replaceAll, replaceBy_around h hstart hbraced]
    exact replaceBy_around h hstart' (replaceBare_braced he hname e.2 behind)
  · rw [expandDeclared, Text.replaceAll,
      replaceBy_around h hstart (replaceAll_bare hname e.1 e.2 behind)]
    exact replaceBy_around h hstart' hbare

/-- The pass for the bare form reads the value that the braced form has given way to. -/
theorem expandDeclared_braced_around (hname : IsIdentifier name) (value : Text) :
    expandDeclared (before ++ braced name ++ behind) (name, value) =
      before ++ replaceBare name value value ++ behind := by
  have hput := replaceAll_braced hname hname value behind
  rw [if_pos rfl] at hput
  rw [expandDeclared, Text.replaceAll,
    replaceBy_around h (startsAt_literally_braced name value) hput, replaceBare_around h hname]

theorem expandDeclared_bare_around (hname : IsIdentifier name) (value : Text) :
    expandDeclared (before ++ bare name ++ behind) (name, value) = before ++ value ++ behind := by
  have hkept := replaceAll_bare hname name value behind
  have hput := replaceBare_bare hname hname value h.bounded
  rw [if_pos rfl] at hput
  rw [expandDeclared, Text.replaceAll,
    replaceBy_around h (startsAt_literally_braced name value) hkept]
  exact replaceBy_around h (startsAt_bareOf name value) hput

/-! ## The environment -/

/-- The pass for the bare form reads the value that the braced form has given way to. -/
theorem substituteAll_braced_around (hname : IsIdentifier name) (env : Environment) :
    substituteAll env (before ++ braced name ++ behind) =
      before ++ ((env.value? name).map (substitute bareForm env)).getD (braced name) ++ behind := by
  have hprocess : substitute processEnvForm env (before ++ braced name ++ behind) =
      before ++ braced name ++ behind :=
    substitute_processEnvForm_around h (substitute_processEnvForm_braced hname env behind)
  have hbraced : substitute bracedForm env (before ++ braced name ++ behind) =
      before ++ (env.value? name).getD (braced name) ++ behind :=
    replaceBy_around h (startsAt_bracedForm env) (substitute_bracedForm_braced hname env behind)
  have hstart := startsAt_bareForm env
  rw [substituteAll, hprocess, hbraced]
  cases env.value? name with
  | some value => exact replaceBy_around h hstart (substitute_bareForm_append env value h.bounded)
  | none => exact replaceBy_around h hstart (substitute_bareForm_braced hname env behind)

theorem substituteAll_bare_around (hname : IsIdentifier name) (env : Environment) :
    substituteAll env (before ++ bare name ++ behind) =
      before ++ (env.value? name).getD (bare name) ++ behind := by
  have hprocess : substitute processEnvForm env (before ++ bare name ++ behind) =
      before ++ bare name ++ behind :=
    substitute_processEnvForm_around h (substitute_processEnvForm_bare hname env behind)
  have hbraced : substitute bracedForm env (before ++ bare name ++ behind) =
      before ++ bare name ++ behind :=
    replaceBy_around h (startsAt_bracedForm env) (substitute_bracedForm_bare hname env behind)
  rw [substituteAll, hprocess, hbraced]
  exact replaceBy_around h (startsAt_bareForm env) (substitute_bareForm_bare hname env h.bounded)

/-! ## Both forms -/

/-- The declaration of the name makes of the braced form what a declaration of its value with the
references to itself resolved makes of the bare form. -/
theorem foldl_expandDeclared_braced {entries : List (Text × Text)} (hname : IsIdentifier name)
    (hfront : ∀ e ∈ entries.takeWhile (·.1 ≠ name), PassesOver before name behind e)
    (hvalue : Table.lookup name entries = some value) :
    entries.foldl expandDeclared (before ++ braced name ++ behind) =
      (Table.put name (replaceBare name value value) entries).foldl expandDeclared
        (before ++ bare name ++ behind) := by
  induction entries with
  | nil => cases hvalue
  | cons e rest ih =>
      obtain ⟨other, value'⟩ := e
      by_cases heq : other = name
      · -- both texts become the same one, and the rest of the declarations go on from it
        obtain rfl : value' = value := by simpa [Table.lookup, heq] using hvalue
        rw [Table.put, if_pos heq, heq, List.foldl_cons, List.foldl_cons,
          expandDeclared_braced_around h hname, expandDeclared_bare_around h hname]
      · rw [List.takeWhile_cons_of_pos (by simpa using heq)] at hfront
        obtain ⟨⟨hbraced, hbare⟩, hrest⟩ := List.forall_mem_cons.mp hfront
        rw [Table.lookup, if_neg heq] at hvalue
        rw [Table.put, if_neg heq, List.foldl_cons, List.foldl_cons, hbraced, hbare]
        exact ih hrest hvalue

end Around

theorem foldl_expandDeclared_of_passesOver {entries : List (Text × Text)}
    (hentries : ∀ e ∈ entries, PassesOver before name behind e) :
    entries.foldl expandDeclared (before ++ braced name ++ behind) =
      before ++ braced name ++ behind ∧
      entries.foldl expandDeclared (before ++ bare name ++ behind) =
        before ++ bare name ++ behind := by
  induction entries with
  | nil => exact ⟨rfl, rfl⟩
  | cons e rest ih =>
      obtain ⟨⟨hbraced, hbare⟩, hrest⟩ := List.forall_mem_cons.mp hentries
      rw [List.foldl_cons, List.foldl_cons, hbraced, hbare]
      exact ih hrest

/-- In front of a name that is not declared stand all declarations. -/
theorem takeWhile_of_get?_eq_none (h : declared.get? name = none) :
    declared.entries.takeWhile (·.1 ≠ name) = declared.entries := by
  rw [List.takeWhile_eq_self_iff]
  intro e he
  have hkey : name ∉ declared.keys := by
    rw [Table.mem_keys_iff, h]
    exact Bool.false_ne_true
  simpa using fun heq : e.1 = name => hkey (heq ▸ List.mem_map_of_mem he)

theorem braced_ne_bare (hname : IsIdentifier name) : braced name ≠ bare name := by
  intro heq
  have hmem : '\x7b' ∈ name := by
    rw [← (List.cons.inj heq).2]
    exact List.mem_cons_self
  exact hname.not_mem rfl hmem

/-- **Where braces make a difference.** The declarations in front of the one of the name are only
asked not to match a part of the reference, as odd names could. -/
theorem expand_braced_bare (h : Around before behind) (hname : IsIdentifier name)
    (hfront : ∀ e ∈ declared.entries.takeWhile (·.1 ≠ name),
      IsIdentifier e.1 ∨ PassesOver before name behind e) :
    (∀ value, declared.get? name = some value →
      expand (before ++ braced name ++ behind) declared env =
        expand (before ++ bare name ++ behind)
          (declared.insert name (replaceBare name value value)) env) ∧
    (∀ value, declared.get? name = some value → replaceBare name value value = value →
      expand (before ++ braced name ++ behind) declared env =
        expand (before ++ bare name ++ behind) declared env) ∧
    (declared.get? name = none →
      (expand (before ++ braced name ++ behind) declared env =
        expand (before ++ bare name ++ behind) declared env ↔
          ∃ value, env.value? name = some value ∧ substitute bareForm env value = value)) := by
  have hover : ∀ e ∈ declared.entries.takeWhile (·.1 ≠ name), PassesOver before name behind e := by
    intro e he
    have hne : e.1 ≠ name := by simpa using List.mem_takeWhile_imp he
    exact (hfront e he).elim (fun hother => passesOver_of_ne h hother hname hne.symm) id
  have hdeclared : ∀ value, declared.get? name = some value →
      expand (before ++ braced name ++ behind) declared env =
        expand (before ++ bare name ++ behind)
          (declared.insert name (replaceBare name value value)) env := by
    intro value hvalue
    rw [expand_eq_substituteAll, expand_eq_substituteAll,
      foldl_expandDeclared_braced h hname hover hvalue]
    rfl
  refine ⟨hdeclared, fun value hvalue hself => ?_, fun hnone => ?_⟩
  · rw [hdeclared value hvalue, hself, Table.insert_of_get? hvalue]
  · rw [takeWhile_of_get?_eq_none hnone] at hover
    obtain ⟨hbraced, hbare⟩ := foldl_expandDeclared_of_passesOver hover
    rw [expand_eq_substituteAll, expand_eq_substituteAll, hbraced, hbare,
      substituteAll_braced_around h hname, substituteAll_bare_around h hname,
      List.append_cancel_right_eq, List.append_cancel_left_eq]
    cases env.value? name with
    | some value => simp
    | none => simpa using braced_ne_bare hname

/-- A search path that is declared as a longer one. With braces it grows twice. -/
theorem expand_braced_bare_of_path :
    let declared : VariableTable := .ofList [("TOOLS", "/opt/bin"), ("PATH", "$PATH:$TOOLS")]
    let env := Environment.ofPairs [("PATH", "/usr/bin")]
    Around "PATH=" ":/bin" ∧ IsIdentifier "PATH" ∧
    declared.get? "PATH" = some "$PATH:$TOOLS".toList ∧
      (∀ e ∈ declared.entries.takeWhile (·.1 ≠ "PATH".toList), IsIdentifier e.1) ∧
      expand ("PATH=" ++ braced "PATH" ++ ":/bin") declared env =
        expand ("PATH=" ++ bare "PATH" ++ ":/bin")
          (declared.insert "PATH" "$PATH:$TOOLS:$TOOLS") env ∧
      expand ("PATH=" ++ bare "PATH" ++ ":/bin")
        (declared.insert "PATH" "$PATH:$TOOLS:$TOOLS") env =
        "PATH=/usr/bin:$TOOLS:$TOOLS:/bin" := by
  intro declared env
  have haround : Around "PATH=" ":/bin" :=
    ⟨by unfold Mentions; decide, by unfold Mentions; decide, by decide⟩
  have hvalue : declared.get? "PATH" = some "$PATH:$TOOLS".toList := by decide
  have hfront : ∀ e ∈ declared.entries.takeWhile (·.1 ≠ "PATH".toList), IsIdentifier e.1 := by
    decide
  have hself : replaceBare "PATH" "$PATH:$TOOLS" "$PATH:$TOOLS" = "$PATH:$TOOLS:$TOOLS" := by decide
  have hforms := @expand_braced_bare "PATH" "PATH=" ":/bin" declared env haround (by decide)
    fun e he => .inl (hfront e he)
  exact ⟨haround, by decide, hvalue, hfront, hself ▸ hforms.1 _ hvalue, by decide⟩

/-- **The forms differ** where a declared value refers to itself, where a value of the environment
refers to the environment, where there is no value, and where an odd name matches the braces. -/
theorem expand_braced_ne_bare :
    let path : VariableTable := .ofList [("PATH", "$PATH:/opt/bin")]
    let odd : VariableTable := .ofList [("\x7bPATH\x7d", "odd")]
    let env := Environment.ofPairs [("PATH", "/usr/bin")]
    let nested := Environment.ofPairs [("PATH", "$HOME/bin"), ("HOME", "/root")]
    Around [] [] ∧ IsIdentifier "PATH" ∧
      (expand ([] ++ braced "PATH" ++ []) path env = "/usr/bin:/opt/bin:/opt/bin" ∧
        expand ([] ++ bare "PATH" ++ []) path env = "/usr/bin:/opt/bin") ∧
      (expand ([] ++ braced "PATH" ++ []) .empty nested = "/root/bin" ∧
        expand ([] ++ bare "PATH" ++ []) .empty nested = "$HOME/bin") ∧
      (expand ([] ++ braced "PATH" ++ []) .empty (.ofPairs []) = "$\x7bPATH\x7d" ∧
        expand ([] ++ bare "PATH" ++ []) .empty (.ofPairs []) = "$PATH") ∧
      (expand ([] ++ braced "PATH" ++ []) odd env = "odd" ∧
        expand ([] ++ bare "PATH" ++ []) odd env = "/usr/bin") := by
  intro path odd env nested
  have haround : Around [] [] := ⟨by unfold Mentions; decide, by unfold Mentions; decide, by decide⟩
  exact ⟨haround, by decide, ⟨by decide, by decide⟩, ⟨by decide, by decide⟩, ⟨by decide, by decide⟩,
    ⟨by decide, by decide⟩⟩

end Runbook.Reference
