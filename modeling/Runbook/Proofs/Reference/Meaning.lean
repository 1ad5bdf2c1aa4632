import Runbook.Proofs.Reference.Adjacent

/-!
# What a command means

Piece by piece, a command means its literals and the values of the variables it refers to
(`Piece.meaning`).  The passes come to this meaning, whatever the number of declared variables is,
if no bare reference stands where a value could go on with its name (`expand_pieces`): then nothing
is swallowed, the pieces are expanded side by side, and each reference is resolved in one of the
passes and kept by all others.
-/

namespace Runbook.Reference

variable {name other value s t : Text} {declared : VariableTable} {env : Environment}

/-! ## Meanings -/

/-- What a piece stands for. A declared variable hides the environment even if its value is empty,
but not from the environment form; a reference to nothing stands for itself. -/
def Piece.meaning (declared : VariableTable) (env : Environment) : Piece → Text
  | .literal t => t
  | .reference .processEnv name => (env.value? name).getD (processEnv name)
  | .reference .braced name => ((declared.get? name).or (env.value? name)).getD (braced name)
  | .reference .bare name => ((declared.get? name).or (env.value? name)).getD (bare name)

/-- A bare reference comes last, or in front of a literal that does not go on with its name. -/
def Piece.ComesBefore : Piece → List Piece → Prop
  | .reference .bare _, .literal s :: _ => s ≠ [] ∧ Bounded s
  | .reference .bare _, .reference _ _ :: _ => False
  | _, _ => True

/-- Pieces that are well-formed, with something behind each bare reference that sets it apart. -/
def Separated : List Piece → Prop
  | [] => True
  | p :: rest => p.WellFormed ∧ p.ComesBefore rest ∧ Separated rest

instance : ∀ (p : Piece) (rest : List Piece), Decidable (p.ComesBefore rest)
  | .reference .bare _, .literal s :: _ => inferInstanceAs (Decidable (s ≠ [] ∧ Bounded s))
  | .reference .bare _, .reference _ _ :: _ => .isFalse id
  | .reference .bare _, [] => .isTrue trivial
  | .reference .braced _, _ | .reference .processEnv _, _ | .literal _, _ => .isTrue trivial

instance decidableSeparated : ∀ pieces : List Piece, Decidable (Separated pieces)
  | [] => .isTrue trivial
  | p :: rest =>
      have := decidableSeparated rest
      inferInstanceAs (Decidable (p.WellFormed ∧ p.ComesBefore rest ∧ Separated rest))

/-! ## One piece -/

theorem foldl_expandDeclared_of_clean {entries : List (Text × Text)}
    (hentries : ∀ e ∈ entries, IsIdentifier e.1) (hs : Clean s) :
    entries.foldl expandDeclared s = s := by
  induction entries with
  | nil => rfl
  | cons e rest ih =>
      obtain ⟨he, hrest⟩ := List.forall_mem_cons.mp hentries
      have hkept : expandDeclared s e = s := by
        rw [expandDeclared, (resolves_replaceAll he e.2).literal hs,
          (resolves_replaceBare he e.2).literal hs]
      rw [List.foldl_cons, hkept, ih hrest]

/-- A declaration is put in for its name in the braced and in the bare form. -/
theorem expandDeclared_write (hother : IsIdentifier other) (hvalue : Clean value)
    (hname : IsIdentifier name) (style : Style) :
    expandDeclared (style.write name) (other, value) =
      if other = name ∧ style ≠ .processEnv then value else style.write name := by
  have hbraced := (resolves_replaceAll hother value).reference hname style
  have hbare := (resolves_replaceBare hother value).reference hname style
  rw [expandDeclared, hbraced]
  by_cases heq : other = name
  · subst heq
    have hkept := (resolves_replaceBare hother value).literal hvalue
    cases style with
    | braced => simpa [declaredValue?] using hkept
    | bare => simpa [declaredValue?] using hbare
    | processEnv => simpa using hbare
  · have hnone : declaredValue? other value name = none := if_neg (Ne.symm heq)
    simpa [heq, hnone] using hbare

/-- Of all declarations, the first one of the name is put in. -/
theorem foldl_expandDeclared_write {entries : List (Text × Text)}
    (hentries : ∀ e ∈ entries, IsIdentifier e.1) (hvalues : ∀ e ∈ entries, Clean e.2)
    (hname : IsIdentifier name) (style : Style) :
    entries.foldl expandDeclared (style.write name) =
      if style = .processEnv then style.write name
      else (Table.lookup name entries).getD (style.write name) := by
  induction entries with
  | nil => simp [Table.lookup]
  | cons e rest ih =>
      obtain ⟨he, hrest⟩ := List.forall_mem_cons.mp hentries
      obtain ⟨hvalue, hvalues⟩ := List.forall_mem_cons.mp hvalues
      rw [List.foldl_cons, expandDeclared_write he hvalue hname, Table.lookup]
      by_cases hput : e.1 = name ∧ style ≠ .processEnv
      · rw [if_pos hput, if_neg hput.2, if_pos hput.1, foldl_expandDeclared_of_clean hrest hvalue,
          Option.getD_some]
      · rw [if_neg hput, ih hrest hvalues]
        by_cases hstyle : style = .processEnv
        · rw [if_pos hstyle, if_pos hstyle]
        · rw [if_neg hstyle, if_neg hstyle, if_neg fun heq => hput ⟨heq, hstyle⟩]

theorem substituteAll_of_clean (env : Environment) (hs : Clean s) : substituteAll env s = s := by
  rw [substituteAll, (resolves_processEnvForm env).literal hs, (resolves_bracedForm env).literal hs,
    (resolves_bareForm env).literal hs]

theorem substituteAll_write (henv : ∀ name value, env.value? name = some value → Clean value)
    (hname : IsIdentifier name) (style : Style) :
    substituteAll env (style.write name) = (env.value? name).getD (style.write name) := by
  have hprocess := resolves_processEnvForm env
  have hbraced := resolves_bracedForm env
  have hbare := resolves_bareForm env
  rw [substituteAll, hprocess.reference hname]
  cases hvalue : env.value? name with
  | none => simp [hbraced.reference hname, hbare.reference hname, hvalue]
  | some value =>
      have hclean : Clean value := henv name value hvalue
      cases style <;>
        simp [hbraced.reference hname, hbare.reference hname, hbraced.literal hclean,
          hbare.literal hclean, hvalue]

/-- **A reference by itself is expanded to its meaning.** -/
theorem expand_write (h : Tame declared env) (hname : IsIdentifier name) (style : Style) :
    expand (style.write name) declared env = (Piece.reference style name).meaning declared env := by
  have hdeclared := foldl_expandDeclared_write h.isIdentifier h.clean_declared hname style
  have henv := substituteAll_write h.clean_value? hname style
  rw [expand_eq_substituteAll, hdeclared]
  by_cases hstyle : style = .processEnv
  · subst hstyle
    exact henv
  have hmeaning : (Piece.reference style name).meaning declared env =
      ((declared.get? name).or (env.value? name)).getD (style.write name) := by
    cases style with
    | braced | bare => rfl
    | processEnv => exact absurd rfl hstyle
  rw [if_neg hstyle, hmeaning, Table.get?]
  cases hvalue : Table.lookup name declared.entries with
  | none => exact henv
  | some value =>
      -- the value is literal text, in which the environment has nothing to resolve
      exact substituteAll_of_clean env (h.clean_declared _ (Table.mem_of_lookup hvalue))

theorem expand_piece (h : Tame declared env) {p : Piece} (hp : p.WellFormed) :
    expand p.text declared env = p.meaning declared env := by
  cases p with
  | literal s =>
      have hs : Clean s := hp
      rw [Piece.text, Piece.meaning, expand_eq_substituteAll,
        foldl_expandDeclared_of_clean h.isIdentifier hs, substituteAll_of_clean env hs]
  | reference style name => exact expand_write h hp style

/-! ## Pieces side by side -/

theorem runAll_nil {passes : List (Text → Text)} (h : ∀ pass ∈ passes, Orderly pass) :
    runAll passes [] = [] := by
  induction passes with
  | nil => rfl
  | cons pass rest ih =>
      obtain ⟨hpass, hrest⟩ := List.forall_mem_cons.mp h
      rw [runAll, List.foldl_cons, hpass.nil]
      exact ih hrest

theorem runAll_literal_append {passes : List (Text → Text)} (h : ∀ pass ∈ passes, Orderly pass)
    (hs : Clean s) (t : Text) : runAll passes (s ++ t) = s ++ runAll passes t := by
  induction passes generalizing t with
  | nil => rfl
  | cons pass rest ih =>
      obtain ⟨hpass, hrest⟩ := List.forall_mem_cons.mp h
      rw [runAll, List.foldl_cons, hpass.literal_append hs]
      exact ih hrest (pass t)

/-- A piece that is no bare reference swallows nothing, and what the passes make of it does
neither. -/
theorem not_swallows_of_ne_bare {passes : List (Text → Text)} (h : ∀ pass ∈ passes, Orderly pass)
    {p : Piece} (hp : p.WellFormed) (hbare : ∀ name, p ≠ .reference .bare name) (t : Text) :
    ¬ Swallows passes p.text t := by
  induction passes generalizing p t with
  | nil => exact id
  | cons pass rest ih =>
      obtain ⟨hpass, hrest⟩ := List.forall_mem_cons.mp h
      rintro (⟨part, hopen, -⟩ | hswallows)
      · exact p.not_endsOpen hp hbare hopen
      · rcases hpass.kept hp with hkept | hclean
        · rw [hkept] at hswallows
          exact ih hrest hp hbare (pass t) hswallows
        · exact ih hrest (p := .literal _) hclean (by simp) (pass t) hswallows

/-- The text behind a bare reference that is set apart comes to begin with nothing of an
identifier. -/
theorem bounded_runAll_of_comesBefore {passes : List (Text → Text)}
    (h : ∀ pass ∈ passes, Orderly pass) {rest : List Piece} (hrest : Separated rest)
    (hbefore : (Piece.reference .bare name).ComesBefore rest) :
    Bounded (runAll passes (rest.flatMap Piece.text)) := by
  cases rest with
  | nil =>
      have hnil : runAll passes [] = [] := runAll_nil h
      simp [hnil, Bounded]
  | cons p rest =>
      cases p with
      | reference style name => exact hbefore.elim
      | literal s =>
          obtain ⟨hne, hbounded⟩ := hbefore
          obtain ⟨c, s, rfl⟩ := List.exists_cons_of_ne_nil hne
          rw [List.flatMap_cons, Piece.text, runAll_literal_append h hrest.1]
          exact fun d hd => hbounded d hd

/-- **Separated references mean what they say.** -/
theorem expand_pieces (h : Tame declared env) {pieces : List Piece} (hpieces : Separated pieces) :
    expand (pieces.flatMap Piece.text) declared env =
      pieces.flatMap (Piece.meaning declared env) := by
  have horderly : ∀ pass ∈ passes declared env, Orderly pass := fun pass hpass =>
    orderly_of_mem_passes h hpass
  induction pieces with
  | nil => exact expand_piece h (p := .literal []) (by simp [Piece.WellFormed, Clean])
  | cons p rest ih =>
      obtain ⟨hp, hbefore, hrest⟩ := hpieces
      have hswallows : ¬ Swallows (passes declared env) p.text (rest.flatMap Piece.text) := by
        -- a bare reference is kept apart by what follows, any other piece by its own end
        by_cases hbare : ∃ name, p = .reference .bare name
        · obtain ⟨name, rfl⟩ := hbare
          exact not_swallows_of_bounded horderly
            (bounded_runAll_of_comesBefore horderly hrest hbefore)
        · exact not_swallows_of_ne_bare horderly hp (not_exists.mp hbare) _
      have happend := runAll_append horderly (Built.of_piece hp) hswallows
      simp only [← expand_eq_runAll] at happend
      rw [List.flatMap_cons, happend, expand_piece h hp, ih hrest, List.flatMap_cons]

/-- A declared empty value hides the environment, one name is the front of another one, and a
reference to nothing stays. -/
theorem expand_pieces_of_names_with_one_front :
    let declared : VariableTable := .ofList [("A", ""), ("AB", "x y")]
    let env := Environment.ofPairs [("A", "hidden"), ("EMPTY", "")]
    let pieces : List Piece :=
      [.reference .bare "A", .literal "=", .reference .braced "A", .reference .braced "AB",
        .reference .bare "AB", .literal "/", .reference .processEnv "A", .reference .braced "EMPTY",
        .reference .processEnv "AB", .reference .bare "ABC"]
    Tame declared env ∧ Separated pieces ∧
      pieces.flatMap Piece.text =
        "$A=${A}${AB}$AB/{process.env.A}${EMPTY}{process.env.AB}$ABC" ∧
      expand (pieces.flatMap Piece.text) declared env =
        "=x yx y/hidden${EMPTY}{process.env.AB}$ABC" := by
  intro declared env pieces
  have htame : Tame declared env := ⟨by decide, by decide, clean_of_ofPairs (by decide)⟩
  have hpieces : Separated pieces := by decide
  exact ⟨htame, hpieces, by decide, (expand_pieces htame hpieces).trans (by decide)⟩

end Runbook.Reference
