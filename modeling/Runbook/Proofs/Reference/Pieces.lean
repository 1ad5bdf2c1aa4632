import Runbook.Proofs.Reference.Passes

/-!
# Texts built of pieces

A text is `Built` if it is made of literal text and references whose names are identifiers, where a
bare reference is complete: no identifier goes on behind it.  Each pass resolves the references of
one style and goes over such a text piece by piece (`Resolves`).

As long as all values are literal text, too, no pass leaves this shape, and what a pass makes of a
piece depends only on the piece (`Orderly`), except that a bare reference grows if what is put in
behind it goes on with its identifier.
-/

namespace Runbook.Reference

variable {name s t : Text} {pass : Text → Text}

/-! ## Pieces -/

/-- Literal text: it holds none of the characters that references are marked with. -/
def Clean (t : Text) : Prop := ∀ c ∈ t, c ≠ '$' ∧ c ≠ '\x7b' ∧ c ≠ '\x7d'

instance : DecidablePred Clean := fun t =>
  List.decidableBAll (fun c => c ≠ '$' ∧ c ≠ '\x7b' ∧ c ≠ '\x7d') t

theorem Clean.not_mem_dollar (h : Clean t) : '$' ∉ t := fun hmem => (h _ hmem).1 rfl

theorem Clean.not_mem_brace (h : Clean t) : '\x7b' ∉ t := fun hmem => (h _ hmem).2.1 rfl

theorem clean_of_isIdentifierChar (h : ∀ c ∈ t, isIdentifierChar c) : Clean t := by
  intro c hc
  have hchar := h c hc
  refine ⟨?_, ?_, ?_⟩ <;>
    · rintro rfl
      cases hchar

/-- A way to write a reference. -/
inductive Style where
  | braced
  | bare
  | processEnv
deriving DecidableEq, Repr

/-- The reference to a name, written in this style. -/
def Style.write : Style → Text → Text
  | .braced, name => Reference.braced name
  | .bare, name => Reference.bare name
  | .processEnv, name => Reference.processEnv name

/-- A piece of a command. -/
inductive Piece where
  | literal (t : Text)
  | reference (style : Style) (name : Text)
deriving DecidableEq, Repr

namespace Piece

/-- The piece as it is written. -/
def text : Piece → Text
  | literal t => t
  | reference style name => style.write name

/-- A literal is literal text, and the name of a reference is an identifier. -/
def WellFormed : Piece → Prop
  | literal t => Clean t
  | reference _ name => IsIdentifier name

instance : DecidablePred WellFormed
  | literal t => inferInstanceAs (Decidable (Clean t))
  | reference _ name => inferInstanceAs (Decidable (IsIdentifier name))

/-- The piece is complete where this text follows: no identifier goes on behind a bare reference. -/
def EndsAt : Piece → Text → Prop
  | reference .bare _, t => Bounded t
  | _, _ => True

theorem endsAt_nil (p : Piece) : p.EndsAt [] := by
  unfold EndsAt
  split
  · simp [Bounded]
  · trivial

theorem endsAt_of_ne_bare {p : Piece} (h : ∀ name, p ≠ reference .bare name) (t : Text) :
    p.EndsAt t := by
  unfold EndsAt
  split
  · exact absurd rfl (h _)
  · trivial

/-- The piece with its reference resolved, if it is one of this style to a name with a value. -/
def resolve (style : Style) (value? : Text → Option Text) : Piece → Text
  | literal t => t
  | reference s name => if s = style then (value? name).getD (s.write name) else s.write name

end Piece

/-- A text built of literals and complete references. -/
inductive Built : Text → Prop where
  | nil : Built []
  | piece {t : Text} (p : Piece) (wellFormed : p.WellFormed) (ends : p.EndsAt t) (rest : Built t) :
      Built (p.text ++ t)

/-! ## What a pass does to pieces -/

/-- The pass resolves the references of one style, piece by piece. -/
structure Resolves (pass : Text → Text) (style : Style) (value? : Text → Option Text) : Prop where
  nil : pass [] = []
  append {p : Piece} {t : Text} : p.WellFormed → p.EndsAt t →
    pass (p.text ++ t) = p.resolve style value? ++ pass t

theorem Resolves.piece {style : Style} {value? : Text → Option Text}
    (h : Resolves pass style value?) {p : Piece} (hp : p.WellFormed) :
    pass p.text = p.resolve style value? := by
  have happend := h.append hp p.endsAt_nil
  rwa [List.append_nil, h.nil, List.append_nil] at happend

theorem Resolves.literal {style : Style} {value? : Text → Option Text}
    (h : Resolves pass style value?) (hs : Clean s) : pass s = s :=
  h.piece (p := .literal s) hs

theorem Resolves.reference {style : Style} {value? : Text → Option Text}
    (h : Resolves pass style value?) (hname : IsIdentifier name) (written : Style) :
    pass (written.write name) =
      if written = style then (value? name).getD (written.write name) else written.write name :=
  h.piece (p := .reference written name) hname

/-- The values that a declaration gives to names. -/
def declaredValue? (name value : Text) (other : Text) : Option Text :=
  if other = name then some value else none

theorem resolves_replaceAll (hname : IsIdentifier name) (value : Text) :
    Resolves (Text.replaceAll (braced name) value) .braced (declaredValue? name value) where
  nil := rfl
  append := by
    intro p t hp _
    have hstart := startsAt_literally_braced name value
    cases p with
    | literal s => exact Text.replaceBy_append_of_not_mem hstart (Clean.not_mem_dollar hp) t
    | reference style other =>
        cases style with
        | braced =>
            refine (replaceAll_braced hname hp value t).trans ?_
            by_cases heq : other = name <;> simp [Piece.resolve, declaredValue?, Style.write, heq]
        | bare => exact replaceAll_bare hp name value t
        | processEnv => exact replaceBy_processEnv hstart hp t

theorem resolves_replaceBare (hname : IsIdentifier name) (value : Text) :
    Resolves (replaceBare name value) .bare (declaredValue? name value) where
  nil := rfl
  append := by
    intro p t hp ht
    have hstart := startsAt_bareOf name value
    cases p with
    | literal s => exact Text.replaceBy_append_of_not_mem hstart (Clean.not_mem_dollar hp) t
    | reference style other =>
        cases style with
        | braced => exact replaceBare_braced hname hp value t
        | bare =>
            refine (replaceBare_bare hname hp value ht).trans ?_
            by_cases heq : other = name <;> simp [Piece.resolve, declaredValue?, Style.write, heq]
        | processEnv => exact replaceBy_processEnv hstart hp t

theorem resolves_processEnvForm (env : Environment) :
    Resolves (substitute processEnvForm env) .processEnv env.value? where
  nil := rfl
  append := by
    intro p t hp _
    cases p with
    | literal s =>
        exact substitute_processEnvForm_of_not_mem env (Clean.not_mem_brace hp) t
    | reference style name =>
        cases style with
        | braced => exact substitute_processEnvForm_braced hp env t
        | bare => exact substitute_processEnvForm_bare hp env t
        | processEnv => exact substitute_processEnvForm_processEnv hp env t

theorem resolves_bracedForm (env : Environment) :
    Resolves (substitute bracedForm env) .braced env.value? where
  nil := rfl
  append := by
    intro p t hp _
    have hstart := startsAt_bracedForm env
    cases p with
    | literal s => exact Text.replaceBy_append_of_not_mem hstart (Clean.not_mem_dollar hp) t
    | reference style name =>
        cases style with
        | braced => exact substitute_bracedForm_braced hp env t
        | bare => exact substitute_bracedForm_bare hp env t
        | processEnv => exact replaceBy_processEnv hstart hp t

theorem resolves_bareForm (env : Environment) :
    Resolves (substitute bareForm env) .bare env.value? where
  nil := rfl
  append := by
    intro p t hp ht
    have hstart := startsAt_bareForm env
    cases p with
    | literal s => exact Text.replaceBy_append_of_not_mem hstart (Clean.not_mem_dollar hp) t
    | reference style name =>
        cases style with
        | braced => exact substitute_bareForm_braced hp env t
        | bare => exact substitute_bareForm_bare hp env ht
        | processEnv => exact replaceBy_processEnv hstart hp t

/-! ## Orderly passes -/

/-- A pass that keeps texts built: it treats each piece by itself, keeps literals, and keeps a
reference or replaces it by literal text. -/
structure Orderly (pass : Text → Text) : Prop where
  literal {s : Text} : Clean s → pass s = s
  kept {p : Piece} : p.WellFormed → pass p.text = p.text ∨ Clean (pass p.text)
  append {p : Piece} {t : Text} : p.WellFormed → p.EndsAt t →
    pass (p.text ++ t) = pass p.text ++ pass t

theorem Resolves.orderly {style : Style} {value? : Text → Option Text}
    (h : Resolves pass style value?)
    (hclean : ∀ name value, value? name = some value → Clean value) : Orderly pass where
  literal := h.literal
  kept := by
    intro p hp
    rw [h.piece hp]
    cases p with
    | literal s => exact .inl rfl
    | reference s name =>
        simp only [Piece.resolve, Piece.text]
        split
        · cases hvalue : value? name with
          | none => exact .inl rfl
          | some value => exact .inr (hclean name value hvalue)
        · exact .inl rfl
  append := fun hp ht => by rw [h.append hp ht, h.piece hp]

/-- Names that are identifiers, and values that are literal text. -/
structure Tame (declared : VariableTable) (env : Environment) : Prop where
  isIdentifier : ∀ e ∈ declared.entries, IsIdentifier e.1
  clean_declared : ∀ e ∈ declared.entries, Clean e.2
  clean_env : ∀ name value, env name = some value → Clean value

/-- The values of an environment given by pairs are those of the pairs. -/
theorem clean_of_ofPairs {pairs : List (Text × Text)} (h : ∀ e ∈ pairs, Clean e.2)
    (name value : Text)
    (hvalue : Environment.ofPairs pairs name = some value) : Clean value := by
  rw [Environment.ofPairs, Table.get?_ofList] at hvalue
  obtain ⟨e, he, rfl⟩ := Option.map_eq_some_iff.mp hvalue
  exact h e (List.mem_reverse.mp (List.mem_of_find?_eq_some he))

/-- A value that counts is one that is set. -/
theorem eq_some_of_value? {env : Environment} {value : Text} (h : env.value? name = some value) :
    env name = some value := by
  rw [Environment.value?] at h
  split at h
  · next set hset =>
      split at h
      · cases h
      · exact hset.trans h
  · cases h

theorem Tame.clean_value? {declared : VariableTable} {env : Environment} (h : Tame declared env)
    (name value : Text) (hvalue : env.value? name = some value) : Clean value :=
  h.clean_env name value (eq_some_of_value? hvalue)

theorem orderly_of_mem_passes {declared : VariableTable} {env : Environment} (h : Tame declared env)
    (hpass : pass ∈ passes declared env) : Orderly pass := by
  have hdeclared : ∀ e ∈ declared.entries, ∀ other value,
      declaredValue? e.1 e.2 other = some value → Clean value := by
    intro e he other value hvalue
    rw [declaredValue?] at hvalue
    split at hvalue
    · cases hvalue
      exact h.clean_declared e he
    · cases hvalue
  rcases List.mem_append.mp hpass with hpass | hpass
  · obtain ⟨e, he, hpass⟩ := List.mem_flatMap.mp hpass
    have hname := h.isIdentifier e he
    rcases List.mem_pair.mp hpass with rfl | rfl
    · exact (resolves_replaceAll hname e.2).orderly (hdeclared e he)
    · exact (resolves_replaceBare hname e.2).orderly (hdeclared e he)
  · simp only [List.mem_cons, List.not_mem_nil, or_false] at hpass
    rcases hpass with rfl | rfl | rfl
    · exact (resolves_processEnvForm env).orderly h.clean_value?
    · exact (resolves_bracedForm env).orderly h.clean_value?
    · exact (resolves_bareForm env).orderly h.clean_value?

end Runbook.Reference
