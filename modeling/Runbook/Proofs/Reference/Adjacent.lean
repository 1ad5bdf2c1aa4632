import Runbook.Proofs.Reference.Pieces

/-!
# Adjacent texts

Two texts next to each other are not always expanded to their expansions next to each other.  Where
the first one ends with a bare reference and the second one has come to begin with a letter, a digit
or an underscore, a pass for bare references reads one longer name: the reference swallows its
neighbour.

`Swallows` follows the two texts, each by itself, through all passes and says whether this happens
and makes a difference.  It is the exact condition: the texts are expanded side by side through all
passes if and only if no pass swallows anything (`expand_append_of_not_swallows`).
-/

namespace Runbook.Reference

variable {name part front s t : Text} {pass : Text → Text}

/-! ## Open ends -/

/-- The text ends with a bare reference to this name, on which more of an identifier could
follow. -/
def EndsOpen (t name : Text) : Prop :=
  (∀ c ∈ name, isIdentifierChar c) ∧ ∃ front, t = front ++ bare name

/-- What the text begins with that could go on with an identifier. -/
def identifierRun (t : Text) : Text := t.takeWhile isIdentifierChar

theorem bounded_iff : Bounded t ↔ identifierRun t = [] := by
  cases t with
  | nil => simp [Bounded, identifierRun]
  | cons c t => simp [Bounded, identifierRun, List.takeWhile_cons]

theorem bounded_dropWhile (t : Text) : Bounded (t.dropWhile isIdentifierChar) := by
  intro c hc
  have hnot := List.head?_dropWhile_not isIdentifierChar t
  rw [Option.mem_def.mp hc] at hnot
  simpa using hnot

/-- An open end of two texts is one of the second, or reaches from the first over all of the
second. -/
theorem EndsOpen.append_cases (h : EndsOpen (front ++ t) name) :
    EndsOpen t name ∨ ∃ part, EndsOpen front part ∧ name = part ++ t := by
  obtain ⟨hname, before, hbefore⟩ := h
  rcases List.append_eq_append_iff.mp hbefore with ⟨more, rfl, hmore⟩ | ⟨more, rfl, hmore⟩
  · exact .inl ⟨hname, more, hmore⟩
  · cases more with
    | nil => exact .inl ⟨hname, [], hmore.symm⟩
    | cons c more =>
        obtain ⟨rfl, rfl⟩ := List.cons.inj hmore
        exact .inr ⟨more, ⟨fun c hc => hname c (List.mem_append_left t hc), before, rfl⟩, rfl⟩

theorem EndsOpen.append_left (h : EndsOpen t name) (front : Text) : EndsOpen (front ++ t) name := by
  obtain ⟨hname, before, rfl⟩ := h
  exact ⟨hname, front ++ before, (List.append_assoc ..).symm⟩

/-- Behind a front without an open end, only the text itself can end open. -/
theorem endsOpen_append_iff (h : ∀ part, ¬ EndsOpen front part) :
    EndsOpen (front ++ t) name ↔ EndsOpen t name := by
  refine ⟨fun hopen => ?_, fun hopen => hopen.append_left front⟩
  rcases hopen.append_cases with ht | ⟨part, hpart, -⟩
  · exact ht
  · exact absurd hpart (h part)

theorem endsOpen_append_cons_iff {c : Char} (hc : ¬ isIdentifierChar c) :
    EndsOpen (front ++ c :: t) name ↔ EndsOpen (c :: t) name := by
  refine ⟨fun hopen => ?_, fun hopen => hopen.append_left front⟩
  rcases hopen.append_cases with ht | ⟨part, -, rfl⟩
  · exact ht
  · exact absurd (hopen.1 c (by simp)) hc

theorem not_endsOpen_of_not_mem (h : '$' ∉ t) : ¬ EndsOpen t name := by
  rintro ⟨-, before, rfl⟩
  exact h (by simp [bare])

theorem not_endsOpen_enclosed (opening other : Text) :
    ¬ EndsOpen (opening ++ other ++ ("\x7d" : Text)) name := by
  rintro ⟨hname, before, hbefore⟩
  have hlast : (before ++ bare name).getLast? = some '\x7d' := by
    rw [← hbefore]
    exact List.getLast?_concat
  rw [List.getLast?_append, bare, List.getLast?_cons] at hlast
  cases hend : name.getLast? with
  | none => simp [hend] at hlast
  | some c =>
      have hc : c = '\x7d' := by simpa [hend] using hlast
      have hchar := hname c (List.mem_of_getLast? hend)
      rw [hc] at hchar
      cases hchar

theorem endsOpen_bare (hname : IsIdentifier name) : EndsOpen (bare name) part ↔ part = name := by
  constructor
  · rintro ⟨-, before, hbefore⟩
    cases before with
    | nil => exact (List.cons.inj hbefore).2.symm
    | cons c before =>
        have hmem : '$' ∈ name := by simp [(List.cons.inj hbefore).2, bare]
        exact absurd hmem (hname.not_mem rfl)
  · rintro rfl
    exact ⟨hname.2, [], rfl⟩

theorem Piece.not_endsOpen {p : Piece} (hp : p.WellFormed)
    (hbare : ∀ name, p ≠ .reference .bare name) :
    ¬ EndsOpen p.text part := by
  cases p with
  | literal s => exact not_endsOpen_of_not_mem (Clean.not_mem_dollar hp)
  | reference style name =>
      cases style with
      | bare => exact absurd rfl (hbare name)
      | braced | processEnv => exact not_endsOpen_enclosed _ name

/-! ## One pass -/

/-- The pass reads the open end of the first text together with what the second one begins with, and
does not come to the same as without it. -/
def SwallowsAt (pass : Text → Text) (s t : Text) : Prop :=
  ∃ name, EndsOpen s name ∧
    pass (bare (name ++ identifierRun t)) ≠ pass (bare name) ++ identifierRun t

theorem not_swallowsAt_of_bounded (h : Bounded t) : ¬ SwallowsAt pass s t := by
  rintro ⟨name, -, hne⟩
  rw [bounded_iff.mp h] at hne
  simp at hne

namespace Orderly

variable (h : Orderly pass)

include h

theorem nil : pass [] = [] := h.literal (s := []) (by simp [Clean])

theorem literal_append (hs : Clean s) (t : Text) : pass (s ++ t) = s ++ pass t := by
  have happend := h.append (p := .literal s) (t := t) hs trivial
  rwa [Piece.text, h.literal hs] at happend

/-- An orderly pass goes over a bare reference with all that goes on with its name. -/
theorem bare_append (hname : IsIdentifier name) (t : Text) :
    pass (bare name ++ t) =
      pass (bare (name ++ identifierRun t)) ++ pass (t.dropWhile isIdentifierChar) := by
  have hgrown : IsIdentifier (name ++ identifierRun t) :=
    hname.append fun c hc => List.mem_takeWhile_imp hc
  have hsplit :
      bare name ++ t = bare (name ++ identifierRun t) ++ t.dropWhile isIdentifierChar := by
    simp [bare, identifierRun, List.takeWhile_append_dropWhile]
  rw [hsplit]
  exact h.append (p := .reference .bare _) hgrown (bounded_dropWhile t)

theorem identifierRun_append (t : Text) :
    pass t = identifierRun t ++ pass (t.dropWhile isIdentifierChar) := by
  have hrun : Clean (identifierRun t) :=
    clean_of_isIdentifierChar fun c hc => List.mem_takeWhile_imp hc
  conv_lhs => rw [← List.takeWhile_append_dropWhile (p := isIdentifierChar) (l := t)]
  exact h.literal_append hrun _

/-- What stands behind the grown name is left over on both sides. -/
theorem bare_append_iff (hname : IsIdentifier name) (t : Text) :
    pass (bare name ++ t) = pass (bare name) ++ pass t ↔ ¬ SwallowsAt pass (bare name) t := by
  simp only [SwallowsAt, endsOpen_bare hname, exists_eq_left, not_not]
  rw [h.bare_append hname, h.identifierRun_append t, ← List.append_assoc,
    List.append_cancel_right_eq]

/-- **A pass treats two texts side by side** if and only if it swallows nothing where they meet. -/
theorem append_iff (hs : Built s) (t : Text) :
    pass (s ++ t) = pass s ++ pass t ↔ ¬ SwallowsAt pass s t := by
  induction hs with
  | nil =>
      have hopen : ¬ SwallowsAt pass [] t :=
        fun ⟨_, hends, _⟩ => not_endsOpen_of_not_mem (by simp) hends
      simp [hopen, h.nil]
  | @piece rest p hp hends hrest ih =>
      -- a piece that is complete where the rest and the second text follow is out of the way
      have hstep (hends' : p.EndsAt (rest ++ t))
          (hopen : ∀ name, EndsOpen (p.text ++ rest) name ↔ EndsOpen rest name) :
          pass (p.text ++ rest ++ t) = pass (p.text ++ rest) ++ pass t ↔
            ¬ SwallowsAt pass (p.text ++ rest) t := by
        simp only [SwallowsAt, hopen]
        rw [List.append_assoc, h.append hp hends', h.append hp hends, List.append_assoc,
          List.append_cancel_left_eq]
        exact ih
      by_cases hbare : ∃ name, p = .reference .bare name
      · obtain ⟨name, rfl⟩ := hbare
        cases rest with
        | nil =>
            rw [List.append_nil]
            exact h.bare_append_iff hp t
        | cons c rest =>
            have hc : ¬ isIdentifierChar c := hends c rfl
            exact hstep (fun d hd => hends d hd) fun part => endsOpen_append_cons_iff hc
      · rw [not_exists] at hbare
        exact hstep (Piece.endsAt_of_ne_bare hbare _) fun part =>
          endsOpen_append_iff fun part => p.not_endsOpen hp hbare

end Orderly

/-! ## Texts stay built -/

/-- What an identifier could go on with can be cut off a built text. -/
theorem Built.of_cons {c : Char} (h : Built (c :: t)) (hc : isIdentifierChar c) : Built t := by
  generalize htext : c :: t = u at h
  induction h with
  | nil => cases htext
  | @piece rest p hp hends hrest ih =>
      cases p with
      | literal s =>
          cases s with
          | nil => exact ih htext
          | cons d s =>
              obtain ⟨rfl, rfl⟩ := List.cons.inj htext
              exact .piece (.literal s) (fun e he => hp e (List.mem_cons_of_mem c he)) trivial hrest
      | reference style name =>
          -- a reference starts with one of the marks
          cases style <;>
            · obtain ⟨rfl, -⟩ := List.cons.inj htext
              cases hc

theorem Built.dropWhile (h : Built t) : Built (t.dropWhile isIdentifierChar) := by
  induction t with
  | nil => exact h
  | cons c t ih =>
      by_cases hc : isIdentifierChar c
      · rw [List.dropWhile_cons_of_pos hc]
        exact ih (h.of_cons hc)
      · rwa [List.dropWhile_cons_of_neg hc]

/-- Any piece may stand in front of a built text. A bare reference takes into its name what the text
begins with. -/
theorem Built.append_piece {p : Piece} (hp : p.WellFormed) (h : Built t) : Built (p.text ++ t) := by
  by_cases hbare : ∃ name, p = .reference .bare name
  · obtain ⟨name, rfl⟩ := hbare
    have hgrown : IsIdentifier (name ++ identifierRun t) :=
      IsIdentifier.append hp fun c hc => List.mem_takeWhile_imp hc
    have hbuilt := Built.piece (.reference .bare _) hgrown (bounded_dropWhile t) h.dropWhile
    have hsplit :
        bare (name ++ identifierRun t) ++ t.dropWhile isIdentifierChar = bare name ++ t := by
      simp [bare, identifierRun, List.takeWhile_append_dropWhile]
    exact hsplit ▸ hbuilt
  · rw [not_exists] at hbare
    exact .piece p hp (Piece.endsAt_of_ne_bare hbare t) h

theorem Orderly.built (h : Orderly pass) (hs : Built s) : Built (pass s) := by
  induction hs with
  | nil =>
      rw [h.nil]
      exact .nil
  | @piece rest p hp hends hrest ih =>
      rw [h.append hp hends]
      rcases h.kept hp with hkept | hclean
      · rw [hkept]
        exact ih.append_piece hp
      · exact ih.append_piece (p := .literal _) hclean

theorem Built.of_piece {p : Piece} (hp : p.WellFormed) : Built p.text := by
  simpa using Built.piece p hp p.endsAt_nil .nil

/-! ## All passes -/

/-- Some pass swallows something where the two texts meet, after the passes before it have gone over
each text by itself. -/
def Swallows : List (Text → Text) → Text → Text → Prop
  | [], _, _ => False
  | pass :: rest, s, t => SwallowsAt pass s t ∨ Swallows rest (pass s) (pass t)

/-- **Two texts are expanded side by side**, from pass to pass, if and only if no pass swallows
anything where they meet. -/
theorem runAll_append_iff {passes : List (Text → Text)} (h : ∀ pass ∈ passes, Orderly pass)
    (hs : Built s) :
    (∀ before, before <+: passes →
        runAll before (s ++ t) = runAll before s ++ runAll before t) ↔ ¬ Swallows passes s t := by
  induction passes generalizing s t with
  | nil => simp [Swallows, runAll]
  | cons pass rest ih =>
      have hpass : Orderly pass := h pass List.mem_cons_self
      have hrest := ih (s := pass s) (t := pass t) (fun p hp => h p (List.mem_cons_of_mem pass hp))
        (hpass.built hs)
      -- the first pass makes of both texts those that the other passes start from
      rw [Swallows, not_or, ← hpass.append_iff hs t, ← hrest]
      constructor
      · intro hall
        have hfirst : pass (s ++ t) = pass s ++ pass t := hall [pass] ⟨rest, rfl⟩
        refine ⟨hfirst, fun before hbefore => ?_⟩
        have hboth := hall (pass :: before) (List.cons_prefix_cons.mpr ⟨rfl, hbefore⟩)
        rwa [runAll, List.foldl_cons, hfirst] at hboth
      · rintro ⟨hfirst, hall⟩ before hbefore
        cases before with
        | nil => rfl
        | cons first before =>
            obtain ⟨rfl, hprefix⟩ := List.cons_prefix_cons.mp hbefore
            rw [runAll, List.foldl_cons, hfirst]
            exact hall before hprefix

theorem runAll_append {passes : List (Text → Text)} (h : ∀ pass ∈ passes, Orderly pass)
    (hs : Built s) (hswallows : ¬ Swallows passes s t) :
    runAll passes (s ++ t) = runAll passes s ++ runAll passes t :=
  (runAll_append_iff h hs).mpr hswallows passes (List.prefix_refl passes)

/-- A text that begins with a character of identifiers does so behind every pass. -/
theorem bounded_of_bounded_runAll {passes : List (Text → Text)} (h : ∀ pass ∈ passes, Orderly pass)
    (ht : Bounded (runAll passes t)) : Bounded t := by
  induction passes generalizing t with
  | nil => exact ht
  | cons pass rest ih =>
      have hpass : Bounded (pass t) := ih (fun p hp => h p (List.mem_cons_of_mem pass hp)) ht
      intro c hc hchar
      obtain ⟨u, rfl⟩ : ∃ u, t = c :: u := by
        cases t with
        | nil => cases hc
        | cons d u => exact ⟨u, by rw [Option.some.inj hc]⟩
      have hcons : pass (c :: u) = c :: pass u :=
        (h pass List.mem_cons_self).literal_append (s := [c])
          (clean_of_isIdentifierChar (by simpa using hchar)) u
      exact hpass c (by rw [hcons]; rfl) hchar

/-- Nothing is swallowed in front of a text that comes to begin with something else. -/
theorem not_swallows_of_bounded {passes : List (Text → Text)} (h : ∀ pass ∈ passes, Orderly pass)
    (ht : Bounded (runAll passes t)) : ¬ Swallows passes s t := by
  induction passes generalizing s t with
  | nil => exact id
  | cons pass rest ih =>
      have hrest := ih (s := pass s) (fun p hp => h p (List.mem_cons_of_mem pass hp)) ht
      have hfirst : ¬ SwallowsAt pass s t :=
        not_swallowsAt_of_bounded (bounded_of_bounded_runAll h ht)
      exact fun hswallows => hswallows.elim hfirst hrest

/-- **A bare reference swallows what a pass reads as part of its name, and nothing else.** -/
theorem expand_append_of_not_swallows {declared : VariableTable} {env : Environment}
    (h : Tame declared env) (hs : Built s) (t : Text) :
    ((∀ before, before <+: passes declared env →
        runAll before (s ++ t) = runAll before s ++ runAll before t) ↔
          ¬ Swallows (passes declared env) s t) ∧
      (¬ Swallows (passes declared env) s t →
        expand (s ++ t) declared env = expand s declared env ++ expand t declared env) ∧
      (Bounded (expand t declared env) →
        expand (s ++ t) declared env = expand s declared env ++ expand t declared env) := by
  have horderly : ∀ pass ∈ passes declared env, Orderly pass := fun pass hpass =>
    orderly_of_mem_passes h hpass
  have happend : ¬ Swallows (passes declared env) s t →
      expand (s ++ t) declared env = expand s declared env ++ expand t declared env := by
    intro hswallows
    simp only [expand_eq_runAll]
    exact runAll_append horderly hs hswallows
  refine ⟨runAll_append_iff horderly hs, happend, fun ht => happend ?_⟩
  rw [expand_eq_runAll] at ht
  exact not_swallows_of_bounded horderly ht

/-- Two bare references to the environment. Nothing is put in before the last pass, and the last
pass puts in both values at once. -/
theorem expand_append_of_two_bare :
    let env := Environment.ofPairs [("HOME", "/root"), ("SUFFIX", "X")]
    Tame .empty env ∧ Built "$HOME" ∧ ¬ Swallows (passes .empty env) "$HOME" "$SUFFIX" ∧
      expand ("$HOME" ++ "$SUFFIX" : Text) .empty env =
        expand "$HOME" .empty env ++ expand "$SUFFIX" .empty env ∧
      expand ("$HOME" ++ "$SUFFIX" : Text) .empty env = "/rootX" := by
  intro env
  have htame : Tame .empty env :=
    ⟨by simp [Table.empty], by simp [Table.empty], clean_of_ofPairs (by decide)⟩
  have hbuilt : Built "$HOME" := .of_piece (p := .reference .bare "HOME") (by decide)
  have hswallows : ¬ Swallows (passes .empty env) "$HOME" "$SUFFIX" := by
    rintro (hprocess | hbraced | hbare | hnone)
    · exact not_swallowsAt_of_bounded (by decide) hprocess
    · exact not_swallowsAt_of_bounded (by decide) hbraced
    · exact not_swallowsAt_of_bounded (by decide) hbare
    · exact hnone
  exact ⟨htame, hbuilt, hswallows, (expand_append_of_not_swallows htame hbuilt _).2.1 hswallows,
    by decide⟩

/-- **A value can be swallowed.** The variable behind the bare reference is declared, so its value
is put in first, and the reference to the environment has become one to another name. -/
theorem expand_append_swallowed :
    let declared : VariableTable := .ofList [("SUFFIX", "X")]
    let env := Environment.ofPairs [("HOME", "/root")]
    Tame declared env ∧ Built "$HOME" ∧ Built "$\x7bSUFFIX\x7d" ∧
      expand ("$HOME" ++ "$\x7bSUFFIX\x7d" : Text) declared env = "$HOMEX" ∧
      expand "$HOME" declared env ++ expand "$\x7bSUFFIX\x7d" declared env = "/rootX" := by
  intro declared env
  exact ⟨⟨by decide, by decide, clean_of_ofPairs (by decide)⟩,
    .of_piece (p := .reference .bare "HOME") (by decide),
    .of_piece (p := .reference .braced "SUFFIX") (by decide), by decide, by decide⟩

end Runbook.Reference
