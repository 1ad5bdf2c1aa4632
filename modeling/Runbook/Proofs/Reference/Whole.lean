import Runbook.Proofs.Reference.Passes
import Runbook.Proofs.Reference.Plain

/-!
# Replacing the bare form of one name

Whether the bare form of a name stands somewhere in a text as a whole reference, with no identifier
going on behind it, is a matter of the text and the place alone (`StandsAt`).  Replacing goes by
this: what it makes of a text can be said place by place of the text as it was (`replacedAt`).

Replacing is a loop.  It copies the text up to where the bare form occurs next, puts in the value if
the form is a whole reference and copies it if not, and goes on behind it with a text that is
shorter (`replaceBare_eq_of_splitOnce?`).  The text read in one round can be told apart from the
text behind, for the form starts with a dollar sign and a name without one cannot overlap it.
-/

namespace Runbook

namespace Text

variable {needle before rest s t : Text}

/-! ## The first occurrence -/

/-- The needle stands behind `before`, and nowhere in the text does it stand earlier. -/
theorem splitOnce?_eq_some (h : splitOnce? needle t = some (before, rest)) :
    t = before ++ (needle ++ rest) ∧
      ∀ place < before.length, dropFront? needle (t.drop place) = none := by
  induction t generalizing before with
  | nil =>
      obtain ⟨found, hfound, heq⟩ := Option.map_eq_some_iff.mp h
      cases heq
      have hneedle : [] = needle ++ rest := dropFront?_eq_some_iff.mp hfound
      exact ⟨hneedle, fun place hplace => absurd hplace (Nat.not_lt_zero place)⟩
  | cons c t ih =>
      rw [splitOnce?] at h
      cases hfront : dropFront? needle (c :: t) with
      | some found =>
          rw [hfront] at h
          cases h
          have hneedle : c :: t = needle ++ rest := dropFront?_eq_some_iff.mp hfront
          exact ⟨hneedle, fun place hplace => absurd hplace (Nat.not_lt_zero place)⟩
      | none =>
          rw [hfront] at h
          obtain ⟨⟨front, behind⟩, hfound, heq⟩ := Option.map_eq_some_iff.mp h
          cases heq
          obtain ⟨hcut, hfirst⟩ := ih hfound
          refine ⟨congrArg (c :: ·) hcut, fun place hplace => ?_⟩
          cases place with
          | zero => exact hfront
          | succ place => exact hfirst place (Nat.lt_of_succ_lt_succ hplace)

theorem dropFront?_drop_of_splitOnce?_eq_none (h : splitOnce? needle t = none) (place : Nat) :
    dropFront? needle (t.drop place) = none := by
  rw [Option.eq_none_iff_forall_ne_some]
  intro rest hrest
  rw [dropFront?_eq_some_iff] at hrest
  have hsplit : (splitOnce? needle t).isSome := by
    rw [splitOnce?_isSome_iff]
    exact ⟨t.take place, rest, by rw [← hrest, List.take_append_drop]⟩
  rw [h] at hsplit
  cases hsplit

/-- A text is what stands at its places. -/
theorem flatMap_range_getElem? (t : Text) :
    (List.range t.length).flatMap (fun i => t[i]?.toList) = t := by
  induction t with
  | nil => rfl
  | cons c t ih =>
      rw [List.length_cons, List.range_succ_eq_map, List.flatMap_cons, List.flatMap_map]
      exact congrArg (c :: ·) ih

end Text

namespace Reference

variable {name value s t : Text} {place start : Nat}

/-! ## The loop -/

theorem bareOf_bare_append (name value rest : Text) :
    bareOf name value (bare name ++ rest) =
      some (if Bounded rest then value else bare name, (bare name).length) := by
  rw [bareOf, Text.dropFront?_append]
  by_cases hrest : Bounded rest
  · simp [if_pos hrest, any_head?_of_bounded hrest]
  · have hgoes : rest.head?.any isIdentifierChar = true := by
      simp only [Bounded, not_forall, not_not] at hrest
      obtain ⟨c, hc, hchar⟩ := hrest
      rw [Option.mem_def.mp hc]
      exact hchar
    simp [if_neg hrest, hgoes]

/-- One round of replacing. -/
theorem replaceBare_eq_of_splitOnce? (name value t : Text) :
    replaceBare name value t =
      match Text.splitOnce? (bare name) t with
      | none => t
      | some (before, rest) =>
        before ++ ((if Bounded rest then value else bare name) ++ replaceBare name value rest) := by
  induction t with
  | nil => rfl
  | cons c t ih =>
      rw [Text.splitOnce?]
      cases hfront : Text.dropFront? (bare name) (c :: t) with
      | some rest =>
          rw [Text.dropFront?_eq_some_iff.mp hfront]
          exact Text.replaceBy_append_of_eq_some (List.cons_ne_nil _ _)
            (bareOf_bare_append name value rest)
      | none =>
          have hcopy : replaceBare name value (c :: t) = c :: replaceBare name value t := by
            rw [replaceBare, Text.replaceBy_cons, bareOf, hfront]
            rfl
          rw [hcopy, ih]
          cases Text.splitOnce? (bare name) t <;> rfl

/-- A round leaves a shorter text. -/
theorem length_lt_of_splitOnce? {before rest : Text}
    (h : Text.splitOnce? (bare name) t = some (before, rest)) : rest.length < t.length := by
  rw [(Text.splitOnce?_eq_some h).1]
  simp only [bare, List.length_append, List.length_cons]
  omega

/-! ## Places -/

/-- At this place, the text goes on with the bare form of the name, behind which no identifier goes
on. -/
def StandsAt (name t : Text) (place : Nat) : Prop :=
  ∃ rest, t.drop place = bare name ++ rest ∧ Bounded rest

/-- This place is behind the dollar sign of a whole reference and not yet behind the reference. -/
def LiesIn (name t : Text) (place : Nat) : Prop :=
  ∃ start, start < place ∧ place < start + (bare name).length ∧ StandsAt name t start

instance (name t : Text) : DecidablePred (StandsAt name t) := fun place =>
  decidable_of_iff (∃ rest ∈ Text.dropFront? (bare name) (t.drop place), Bounded rest) <| by
    simp only [StandsAt, Option.mem_def, Text.dropFront?_eq_some_iff]

instance (name t : Text) : DecidablePred (LiesIn name t) := fun place =>
  inferInstanceAs (Decidable
    (∃ start, start < place ∧ place < start + (bare name).length ∧ StandsAt name t start))

/-- What stands in the replaced text for a place of the text: the value for the start of a whole
reference, nothing for the rest of it, and the character that was there for any other place. -/
def replacedAt (name value t : Text) (place : Nat) : Text :=
  if StandsAt name t place then value else if LiesIn name t place then [] else t[place]?.toList

theorem getElem?_of_standsAt (h : StandsAt name t place) : t[place]? = some '$' := by
  obtain ⟨rest, hrest, -⟩ := h
  rw [← List.head?_drop, hrest]
  rfl

theorem not_standsAt_of_dropFront? (h : Text.dropFront? (bare name) (t.drop place) = none) :
    ¬ StandsAt name t place := by
  rintro ⟨rest, hrest, -⟩
  rw [hrest, Text.dropFront?_append] at h
  cases h

/-- Behind the dollar sign of an occurrence none starts before its end. -/
theorem not_standsAt_bare_append (hname : '$' ∉ name) (rest : Text) (hpos : 0 < place)
    (hlt : place < (bare name).length) : ¬ StandsAt name (bare name ++ rest) place := by
  intro h
  have hdollar := getElem?_of_standsAt h
  obtain ⟨place, rfl⟩ : ∃ n, place = n + 1 := ⟨place - 1, by omega⟩
  rw [List.getElem?_append_left hlt, bare, List.getElem?_cons_succ] at hdollar
  exact hname (List.mem_of_getElem? hdollar)

theorem standsAt_bare_append_zero {rest : Text} :
    StandsAt name (bare name ++ rest) 0 ↔ Bounded rest := by
  constructor
  · rintro ⟨rest', hrest, hbounded⟩
    rw [List.drop_zero] at hrest
    rwa [List.append_cancel_left hrest]
  · exact fun hbounded => ⟨rest, List.drop_zero, hbounded⟩

/-- Two whole references do not overlap. -/
theorem not_liesIn_of_standsAt (hname : '$' ∉ name) (h : StandsAt name t place) :
    ¬ LiesIn name t place := by
  rintro ⟨start, hlt, hend, rest, hrest, -⟩
  have hinside : ¬ StandsAt name (bare name ++ rest) (place - start) :=
    not_standsAt_bare_append hname rest (by omega) (by omega)
  obtain ⟨rest', hrest', hbounded⟩ := h
  refine hinside ⟨rest', ?_, hbounded⟩
  rw [← hrest, List.drop_drop, Nat.add_sub_cancel' (by omega), hrest']

/-! ## Cutting behind a round -/

theorem standsAt_append_add :
    StandsAt name (s ++ t) (s.length + place) ↔ StandsAt name t place := by
  rw [StandsAt, List.drop_append, List.drop_eq_nil_of_le (by omega), List.nil_append,
    Nat.add_sub_cancel_left, StandsAt]

/-- The cut does not go through a whole reference. -/
def CutsNone (name s t : Text) : Prop :=
  ∀ start < s.length, StandsAt name (s ++ t) start → start + (bare name).length ≤ s.length

theorem liesIn_append_add (h : CutsNone name s t) :
    LiesIn name (s ++ t) (s.length + place) ↔ LiesIn name t place := by
  constructor
  · rintro ⟨start, hlt, hend, hstands⟩
    by_cases hfront : start < s.length
    · have := h start hfront hstands
      omega
    · obtain ⟨more, rfl⟩ := Nat.exists_eq_add_of_le (Nat.le_of_not_lt hfront)
      exact ⟨more, by omega, by omega, standsAt_append_add.mp hstands⟩
  · rintro ⟨start, hlt, hend, hstands⟩
    exact ⟨s.length + start, by omega, by omega, standsAt_append_add.mpr hstands⟩

theorem flatMap_replacedAt_append (h : CutsNone name s t) (value : Text) :
    (List.range (s ++ t).length).flatMap (replacedAt name value (s ++ t)) =
      (List.range s.length).flatMap (replacedAt name value (s ++ t)) ++
        (List.range t.length).flatMap (replacedAt name value t) := by
  rw [List.length_append, List.range_add, List.flatMap_append, List.flatMap_map]
  congr 2
  funext place
  simp only [replacedAt, standsAt_append_add, liesIn_append_add h, List.getElem?_append_right,
    Nat.le_add_right, Nat.add_sub_cancel_left]

/-- A front in which no whole reference starts is copied. -/
theorem flatMap_replacedAt_of_not_standsAt (h : ∀ start < s.length, ¬ StandsAt name (s ++ t) start)
    (value : Text) : (List.range s.length).flatMap (replacedAt name value (s ++ t)) = s := by
  calc (List.range s.length).flatMap (replacedAt name value (s ++ t))
      = (List.range s.length).flatMap (fun place => s[place]?.toList) := by
        refine List.flatMap_congr fun place hplace => ?_
        have hlt : place < s.length := List.mem_range.mp hplace
        have hlies : ¬ LiesIn name (s ++ t) place := fun ⟨start, hstart, _, hstands⟩ =>
          h start (hstart.trans hlt) hstands
        rw [replacedAt, if_neg (h place hlt), if_neg hlies, List.getElem?_append_left hlt]
    _ = s := Text.flatMap_range_getElem? s

/-- An occurrence at the front is replaced if it is a whole reference, and else it is copied. -/
theorem flatMap_replacedAt_bare (hname : '$' ∉ name) (value rest : Text) :
    (List.range (bare name).length).flatMap (replacedAt name value (bare name ++ rest)) =
      if Bounded rest then value else bare name := by
  have hinside {place : Nat} : 0 < place → place < (bare name).length →
      ¬ StandsAt name (bare name ++ rest) place := not_standsAt_bare_append hname rest
  split
  · next hrest =>
      have hstands : StandsAt name (bare name ++ rest) 0 := standsAt_bare_append_zero.mpr hrest
      have hempty : ∀ place ∈ List.range name.length,
          replacedAt name value (bare name ++ rest) (place + 1) = [] := by
        intro place hplace
        have hlt : place + 1 < (bare name).length := Nat.succ_lt_succ (List.mem_range.mp hplace)
        rw [replacedAt, if_neg (hinside (Nat.succ_pos place) hlt),
          if_pos ⟨0, Nat.succ_pos place, by omega, hstands⟩]
      have hlength : (bare name).length = name.length + 1 := rfl
      rw [hlength, List.range_succ_eq_map, List.flatMap_cons, List.flatMap_map,
        List.flatMap_eq_nil_iff.mpr hempty, List.append_nil, replacedAt, if_pos hstands]
  · next hrest =>
      refine flatMap_replacedAt_of_not_standsAt (fun start hlt hstands => ?_) value
      rcases Nat.eq_zero_or_pos start with rfl | hpos
      · exact hrest (standsAt_bare_append_zero.mp hstands)
      · exact hinside hpos hlt hstands

theorem cutsNone_bare (hname : '$' ∉ name) (rest : Text) : CutsNone name (bare name) rest := by
  intro start hlt hstands
  rcases Nat.eq_zero_or_pos start with rfl | hpos
  · rw [Nat.zero_add]
  · exact absurd hstands (not_standsAt_bare_append hname rest hpos hlt)

/-- Replacing, place by place. -/
theorem replaceBare_eq_flatMap_replacedAt (hname : '$' ∉ name) (value t : Text) :
    replaceBare name value t = (List.range t.length).flatMap (replacedAt name value t) := by
  -- round by round, each of which leaves a shorter text
  induction hn : t.length using Nat.strongRecOn generalizing t with
  | ind n ih =>
      subst hn
      cases hsplit : Text.splitOnce? (bare name) t with
      | none =>
          have hnone : ∀ start < t.length, ¬ StandsAt name (t ++ []) start := fun start _ => by
            rw [List.append_nil]
            exact not_standsAt_of_dropFront?
              (Text.dropFront?_drop_of_splitOnce?_eq_none hsplit start)
          have hcopy := flatMap_replacedAt_of_not_standsAt hnone value
          rw [List.append_nil] at hcopy
          rw [replaceBare_eq_of_splitOnce?, hsplit, hcopy]
      | some found =>
          obtain ⟨before, rest⟩ := found
          obtain ⟨hcut, hearlier⟩ := Text.splitOnce?_eq_some hsplit
          have hfirst : ∀ start < before.length, ¬ StandsAt name t start := fun start hstart =>
            not_standsAt_of_dropFront? (hearlier start hstart)
          have hlength := length_lt_of_splitOnce? hsplit
          rw [replaceBare_eq_of_splitOnce?, hsplit]
          obtain rfl := hcut
          have hrest := ih rest.length hlength rest rfl
          have hbefore : CutsNone name before (bare name ++ rest) := fun start hlt hstands =>
            absurd hstands (hfirst start hlt)
          rw [flatMap_replacedAt_append hbefore, flatMap_replacedAt_of_not_standsAt hfirst,
            flatMap_replacedAt_append (cutsNone_bare hname rest), flatMap_replacedAt_bare hname,
            ← hrest]

/-- **Exactly the whole references are replaced**, as they stand in the text that is read and
without overlapping: each becomes the value, whatever the value holds, and all other text stays.  A
round that finds an occurrence leaves a shorter text, so replacing ends. -/
theorem replaces_whole_references (hname : '$' ∉ name) (value t : Text) :
    replaceBare name value t = (List.range t.length).flatMap (replacedAt name value t) ∧
    (∀ place, StandsAt name t place → ¬ LiesIn name t place) ∧
    ∀ before rest, Text.splitOnce? (bare name) t = some (before, rest) →
      replaceBare name value t =
        before ++ ((if Bounded rest then value else bare name) ++ replaceBare name value rest) ∧
      rest.length < t.length := by
  refine ⟨replaceBare_eq_flatMap_replacedAt hname value t, fun _ => not_liesIn_of_standsAt hname,
    fun before rest hsplit => ⟨?_, length_lt_of_splitOnce? hsplit⟩⟩
  rw [replaceBare_eq_of_splitOnce?, hsplit]

/-- A name that is the front of another one, references side by side, a character of several bytes
behind a reference, and a value that holds the reference itself. -/
theorem replaces_whole_references_of_own_value :
    '$' ∉ ("FOO" : Text) ∧
      replaceBare "FOO" "<$FOO>" "$FOOS$FOO$FOOé" =
        (List.range ("$FOOS$FOO$FOOé" : Text).length).flatMap
          (replacedAt "FOO" "<$FOO>" "$FOOS$FOO$FOOé") ∧
      (StandsAt "FOO" "$FOOS$FOO$FOOé" 5 ∧ ¬ LiesIn "FOO" "$FOOS$FOO$FOOé" 5) ∧
      (Text.splitOnce? (bare "FOO") "$FOOS$FOO$FOOé" = some ([], ("S$FOO$FOOé" : Text)) ∧
        replaceBare "FOO" "<$FOO>" "$FOOS$FOO$FOOé" =
          ("$FOO" : Text) ++ replaceBare "FOO" "<$FOO>" "S$FOO$FOOé") ∧
      replaceBare "FOO" "<$FOO>" "$FOOS$FOO$FOOé" = "$FOOS<$FOO><$FOO>é" := by
  have hname : '$' ∉ ("FOO" : Text) := by decide
  have hstands : StandsAt "FOO" "$FOOS$FOO$FOOé" 5 := by decide
  have hsplit :
      Text.splitOnce? (bare "FOO") "$FOOS$FOO$FOOé" = some ([], ("S$FOO$FOOé" : Text)) := by decide
  obtain ⟨hplaces, hapart, hround⟩ := replaces_whole_references hname "<$FOO>" "$FOOS$FOO$FOOé"
  exact ⟨hname, hplaces, ⟨hstands, hapart 5 hstands⟩, ⟨hsplit, (hround _ _ hsplit).1⟩, by decide⟩

end Reference

end Runbook
