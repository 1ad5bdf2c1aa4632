import Runbook.DenyList
import Runbook.Proofs.Text.Returns

/-!
# What the deny-list matches

`Pattern.matchRow` answers for all positions of a text at once, from the right.  Here is what it
answers, said without rows.  A text has the shape of a pattern if it falls into parts, one for each
atom (`Pattern.HasShape`), and a pattern occurs in a text if some part of the text has its shape
(`Pattern.occursIn_iff`).

A row is read as a predicate on the suffixes of the text (`Pattern.RowOf`).  The two ways to make a
row from the next one have one lemma each (`rowOf_rowOne`, `rowOf_rowRun`), and a pattern is an
iteration of the two.
-/

namespace Runbook

namespace Pattern

variable {p : Pattern} {t : Text} {test : Char → Bool} {P Q : Text → Prop} {row : List Bool}

/-- The text is a part that the atom stands for. -/
def Fits : Atom → Text → Prop
  | .char c, part => ∃ a, part = [a] ∧ sameLetter c a
  | .blanks, part => part ≠ [] ∧ ∀ b ∈ part, isBlank b
  | .optionalBlanks, part => ∀ b ∈ part, isBlank b
  | .anything, part => ∀ b ∈ part, isInline b

/-- The text falls into one part for each atom of the pattern. -/
inductive HasShape : Pattern → Text → Prop where
  | nil : HasShape [] []
  | cons {a : Atom} {part : Text} {p : Pattern} {t : Text} (fits : Fits a part)
      (rest : HasShape p t) : HasShape (a :: p) (part ++ t)

theorem hasShape_cons {a : Atom} :
    HasShape (a :: p) t ↔ ∃ part u, t = part ++ u ∧ Fits a part ∧ HasShape p u := by
  constructor
  · intro h
    cases h with
    | cons fits rest => exact ⟨_, _, rfl, fits, rest⟩
  · rintro ⟨part, u, rfl, fits, rest⟩
    exact .cons fits rest

/-- Some front of the text has the shape of the pattern. -/
def Begins (p : Pattern) (t : Text) : Prop := ∃ part rest, t = part ++ rest ∧ HasShape p part

/-! ## Rows -/

/-- The row says of each suffix of the text whether it satisfies `P`. -/
def RowOf (P : Text → Prop) : Text → List Bool → Prop
  | [], row => ∃ here, row = [here] ∧ (here = true ↔ P [])
  | c :: t, row => ∃ here next, row = here :: next ∧ (here = true ↔ P (c :: t)) ∧ RowOf P t next

theorem RowOf.congr (h : RowOf P t row) (hPQ : ∀ u, P u ↔ Q u) : RowOf Q t row := by
  induction t generalizing row with
  | nil =>
      obtain ⟨here, rfl, hhere⟩ := h
      exact ⟨here, rfl, hhere.trans (hPQ [])⟩
  | cons c t ih =>
      obtain ⟨here, next, rfl, hhere, hnext⟩ := h
      exact ⟨here, next, rfl, hhere.trans (hPQ _), ih hnext⟩

theorem RowOf.head_iff (h : RowOf P t row) : row.head?.getD false = true ↔ P t := by
  cases t with
  | nil =>
      obtain ⟨here, rfl, hhere⟩ := h
      exact hhere
  | cons c t =>
      obtain ⟨here, next, rfl, hhere, -⟩ := h
      exact hhere

theorem RowOf.any_iff (h : RowOf P t row) :
    row.any id = true ↔ ∃ before after, t = before ++ after ∧ P after := by
  induction t generalizing row with
  | nil =>
      obtain ⟨here, rfl, hhere⟩ := h
      rw [List.any_cons, List.any_nil, Bool.or_false, id, hhere]
      constructor
      · intro hP
        exact ⟨[], [], rfl, hP⟩
      · rintro ⟨before, after, heq, hP⟩
        rwa [(List.append_eq_nil_iff.mp heq.symm).2] at hP
  | cons c t ih =>
      obtain ⟨here, next, rfl, hhere, hnext⟩ := h
      rw [List.any_cons, Bool.or_eq_true, id, hhere, ih hnext]
      constructor
      · rintro (hP | ⟨before, after, rfl, hP⟩)
        · exact ⟨[], _, rfl, hP⟩
        · exact ⟨c :: before, after, rfl, hP⟩
      · rintro ⟨before, after, heq, hP⟩
        cases before with
        | nil => exact .inl (heq ▸ hP)
        | cons d before =>
            obtain ⟨rfl, rfl⟩ := List.cons.inj heq
            exact .inr ⟨before, after, rfl, hP⟩

theorem rowOf_replicate (t : Text) :
    RowOf (fun _ => True) t (List.replicate (t.length + 1) true) := by
  induction t with
  | nil => exact ⟨true, rfl, by simp⟩
  | cons c t ih => exact ⟨true, _, List.replicate_succ, by simp, ih⟩

theorem rowOf_rowOne (test : Char → Bool) (h : RowOf P t row) :
    RowOf (fun u => ∃ c v, u = c :: v ∧ test c ∧ P v) t (rowOne test t row) := by
  induction t generalizing row with
  | nil => exact ⟨false, rfl, by simp⟩
  | cons c t ih =>
      obtain ⟨here, next, rfl, -, hnext⟩ := h
      refine ⟨_, _, rfl, ?_, ih hnext⟩
      rw [Bool.and_eq_true, hnext.head_iff]
      constructor
      · rintro ⟨htest, hP⟩
        exact ⟨c, t, rfl, htest, hP⟩
      · rintro ⟨d, v, heq, htest, hP⟩
        obtain ⟨rfl, rfl⟩ := List.cons.inj heq
        exact ⟨htest, hP⟩

theorem rowOf_rowRun (test : Char → Bool) (h : RowOf P t row) :
    RowOf (fun u => ∃ part v, u = part ++ v ∧ (∀ b ∈ part, test b) ∧ P v) t
      (rowRun test t row) := by
  induction t generalizing row with
  | nil =>
      obtain ⟨here, rfl, hhere⟩ := h
      refine ⟨here, rfl, hhere.trans ⟨fun hP => ⟨[], [], rfl, by simp, hP⟩, ?_⟩⟩
      rintro ⟨part, v, heq, -, hP⟩
      rw [(List.append_eq_nil_iff.mp heq.symm).2] at hP
      exact hP
  | cons c t ih =>
      obtain ⟨here, next, rfl, hhere, hnext⟩ := h
      refine ⟨_, _, rfl, ?_, ih hnext⟩
      rw [Bool.or_eq_true, Bool.and_eq_true, hhere, (ih hnext).head_iff]
      constructor
      · rintro (hP | ⟨htest, part, v, rfl, hall, hP⟩)
        · exact ⟨[], c :: t, rfl, by simp, hP⟩
        · exact ⟨c :: part, v, rfl, List.forall_mem_cons.mpr ⟨htest, hall⟩, hP⟩
      · rintro ⟨part, v, heq, hall, hP⟩
        cases part with
        | nil => exact .inl (heq ▸ hP)
        | cons d part =>
            obtain ⟨rfl, rfl⟩ := List.cons.inj heq
            obtain ⟨htest, hall⟩ := List.forall_mem_cons.mp hall
            exact .inr ⟨htest, part, v, rfl, hall, hP⟩

/-! ## Patterns -/

theorem begins_nil (t : Text) : Begins [] t := ⟨[], t, rfl, .nil⟩

theorem begins_cons {a : Atom} :
    Begins (a :: p) t ↔ ∃ part u, t = part ++ u ∧ Fits a part ∧ Begins p u := by
  constructor
  · rintro ⟨whole, rest, rfl, hshape⟩
    cases hshape with
    | cons fits rest' => exact ⟨_, _, List.append_assoc .., fits, _, _, rfl, rest'⟩
  · rintro ⟨part, u, rfl, fits, front, rest, rfl, hshape⟩
    exact ⟨part ++ front, rest, (List.append_assoc ..).symm, .cons fits hshape⟩

theorem begins_char {c : Char} :
    Begins (.char c :: p) t ↔ ∃ a u, t = a :: u ∧ sameLetter c a ∧ Begins p u := by
  rw [begins_cons]
  constructor
  · rintro ⟨_, u, rfl, ⟨a, rfl, letter⟩, hbegins⟩
    exact ⟨a, u, rfl, letter, hbegins⟩
  · rintro ⟨a, u, rfl, letter, hbegins⟩
    exact ⟨[a], u, rfl, ⟨a, rfl, letter⟩, hbegins⟩

/-- At least one blank is one blank and any number of further ones. -/
theorem begins_blanks :
    Begins (.blanks :: p) t ↔
      ∃ a u, t = a :: u ∧ isBlank a ∧ Begins (.optionalBlanks :: p) u := by
  simp only [begins_cons]
  constructor
  · rintro ⟨part, u, rfl, ⟨some, all⟩, hbegins⟩
    obtain ⟨a, others, rfl⟩ := List.exists_cons_of_ne_nil some
    obtain ⟨ha, hothers⟩ := List.forall_mem_cons.mp all
    exact ⟨a, others ++ u, rfl, ha, others, u, rfl, hothers, hbegins⟩
  · rintro ⟨a, _, rfl, ha, others, u, rfl, hothers, hbegins⟩
    have hall : ∀ b ∈ a :: others, isBlank b := List.forall_mem_cons.mpr ⟨ha, hothers⟩
    exact ⟨a :: others, u, rfl, ⟨List.cons_ne_nil a others, hall⟩, hbegins⟩

theorem rowOf_matchRow (p : Pattern) (t : Text) : RowOf (Begins p) t (matchRow p t) := by
  induction p with
  | nil => exact (rowOf_replicate t).congr fun u => ⟨fun _ => begins_nil u, fun _ => trivial⟩
  | cons a p ih =>
      cases a with
      | char c => exact (rowOf_rowOne _ ih).congr fun u => begins_char.symm
      -- the row behind the first blank is that of an optional run
      | blanks =>
          have hrun : RowOf (Begins (.optionalBlanks :: p)) t (rowRun isBlank t (matchRow p t)) :=
            (rowOf_rowRun _ ih).congr fun u => (begins_cons (a := .optionalBlanks)).symm
          exact (rowOf_rowOne _ hrun).congr fun u => begins_blanks.symm
      | optionalBlanks =>
          exact (rowOf_rowRun _ ih).congr fun u => (begins_cons (a := .optionalBlanks)).symm
      | anything => exact (rowOf_rowRun _ ih).congr fun u => (begins_cons (a := .anything)).symm

/-- **A pattern occurs in a text if some part of the text has its shape.** -/
theorem occursIn_iff :
    p.occursIn t = true ↔ ∃ before part after, t = before ++ (part ++ after) ∧ HasShape p part := by
  rw [occursIn, (rowOf_matchRow p t).any_iff]
  constructor
  · rintro ⟨before, after, rfl, part, rest, rfl, hshape⟩
    exact ⟨before, part, rest, rfl, hshape⟩
  · rintro ⟨before, part, after, rfl, hshape⟩
    exact ⟨before, part ++ after, rfl, part, after, rfl, hshape⟩

theorem occursIn_iff_isInfix : p.occursIn t = true ↔ ∃ part, part <:+: t ∧ HasShape p part := by
  rw [occursIn_iff]
  constructor
  · rintro ⟨before, part, after, rfl, hshape⟩
    exact ⟨part, ⟨before, after, List.append_assoc ..⟩, hshape⟩
  · rintro ⟨part, ⟨before, after, rfl⟩, hshape⟩
    exact ⟨before, part, after, List.append_assoc .., hshape⟩

/-! ## Carriage returns -/

/-- Whether the atom is a character that stands for a line feed. -/
def isFeed : Atom → Bool
  | .char c => sameLetter c '\n'
  | _ => false

theorem forall_isBlank_of_dropsReturns {s : Text} (h : Text.DropsReturns s t)
    (hall : ∀ b ∈ t, isBlank b) : ∀ b ∈ s, isBlank b := by
  intro b hb
  rcases h.mem_or_eq hb with hb | rfl
  · exact hall b hb
  · rfl

/-- An atom that is no line feed stands for a part with more carriage returns in front of its line
feeds, too: the line feeds are white space there, and so are the carriage returns. -/
theorem Fits.of_dropsReturns {a : Atom} {s : Text} (h : Fits a t) (ha : isFeed a = false)
    (hdrops : Text.DropsReturns s t) : Fits a s := by
  cases a with
  | char c =>
      obtain ⟨d, rfl, letter⟩ := h
      have hd : '\n' ∉ [d] := by
        intro hmem
        rw [isFeed, List.mem_singleton.mp hmem, letter] at ha
        cases ha
      exact ⟨d, hdrops.eq_of_not_mem hd, letter⟩
  | blanks => exact ⟨hdrops.ne_nil h.1, forall_isBlank_of_dropsReturns hdrops h.2⟩
  | optionalBlanks => exact forall_isBlank_of_dropsReturns hdrops h
  | anything =>
      have ht : '\n' ∉ t := fun hmem => absurd (h _ hmem) (by decide)
      rw [hdrops.eq_of_not_mem ht]
      exact h

theorem HasShape.of_dropsReturns {s : Text} (h : HasShape p t) (hp : ∀ a ∈ p, isFeed a = false)
    (hdrops : Text.DropsReturns s t) : HasShape p s := by
  induction h generalizing s with
  | nil =>
      cases hdrops
      exact .nil
  | cons fits _ ih =>
      obtain ⟨ha, hp⟩ := List.forall_mem_cons.mp hp
      obtain ⟨part, rest, rfl, hpart, hrest⟩ := hdrops.exists_append
      exact .cons (fits.of_dropsReturns ha hpart) (ih hp hrest)

end Pattern

namespace DenyList

/-- The deny-list knows the command. -/
def IsDangerous (command : Text) : Prop := (dangerousPattern? command).isSome

instance (command : Text) : Decidable (IsDangerous command) :=
  inferInstanceAs (Decidable (_ = true))

theorem isDangerous_iff {command : Text} :
    IsDangerous command ↔ ∃ p ∈ patterns, ∃ before part after,
      command = before ++ (part ++ after) ∧ Pattern.HasShape p part := by
  rw [IsDangerous, dangerousPattern?, List.find?_isSome]
  simp only [Pattern.occursIn_iff]

/-- A command stays dangerous with carriage returns in front of its line feeds. -/
theorem isDangerous_of_dropsReturns {s t : Text} (h : Text.DropsReturns s t) (ht : IsDangerous t) :
    IsDangerous s := by
  obtain ⟨p, hp, before, part, after, rfl, hshape⟩ := isDangerous_iff.mp ht
  have hfeed : ∀ q ∈ patterns, ∀ a ∈ q, Pattern.isFeed a = false := by decide
  obtain ⟨before', rest, rfl, -, hrest⟩ := h.exists_append
  obtain ⟨part', after', rfl, hpart, -⟩ := hrest.exists_append
  exact isDangerous_iff.mpr
    ⟨p, hp, before', part', after', rfl, hshape.of_dropsReturns (hfeed p hp) hpart⟩

theorem sanitize_of_isDangerous {command : Text} (h : IsDangerous (Text.trim command)) :
    ∃ danger, sanitize command = .error danger := by
  obtain ⟨pattern, hpattern⟩ := Option.isSome_iff_exists.mp h
  exact ⟨⟨command, pattern⟩, by rw [sanitize, hpattern]⟩

theorem sanitize_of_not_isDangerous {command : Text} (h : ¬ IsDangerous (Text.trim command)) :
    sanitize command = .ok (Text.trim command) := by
  rw [IsDangerous, Option.not_isSome_iff_eq_none] at h
  rw [sanitize, h]

end DenyList

end Runbook
