import Mathlib
import Runbook.Proofs.DenyList.Shape

/-!
# The deny-list as regular expressions

The deny-list is written down as regular expressions, and a maintainer reads it as such.  `Reads`
says what an expression of this kind stands for, from its text alone: plain characters in either
case, `\s+`, `\s*` and `.*`.  A pattern, displayed, reads exactly the texts that have its shape
(`reads_display_iff`), so the answer of the deny-list is the first expression of the list that reads
some part of the command (`dangerousPattern?_eq_first`).

Case is the one thing that is not read off the expression itself.  Folding takes at most two ASCII
characters for one letter, and for `k` and `s` one more outside ASCII (`sameLetter_iff`).
-/

namespace Runbook

namespace Pattern

variable {p : Pattern} {t regex : Text} {a c : Char}

/-! ## Either case -/

/-- The characters that simple case folding takes for the same letter as an ASCII character. The
Kelvin sign folds to `k`, and the long s folds to `s`. -/
def caseVariants (c : Char) : List Char :=
  [c.toLower, c.toUpper] ++
    if c.toLower = 'k' then ['\u212a'] else if c.toLower = 's' then ['\u017f'] else []

theorem toLower_eq_toLower_iff : a.toLower = c.toLower ↔ a = c.toLower ∨ a = c.toUpper := by
  constructor
  · intro h
    by_cases hupper : a.isUpper
    · right
      calc a = a.toUpper := by
            rw [Char.toUpper_eq_of_not_isLower (Char.not_isLower_of_isUpper hupper)]
        _ = c.toLower.toUpper := by rw [← h, Char.toUpper_toLower_eq_toUpper]
        _ = c.toUpper := Char.toUpper_toLower_eq_toUpper c
    · left
      rw [← h, Char.toLower_eq_of_not_isUpper hupper]
  · rintro (rfl | rfl) <;> simp

theorem toNat_lt_of_ascii (hc : c.toNat < 128) : c.toLower.toNat < 128 ∧ c.toUpper.toNat < 128 := by
  have hall :
      ∀ n < 128, (Char.ofNat n).toLower.toNat < 128 ∧ (Char.ofNat n).toUpper.toNat < 128 := by
    decide
  simpa using hall c.toNat hc

theorem foldCase_of_ne (hkelvin : a ≠ '\u212a') (hlong : a ≠ '\u017f') :
    foldCase a = a.toLower := by
  have hkelvin : a.toNat ≠ 0x212A := fun h => hkelvin (Char.toNat_inj.mp h)
  have hlong : a.toNat ≠ 0x17F := fun h => hlong (Char.toNat_inj.mp h)
  rw [foldCase, if_neg hkelvin, if_neg hlong]

/-- For ASCII characters, folding to the same letter is being a variant. -/
theorem sameLetter_iff (hc : c.toNat < 128) : sameLetter c a ↔ a ∈ caseVariants c := by
  obtain ⟨hlower, hupper⟩ := toNat_lt_of_ascii hc
  have hfold : foldCase c = c.toLower := by
    refine foldCase_of_ne ?_ ?_ <;> rintro rfl <;> simp at hc
  rw [sameLetter, decide_eq_true_iff, hfold, caseVariants, List.mem_append]
  by_cases hfar : a = '\u212a' ∨ a = '\u017f'
  -- a letter outside ASCII is neither of the two cases of `c`
  · have hnot : a ∉ [c.toLower, c.toUpper] := by
      intro hmem
      obtain rfl | rfl : a = c.toLower ∨ a = c.toUpper := by simpa using hmem
      all_goals rcases hfar with h | h <;> simp [h] at hlower hupper
    rcases hfar with rfl | rfl <;> split_ifs <;> simp_all [foldCase]
  · rw [not_or] at hfar
    rw [foldCase_of_ne hfar.1 hfar.2, eq_comm, toLower_eq_toLower_iff]
    split_ifs <;> simp [hfar]

/-! ## Reading an expression -/

/-- The characters that mean something else than themselves in a regular expression. -/
def metaCharacters : Text := "\\.+*?()|[]\x7b\x7d^$"

/-- An ASCII character that stands for itself in a regular expression. -/
def isPlain (c : Char) : Bool := c.toNat < 128 ∧ c ∉ metaCharacters

/-- The regular expression, without regard to case, stands for the whole text. White space includes
line feeds, and a dot is any character but a line feed. -/
inductive Reads : Text → Text → Prop where
  | nil : Reads [] []
  | plain {c a : Char} {regex t : Text} (hplain : isPlain c) (hletter : a ∈ caseVariants c)
      (rest : Reads regex t) : Reads (c :: regex) (a :: t)
  /-- The expression `\s+`. -/
  | blanks {part regex t : Text} (some : part ≠ []) (all : ∀ b ∈ part, isBlank b)
      (rest : Reads regex t) : Reads ('\\' :: 's' :: '+' :: regex) (part ++ t)
  /-- The expression `\s*`. -/
  | optionalBlanks {part regex t : Text} (all : ∀ b ∈ part, isBlank b) (rest : Reads regex t) :
      Reads ('\\' :: 's' :: '*' :: regex) (part ++ t)
  /-- The expression `.*`. -/
  | anything {part regex t : Text} (all : ∀ b ∈ part, b ≠ '\n') (rest : Reads regex t) :
      Reads ('.' :: '*' :: regex) (part ++ t)

/-- Some part of the text is read by the regular expression. -/
def Finds (regex t : Text) : Prop := ∃ part, part <:+: t ∧ Reads regex part

/-- Whether the atom is displayed as an expression that stands for it. -/
def isWritten : Atom → Bool
  | .char c => isPlain c
  | _ => true

@[simp] theorem display_nil : display [] = [] := rfl

@[simp] theorem display_char (c : Char) (p : Pattern) :
    display (.char c :: p) = c :: display p := rfl

@[simp] theorem display_blanks (p : Pattern) :
    display (.blanks :: p) = '\\' :: 's' :: '+' :: display p := rfl

@[simp] theorem display_optionalBlanks (p : Pattern) :
    display (.optionalBlanks :: p) = '\\' :: 's' :: '*' :: display p := rfl

@[simp] theorem display_anything (p : Pattern) :
    display (.anything :: p) = '.' :: '*' :: display p := rfl

/-! ### What an expression starts with -/

theorem reads_plain (hc : isPlain c) :
    Reads (c :: regex) t ↔ ∃ a u, t = a :: u ∧ a ∈ caseVariants c ∧ Reads regex u := by
  constructor
  · intro h
    cases h with
    | plain _ hletter rest => exact ⟨_, _, rfl, hletter, rest⟩
    | blanks | optionalBlanks | anything => cases hc
  · rintro ⟨a, u, rfl, hletter, rest⟩
    exact .plain hc hletter rest

theorem reads_blanks :
    Reads ('\\' :: 's' :: '+' :: regex) t ↔
      ∃ part u, t = part ++ u ∧ (part ≠ [] ∧ ∀ b ∈ part, isBlank b) ∧ Reads regex u := by
  constructor
  · intro h
    cases h with
    | plain hplain => cases hplain
    | blanks some all rest => exact ⟨_, _, rfl, ⟨some, all⟩, rest⟩
  · rintro ⟨part, u, rfl, ⟨some, all⟩, rest⟩
    exact .blanks some all rest

theorem reads_optionalBlanks :
    Reads ('\\' :: 's' :: '*' :: regex) t ↔
      ∃ part u, t = part ++ u ∧ (∀ b ∈ part, isBlank b) ∧ Reads regex u := by
  constructor
  · intro h
    cases h with
    | plain hplain => cases hplain
    | optionalBlanks all rest => exact ⟨_, _, rfl, all, rest⟩
  · rintro ⟨part, u, rfl, all, rest⟩
    exact .optionalBlanks all rest

theorem reads_anything :
    Reads ('.' :: '*' :: regex) t ↔
      ∃ part u, t = part ++ u ∧ (∀ b ∈ part, b ≠ '\n') ∧ Reads regex u := by
  constructor
  · intro h
    cases h with
    | plain hplain => cases hplain
    | anything all rest => exact ⟨_, _, rfl, all, rest⟩
  · rintro ⟨part, u, rfl, all, rest⟩
    exact .anything all rest

/-! ### Patterns, displayed -/

/-- **A displayed pattern reads the texts that have its shape.** -/
theorem reads_display_iff (hp : ∀ atom ∈ p, isWritten atom) :
    Reads (display p) t ↔ HasShape p t := by
  induction p generalizing t with
  | nil => constructor <;> rintro ⟨⟩ <;> constructor
  | cons atom p ih =>
      obtain ⟨hatom, hrest⟩ := List.forall_mem_cons.mp hp
      have hread (u : Text) : Reads (display p) u ↔ HasShape p u := ih hrest
      rw [hasShape_cons]
      cases atom with
      | char c =>
          have hascii : c.toNat < 128 := (of_decide_eq_true hatom).1
          simp only [display_char, reads_plain hatom, hread, Fits, sameLetter_iff hascii]
          constructor
          · rintro ⟨a, u, rfl, hletter, hshape⟩
            exact ⟨[a], u, rfl, ⟨a, rfl, hletter⟩, hshape⟩
          · rintro ⟨_, u, rfl, ⟨a, rfl, hletter⟩, hshape⟩
            exact ⟨a, u, rfl, hletter, hshape⟩
      | blanks => simp only [display_blanks, reads_blanks, hread, Fits]
      | optionalBlanks => simp only [display_optionalBlanks, reads_optionalBlanks, hread, Fits]
      | anything => simp [reads_anything, hread, Fits, isInline]

theorem finds_display_iff (hp : ∀ atom ∈ p, isWritten atom) :
    Finds (display p) t ↔ p.occursIn t = true := by
  simp only [Finds, occursIn_iff_isInfix, reads_display_iff hp]

end Pattern

namespace DenyList

open Pattern

/-- The regular expressions of the deny-list, in the order in which they are tried. -/
def expressions : List Text :=
  [ "rm\\s+-rf",
    "rmdir",
    "format",
    "mkfs",
    "dd\\s+if",
    ">\\s*/dev/",
    ">\\s*/etc/",
    "chmod\\s+777",
    "chmod\\s+-R",
    "mv\\s+.*\\s+/etc/",
    "rm\\s+.*\\s+/etc/" ]

theorem map_display_patterns : patterns.map display = expressions := by decide

/-- **The deny-list matches what it says.**  Its answer is the first of its expressions that reads
some part of the command, wherever that part stands, and it has no answer if none of them does. -/
theorem dangerousPattern?_eq_first (command : Text) :
    (∀ regex, (dangerousPattern? command).map display = some regex ↔
      Finds regex command ∧ ∃ before after, expressions = before ++ regex :: after ∧
        ∀ earlier ∈ before, ¬ Finds earlier command) ∧
      (dangerousPattern? command = none ↔ ∀ regex ∈ expressions, ¬ Finds regex command) := by
  classical
  have hwritten : ∀ p ∈ patterns, ∀ atom ∈ p, isWritten atom := by decide
  have hfirst : (dangerousPattern? command).map display =
      expressions.find? fun regex => decide (Finds regex command) := by
    rw [← map_display_patterns, List.find?_map]
    congr 1
    refine List.find?_congr fun p hp => ?_
    simp [finds_display_iff (hwritten p hp)]
  constructor
  · intro regex
    rw [hfirst, List.find?_eq_some_iff_append]
    simp
  · rw [← Option.map_eq_none_iff (f := display), hfirst, List.find?_eq_none]
    simp

/-- An expression further ahead in the list comes first, wherever the parts stand in the command. -/
example : dangerousPattern? "mv hosts\n\n/etc/; m\u212af\u017f x" = some (word "mkfs") := by decide

end DenyList

end Runbook
