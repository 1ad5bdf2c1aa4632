import Mathlib.Data.List.Find
import Runbook.Proofs.DenyList.Shape
import Runbook.Proofs.Text.Ends

/-!
# What stands around a dangerous part

The deny-list looks for a part of the command, so a dangerous text stays dangerous in any
surroundings (`DenyList.isDangerous_of_isInfix`).  The other direction is about white space: a part
that a pattern of the deny-list matches starts and ends with a character that is none
(`Pattern.isInk`), so trimming the command does not cut into it, and the answer stays the same
(`DenyList.dangerousPattern?_trim`).
-/

namespace Runbook

namespace Text

variable {t part : Text}

/-- Trimming does not cut into a part that starts and ends with characters that are kept. -/
theorem isInfix_trim (h : part <:+: t) (hstart : ∃ c rest, part = c :: rest ∧ ¬ isBlank c)
    (hend : ∃ front c, part = front ++ [c] ∧ ¬ isBlank c) : part <:+: trim t := by
  obtain ⟨before, after, rfl⟩ := h
  obtain ⟨c, rest, hcons, hc⟩ := hstart
  obtain ⟨front, d, hconcat, hd⟩ := hend
  have htrim : trim (before ++ part ++ after) = trimStart before ++ part ++ trimEnd after := by
    calc trim (before ++ part ++ after)
        = trimEnd (trimStart before ++ part ++ after) := by
          rw [trim, hcons, List.append_assoc, List.cons_append, trimStart_append_cons hc]
          simp
      _ = trimStart before ++ part ++ trimEnd after := by
          rw [trimEnd, hconcat, ← List.append_assoc, List.append_assoc _ [d], List.singleton_append,
            dropEndWhile_append_cons hd]
          simp [trimEnd]
  exact ⟨trimStart before, trimEnd after, htrim.symm⟩

theorem isInfix_of_trim (t : Text) : trim t <:+: t := by
  obtain ⟨leading, trailing, ht, htrim, -, -⟩ := exists_trimmed t
  exact ⟨leading, trailing, by rw [List.append_assoc, ← htrim, ← ht]⟩

end Text

namespace Pattern

variable {p : Pattern} {s t : Text} {a : Char}

/-! ## Any surroundings -/

/-- What occurs in a part of a text occurs in the text. -/
theorem occursIn_of_isInfix (h : s <:+: t) (hs : p.occursIn s = true) : p.occursIn t = true := by
  obtain ⟨part, hpart, hshape⟩ := occursIn_iff_isInfix.mp hs
  exact occursIn_iff_isInfix.mpr ⟨part, hpart.trans h, hshape⟩

/-! ## White space -/

/-- Whether the atom stands for one character, which is no white space. -/
def isInk : Atom → Bool
  | .char c => !isBlank (foldCase c)
  | _ => false

theorem foldCase_of_isBlank (h : isBlank a) : foldCase a = a := by
  have hother : a.toNat ≠ 0x212A ∧ a.toNat ≠ 0x17F ∧ ¬ (65 ≤ a.toNat ∧ a.toNat ≤ 90) := by
    simp only [isBlank, Bool.or_eq_true, Bool.and_eq_true, decide_eq_true_eq, beq_iff_eq] at h
    omega
  have hlower : a.toLower = a := dif_neg hother.2.2
  rw [foldCase, if_neg hother.1, if_neg hother.2.1, hlower]

theorem Fits.exists_of_isInk {atom : Atom} {part : Text} (h : Fits atom part) (hink : isInk atom) :
    ∃ a, part = [a] ∧ ¬ isBlank a := by
  cases atom with
  | char c =>
      obtain ⟨a, rfl, hletter⟩ := h
      refine ⟨a, rfl, fun ha => ?_⟩
      rw [sameLetter, decide_eq_true_iff, foldCase_of_isBlank ha] at hletter
      rw [isInk, hletter, ha] at hink
      cases hink
  | blanks | optionalBlanks | anything => cases hink

theorem HasShape.exists_cons (h : HasShape p t) (hp : p.head?.any isInk) :
    ∃ a rest, t = a :: rest ∧ ¬ isBlank a := by
  cases h with
  | nil => cases hp
  | @cons _ _ _ rest fits _ =>
      obtain ⟨a, rfl, ha⟩ := fits.exists_of_isInk hp
      exact ⟨a, rest, rfl, ha⟩

theorem HasShape.exists_concat (h : HasShape p t) (hp : p.getLast?.any isInk) :
    ∃ front a, t = front ++ [a] ∧ ¬ isBlank a := by
  induction h with
  | nil => cases hp
  | @cons atom part p t fits rest ih =>
      cases p with
      -- the text ends with the part of the last atom
      | nil =>
          cases rest
          obtain ⟨a, rfl, ha⟩ := fits.exists_of_isInk hp
          exact ⟨[], a, rfl, ha⟩
      | cons next p =>
          obtain ⟨front, a, rfl, ha⟩ := ih (by simpa using hp)
          exact ⟨part ++ front, a, (List.append_assoc ..).symm, ha⟩

/-- A pattern that starts and ends with ink does not see white space at the ends of the text. -/
theorem occursIn_trim (hstart : p.head?.any isInk) (hend : p.getLast?.any isInk) (t : Text) :
    p.occursIn (Text.trim t) = p.occursIn t := by
  rw [Bool.eq_iff_iff]
  constructor
  · exact occursIn_of_isInfix (Text.isInfix_of_trim t)
  · intro h
    obtain ⟨part, hpart, hshape⟩ := occursIn_iff_isInfix.mp h
    have htrim : part <:+: Text.trim t :=
      Text.isInfix_trim hpart (hshape.exists_cons hstart) (hshape.exists_concat hend)
    exact occursIn_iff_isInfix.mpr ⟨part, htrim, hshape⟩

end Pattern

namespace DenyList

variable {command s t : Text}

theorem isDangerous_of_isInfix (h : s <:+: t) (hs : IsDangerous s) : IsDangerous t := by
  obtain ⟨p, hp, hoccurs⟩ := List.find?_isSome.mp hs
  exact List.find?_isSome.mpr ⟨p, hp, Pattern.occursIn_of_isInfix h hoccurs⟩

@[simp] theorem dangerousPattern?_trim (command : Text) :
    dangerousPattern? (Text.trim command) = dangerousPattern? command := by
  have hink : ∀ p ∈ patterns, p.head?.any Pattern.isInk ∧ p.getLast?.any Pattern.isInk := by decide
  exact List.find?_congr fun p hp => Pattern.occursIn_trim (hink p hp).1 (hink p hp).2 command

@[simp] theorem isDangerous_trim : IsDangerous (Text.trim command) ↔ IsDangerous command := by
  rw [IsDangerous, dangerousPattern?_trim, IsDangerous]

theorem sanitize_eq_ok_iff {text : Text} :
    sanitize command = .ok text ↔ ¬ IsDangerous command ∧ Text.trim command = text := by
  by_cases hdanger : IsDangerous command
  · obtain ⟨danger, herror⟩ := sanitize_of_isDangerous (isDangerous_trim.mpr hdanger)
    simp [herror, hdanger]
  · have hok : sanitize command = .ok (Text.trim command) :=
      sanitize_of_not_isDangerous (by simpa using hdanger)
    simp [hok, hdanger]

/-- **Trimming hides no danger.**  The deny-list answers the same with and without the white space
at the two ends, so a command is refused exactly if it is dangerous as it was given, and what is let
through is let through unchanged a second time. -/
theorem trimming_hides_nothing (command : Text) :
    dangerousPattern? (Text.trim command) = dangerousPattern? command ∧
      ((∃ danger, sanitize command = .error danger) ↔ IsDangerous command) ∧
        ∀ text, sanitize command = .ok text → sanitize text = .ok text := by
  refine ⟨dangerousPattern?_trim command, ?_, fun text htext => ?_⟩
  · constructor
    · rintro ⟨danger, hdanger⟩
      by_contra hsafe
      rw [sanitize_eq_ok_iff.mpr ⟨hsafe, rfl⟩] at hdanger
      cases hdanger
    · intro hdanger
      exact sanitize_of_isDangerous (isDangerous_trim.mpr hdanger)
  · obtain ⟨hsafe, rfl⟩ := sanitize_eq_ok_iff.mp htext
    exact sanitize_eq_ok_iff.mpr ⟨by simpa using hsafe, Text.trim_trim command⟩

/-- A command between blanks that are not ASCII. -/
theorem trimming_hides_nothing_of_blanks :
    sanitize "\u3000 rm\u2003x\u0085\n" = .ok "rm\u2003x" ∧
    sanitize "rm\u2003x" = .ok "rm\u2003x" := by
  have hok : sanitize "\u3000 rm\u2003x\u0085\n" = .ok "rm\u2003x" := by decide
  exact ⟨hok, (trimming_hides_nothing "\u3000 rm\u2003x\u0085\n").2.2 _ hok⟩

end DenyList

end Runbook
