import Runbook.Block
import Runbook.Proofs.Text.Ends

/-!
# Keys are told apart by what is shown of them

A key is shown as its document, an underscore and its offset.  The document may hold underscores and
digits itself, but a numeral holds no underscore (`Text.not_mem_ofNat`), so it is the last
underscore that separates.  What stands in front of it is the document, and what stands behind it is
the numeral of one number only (`Text.ofNat_inj`).
-/

namespace Runbook

/-! ## Numerals -/

/-- A numeral is made of digits. -/
theorem Text.not_mem_ofNat {c : Char} (hc : c.isDigit = false) (n : Nat) : c ∉ Text.ofNat n := by
  intro hmem
  have hdigit : c.isDigit = true := Nat.isDigit_of_mem_toDigits (by decide) (by decide) hmem
  rw [hc] at hdigit
  cases hdigit

/-- A number is read back from its numeral. -/
theorem Text.ofDigitChars_ofNat (n : Nat) : Nat.ofDigitChars 10 (Text.ofNat n) 0 = n :=
  Nat.ofDigitChars_toDigits (by decide) (by decide)

theorem Text.ofNat_inj {m n : Nat} : Text.ofNat m = Text.ofNat n ↔ m = n := by
  constructor
  · intro h
    rw [← Text.ofDigitChars_ofNat m, h, Text.ofDigitChars_ofNat]
  · exact congrArg Text.ofNat

/-! ## Keys -/

namespace BlockKey

theorem display_eq (key : BlockKey) :
    key.display = key.document ++ '_' :: Text.ofNat key.offset := by
  rw [display, List.append_assoc]
  rfl

/-- **No two keys are shown alike**, whatever their documents and offsets are. -/
theorem display_inj (a b : BlockKey) : a.display = b.display ↔ a = b := by
  rw [display_eq, display_eq,
    Text.append_cons_inj (Text.not_mem_ofNat rfl _) (Text.not_mem_ofNat rfl _), Text.ofNat_inj,
    BlockKey.mk.injEq]

/-- Digits and underscores on both sides. -/
example : display ⟨"a_1", 2⟩ ≠ display ⟨"a", 12⟩ := by decide

end BlockKey

end Runbook
