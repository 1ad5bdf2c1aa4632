import Mathlib.Data.Char
import Mathlib.Data.List.Lex
import Mathlib.Order.Lattice
import Runbook.FileSystem

/-!
# The order of texts and bytes

`Text.le` compares texts character by character.  It is the lexicographic order on lists, and so is
the order of lists of bytes; what is sorted by such an order is in order (`pairwise_lt_mergeSort`).
-/

namespace Runbook

/-- Lists in the order by the first elements that differ are in the order of their keys. -/
theorem lexLe_iff {α β : Type} [DecidableEq α] [LinearOrder β] {lt : α → α → Bool} {f : α → β}
    (hf : Function.Injective f) (hlt : ∀ a b, a ≠ b → (lt a b = true ↔ f a < f b))
    {s t : List α} : lexLe lt s t = true ↔ s.map f ≤ t.map f := by
  rw [← not_lt]
  induction s generalizing t with
  | nil => simp [lexLe]
  | cons a s ih =>
      cases t with
      | nil => simp [lexLe]
      | cons b t =>
          rw [lexLe, List.map_cons, List.map_cons, List.cons_lt_cons_iff]
          by_cases hab : a = b
          · simp [hab, ih]
          · have hne : f a ≠ f b := hf.ne hab
            rw [if_neg hab, hlt a b hab]
            simp [Ne.symm hne, le_iff_lt_or_eq, hne]

theorem Text.le_iff {s t : Text} : Text.le s t = true ↔ s ≤ t := by
  have h := lexLe_iff (s := s) (t := t) Function.injective_id fun c d _ =>
    decide_eq_true_iff (p := c.toNat < d.toNat)
  rwa [List.map_id, List.map_id] at h

instance instLinearOrderUInt8 : LinearOrder UInt8 where
  le_refl := UInt8.le_refl
  le_trans _ _ _ := UInt8.le_trans
  le_antisymm _ _ := UInt8.le_antisymm
  le_total := UInt8.le_total
  lt_iff_le_not_ge a b := by
    rw [UInt8.lt_iff_toNat_lt, UInt8.le_iff_toNat_le, UInt8.le_iff_toNat_le]
    omega
  toDecidableLE := inferInstance

theorem OsText.le_iff {a b : OsText} : OsText.le a b = true ↔ a ≤ b := by
  have h := lexLe_iff (s := a) (t := b) Function.injective_id fun c d _ =>
    decide_eq_true_iff (p := c.toNat < d.toNat)
  rwa [List.map_id, List.map_id] at h

/-- Sorting by an order of keys puts what has different keys in strictly increasing order. -/
theorem pairwise_lt_mergeSort {α β : Type} [LinearOrder β] {f : α → β} {le : α → α → Bool}
    (hle : ∀ a b, le a b = true ↔ f a ≤ f b) {l : List α} (h : (l.map f).Nodup) :
    (l.mergeSort le).Pairwise fun a b => f a < f b := by
  have hsorted : (l.mergeSort le).Pairwise fun a b => le a b = true := by
    refine List.pairwise_mergeSort (fun a b c hab hbc => ?_) (fun a b => ?_) l
    · exact (hle a c).mpr (((hle a b).mp hab).trans ((hle b c).mp hbc))
    · rw [Bool.or_eq_true, hle, hle]
      exact le_total (f a) (f b)
  have hnodup : (l.mergeSort le).Pairwise fun a b => f a ≠ f b :=
    List.pairwise_map.mp (((List.mergeSort_perm l le).map f).nodup_iff.mpr h)
  exact (hsorted.and hnodup).imp fun hab => lt_of_le_of_ne ((hle _ _).mp hab.1) hab.2

end Runbook
