import Runbook.Proofs.Include.Reach

/-!
# When an expansion succeeds

Expansion is a walk in depth that stops at its first error, so what it does depends on the order of
the include lines.  Whether it succeeds does not.  It succeeds exactly if the part of the graph of
includes that it reaches is closed (every name there has a block), avoids the names that are open
already, and has no cycle (`expandIncludes_isOk_iff`).

* One direction follows a path from the start.  Each block on it is expanded while the blocks before
  it are open (`exists_ok_of_reaches`), so no block on it is open before (`not_mem_of_reaches`) and
  none comes back to itself (`not_onCycle_of_reaches`).
* The other direction reads the errors: a walk that fails has reached a block that breaks the
  condition (`exists_reaches_of_eq_error`).
-/

namespace Runbook.Include

variable {blocks : BlockMap} {opened : OpenNames} {name target text : Text}

/-! ## What a success says of the blocks that it reaches -/

theorem not_mem_of_reaches (h : expanded blocks opened name = .ok text)
    (hreach : Reaches blocks name target) : target ∉ opened := by
  obtain ⟨opened', text', hsub, htarget⟩ := exists_ok_of_reaches h hreach
  intro hmem
  exact not_mem_of_eq_ok htarget (hsub hmem)

theorem not_onCycle_of_eq_ok (h : expanded blocks opened name = .ok text) :
    ¬ OnCycle blocks name := by
  intro hcycle
  obtain ⟨next, hedge, hback⟩ := Relation.TransGen.head'_iff.mp hcycle
  -- the block is open while the next one on the cycle is expanded, which reaches it again
  obtain ⟨text', hnext⟩ := exists_ok_of_edge h hedge
  exact not_mem_of_reaches hnext hback List.mem_cons_self

theorem not_onCycle_of_reaches (h : expanded blocks opened name = .ok text)
    (hreach : Reaches blocks name target) : ¬ OnCycle blocks target := by
  obtain ⟨opened', text', -, htarget⟩ := exists_ok_of_reaches h hreach
  exact not_onCycle_of_eq_ok htarget

/-! ## The condition -/

/-- **When an expansion succeeds.**  It does exactly if every name that it reaches has a block, is
not open, and does not lie on a cycle; and each of its two errors names a block that it reaches for
which this fails. -/
theorem expandIncludes_isOk_iff (name : Text) (blocks : BlockMap) (opened : OpenNames) :
    ((∃ text, (expandIncludes name blocks opened).1 = .ok text) ↔
        ∀ target, Reaches blocks name target →
          target ∈ blocks.keys ∧ target ∉ opened ∧ ¬ OnCycle blocks target) ∧
      (∀ missing, (expandIncludes name blocks opened).1 = .error (.missingBlock missing) →
        Reaches blocks name missing ∧ missing ∉ blocks.keys) ∧
      ∀ revisited, (expandIncludes name blocks opened).1 = .error (.cyclicInclude revisited) →
        Reaches blocks name revisited ∧ (revisited ∈ opened ∨ OnCycle blocks revisited) := by
  have hnokey : ∀ target, blocks.get? target = none → target ∉ blocks.keys := by
    intro target hnone hkey
    rw [Table.mem_keys_iff, hnone] at hkey
    cases hkey
  refine ⟨⟨?_, fun h => ?_⟩, fun missing h => ?_, fun revisited h => reaches_of_cyclicInclude h⟩
  · rintro ⟨text, htext⟩ target hreach
    have hkey : target ∈ blocks.keys := Table.mem_keys_iff.mpr (get?_isSome_of_reaches htext hreach)
    exact ⟨hkey, not_mem_of_reaches htext hreach, not_onCycle_of_reaches htext hreach⟩
  · cases hresult : (expandIncludes name blocks opened).1 with
    | ok text => exact ⟨text, rfl⟩
    | error e =>
        obtain ⟨source, hreach, hsource⟩ := exists_reaches_of_eq_error hresult
        obtain ⟨hkey, hopen, hacyclic⟩ := h source hreach
        rcases hsource with ⟨-, hnone⟩ | ⟨-, hmem | hcycle⟩
        · exact absurd hkey (hnokey source hnone)
        · exact absurd hmem hopen
        · exact absurd hcycle hacyclic
  · obtain ⟨hreach, hnone⟩ := reaches_of_missingBlock h
    exact ⟨hreach, hnokey missing hnone⟩

end Runbook.Include
