import Runbook.Proofs.Include.Acyclic
import Runbook.Proofs.Include.Calls
import Runbook.Proofs.Lint.Findings

/-!
# Which cycles lint reports

Lint expands each live block and reports a cycle if the expansion ends with that error.  An
expansion ends with its first error, so a block that is missing in front of a cycle hides it.

A block that leads to a cycle cannot be expanded at all.  Its expansion ends at one call that fails
by itself (`expanded_eq_error_iff`), which is for an open name or for a missing one.  In the first
case the cycle is reported, and in the second it is not (`revisits_expanded_iff`).
-/

namespace Runbook

namespace Include

variable {blocks : BlockMap} {name : Text}

/-- **When an expansion finds a cycle.**  It does exactly if it reaches one, and none of its calls
is for a block that is missing. -/
theorem revisits_expanded_iff :
    Revisits (expanded blocks [] name) ↔
      (∃ target, Reaches blocks name target ∧ OnCycle blocks target) ∧
        ∀ call, Relation.ReflTransGen (Makes blocks) ⟨name, []⟩ call → call.name ∈ blocks.keys := by
  constructor
  · rintro ⟨revisited, h⟩
    obtain ⟨hreach, hcycle⟩ := reaches_of_cyclicInclude h
    refine ⟨⟨revisited, hreach, hcycle.resolve_left List.not_mem_nil⟩, ?_⟩
    intro call hcalls
    by_contra hkey
    have hnone : blocks.get? call.name = none := by
      rwa [Table.mem_keys_iff, Option.not_isSome_iff_eq_none] at hkey
    -- a missing name is not open, so the call for it is the one that fails
    have hopen : call.name ∉ call.opened := by
      intro hmem
      exact (mem_keys_of_mem_opened hcalls _ hmem).elim List.not_mem_nil hkey
    have hmissing := (Fails.missing hopen hnone).expanded_eq hcalls
    rw [h] at hmissing
    cases hmissing
  · rintro ⟨⟨target, hreach, hcycle⟩, hkeys⟩
    cases h : expanded blocks [] name with
    | ok text => exact absurd hcycle (not_onCycle_of_reaches h hreach)
    | error e =>
        obtain ⟨last, hcalls, hfails⟩ := expanded_eq_error_iff.mp h
        cases hfails with
        | revisited => exact ⟨_, rfl⟩
        | missing _ hnone =>
            have hkey := hkeys last hcalls
            rw [Table.mem_keys_iff, hnone] at hkey
            cases hkey

end Include

namespace Book

open Include

variable {block : Block} {source : Text} {fileId : Nat}

/-- **Which cycles lint reports.**  At the header line of a live block it reports a cycle exactly if
following include lines from the block leads to one and the expansion, which goes through these
lines in order and stops at its first error, makes no call for a missing block.  So it does if no
name that the block reaches is missing. -/
theorem reports_cycle_iff (hlive : (parse source fileId).get? block.name = some block) :
    let book := parse source fileId
    ((∃ d ∈ book.lint, (∃ revisited, d.SaysCycle revisited) ∧ d.span = block.header) ↔
        (∃ target, Reaches book.blockMap block.name target ∧ OnCycle book.blockMap target) ∧
          ∀ call, Relation.ReflTransGen (Makes book.blockMap) ⟨block.name, []⟩ call →
            call.name ∈ book.blockMap.keys) ∧
      ((∀ target, Reaches book.blockMap block.name target → target ∈ book.blockMap.keys) →
        ((∃ d ∈ book.lint, (∃ revisited, d.SaysCycle revisited) ∧ d.span = block.header) ↔
          ∃ target, Reaches book.blockMap block.name target ∧ OnCycle book.blockMap target)) := by
  intro book
  have hblock : block ∈ book.blocks := (List.mem_filter.mp (mem_of_get?_eq_some hlive)).1
  have hreports : (∃ d ∈ book.lint, (∃ revisited, d.SaysCycle revisited) ∧ d.span = block.header) ↔
      Revisits (book.expandBlock block.name) := by
    constructor
    · rintro ⟨d, hd, ⟨revisited, hwords⟩, hspan⟩
      exact ⟨revisited, ((saysCycle_at_header_iff hblock).mp ⟨d, hd, hwords, hspan⟩).2⟩
    · rintro ⟨revisited, hexpand⟩
      obtain ⟨d, hd, hwords, hspan⟩ := (saysCycle_at_header_iff hblock).mpr ⟨hlive, hexpand⟩
      exact ⟨d, hd, ⟨revisited, hwords⟩, hspan⟩
  have hexact := hreports.trans revisits_expanded_iff
  refine ⟨hexact, fun hkeys => ?_⟩
  rw [hexact]
  exact and_iff_left fun call hcalls => hkeys _ (reaches_of_calls hcalls)

/-- The first include line leads to a cycle, and the block on the second one is missing. -/
theorem reports_cycle_iff_of_missing_behind :
    let book := parse "### a\n#include b\n#include c\n### b\n#include b\n" 0
    ∃ block, book.get? block.name = some block ∧
      (∃ d ∈ book.lint, (∃ revisited, d.SaysCycle revisited) ∧ d.span = block.header) ∧
      (∃ target, Reaches book.blockMap block.name target ∧ OnCycle book.blockMap target) ∧
      ∀ call, Relation.ReflTransGen (Makes book.blockMap) ⟨block.name, []⟩ call →
        call.name ∈ book.blockMap.keys := by
  intro book
  obtain ⟨block, hget⟩ : ∃ block, book.get? "a" = some block :=
    Option.isSome_iff_exists.mp (by decide)
  have hname := name_of_get?_eq_some hget
  have hlive : book.get? block.name = some block := hname ▸ hget
  have hexpand : book.expandBlock block.name = .error (.cyclicInclude "b") := by
    rw [hname]
    decide
  obtain ⟨d, hd, hwords, hspan⟩ :=
    (saysCycle_at_header_iff (List.mem_filter.mp (mem_of_get?_eq_some hget)).1).mpr ⟨hlive, hexpand⟩
  have hreported : ∃ d ∈ book.lint, (∃ revisited, d.SaysCycle revisited) ∧ d.span = block.header :=
    ⟨d, hd, ⟨"b", hwords⟩, hspan⟩
  exact ⟨block, hlive, hreported, (reports_cycle_iff hlive).1.mp hreported⟩

/-- A missing block in front of a cycle hides it. -/
theorem not_reports_cycle_behind_missing :
    let book := parse "### a\n#include b\n#include a\n" 0
    ∃ block, book.get? block.name = some block ∧
      (∃ target, Reaches book.blockMap block.name target ∧ OnCycle book.blockMap target) ∧
      ¬ ∃ d ∈ book.lint, (∃ revisited, d.SaysCycle revisited) ∧ d.span = block.header := by
  intro book
  obtain ⟨block, hget⟩ : ∃ block, book.get? "a" = some block :=
    Option.isSome_iff_exists.mp (by decide)
  have hname := name_of_get?_eq_some hget
  refine ⟨block, hname ▸ hget, ⟨"a", ?_, ?_⟩, ?_⟩
  · rw [hname]
  · exact .single ⟨"#include b\n#include a", by decide, "#include a", by decide, by decide⟩
  · rintro ⟨d, hd, ⟨revisited, hwords⟩, -⟩
    have hlint : ∀ d ∈ book.lint, d.message = "included block does not exist: b" := by decide
    exact Diagnostic.not_saysMissing_of_saysCycle hwords ⟨hwords.1, hlint d hd⟩

end Book

end Runbook
