import Mathlib.Data.List.NodupEquivFin
import Runbook.Proofs.Block.Tiling
import Runbook.Proofs.Book.Live
import Runbook.Proofs.Execution.Agreement
import Runbook.Run

/-!
# Shadowed blocks

Which of several blocks of one name counts is decided in five places: the bodies by name are put
into a table one after another, a block is searched for from the end, the variables are searched for
from the front, a run looks for the last lens, and the warnings are found while the blocks are
passed one by one.  They all mean the same blocks (`one_live_block`), the ones that are `LiveAmong`
the blocks of the book.

* A search through blocks in order finds the outermost of those that fit
  (`find?_eq_some_iff_of_pairwise`), which settles the searches (`get?_eq_some_iff`,
  `variablesBlock?_eq_some_iff`).
* A warning is about one block, the `loserBehind?` of a block that stands further down.  When a
  block is put behind the others, one live block at most ceases to be live, or the new one does not
  become live, and that is the one that the warning is about (`mem_losers_iff`).  So each block that
  is not live is warned about once.
-/

namespace Runbook

/-- In a list in order, a search finds the element that fits and has none that fits in front of
it. -/
theorem find?_eq_some_iff_of_pairwise {α : Type} {r : α → α → Prop} {p : α → Bool} {l : List α}
    {a : α} (hr : ∀ a b, r a b → ¬ r b a) (h : l.Pairwise r) :
    l.find? p = some a ↔ a ∈ l ∧ p a ∧ ∀ b ∈ l, p b → ¬ r b a := by
  induction l with
  | nil => simp
  | cons first rest ih =>
      obtain ⟨hfirst, hrest⟩ := List.pairwise_cons.mp h
      by_cases hp : p first
      · rw [List.find?_cons_of_pos hp, Option.some.injEq]
        constructor
        · rintro rfl
          refine ⟨List.mem_cons_self, hp, fun b hb _ hba => ?_⟩
          rcases List.mem_cons.mp hb with rfl | hb
          · exact hr b b hba hba
          · exact hr first b (hfirst b hb) hba
        · rintro ⟨ha, -, hnone⟩
          rcases List.mem_cons.mp ha with rfl | ha
          · rfl
          · exact absurd (hfirst a ha) (hnone first List.mem_cons_self hp)
      · rw [List.find?_cons_of_neg hp, ih hrest]
        constructor
        · rintro ⟨ha, hpa, hnone⟩
          refine ⟨List.mem_cons_of_mem first ha, hpa, fun b hb hpb => ?_⟩
          rcases List.mem_cons.mp hb with rfl | hb
          · exact absurd hpb hp
          · exact hnone b hb hpb
        · rintro ⟨ha, hpa, hnone⟩
          rcases List.mem_cons.mp ha with rfl | ha
          · exact absurd hpa hp
          · exact ⟨ha, hpa, fun b hb => hnone b (List.mem_cons_of_mem first hb)⟩

namespace Block

variable {blocks earlier : List Block} {b c : Block} {name : Text}

/-! ## Live blocks -/

/-- The block counts among these. Of the blocks of variables the first one does, and of the other
blocks the last one of each name. -/
structure LiveAmong (blocks : List Block) (b : Block) : Prop where
  mem : b ∈ blocks
  first : b.isVariables → ∀ other ∈ blocks, other.isVariables → b.start ≤ other.start
  last : ¬ b.isVariables → ∀ other ∈ blocks, other.name = b.name → other.start ≤ b.start

/-- The blocks stand in the opposite order of the source. -/
def Descending (blocks : List Block) : Prop := blocks.Pairwise fun a b => b.start < a.start

/-- The blocks of a source stand one behind the other. -/
theorem pairwise_start_scan (source : Text) : (scan source).Pairwise (·.start < ·.start) :=
  pairwise_start_of_tiles (tiles_ofSections fun _ hs => isHeader_of_mem_sections hs)

theorem isVariables_congr (h : b.name = c.name) : b.isVariables = c.isVariables := by
  rw [isVariables, isVariables, h]

theorem LiveAmong.congr {others : List Block} (h : LiveAmong blocks b)
    (hsame : ∀ other, other ∈ others ↔ other ∈ blocks) : LiveAmong others b where
  mem := (hsame b).mpr h.mem
  first hvar other hother := h.first hvar other ((hsame other).mp hother)
  last hvar other hother := h.last hvar other ((hsame other).mp hother)

theorem liveAmong_reverse : LiveAmong blocks.reverse b ↔ LiveAmong blocks b :=
  ⟨fun h => h.congr fun _ => List.mem_reverse.symm, fun h => h.congr fun _ => List.mem_reverse⟩

/-- A block that is put behind the others takes the name of an executable one. -/
theorem liveAmong_cons_of_mem (hb : ∀ e ∈ earlier, e.start < b.start) (hc : c ∈ earlier) :
    LiveAmong (b :: earlier) c ↔ LiveAmong earlier c ∧ (¬ b.isVariables → c.name ≠ b.name) := by
  constructor
  · rintro ⟨-, hfirst, hlast⟩
    refine ⟨⟨hc, fun hvar e he => hfirst hvar e (List.mem_cons_of_mem b he),
      fun hvar e he => hlast hvar e (List.mem_cons_of_mem b he)⟩, fun hvar hname => ?_⟩
    have hle := hlast (isVariables_congr hname ▸ hvar) b List.mem_cons_self hname.symm
    exact absurd (hb c hc) (Nat.not_lt.mpr hle)
  · rintro ⟨⟨-, hfirst, hlast⟩, hname⟩
    refine ⟨List.mem_cons_of_mem b hc, fun hvar e he hevar => ?_, fun hvar e he hename => ?_⟩
    · rcases List.mem_cons.mp he with rfl | he
      · exact Nat.le_of_lt (hb c hc)
      · exact hfirst hvar e he hevar
    · rcases List.mem_cons.mp he with rfl | he
      · exact absurd hename.symm (hname (isVariables_congr hename ▸ hvar))
      · exact hlast hvar e he hename

/-- A block is live behind all others, unless it declares variables and is not the first one to do
so. -/
theorem liveAmong_cons_self (hb : ∀ e ∈ earlier, e.start < b.start) :
    LiveAmong (b :: earlier) b ↔ (b.isVariables → ∀ e ∈ earlier, ¬ e.isVariables) := by
  constructor
  · rintro ⟨-, hfirst, -⟩ hvar e he hevar
    exact absurd (hb e he) (Nat.not_lt.mpr (hfirst hvar e (List.mem_cons_of_mem b he) hevar))
  · intro hnone
    refine ⟨List.mem_cons_self, fun hvar e he hevar => ?_, fun _ e he _ => ?_⟩
    · rcases List.mem_cons.mp he with rfl | he
      · exact Nat.le_refl _
      · exact absurd hevar (hnone hvar e he)
    · rcases List.mem_cons.mp he with rfl | he
      · exact Nat.le_refl _
      · exact Nat.le_of_lt (hb e he)

/-! ## Blocks that do not count -/

/-- The block that does not count any more, or at all, once a block stands behind the `earlier`
ones. -/
def loserBehind? (earlier : List Block) (block : Block) : Option Block :=
  if block.isVariables then
    if earlier.any (·.isVariables) then some block else none
  else earlier.find? (·.name = block.name)

/-- The blocks that do not count, in the order in which this turns out. The nearest block is named
first. -/
def losers : List Block → List Block
  | [] => []
  | block :: earlier => losers earlier ++ (loserBehind? earlier block).toList

theorem loserBehind?_eq_some_iff (h : Descending earlier) :
    loserBehind? earlier b = some c ↔
      (b.isVariables ∧ c = b ∧ ∃ e ∈ earlier, e.isVariables) ∨
        (¬ b.isVariables ∧ c.name = b.name ∧ LiveAmong earlier c) := by
  unfold loserBehind?
  by_cases hvar : b.isVariables
  · have hany : (∃ e ∈ earlier, e.isVariables) ↔ earlier.any (·.isVariables) :=
      List.any_eq_true.symm
    rw [if_pos hvar, hany]
    cases earlier.any (·.isVariables) <;> simp [hvar, eq_comm]
  · rw [if_neg hvar, find?_eq_some_iff_of_pairwise (fun _ _ => Nat.lt_asymm) h]
    simp only [hvar, Bool.false_eq_true, false_and, not_false_eq_true, true_and, false_or,
      decide_eq_true_eq, Nat.not_lt]
    constructor
    · rintro ⟨hmem, hname, hlast⟩
      have hcvar : ¬ c.isVariables := isVariables_congr hname ▸ hvar
      exact ⟨hname, hmem, fun hyes => absurd hyes hcvar, fun _ e he hename =>
        hlast e he (hename.trans hname)⟩
    · rintro ⟨hname, hmem, -, hlast⟩
      have hcvar : ¬ c.isVariables := isVariables_congr hname ▸ hvar
      exact ⟨hmem, hname, fun e he hename => hlast hcvar e he (hename.trans hname.symm)⟩

/-- **The blocks that do not count are the ones that are not live.** -/
theorem mem_losers_iff (h : Descending blocks) :
    c ∈ losers blocks ↔ c ∈ blocks ∧ ¬ LiveAmong blocks c := by
  induction blocks with
  | nil => simp [losers]
  | cons b earlier ih =>
      obtain ⟨hb, hearlier⟩ := List.pairwise_cons.mp h
      rw [losers, List.mem_append, ih hearlier, Option.mem_toList,
        loserBehind?_eq_some_iff hearlier, List.mem_cons]
      have hnot : b ∉ earlier := fun hmem => Nat.lt_irrefl _ (hb b hmem)
      by_cases hc : c = b
      · subst hc
        have hself : ¬ LiveAmong earlier c := fun hlive => hnot hlive.mem
        rw [liveAmong_cons_self hb]
        simp [hnot, hself]
      · by_cases hmem : c ∈ earlier
        · rw [liveAmong_cons_of_mem hb hmem]
          simp only [hmem, hc]
          tauto
        · have hlive : ¬ LiveAmong earlier c := fun hlive => hmem hlive.mem
          simp [hmem, hc, hlive]

theorem nodup_losers (h : Descending blocks) : (losers blocks).Nodup := by
  induction blocks with
  | nil => exact List.nodup_nil
  | cons b earlier ih =>
      obtain ⟨hb, hearlier⟩ := List.pairwise_cons.mp h
      rw [losers]
      cases hloser : loserBehind? earlier b with
      | none => simpa using ih hearlier
      | some c =>
          -- the block that loses now was live, or was not there, and so it has not lost before
          have hnew : c ∉ losers earlier := by
            rw [mem_losers_iff hearlier]
            rintro ⟨hmem, hlive⟩
            rcases (loserBehind?_eq_some_iff hearlier).mp hloser with ⟨-, rfl, -⟩ | ⟨-, -, hyes⟩
            · exact Nat.lt_irrefl _ (hb c hmem)
            · exact hlive hyes
          simpa using List.Nodup.concat hnew (ih hearlier)

end Block

namespace Book

open Block

variable {book : Book} {name : Text} {b : Block}

/-! ## Warnings -/

theorem span_warningAt? (fileId : Nat) (earlier : List Block) (block : Block) :
    (warningAt? fileId earlier block).toList.map (·.span) =
      (loserBehind? earlier block).toList.map (·.header) := by
  unfold warningAt? loserBehind?
  split
  · split <;> rfl
  · cases earlier.find? (·.name = block.name) <;> rfl

theorem map_span_warningsBehind (fileId : Nat) (earlier rest : List Block) :
    (losers earlier).map (·.header) ++ (warningsBehind fileId earlier rest).map (·.span) =
      (losers (rest.reverse ++ earlier)).map (·.header) := by
  induction rest generalizing earlier with
  | nil => simp [warningsBehind]
  | cons block rest ih =>
      have hrest := ih (block :: earlier)
      rw [losers, List.map_append, ← span_warningAt? fileId] at hrest
      rw [warningsBehind, List.map_append, ← List.append_assoc, hrest, List.reverse_cons,
        List.append_assoc, List.singleton_append]

/-- Each warning is about a block that is not live, and each such block has one warning. -/
theorem exists_equiv_warnings (h : book.blocks.Pairwise (·.start < ·.start)) :
    ∃ shadowed : Fin book.warnings.length ≃ {b // b ∈ book.blocks ∧ ¬ LiveAmong book.blocks b},
      ∀ i, book.warnings[i].span = (shadowed i).1.header := by
  have hdescending : Descending book.blocks.reverse := List.pairwise_reverse.mpr h
  have hspans : book.warnings.map (·.span) = (losers book.blocks.reverse).map (·.header) := by
    have hall := map_span_warningsBehind book.fileId [] book.blocks
    rwa [losers, List.map_nil, List.nil_append, List.append_nil] at hall
  have hlength : book.warnings.length = (losers book.blocks.reverse).length := by
    simpa using congrArg List.length hspans
  have hmem : ∀ b, b ∈ losers book.blocks.reverse ↔
      b ∈ book.blocks ∧ ¬ LiveAmong book.blocks b := by
    intro b
    rw [mem_losers_iff hdescending, List.mem_reverse, liveAmong_reverse]
  refine ⟨(finCongr hlength).trans ((List.Nodup.getEquiv _ (nodup_losers hdescending)).trans
    (Equiv.subtypeEquivRight hmem)), fun i => ?_⟩
  have hi : i.1 < (losers book.blocks.reverse).length := hlength ▸ i.isLt
  have hspan : book.warnings[i].span = (losers book.blocks.reverse)[i.1].header := by
    have hboth : (book.warnings.map (·.span))[i.1]? =
        ((losers book.blocks.reverse).map (·.header))[i.1]? := by
      rw [hspans]
    simpa [List.getElem?_map, hi] using hboth
  exact hspan

/-! ## Searches -/

theorem get?_eq_some_iff (h : book.blocks.Pairwise (·.start < ·.start)) :
    book.get? name = some b ↔ LiveAmong book.blocks b ∧ ¬ b.isVariables ∧ b.name = name := by
  have hdescending : Descending book.executableBlocks.reverse :=
    List.pairwise_reverse.mpr (h.sublist List.filter_sublist)
  rw [get?, find?_eq_some_iff_of_pairwise (fun _ _ => Nat.lt_asymm) hdescending]
  simp only [List.mem_reverse, executableBlocks, List.mem_filter, Bool.not_eq_true',
    decide_eq_true_eq, Nat.not_lt, Bool.not_eq_true]
  constructor
  · rintro ⟨⟨hmem, hvar⟩, rfl, hlast⟩
    refine ⟨⟨hmem, fun hyes => ?_, fun _ e he hename => ?_⟩, hvar, rfl⟩
    · rw [hvar] at hyes
      cases hyes
    · exact hlast e ⟨he, (isVariables_congr hename).trans hvar⟩ hename
  · rintro ⟨⟨hmem, -, hlast⟩, hvar, rfl⟩
    exact ⟨⟨hmem, hvar⟩, rfl, fun e he hename => hlast (by simp [hvar]) e he.1 hename⟩

theorem variablesBlock?_eq_some_iff (h : book.blocks.Pairwise (·.start < ·.start)) :
    book.variablesBlock? = some b ↔ LiveAmong book.blocks b ∧ b.isVariables := by
  rw [variablesBlock?, find?_eq_some_iff_of_pairwise (fun _ _ => Nat.lt_asymm) h]
  simp only [Nat.not_lt]
  constructor
  · rintro ⟨hmem, hvar, hfirst⟩
    exact ⟨⟨hmem, fun _ => hfirst, fun hno => absurd hvar hno⟩, hvar⟩
  · rintro ⟨⟨hmem, hfirst, -⟩, hvar⟩
    exact ⟨hmem, hvar, hfirst hvar⟩

end Book

/-- The last lens of a name is that of the live block. -/
theorem Document.find?_lenses (document : Document) (seen : StatusStore) (shown : Instant)
    (name : Text) :
    (document.lenses seen shown).reverse.find? (·.name = name) =
      (document.book.get? name).map (Lens.ofBlock document document.book.declared seen shown) := by
  rw [lenses, ← List.map_reverse, List.find?_map]
  rfl

/-- **There is one live block.**  For every source, the blocks that count are the last one of each
name, or the first one that declares variables.  A name has a body exactly if it has a block, which
is the live one and has this body; a run executes that block; the variables are those of the live
block of variables; and the warnings belong one to one to the blocks that are not live, at whose
header lines they stand. -/
theorem one_live_block (r : RunSetup) (fileId : Nat) :
    let book := Book.parse r.document.text fileId
    (∀ name,
      (book.blockMap.contains name ↔ (book.get? name).isSome) ∧
        book.blockMap.get? name = (book.get? name).map Block.body ∧
        (∀ b, book.get? name = some b ↔
          Block.LiveAmong book.blocks b ∧ ¬ b.isVariables ∧ b.name = name) ∧
        r.lenses.reverse.find? (·.name = name) =
          (book.get? name).map (Lens.ofBlock r.document book.declared .empty RunSetup.now) ∧
        r.request? name = (book.get? name).map fun b =>
          ⟨b.body, BlockKey.ofBlock r.document.uri b, book.declared⟩) ∧
      (∀ b, book.variablesBlock? = some b ↔ Block.LiveAmong book.blocks b ∧ b.isVariables) ∧
      book.declared =
        (book.variablesBlock?.map fun b => VariableTable.parse b.body).getD Table.empty ∧
      ∃ shadowed : Fin book.warnings.length ≃
          {b // b ∈ book.blocks ∧ ¬ Block.LiveAmong book.blocks b},
        ∀ i, book.warnings[i].span = (shadowed i).1.header := by
  intro book
  have hsorted : book.blocks.Pairwise (·.start < ·.start) := Block.pairwise_start_scan _
  refine ⟨fun name => ⟨?_, Book.blockMap_get? book name, fun b => Book.get?_eq_some_iff hsorted,
    r.document.find?_lenses .empty RunSetup.now name,
      r.document.request?_eq .empty RunSetup.now name⟩,
    fun b => Book.variablesBlock?_eq_some_iff hsorted, ?_, Book.exists_equiv_warnings hsorted⟩
  · rw [Table.contains, Book.blockMap_get?, Option.isSome_map]
  · rw [Book.declared]
    cases book.variablesBlock? <;> rfl

end Runbook
