import Runbook.Lens
import Runbook.Proofs.Book.Shadowing
import Runbook.Proofs.Text.Numbering

/-!
# Lenses mirror the document and the store

Three things meet in a lens: the offset of a block, which the scanner found; the number of a line,
for which line feeds are counted in front of that offset; and a record, which a store keeps under
the key that is made of the offset. A lens `Mirrors` its block if they fit together.

The offset of a block is the place of its header line (`Block.headerAt_of_mem_scan`).  Hence it is
between two characters, the line with the number of the lens is this header line
(`Text.LineAt.getElem?_splitOn`), and further blocks have larger numbers
(`Text.LineAt.lineOf_lt_lineOf`).  The store is read at one key only (`Lens.ofBlock_congr`).
-/

namespace Runbook

variable {document : Document} {store other : StatusStore} {now : Instant} {block : Block}

/-- The badge says how the latest execution of a block stands. -/
def Affordance.isStatus : Affordance → Bool
  | .executing | .succeeded _ | .failed _ => true
  | _ => false

namespace Lens

/-- The lens shows this block of the document and what the store knows of it.  The line of the lens
is counted up to the block's offset, and it is the line of the document with the block's header,
behind all the lines above it. -/
structure Mirrors (document : Document) (store : StatusStore) (block : Block) (lens : Lens) :
    Prop where
  name : lens.name = block.name
  key : lens.key = ⟨document.uri, block.start⟩
  request : lens.executeRequest? = some ⟨block.body, lens.key, document.book.declared⟩
  boundary : ∃ above behind, document.text = above ++ behind ∧ Text.byteLength above = block.start ∧
    lens.line = above.count '\n'
  header : ∃ line, (document.text.splitOn '\n')[lens.line]? = some line ∧
    Block.Declares line block.name
  above : Text.byteLength (Text.unlines ((document.text.splitOn '\n').take lens.line)) = block.start
  status : lens.affordances.filter Affordance.isStatus =
    match store.get? lens.key with
    | none => []
    | some record =>
        match record.state with
        | .pending => [.executing]
        | .success => [.succeeded lens.key]
        | .failure => [.failed lens.key]

theorem filter_isStatus_badges (now : Instant) (key : BlockKey) (record : ExecutionRecord) :
    (badges now key record).filter Affordance.isStatus = [.ofState key record.state] := by
  have hstate : (Affordance.ofState key record.state).isStatus := by
    cases record.state <;> rfl
  rw [badges, List.filter_cons, if_pos hstate]
  split <;> rfl

/-- The other affordances are no badges of this kind. -/
theorem filter_isStatus_ofBlock (document : Document) (declared : VariableTable)
    (store : StatusStore)
    (now : Instant) (block : Block) :
    (ofBlock document declared store now block).affordances.filter Affordance.isStatus =
      match store.get? (.ofBlock document.uri block) with
      | none => []
      | some record => [.ofState (.ofBlock document.uri block) record.state] := by
  have hvariables : (if block.referencesVariables then [Affordance.getEnvVar] else []).filter
      Affordance.isStatus = [] := by
    split <;> rfl
  rw [ofBlock, List.filter_append, List.filter_append, hvariables]
  cases store.get? (.ofBlock document.uri block) with
  | none => rfl
  | some record => exact filter_isStatus_badges now _ record

theorem mirrors_ofBlock (store : StatusStore) (now : Instant)
    (hblock : block ∈ document.book.executableBlocks) :
    Mirrors document store block (ofBlock document document.book.declared store now block) := by
  have hat := Block.headerAt_of_mem_scan (List.mem_of_mem_filter hblock)
  obtain ⟨line, hline, hdeclares⟩ := hat
  have hnumber := hline.getElem?_splitOn
  obtain ⟨above, behind, htext, habove, -⟩ := hline
  constructor
  case name => rfl
  case key => rfl
  case request => rfl
  case boundary =>
    refine ⟨above, line ++ behind, htext, habove, ?_⟩
    rw [ofBlock, htext, ← habove, Text.lineOf_byteLength_append]
  case header => exact ⟨line, hnumber.1, hdeclares⟩
  case above => exact hnumber.2
  case status =>
    have hkey : (ofBlock document document.book.declared store now block).key =
        .ofBlock document.uri block := rfl
    rw [filter_isStatus_ofBlock, hkey]
    cases store.get? (.ofBlock document.uri block) with
    | none => rfl
    | some record => rcases record with ⟨_ | _ | _, time⟩ <;> rfl

/-- Only the record of its own key matters to a lens. -/
theorem ofBlock_congr (declared : VariableTable)
    (h : other.get? (.ofBlock document.uri block) = store.get? (.ofBlock document.uri block)) :
    ofBlock document declared other now block = ofBlock document declared store now block := by
  simp only [ofBlock, h]

end Lens

theorem Document.pairwise_start_executableBlocks (document : Document) :
    document.book.executableBlocks.Pairwise (·.start < ·.start) :=
  (Block.pairwise_start_scan document.text).filter _

theorem Document.pairwise_line_executableBlocks (document : Document) :
    document.book.executableBlocks.Pairwise fun b c =>
      Text.lineOf document.text b.start < Text.lineOf document.text c.start := by
  refine document.pairwise_start_executableBlocks.imp_of_mem ?_
  intro b c hb hc hlt
  obtain ⟨line, hline, -⟩ := Block.headerAt_of_mem_scan (List.mem_of_mem_filter hb)
  obtain ⟨later, hlater, -⟩ := Block.headerAt_of_mem_scan (List.mem_of_mem_filter hc)
  exact hline.lineOf_lt_lineOf hlater hlt

/-- **Lenses mirror the document and the store.**  For every text and every store there is one lens
for each executable block, in the order of the document, and it mirrors this block.  The keys of the
lenses are distinct, and their lines ascend.  A store with the same record for the key of a lens
gives the same lens, whatever else it holds. -/
theorem Document.lenses_mirror (document : Document) (store : StatusStore) (now : Instant) :
    let lenses := document.lenses store now
    List.Forall₂ (Lens.Mirrors document store) document.book.executableBlocks lenses ∧
      (lenses.map Lens.key).Nodup ∧
      lenses.Pairwise (·.line < ·.line) ∧
      ∀ (other : StatusStore) (i : Nat) (lens : Lens), lenses[i]? = some lens →
        other.get? lens.key = store.get? lens.key →
          (document.lenses other now)[i]? = some lens := by
  intro lenses
  have hlenses : lenses = document.book.executableBlocks.map
      (Lens.ofBlock document document.book.declared store now) := rfl
  refine ⟨?_, ?_, ?_, ?_⟩
  · rw [hlenses, List.forall₂_map_right_iff, List.forall₂_same]
    intro block hblock
    exact Lens.mirrors_ofBlock store now hblock
  · -- keys differ because the offsets in them do
    rw [hlenses, List.map_map]
    refine List.pairwise_map.mpr (document.pairwise_start_executableBlocks.imp ?_)
    intro b c hlt heq
    exact hlt.ne (congrArg BlockKey.offset heq)
  · exact List.pairwise_map.mpr document.pairwise_line_executableBlocks
  · intro other i lens hlens hsame
    rw [hlenses, List.getElem?_map] at hlens
    obtain ⟨block, hblock, rfl⟩ := Option.map_eq_some_iff.mp hlens
    rw [Document.lenses, List.getElem?_map, hblock, Option.map_some, Lens.ofBlock_congr _ hsame]

/-- A preamble of several bytes, two blocks of one name and variables between them.  The store knows
how the first block ended; another one also knows a block at the same place of another document, and
a place without a block. -/
theorem Document.lenses_mirror_of_duplicates :
    let document : Document :=
      ⟨"bücher", "é ≤\n### a\nls\n### $VARIABLES\nX=1\n###\tà \r\n### a\nls $X"⟩
    let store : StatusStore := StatusStore.empty.setResult 0 ⟨"bücher", 7⟩ true
    let crowded :=
      ((store.setPending 5 ⟨"elsewhere", 7⟩).setResult 5 ⟨"bücher", 8⟩ false).setPending 5
        ⟨"bücher", 0⟩
    (document.lenses store 0).map (·.line) = [1, 5, 6] ∧
      ∃ lens, (document.lenses store 0)[0]? = some lens ∧
        lens.affordances.filter Affordance.isStatus = [.succeeded ⟨"bücher", 7⟩] ∧
        crowded.get? lens.key = store.get? lens.key ∧
        (document.lenses crowded 0)[0]? = some lens := by
  intro document store crowded
  obtain ⟨lens, hlens, hstatus, hsame⟩ : ∃ lens, (document.lenses store 0)[0]? = some lens ∧
      lens.affordances.filter Affordance.isStatus = [.succeeded ⟨"bücher", 7⟩] ∧
      crowded.get? lens.key = store.get? lens.key := ⟨_, rfl, by decide, by decide⟩
  obtain ⟨-, -, -, hother⟩ := lenses_mirror document store 0
  exact ⟨by decide, lens, hlens, hstatus, hsame, hother crowded 0 lens hlens hsame⟩

end Runbook
