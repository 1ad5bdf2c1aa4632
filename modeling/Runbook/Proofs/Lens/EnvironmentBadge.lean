import Runbook.Lens
import Runbook.Proofs.Reference.Hiding
import Runbook.Proofs.Reference.Plain

/-!
# The badge for the environment

A lens offers to look into the environment if the body of its block holds a dollar sign or
`process.env`. That is a rough test, since not every dollar sign belongs to a reference, but it errs
on one side only: a body that some expansion changes passes it (`badge_misses_nothing`).

In the other direction, references alone change nothing.  A pass for the environment puts every
reference back as it was written unless the environment has a value for it, so an environment
without values leaves what the declarations have made of the command
(`Reference.expand_of_unresolved`).
-/

namespace Runbook

namespace Reference

variable {style : Style} {styles : List Style} {command t : Text} {declared : VariableTable}
  {env : Environment}

theorem substitute_of_unresolved
    (h : ∀ name ∈ (cut style t).filterMap Piece.name?, env.value? name = none) :
    substitute style.form env t = t := by
  calc substitute style.form env t
      = (cut style t).flatMap (Piece.resolve style env.value?) := substitute_eq_flatMap style env t
    _ = (cut style t).flatMap Piece.text := by
        refine List.flatMap_congr fun p hp => ?_
        cases p with
        | literal s => rfl
        | reference s name =>
            have hvalue := h name (List.mem_filterMap.mpr ⟨_, hp, rfl⟩)
            simp [Piece.resolve, Piece.text, hvalue]
    _ = t := flatMap_text_cut style t

theorem substituteEach_of_unresolved (h : ∀ name ∈ lookedUp env styles t, env.value? name = none) :
    substituteEach env styles t = t := by
  induction styles with
  | nil => rfl
  | cons style rest ih =>
      obtain ⟨hcut, hrest⟩ := List.forall_mem_append.mp h
      have hpass : substitute style.form env t = t := substitute_of_unresolved hcut
      rw [hpass] at hrest
      rw [substituteEach, hpass, ih hrest]

/-- **References without a value stay as they are written.** -/
theorem expand_of_unresolved (h : ∀ name ∈ asked command declared env, env.value? name = none) :
    expand command declared env = declared.entries.foldl expandDeclared command := by
  rw [expand_eq_substituteEach]
  exact substituteEach_of_unresolved h

end Reference

theorem Block.referencesVariables_iff {block : Block} :
    block.referencesVariables = true ↔ Reference.Mentions block.body := by
  rw [referencesVariables, Bool.or_eq_true, Reference.Mentions]

theorem Lens.getEnvVar_mem_ofBlock (document : Document) (declared : VariableTable)
    (store : StatusStore) (now : Instant) {block : Block} (h : block.referencesVariables = true) :
    .getEnvVar ∈ (ofBlock document declared store now block).affordances := by
  simp [ofBlock, h]

/-- **The badge misses no expansion.**  If some variables change the body of a block, the block
counts as one that mentions variables, and its lens shows the badge in every document that holds
it.  Without declared variables and without values in the environment, no command changes at all. -/
theorem badge_misses_nothing :
    (∀ (block : Block) (declared : VariableTable) (env : Environment),
      Reference.expand block.body declared env ≠ block.body →
        block.referencesVariables = true ∧
          ∀ (document : Document) (store : StatusStore) (now : Instant),
            block ∈ document.book.executableBlocks →
              ∃ lens ∈ document.lenses store now,
                lens.key = .ofBlock document.uri block ∧ .getEnvVar ∈ lens.affordances) ∧
      ∀ (command : Text) (env : Environment), (∀ name, env name = none ∨ env name = some []) →
        Reference.expand command .empty env = command := by
  constructor
  · intro block declared env hne
    have hmentions : Reference.Mentions block.body := by
      by_contra hplain
      exact hne (Reference.expand_of_not_mentions hplain declared env)
    have href : block.referencesVariables = true := Block.referencesVariables_iff.mpr hmentions
    refine ⟨href, fun document store now hblock => ?_⟩
    have hlens : Lens.ofBlock document document.book.declared store now block ∈
        document.lenses store now := List.mem_map_of_mem hblock
    exact ⟨_, hlens, rfl, Lens.getEnvVar_mem_ofBlock document _ store now href⟩
  · intro command env henv
    have hnone (name : Text) : env.value? name = none := by
      rw [Environment.value?]
      rcases henv name with h | h <;> simp [h]
    exact Reference.expand_of_unresolved fun name _ => hnone name

/-- A reference to a variable that is set, and two to variables that are empty and unset. -/
theorem badge_misses_nothing_of_home :
    let document : Document := ⟨"book", "### a\nls \x7bprocess.env.HOME\x7d\n"⟩
    let env : Environment := fun name => if name = "A".toList then some [] else none
    (∃ lens ∈ document.lenses .empty 0, .getEnvVar ∈ lens.affordances) ∧
      Reference.expand "$A $\x7bB\x7d" .empty env = "$A $\x7bB\x7d" := by
  intro document env
  obtain ⟨block, hblock, hne⟩ : ∃ block ∈ document.book.executableBlocks,
      Reference.expand block.body .empty (.ofPairs [("HOME", "/root")]) ≠ block.body := by
    decide
  obtain ⟨lens, hlens, -, hbadge⟩ :=
    (badge_misses_nothing.1 block .empty _ hne).2 document .empty 0 hblock
  have henv (name : Text) : env name = none ∨ env name = some [] := by
    by_cases hname : name = "A".toList
    · exact .inr (if_pos hname)
    · exact .inl (if_neg hname)
  exact ⟨⟨lens, hlens, hbadge⟩, badge_misses_nothing.2 _ _ henv⟩

end Runbook
