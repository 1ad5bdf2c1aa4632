import Mathlib.Data.List.Chain
import Mathlib.Data.List.Perm.Subperm
import Runbook.Proofs.Include.Reach

/-!
# Nested calls

The expansion of a block follows names that it finds in texts, and no text gets smaller on the way.
It ends because every call inwards has opened one more block.

A `Call` is the name that an expansion is for and the names that are open by then.  `Makes` says
which calls a call makes itself: one for each include line of its body that it comes to, up to the
first one that fails.

* Along a chain of calls, each made by the one before, every call but the last has opened the block
  of its name. These names are distinct keys that were not open before (`names_of_isChain`), and so
  the chain is no longer than there are such keys (`length_lt_depthBound`).
* A depth is too small exactly if some chain goes deeper (`expandWithin_eq_none_iff`).  So `Makes`
  has neither too many calls nor too few, and the bound on chains is the bound on the depth that an
  expansion needs.
* An expansion fails exactly if a chain of calls leads to one that fails by itself, because its name
  is open or has no block (`expanded_eq_error_iff`).
-/

namespace Runbook.Include

/-- A call of the expansion. -/
structure Call where
  /-- The name of the block to expand. -/
  name : Text
  /-- The names of the blocks that the call is made inside of. -/
  opened : OpenNames

/-- One of the lines includes the name, and all lines in front of it are expanded without an
error. -/
inductive ComesTo (expand : Text → Except IncludeError Text) : List Text → Text → Prop where
  | here {line target : Text} (rest : List Text) (h : target? line = some target) :
      ComesTo expand (line :: rest) target
  | later {line target text : Text} {rest : List Text} (h : replacement expand line = .ok text)
      (hrest : ComesTo expand rest target) : ComesTo expand (line :: rest) target

/-- The outer call makes the inner one itself: it opens its name and comes to a line that includes
the name of the inner one. -/
structure Makes (blocks : BlockMap) (outer inner : Call) : Prop where
  not_open : outer.name ∉ outer.opened
  opened_eq : inner.opened = outer.name :: outer.opened
  comesTo : ∃ body, blocks.get? outer.name = some body ∧
    ComesTo (expanded blocks inner.opened) (Text.lines body) inner.name

variable {blocks : BlockMap} {opened : OpenNames} {name : Text} {outer inner : Call}

/-! ## Chains of calls -/

theorem Makes.mem_keys (h : Makes blocks outer inner) : outer.name ∈ blocks.keys := by
  obtain ⟨body, hbody, -⟩ := h.comesTo
  exact Table.mem_keys_of_get? hbody

theorem ComesTo.exists_line {expand : Text → Except IncludeError Text} {lines : List Text}
    {target : Text}
    (h : ComesTo expand lines target) : ∃ line ∈ lines, target? line = some target := by
  induction h with
  | here rest htarget => exact ⟨_, List.mem_cons_self, htarget⟩
  | later _ _ ih =>
      obtain ⟨line, hline, htarget⟩ := ih
      exact ⟨line, List.mem_cons_of_mem _ hline, htarget⟩

theorem Makes.edge (h : Makes blocks outer inner) : Edge blocks outer.name inner.name := by
  obtain ⟨body, hbody, hcomes⟩ := h.comesTo
  exact ⟨body, hbody, hcomes.exists_line⟩

theorem reaches_of_calls (h : Relation.ReflTransGen (Makes blocks) outer inner) :
    Reaches blocks outer.name inner.name :=
  h.lift Call.name fun _ _ => Makes.edge

theorem mem_keys_of_mem_opened (h : Relation.ReflTransGen (Makes blocks) outer inner) :
    ∀ x ∈ inner.opened, x ∈ outer.opened ∨ x ∈ blocks.keys := by
  induction h with
  | refl => exact fun x hx => .inl hx
  | tail _ hmakes ih =>
      intro x hx
      rw [hmakes.opened_eq] at hx
      rcases List.mem_cons.mp hx with rfl | hx
      · exact .inr hmakes.mem_keys
      · exact ih x hx

theorem Makes.depthBound_lt (h : Makes blocks outer inner) :
    depthBound blocks inner.opened < depthBound blocks outer.opened := by
  rw [h.opened_eq]
  exact depthBound_cons_lt h.not_open h.mem_keys

/-- Calls inside of calls come to an end. -/
theorem wellFounded_makes (blocks : BlockMap) :
    WellFounded fun inner outer : Call => Makes blocks outer inner :=
  Subrelation.wf (fun h => Makes.depthBound_lt h)
    (measure fun call : Call => depthBound blocks call.opened).wf

/-- All calls of a chain but the last one have opened a block: another one each time, and none that
was open before. -/
theorem names_of_isChain {calls : List Call} (h : List.IsChain (Makes blocks) (outer :: calls)) :
    ((outer :: calls).dropLast.map Call.name).Nodup ∧
      ∀ x ∈ (outer :: calls).dropLast.map Call.name, x ∈ blocks.keys ∧ x ∉ outer.opened := by
  induction calls generalizing outer with
  | nil => simp
  | cons next rest ih =>
      obtain ⟨hmakes, hrest⟩ := List.isChain_cons_cons.mp h
      obtain ⟨hnodup, hnames⟩ := ih hrest
      -- the calls further in are made while the name of this one is open
      rw [hmakes.opened_eq] at hnames
      rw [List.dropLast_cons_cons, List.map_cons]
      constructor
      · rw [List.nodup_cons]
        refine ⟨?_, hnodup⟩
        intro hmem
        exact (hnames _ hmem).2 List.mem_cons_self
      · intro x hx
        rcases List.mem_cons.mp hx with rfl | hx
        · exact ⟨hmakes.mem_keys, hmakes.not_open⟩
        · obtain ⟨hkey, hopen⟩ := hnames x hx
          exact ⟨hkey, fun hmem => hopen (List.mem_cons_of_mem _ hmem)⟩

theorem length_lt_depthBound {calls : List Call}
    (h : List.IsChain (Makes blocks) (outer :: calls)) :
    calls.length < depthBound blocks outer.opened := by
  obtain ⟨hnodup, hnames⟩ := names_of_isChain h
  have hsub : (outer :: calls).dropLast.map Call.name ⊆ blocks.keys.filter (· ∉ outer.opened) := by
    intro x hx
    obtain ⟨hkey, hopen⟩ := hnames x hx
    simp [hkey, hopen]
  have hlength := (hnodup.subperm hsub).length_le
  rw [List.length_map, List.length_dropLast, List.length_cons] at hlength
  unfold depthBound
  omega

/-! ## The depth that a call needs -/

section Lines

variable {expand : Text → OpenNames → Expansion Text} {f : Text → Except IncludeError Text}

/-- The first line runs out of depth, or gives way to its replacement. -/
theorem expandLines_cons
    (h : ∀ name result after, expand name opened = some (result, after) →
      result = f name ∧ after = opened)
    (line : Text) (rest : List Text) :
    (∃ target, target? line = some target ∧ expand target opened = none ∧
        expandLines expand (line :: rest) opened = none) ∨
      expandLines expand (line :: rest) opened =
        match replacement f line with
        | .error e => some (.error e, opened)
        | .ok text =>
          (expandLines expand rest opened).map fun found => (found.1.map (text :: ·), found.2) := by
  rw [expandLines]
  cases htarget : target? line with
  | none =>
      right
      simp only [replacement, htarget]
      rcases expandLines expand rest opened with _ | ⟨_ | _, _⟩ <;> rfl
  | some target =>
      cases hfirst : expand target opened with
      | none => exact .inl ⟨target, rfl, hfirst, by simp [hfirst]⟩
      | some found =>
          obtain ⟨result, after⟩ := found
          obtain ⟨rfl, rfl⟩ := h target result after hfirst
          right
          simp only [replacement, htarget, hfirst]
          cases f target with
          | error e => rfl
          | ok text =>
              dsimp only
              rcases expandLines expand rest after with _ | ⟨_ | _, _⟩ <;> rfl

theorem eq_mapM_of_expandLines
    (h : ∀ name result after, expand name opened = some (result, after) →
      result = f name ∧ after = opened)
    {lines : List Text} {result : Except IncludeError (List Text)} {after : OpenNames}
    (hlines : expandLines expand lines opened = some (result, after)) :
    result = lines.mapM (replacement f) ∧ after = opened := by
  induction lines generalizing result after with
  | nil =>
      cases hlines
      exact ⟨rfl, rfl⟩
  | cons line rest ih =>
      rw [List.mapM_cons]
      rcases expandLines_cons h line rest with ⟨target, -, -, hnone⟩ | hstep
      · rw [hnone] at hlines
        cases hlines
      · rw [hstep] at hlines
        cases hfirst : replacement f line with
        | error e =>
            rw [hfirst] at hlines
            cases hlines
            exact ⟨rfl, rfl⟩
        | ok text =>
            rw [hfirst] at hlines
            obtain ⟨⟨others, last⟩, hrest, hfound⟩ := Option.map_eq_some_iff.mp hlines
            obtain ⟨rfl, rfl⟩ := ih hrest
            cases hfound
            exact ⟨rfl, rfl⟩

theorem expandLines_eq_none_iff
    (h : ∀ name result after, expand name opened = some (result, after) →
      result = f name ∧ after = opened)
    (lines : List Text) :
    expandLines expand lines opened = none ↔
      ∃ target, ComesTo f lines target ∧ expand target opened = none := by
  induction lines with
  | nil =>
      constructor
      · intro hnone
        cases hnone
      · rintro ⟨target, hcomes, -⟩
        cases hcomes
  | cons line rest ih =>
      constructor
      · intro hnone
        rcases expandLines_cons h line rest with ⟨target, htarget, htoodeep, -⟩ | hstep
        · exact ⟨target, .here rest htarget, htoodeep⟩
        rw [hstep] at hnone
        cases hfirst : replacement f line with
        | error e => simp [hfirst] at hnone
        | ok text =>
            rw [hfirst] at hnone
            obtain ⟨target, hcomes, htoodeep⟩ := ih.mp (Option.map_eq_none_iff.mp hnone)
            exact ⟨target, .later hfirst hcomes, htoodeep⟩
      · rintro ⟨target, hcomes, htoodeep⟩
        cases hcomes with
        | here _ htarget => simp [expandLines, htarget, htoodeep]
        | later hfirst hrest =>
            rcases expandLines_cons h line rest with ⟨_, -, -, hnone⟩ | hstep
            · exact hnone
            · rw [hstep, hfirst]
              exact Option.map_eq_none_iff.mpr (ih.mpr ⟨target, hrest, htoodeep⟩)

end Lines

theorem expandWithin_succ {depth : Nat} {body : Text} (hopen : name ∉ opened)
    (hbody : blocks.get? name = some body) :
    expandWithin blocks (depth + 1) name opened =
      (expandLines (expandWithin blocks depth) (Text.lines body) (name :: opened)).map
        fun found => (found.1.map (Text.join "\n"), found.2.erase name) := by
  rw [expandWithin, if_neg hopen]
  simp only [hbody]
  rcases expandLines (expandWithin blocks depth) (Text.lines body) (name :: opened) with
    _ | ⟨_ | _, _⟩ <;> rfl

/-- Any depth that is large enough gives the result. -/
theorem eq_expanded_of_expandWithin {depth : Nat} {result : Except IncludeError Text}
    {after : OpenNames}
    (h : expandWithin blocks depth name opened = some (result, after)) :
    result = expanded blocks opened name ∧ after = opened := by
  induction depth generalizing name opened result after with
  | zero => cases h
  | succ depth ih =>
      by_cases hopen : name ∈ opened
      · rw [expandWithin, if_pos hopen] at h
        cases h
        exact ⟨(expanded_of_mem hopen).symm, rfl⟩
      cases hbody : blocks.get? name with
      | none =>
          simp only [expandWithin, if_neg hopen, hbody] at h
          cases h
          exact ⟨(expanded_of_get?_eq_none hopen hbody).symm, List.erase_cons_head name opened⟩
      | some body =>
          rw [expandWithin_succ hopen hbody, Option.map_eq_some_iff] at h
          obtain ⟨⟨texts, last⟩, hlines, hfound⟩ := h
          obtain ⟨rfl, rfl⟩ := eq_mapM_of_expandLines (fun _ _ _ => ih) hlines
          cases hfound
          exact ⟨(expanded_of_get?_eq_some hopen hbody).symm, List.erase_cons_head name opened⟩

/-- A call runs out of depth exactly if it makes one that does. -/
theorem expandWithin_succ_eq_none_iff {depth : Nat} :
    expandWithin blocks (depth + 1) name opened = none ↔
      ∃ inner, Makes blocks ⟨name, opened⟩ inner ∧
        expandWithin blocks depth inner.name inner.opened = none := by
  have hlines (body : Text) :
      expandLines (expandWithin blocks depth) (Text.lines body) (name :: opened) = none ↔
        ∃ target, ComesTo (expanded blocks (name :: opened)) (Text.lines body) target ∧
          expandWithin blocks depth target (name :: opened) = none :=
    expandLines_eq_none_iff (fun _ _ _ => eq_expanded_of_expandWithin) (Text.lines body)
  constructor
  · intro h
    by_cases hopen : name ∈ opened
    · rw [expandWithin, if_pos hopen] at h
      cases h
    cases hbody : blocks.get? name with
    | none => simp [expandWithin, hopen, hbody] at h
    | some body =>
        rw [expandWithin_succ hopen hbody, Option.map_eq_none_iff, hlines] at h
        obtain ⟨target, hcomes, htoodeep⟩ := h
        exact ⟨⟨target, name :: opened⟩, ⟨hopen, rfl, body, hbody, hcomes⟩, htoodeep⟩
  · rintro ⟨⟨target, inside⟩, ⟨hopen, rfl, body, hbody, hcomes⟩, htoodeep⟩
    rw [expandWithin_succ hopen hbody, Option.map_eq_none_iff, hlines]
    exact ⟨target, hcomes, htoodeep⟩

/-- **A depth is too small exactly if some chain of calls goes deeper.** -/
theorem expandWithin_eq_none_iff {depth : Nat} :
    expandWithin blocks depth name opened = none ↔
      ∃ calls, List.IsChain (Makes blocks) (⟨name, opened⟩ :: calls) ∧ calls.length = depth := by
  induction depth generalizing name opened with
  | zero => simp [expandWithin]
  | succ depth ih =>
      rw [expandWithin_succ_eq_none_iff]
      constructor
      · rintro ⟨inner, hmakes, htoodeep⟩
        obtain ⟨calls, hchain, hlength⟩ := ih.mp htoodeep
        exact ⟨inner :: calls, List.isChain_cons_cons.mpr ⟨hmakes, hchain⟩, by simp [hlength]⟩
      · rintro ⟨calls, hchain, hlength⟩
        cases calls with
        | nil => simp at hlength
        | cons inner calls =>
            obtain ⟨hmakes, hchain⟩ := List.isChain_cons_cons.mp hchain
            exact ⟨inner, hmakes, ih.mpr ⟨calls, hchain, Nat.succ.inj hlength⟩⟩

/-! ## Calls that fail -/

/-- The call fails by itself, before it makes any call. -/
inductive Fails (blocks : BlockMap) : Call → IncludeError → Prop where
  | revisited {call : Call} (h : call.name ∈ call.opened) :
      Fails blocks call (.cyclicInclude call.name)
  | missing {call : Call} (hopen : call.name ∉ call.opened) (h : blocks.get? call.name = none) :
      Fails blocks call (.missingBlock call.name)

/-- Lines fail exactly if they come to a name whose expansion does. -/
theorem mapM_eq_error_iff {f : Text → Except IncludeError Text} {lines : List Text}
    {e : IncludeError} :
    lines.mapM (replacement f) = .error e ↔
      ∃ target, ComesTo f lines target ∧ f target = .error e := by
  induction lines with
  | nil =>
      constructor
      · intro h
        cases h
      · rintro ⟨target, hcomes, -⟩
        cases hcomes
  | cons line rest ih =>
      rw [List.mapM_cons]
      constructor
      · intro h
        cases hfirst : replacement f line with
        | error e' =>
            rw [hfirst] at h
            cases h
            unfold replacement at hfirst
            cases htarget : target? line with
            | none => simp [htarget] at hfirst
            | some target => exact ⟨target, .here rest htarget, by simpa [htarget] using hfirst⟩
        | ok text =>
            have hrest : rest.mapM (replacement f) = .error e := by
              rw [hfirst] at h
              cases hothers : rest.mapM (replacement f) <;> rw [hothers] at h <;> cases h
              rfl
            obtain ⟨target, hcomes, herror⟩ := ih.mp hrest
            exact ⟨target, .later hfirst hcomes, herror⟩
      · rintro ⟨target, hcomes, herror⟩
        cases hcomes with
        | here _ htarget =>
            rw [replacement, htarget]
            simp only [herror]
            rfl
        | later hfirst hrest =>
            rw [hfirst, ih.mpr ⟨target, hrest, herror⟩]
            rfl

theorem expanded_eq_error_iff_of_get? {body : Text} {e : IncludeError} (hopen : name ∉ opened)
    (hbody : blocks.get? name = some body) :
    expanded blocks opened name = .error e ↔
      ∃ inner, Makes blocks ⟨name, opened⟩ inner ∧
        expanded blocks inner.opened inner.name = .error e := by
  have hlines : expanded blocks opened name = .error e ↔
      (Text.lines body).mapM (replacement (expanded blocks (name :: opened))) = .error e := by
    rw [expanded_of_get?_eq_some hopen hbody, expandedLines]
    cases (Text.lines body).mapM (replacement (expanded blocks (name :: opened))) <;>
      simp [Except.map]
  rw [hlines, mapM_eq_error_iff]
  constructor
  · rintro ⟨target, hcomes, herror⟩
    exact ⟨⟨target, name :: opened⟩, ⟨hopen, rfl, body, hbody, hcomes⟩, herror⟩
  · rintro ⟨⟨target, inside⟩, ⟨-, rfl, other, hother, hcomes⟩, herror⟩
    obtain rfl : other = body := Option.some.inj (hother.symm.trans hbody)
    exact ⟨target, hcomes, herror⟩

/-- From the call that fails outwards, each call fails with the error of the one inside of it. -/
theorem Fails.expanded_eq {e : IncludeError} (h : Fails blocks inner e)
    (hcalls : Relation.ReflTransGen (Makes blocks) outer inner) :
    expanded blocks outer.opened outer.name = .error e := by
  induction hcalls using Relation.ReflTransGen.head_induction_on with
  | refl =>
      cases h with
      | revisited h => exact expanded_of_mem h
      | missing hopen h => exact expanded_of_get?_eq_none hopen h
  | head hmakes _ ih =>
      obtain ⟨body, hbody, -⟩ := hmakes.comesTo
      exact (expanded_eq_error_iff_of_get? hmakes.not_open hbody).mpr ⟨_, hmakes, ih⟩

/-- **An expansion fails exactly if its calls lead to one that fails by itself.** -/
theorem expanded_eq_error_iff {e : IncludeError} :
    expanded blocks opened name = .error e ↔
      ∃ last, Relation.ReflTransGen (Makes blocks) ⟨name, opened⟩ last ∧ Fails blocks last e := by
  constructor
  · intro h
    induction opened using openNames_induction blocks generalizing name with
    | step opened ih =>
        by_cases hopen : name ∈ opened
        · rw [expanded_of_mem hopen] at h
          cases h
          exact ⟨_, .refl, .revisited hopen⟩
        cases hbody : blocks.get? name with
        | none =>
            rw [expanded_of_get?_eq_none hopen hbody] at h
            cases h
            exact ⟨_, .refl, .missing hopen hbody⟩
        | some body =>
            obtain ⟨⟨target, inside⟩, hmakes, herror⟩ :=
              (expanded_eq_error_iff_of_get? hopen hbody).mp h
            obtain rfl := hmakes.opened_eq
            obtain ⟨last, hcalls, hfails⟩ := ih name hopen (Table.mem_keys_of_get? hbody) herror
            exact ⟨last, .head hmakes hcalls, hfails⟩
  · rintro ⟨last, hcalls, hfails⟩
    exact hfails.expanded_eq hcalls

/-! ## The bound -/

/-- **Expansion ends, and its nesting is bounded.**  Along any chain of nested calls the names of
all calls but the last are distinct keys that were not open at first, so there are at most as many
calls as such keys and one more.  No chain goes on for ever.  As a bound on the depth this number is
never too small, and the result is the same with any larger one: a depth is too small only where a
chain of calls goes deeper. -/
theorem nesting_bounded (name : Text) (blocks : BlockMap) (opened : OpenNames) :
    (∀ calls, List.IsChain (Makes blocks) (⟨name, opened⟩ :: calls) →
        let outerNames := (Call.mk name opened :: calls).dropLast.map Call.name
        outerNames.Nodup ∧ (∀ x ∈ outerNames, x ∈ blocks.keys ∧ x ∉ opened) ∧
          (Call.mk name opened :: calls).length ≤ (blocks.keys.filter (· ∉ opened)).length + 1) ∧
      (WellFounded fun inner outer : Call => Makes blocks outer inner) ∧
      (∀ depth, (blocks.keys.filter (· ∉ opened)).length + 1 ≤ depth →
        expandWithin blocks depth name opened = some (expandIncludes name blocks opened)) ∧
      ∀ depth, expandWithin blocks depth name opened = none ↔
        ∃ calls, List.IsChain (Makes blocks) (⟨name, opened⟩ :: calls) ∧ calls.length = depth := by
  refine ⟨fun calls hchain => ?_, wellFounded_makes blocks, fun depth hdepth => ?_,
    fun depth => expandWithin_eq_none_iff⟩
  · obtain ⟨hnodup, hnames⟩ := names_of_isChain hchain
    exact ⟨hnodup, hnames, length_lt_depthBound hchain⟩
  · rw [expandIncludes_eq]
    exact expandWithin_eq hdepth

/-- Two blocks that include each other need the whole bound: the third call finds the first block
open. -/
example :
    let blocks : BlockMap := .ofList [("a", "#include b"), ("b", "ls\n#include a")]
    expandWithin blocks 2 "a" [] = none ∧
      expandWithin blocks 3 "a" [] = some (.error (.cyclicInclude "a"), []) := by
  decide

end Runbook.Include
