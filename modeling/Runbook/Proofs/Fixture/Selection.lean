import Mathlib.Data.List.Induction
import Runbook.Fixture.Suite

/-!
# What requests select

A request asks for a category and for all that lie in it (`Asks`).  Requests select what at least
one of them asks for, in any order and however often.

A request is reported if it has added nothing to what the requests before it have selected.  So a
request that asks for nothing is reported, but so is one that asks only for what was asked for
already (`Covered`): the reports tell which requests match nothing exactly if no request is covered
by others (`select_asked`).
-/

namespace Runbook

theorem Text.startsWith_iff {t front : Text} : Text.startsWith t front = true ↔ front <+: t := by
  rw [startsWith, Option.isSome_iff_exists, List.IsPrefix]
  simp only [dropFront?_eq_some_iff, @eq_comm _ t]

namespace Fixture.Suite

variable {all : Suite} {before requests : List Text} {request category : Text}

/-- The request, without the slashes around it, names the category or one that the category lies
in. -/
def Asks (request category : Text) : Prop :=
  category = trimRequest request ∨ (trimRequest request ++ "/" : Text) <+: category

instance (request category : Text) : Decidable (Asks request category) :=
  inferInstanceAs (Decidable (_ ∨ _))

theorem isRequested_iff :
    isRequested (trimRequest request) category = true ↔ Asks request category := by
  rw [isRequested, Bool.or_eq_true, decide_eq_true_iff, Text.startsWith_iff, Asks]

/-- All that the request asks for was asked for before. -/
def Covered (all : Suite) (before : List Text) (request : Text) : Prop :=
  ∀ entry ∈ all, Asks request entry.1 → ∃ earlier ∈ before, Asks earlier entry.1

instance (all : Suite) (before : List Text) (request : Text) : Decidable
    (Covered all before request) :=
  inferInstanceAs (Decidable (∀ entry ∈ all, _))

/-- The request asks for no category of the suite. -/
def Unknown (all : Suite) (request : Text) : Prop := ∀ entry ∈ all, ¬ Asks request entry.1

instance (all : Suite) (request : Text) : Decidable (Unknown all request) :=
  inferInstanceAs (Decidable (∀ entry ∈ all, _))

theorem Unknown.covered (h : Unknown all request) : Covered all before request :=
  fun entry hentry hasks => absurd hasks (h entry hentry)

/-! ## Request by request -/

/-- The categories that requests have selected, and the requests that were reported. -/
def selection (all : Suite) (requests : List Text) : List Text × List Text :=
  requests.foldl (selectOne all) ([], [])

/-- The categories that a request adds to the selected ones. -/
def added (all : Suite) (selected : List Text) (request : Text) : List Text :=
  (all.map (·.1)).filter fun c => isRequested (trimRequest request) c && !selected.contains c

theorem mem_added_iff {selected : List Text} :
    category ∈ added all selected request ↔
      (∃ entry ∈ all, entry.1 = category) ∧ Asks request category ∧ category ∉ selected := by
  simp [added, isRequested_iff]

theorem selectOne_eq (all : Suite) (chosen : List Text × List Text) (request : Text) :
    selectOne all chosen request =
      (chosen.1 ++ added all chosen.1 request,
        chosen.2 ++ if added all chosen.1 request = [] then [trimRequest request] else []) := by
  change (if added all chosen.1 request = [] then _ else _) = _
  by_cases hadded : added all chosen.1 request = []
  · rw [if_pos hadded, if_pos hadded, hadded, List.append_nil]
  · rw [if_neg hadded, if_neg hadded, List.append_nil]
    rfl

theorem selection_concat (all : Suite) (before : List Text) (request : Text) :
    selection all (before ++ [request]) = selectOne all (selection all before) request := by
  rw [selection, List.foldl_append, List.foldl_cons, List.foldl_nil, selection]

theorem mem_selection_iff :
    category ∈ (selection all requests).1 ↔
      (∃ entry ∈ all, entry.1 = category) ∧ ∃ request ∈ requests, Asks request category := by
  induction requests using List.reverseRecOn with
  | nil => simp [selection]
  | append_singleton before request ih =>
      rw [selection_concat, selectOne_eq, List.mem_append, mem_added_iff, ih]
      simp only [List.mem_append, List.mem_singleton, or_and_right, exists_or, exists_eq_left]
      grind

theorem added_eq_nil_iff :
    added all (selection all before).1 request = [] ↔ Covered all before request := by
  rw [List.eq_nil_iff_forall_not_mem]
  constructor
  · intro hnone entry hentry hasks
    by_contra hnew
    refine hnone entry.1 (mem_added_iff.mpr ⟨⟨entry, hentry, rfl⟩, hasks, fun hmem => hnew ?_⟩)
    exact (mem_selection_iff.mp hmem).2
  · intro hcovered category hmem
    obtain ⟨⟨entry, hentry, rfl⟩, hasks, hnew⟩ := mem_added_iff.mp hmem
    exact hnew (mem_selection_iff.mpr ⟨⟨entry, hentry, rfl⟩, hcovered entry hentry hasks⟩)

/-- One more request is reported if it is covered. -/
theorem reported_concat (all : Suite) (before : List Text) (request : Text) :
    (selection all (before ++ [request])).2 =
      (selection all before).2 ++
        if Covered all before request then [trimRequest request] else [] := by
  rw [selection_concat, selectOne_eq]
  simp only [added_eq_nil_iff]

/-! ## The whole list -/

/-- The requests of the list that ask for nothing. -/
def unknownAmong (all : Suite) (requests : List Text) : List Text :=
  (requests.filter fun request => Unknown all request).map trimRequest

theorem unknownAmong_concat (all : Suite) (before : List Text) (request : Text) :
    unknownAmong all (before ++ [request]) =
      unknownAmong all before ++ if Unknown all request then [trimRequest request] else [] := by
  rw [unknownAmong, List.filter_append, List.map_append]
  by_cases hunknown : Unknown all request <;> simp [hunknown, unknownAmong]

/-- A request that asks for nothing is reported. -/
theorem length_unknown_le_covered (all : Suite) (before : List Text) (request : Text) :
    (if Unknown all request then [trimRequest request] else []).length ≤
      (if Covered all before request then [trimRequest request] else []).length := by
  by_cases hunknown : Unknown all request
  · exact Nat.le_of_eq (by rw [if_pos hunknown, if_pos hunknown.covered])
  · rw [if_neg hunknown]
    exact Nat.zero_le _

theorem length_unknownAmong_le (all : Suite) (requests : List Text) :
    (unknownAmong all requests).length ≤ (selection all requests).2.length := by
  induction requests using List.reverseRecOn with
  | nil => exact Nat.le_refl _
  | append_singleton before request ih =>
      rw [unknownAmong_concat, reported_concat, List.length_append, List.length_append]
      exact Nat.add_le_add ih (length_unknown_le_covered all before request)

/-- The reports are those of the requests that ask for nothing, if each of the others asks for
something new. -/
theorem reported_eq_unknownAmong_iff :
    (selection all requests).2 = unknownAmong all requests ↔
      ∀ before request, before ++ [request] <+: requests →
        Covered all before request → Unknown all request := by
  induction requests using List.reverseRecOn with
  | nil => simp [selection, unknownAmong]
  | append_singleton front last ih =>
      rw [reported_concat, unknownAmong_concat]
      constructor
      · intro heq before request hpre hcovered
        -- there are never too few reports, so if the lists agree at the end they do so all along
        have hlength := congrArg List.length heq
        rw [List.length_append, List.length_append] at hlength
        have hfront := length_unknownAmong_le all front
        have hlast := length_unknown_le_covered all front last
        obtain ⟨hreported, hadded⟩ := List.append_inj heq (by omega)
        rcases List.prefix_concat_iff.mp hpre with hend | hpre
        · obtain ⟨rfl, rfl⟩ := List.append_singleton_inj.mp hend
          by_contra hknown
          rw [if_pos hcovered, if_neg hknown] at hadded
          cases hadded
        · exact ih.mp hreported before request hpre hcovered
      · intro hlaw
        have hfront : (selection all front).2 = unknownAmong all front :=
          ih.mpr fun before request hpre =>
            hlaw before request (hpre.trans (List.prefix_append _ _))
        have hlast : Covered all front last ↔ Unknown all last :=
          ⟨hlaw front last (List.prefix_refl _), Unknown.covered⟩
        simp only [hfront, hlast]

theorem select_fst (all : Suite) (requests : List Text) :
    (all.select requests).1 =
      if requests = [] then all
      else all.filter fun entry => ∃ request ∈ requests, Asks request entry.1 := by
  rw [select]
  split
  · rfl
  · refine List.filter_congr fun entry hentry => ?_
    change (selection all requests).1.contains entry.1 = _
    rw [List.contains_eq_mem]
    refine decide_eq_decide.mpr (mem_selection_iff.trans ?_)
    exact and_iff_right ⟨entry, hentry, rfl⟩

theorem select_snd (all : Suite) (requests : List Text) :
    (all.select requests).2 = (selection all requests).2 := by
  rw [select]
  split
  · next h => rw [h, selection, List.foldl_nil]
  · rfl

/-- **What is selected, and what is reported.**  Requests select the categories that one of them
asks for, or all if there are no requests.  One more request is reported if and only if all that it
asks for was asked for before it.  So the reports are those of the requests that ask for nothing if
and only if each of the others asks for a category that no request before it asks for. -/
theorem select_asked (all : Suite) (requests : List Text) :
    (all.select requests).1 =
        (if requests = [] then all
          else all.filter fun entry => ∃ request ∈ requests, Asks request entry.1) ∧
      (∀ before request, (all.select (before ++ [request])).2 =
        (all.select before).2 ++ if Covered all before request then [trimRequest request] else []) ∧
      ((all.select requests).2 = unknownAmong all requests ↔
        ∀ before request, before ++ [request] <+: requests →
          Covered all before request → Unknown all request) := by
  refine ⟨select_fst all requests, fun before request => ?_, ?_⟩
  · rw [select_snd, select_snd, reported_concat]
  · rw [select_snd, reported_eq_unknownAmong_iff]

/-- A category that lies in one requested before, and one that is requested twice, are both
reported. -/
theorem reports_covered_requests :
    let a : EntryName := .ofText "a" rfl
    let b : EntryName := .ofText "b" rfl
    let x : EntryName := .ofText "x.test.term" rfl
    let y : EntryName := .ofText "y.test.term" rfl
    let all : Suite := [("a", [⟨[a, x], .below (.ofText ".") [a, x]⟩]),
      ("a/b", [⟨[a, b, y], .below (.ofText ".") [a, b, y]⟩])]
    (all.select ["a", "/a/b/", "a"]).2 = ["a/b".toList, "a".toList] ∧
      ∀ request ∈ (["a", "/a/b/", "a"] : List Text), ∃ entry ∈ all, Asks request entry.1 := by
  decide

end Fixture.Suite

end Runbook
