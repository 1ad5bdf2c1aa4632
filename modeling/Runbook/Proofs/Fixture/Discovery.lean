import Runbook.Fixture.Suite
import Runbook.Proofs.FileSystem.Ways
import Runbook.Proofs.Text.Ends
import Runbook.Proofs.Text.Order
import Runbook.Proofs.Variables.History

/-!
# The fixtures of a directory

A search from a directory finds what is named like a fixture and is reached as a file
(`Suite.Finds`): the system lists it, and all directories on the way.  Its category is the way to
its directory, in characters, with a slash for each backslash (`Suite.categoryOf`); so two
directories can share a category, and no fixture has two.

`lists_discover_iff` and `ordered_discover` say what the suite of a directory is: all fixtures that
the search finds, each one in its category, and the categories and the fixtures of each of them in
order, so that none is there twice (`Ordered.nodup`).
-/

namespace Runbook

theorem Text.mem_of_mem_join {separator : Text} {parts : List Text} {c : Char}
    (h : c ∈ join separator parts) :
    c ∈ separator ∨ ∃ part ∈ parts, c ∈ part := by
  induction parts with
  | nil => cases h
  | cons part rest ih =>
      cases rest with
      | nil => exact .inr ⟨part, List.mem_singleton_self part, h⟩
      | cons next rest =>
          rw [join, List.mem_append, List.mem_append] at h
          rcases h with (h | h) | h
          · exact .inr ⟨part, List.mem_cons_self, h⟩
          · exact .inl h
          · rcases ih h with h | ⟨p, hp, hc⟩
            · exact .inl h
            · exact .inr ⟨p, List.mem_cons_of_mem _ hp, hc⟩

theorem nodup_eraseDups {α : Type} [BEq α] [LawfulBEq α] (l : List α) : l.eraseDups.Nodup := by
  match l with
  | [] => simp
  | a :: rest =>
      have hlength : (rest.filter fun b => !b == a).length ≤ rest.length :=
        List.length_filter_le _ _
      rw [List.eraseDups_cons, List.nodup_cons]
      exact ⟨by simp, nodup_eraseDups _⟩
termination_by l.length
decreasing_by exact Nat.lt_succ_of_le hlength

namespace Fixture.Suite

variable {files : FileSystem} {root : OsText} {category : Text} {members group : List Member}
  {m : Member} {name : EntryName} {rest steps : List EntryName}

/-! ## The search -/

theorem isFixture_iff :
    isFixture name = true ↔ ∃ t, name.bytes = OsText.ofText t ∧ suffix <:+ t := by
  have hback (t : Text) : (Text.dropBack? suffix t).isSome ↔ suffix <:+ t := by
    rw [Option.isSome_iff_exists, List.IsSuffix]
    simp only [Text.dropBack?_eq_some_iff, @eq_comm _ t]
  rw [isFixture, Option.any_eq_true]
  simp only [OsText.toText?_eq_some_iff, hback]

/-- The last of some names is one of a fixture. -/
def IsNamed (steps : List EntryName) : Prop :=
  ∃ name t, steps.getLast? = some name ∧ name.bytes = OsText.ofText t ∧ suffix <:+ t

/-- The search from a directory finds a fixture behind some names. -/
def Finds (files : FileSystem) (root : OsText) (steps : List EntryName) : Prop :=
  files.LeadsToFile root steps ∧ IsNamed steps

theorem isNamed_singleton : IsNamed [name] ↔ isFixture name = true := by
  rw [isFixture_iff]
  simp [IsNamed]

theorem isNamed_cons (hne : rest ≠ []) : IsNamed (name :: rest) ↔ IsNamed rest := by
  obtain ⟨next, others, rfl⟩ := List.exists_cons_of_ne_nil hne
  rw [IsNamed, IsNamed, List.getLast?_cons_cons]

/-- What there is behind a name starts with this name. -/
theorem mem_behind_iff {deeper : List (List EntryName)} {isDirectory isNamed : Bool} :
    (steps ∈ if isDirectory then deeper.map (name :: ·) else if isNamed then [[name]] else []) ↔
      ∃ rest, steps = name :: rest ∧
        if isDirectory then rest ∈ deeper else rest = [] ∧ isNamed = true := by
  cases isDirectory <;> cases isNamed <;> simp [@eq_comm _ steps, and_comm]

/-- One step of the search. -/
theorem mem_collect :
    steps ∈ collect files root ↔
      ∃ name rest, steps = name :: rest ∧ files.Lists root name ∧
        if files.isDirectory (OsText.join root name) then
          rest ∈ collect files (OsText.join root name)
        else rest = [] ∧ isFixture name = true := by
  rw [collect]
  split
  · next hnames => simp [FileSystem.Lists, hnames]
  · next names hnames =>
      simp only [List.mem_flatMap, mem_behind_iff, FileSystem.Lists, hnames, Option.some_inj,
        exists_eq_left']
      constructor
      · rintro ⟨name, hname, rest, hsteps, hrest⟩
        exact ⟨name, rest, hsteps, hname, hrest⟩
      · rintro ⟨name, rest, hsteps, hname, hrest⟩
        exact ⟨name, hname, rest, hsteps, hrest⟩

theorem cons_mem_collect :
    name :: rest ∈ collect files root ↔ files.Lists root name ∧
      if files.isDirectory (OsText.join root name) then
        rest ∈ collect files (OsText.join root name)
      else rest = [] ∧ isFixture name = true := by
  rw [mem_collect]
  constructor
  · rintro ⟨_, _, heq, hfound⟩
    obtain ⟨rfl, rfl⟩ := List.cons.inj heq
    exact hfound
  · intro hfound
    exact ⟨name, rest, rfl, hfound⟩

/-- The search finds what it is meant to find. -/
theorem mem_collect_iff : steps ∈ collect files root ↔ Finds files root steps := by
  induction steps generalizing root with
  | nil =>
      refine iff_of_false (fun hmem => ?_) fun hfinds => hfinds.1.ne_nil rfl
      obtain ⟨_, _, heq, -⟩ := mem_collect.mp hmem
      cases heq
  | cons name rest ih =>
      rw [cons_mem_collect, Finds, FileSystem.leadsToFile_cons, and_assoc]
      refine and_congr_right fun _ => ?_
      by_cases hdirectory : files.isDirectory (OsText.join root name) = true
      · rw [if_pos hdirectory, if_pos hdirectory, ih]
        refine and_congr_right fun hleads => ?_
        rw [isNamed_cons hleads.ne_nil]
      · rw [if_neg hdirectory, if_neg hdirectory]
        refine and_congr_right ?_
        rintro rfl
        exact isNamed_singleton.symm

instance (files : FileSystem) (root : OsText) (steps : List EntryName) :
    Decidable (Finds files root steps) :=
  decidable_of_iff _ mem_collect_iff

/-- The search finds nothing twice. -/
theorem nodup_collect (files : FileSystem) (root : OsText) : (collect files root).Nodup := by
  fun_induction collect files root with
  | case1 => exact List.nodup_nil
  | case2 root names hnames ih =>
      refine List.nodup_flatMap.mpr ⟨fun name _ => ?_, ?_⟩
      · split
        · exact (ih name).map fun _ _ heq => (List.cons.inj heq).2
        · split
          · exact List.nodup_singleton _
          · exact List.nodup_nil
      · refine (files.nodup_names hnames).imp fun {name other} hne steps hsteps hothers => hne ?_
        obtain ⟨rest, rfl, -⟩ := mem_behind_iff.mp hsteps
        obtain ⟨_, heq, -⟩ := mem_behind_iff.mp hothers
        exact (List.cons.inj heq).1

/-! ## Members -/

theorem mem_members_iff :
    m ∈ Suite.members files root ↔
      Finds files root m.steps ∧ m.path = OsText.below root m.steps := by
  simp only [Suite.members, List.mem_map, List.mem_mergeSort, mem_collect_iff]
  constructor
  · rintro ⟨steps, hfinds, rfl⟩
    exact ⟨hfinds, rfl⟩
  · rintro ⟨hfinds, hpath⟩
    exact ⟨m.steps, hfinds, by rw [← hpath]⟩

theorem stepsLe_iff (a b : List EntryName) :
    stepsLe a b = true ↔ a.map EntryName.bytes ≤ b.map EntryName.bytes := by
  refine lexLe_iff (fun _ _ => EntryName.ext) fun a b hab => ?_
  have hbytes : a.bytes ≠ b.bytes := mt EntryName.ext hab
  rw [OsText.le_iff, hbytes.le_iff_lt]

theorem pairwise_members (files : FileSystem) (root : OsText) :
    (Suite.members files root).Pairwise fun a b =>
      a.steps.map EntryName.bytes < b.steps.map EntryName.bytes := by
  refine List.pairwise_map.mpr (pairwise_lt_mergeSort stepsLe_iff ?_)
  refine (nodup_collect files root).map ?_
  exact List.map_injective_iff.mpr fun _ _ => EntryName.ext

/-! ## Categories -/

theorem mem_ofMembers_iff :
    (category, group) ∈ ofMembers members ↔
      (∃ m ∈ members, categoryOf m.steps = category) ∧
        group = members.filter fun m => categoryOf m.steps = category := by
  simp only [ofMembers, List.mem_map, List.mem_mergeSort, List.mem_eraseDups, Prod.mk.injEq]
  constructor
  · rintro ⟨_, hmem, rfl, rfl⟩
    exact ⟨hmem, rfl⟩
  · rintro ⟨hmem, rfl⟩
    exact ⟨category, hmem, rfl, rfl⟩

theorem pairwise_ofMembers (members : List Member) :
    (ofMembers members).Pairwise fun a b => a.1 < b.1 := by
  refine List.pairwise_map.mpr (pairwise_lt_mergeSort (f := id) (fun _ _ => Text.le_iff) ?_)
  rw [List.map_id]
  exact nodup_eraseDups _

theorem mem_of_mem_ofMembers {entry : Text × List Member} (hentry : entry ∈ ofMembers members)
    (hm : m ∈ entry.2) : m ∈ members ∧ categoryOf m.steps = entry.1 := by
  obtain ⟨-, hgroup⟩ := mem_ofMembers_iff.mp hentry
  rw [hgroup, List.mem_filter, decide_eq_true_iff] at hm
  exact hm

/-- The suite has a fixture in a category. -/
def Lists (suite : Suite) (category : Text) (m : Member) : Prop :=
  ∃ entry ∈ suite, entry.1 = category ∧ m ∈ entry.2

theorem lists_ofMembers_iff :
    (ofMembers members).Lists category m ↔ m ∈ members ∧ categoryOf m.steps = category := by
  constructor
  · rintro ⟨entry, hentry, rfl, hm⟩
    exact mem_of_mem_ofMembers hentry hm
  · rintro ⟨hm, rfl⟩
    exact ⟨_, mem_ofMembers_iff.mpr ⟨⟨m, hm, rfl⟩, rfl⟩, rfl, List.mem_filter.mpr ⟨hm, by simp⟩⟩

/-- The suite of a directory has what the search finds there. -/
theorem lists_discover_iff :
    (discover files root).Lists category m ↔
      (Finds files root m.steps ∧ m.path = OsText.below root m.steps) ∧
        categoryOf m.steps = category := by
  rw [discover, lists_ofMembers_iff, mem_members_iff]

theorem mem_flatMap_iff {suite : Suite} :
    m ∈ suite.flatMap (·.2) ↔ ∃ category, suite.Lists category m := by
  simp [Lists, List.mem_flatMap]

/-! ## Order -/

/-- The categories are in order, and in each of them there are fixtures, all of this category and in
the order of their names. -/
structure Ordered (suite : Suite) : Prop where
  categories : suite.Pairwise fun a b => a.1 < b.1
  fixtures : ∀ entry ∈ suite,
    entry.2.Pairwise fun a b => a.steps.map EntryName.bytes < b.steps.map EntryName.bytes
  category : ∀ entry ∈ suite, ∀ m ∈ entry.2, categoryOf m.steps = entry.1
  ne_nil : ∀ entry ∈ suite, entry.2 ≠ []

theorem ordered_ofMembers
    (h : members.Pairwise fun a b => a.steps.map EntryName.bytes < b.steps.map EntryName.bytes) :
    (ofMembers members).Ordered where
  categories := pairwise_ofMembers members
  fixtures := by
    rintro ⟨category, group⟩ hentry
    obtain ⟨-, rfl⟩ := mem_ofMembers_iff.mp hentry
    exact h.filter _
  category _ hentry _ hm := (mem_of_mem_ofMembers hentry hm).2
  ne_nil := by
    rintro ⟨category, group⟩ hentry
    obtain ⟨⟨m, hm, hcategory⟩, rfl⟩ := mem_ofMembers_iff.mp hentry
    exact List.ne_nil_of_mem (List.mem_filter.mpr ⟨hm, by simpa using hcategory⟩)

theorem ordered_discover (files : FileSystem) (root : OsText) : (discover files root).Ordered :=
  ordered_ofMembers (pairwise_members files root)

variable {suite part : Suite}

/-- A part of a suite stays in order. -/
theorem Ordered.sublist (h : suite.Ordered) (hpart : part.Sublist suite) : part.Ordered where
  categories := h.categories.sublist hpart
  fixtures entry hentry := h.fixtures entry (hpart.subset hentry)
  category entry hentry := h.category entry (hpart.subset hentry)
  ne_nil entry hentry := h.ne_nil entry (hpart.subset hentry)

/-- No fixture is there twice: two categories have none in common. -/
theorem Ordered.nodup (h : suite.Ordered) : ((suite.flatMap (·.2)).map (·.steps)).Nodup := by
  refine List.pairwise_map.mpr (List.pairwise_flatMap.mpr ⟨fun entry hentry => ?_, ?_⟩)
  · refine (h.fixtures entry hentry).imp ?_
    intro a b hlt heq
    rw [heq] at hlt
    exact lt_irrefl _ hlt
  · -- a fixture that two categories have in common would make them one
    refine List.Pairwise.imp_of_mem ?_ h.categories
    intro a b ha hb hlt m hm n hn heq
    rw [← h.category a ha m hm, ← h.category b hb n hn, heq] at hlt
    exact lt_irrefl _ hlt

theorem Ordered.flatMap_eq_nil_iff (h : suite.Ordered) : suite.flatMap (·.2) = [] ↔ suite = [] := by
  rw [List.flatMap_eq_nil_iff]
  constructor
  · intro hall
    rw [List.eq_nil_iff_forall_not_mem]
    intro entry hentry
    exact h.ne_nil entry hentry (hall entry hentry)
  · rintro rfl entry hentry
    cases hentry

/-! ## Directories with texts for names -/

/-- Where the names of directories are texts, the category is the way to the directory, with a slash
for each backslash. -/
theorem categoryOf_eq_map_join {texts : List Text}
    (h : steps.dropLast.map EntryName.bytes = texts.map OsText.ofText) :
    categoryOf steps = (Text.join "/" texts).map fun c => if c = '\\' then '/' else c := by
  rw [categoryOf, OsText.ofSteps_eq_ofText h, OsText.toTextLossy_ofText]

/-- If none of them has a backslash in it, the category is the way to the directory. -/
theorem categoryOf_eq_join {texts : List Text}
    (h : steps.dropLast.map EntryName.bytes = texts.map OsText.ofText)
    (hplain : ∀ t ∈ texts, '\\' ∉ t) : categoryOf steps = Text.join "/" texts := by
  rw [categoryOf_eq_map_join h]
  refine (List.map_congr_left fun c hc => if_neg ?_).trans (List.map_id _)
  rintro rfl
  rcases Text.mem_of_mem_join hc with hslash | ⟨t, ht, hmem⟩
  · exact absurd hslash (by decide)
  · exact hplain t ht hmem

end Fixture.Suite

end Runbook
