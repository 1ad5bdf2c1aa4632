import Runbook.Program
import Runbook.Proofs.Fixture.Discovery
import Runbook.Proofs.Fixture.Selection

/-!
# Running the fixtures of a directory

The program finds the fixtures below a directory, selects categories, checks the fixtures of these,
and counts.  None of these steps loses a fixture or takes one twice: `mem_fixtures_iff` says what is
checked, `test_of_ne_nil` what is printed about it, and `test_complete` puts them together.

What is found is what the system shows.  On a disk that is shown in whole these are all fixtures
(`Complete.shown`); a directory that the system does not list is passed over (`Complete.hidden`).
-/

namespace Runbook

namespace Fixture.Suite

variable {suite : Suite} {noColor : Bool}

/-! ## Counting -/

/-- The lines about one category. -/
def categoryLines (noColor : Bool) (checked : Text × List Checked) : List Text :=
  [[], paint noColor "1" (label checked.1)] ++ checked.2.map (resultLine noColor)

/-- Each fixture that is checked either passes or fails. -/
theorem countP_add_countP (checked : List Checked) :
    checked.countP (·.failure.isNone) + checked.countP (·.failure.isSome) = checked.length := by
  rw [List.length_eq_countP_add_countP (·.failure.isNone), Nat.add_left_cancel_iff]
  exact List.countP_congr fun c _ => by simp [Option.isSome_iff_ne_none]

theorem reportLines_eq (noColor : Bool) (results : List (Text × List Checked)) :
    let all := results.flatMap (·.2)
    reportLines noColor true results =
      results.flatMap (categoryLines noColor) ++
        (failureLines (all.filter (·.failure.isSome)) ++
          [[], summary noColor (all.countP (·.failure.isNone))
            (all.countP (·.failure.isSome))]) := by
  intro all
  have hpassed : all.length - all.countP (·.failure.isSome) = all.countP (·.failure.isNone) := by
    rw [← countP_add_countP all, Nat.add_sub_cancel]
  rw [reportLines, ← List.countP_eq_length_filter, hpassed, List.append_assoc]
  rfl

theorem allPassed_iff {results : List (Text × List Checked)} :
    allPassed results = true ↔ ∀ c ∈ results.flatMap (·.2), c.failure = none := by
  rw [allPassed, List.all_eq_true]
  simp only [Option.isNone_iff_eq_none]

/-- Each fixture of a suite is checked, in its place. -/
theorem flatMap_run (read : Text → Except Text Expectations)
    (readFile : OsText → Except Text Text) (suite : Suite) :
    (Suite.run read readFile suite).flatMap (·.2) =
      (suite.flatMap (·.2)).map fun m => checked read readFile m.path := by
  rw [Suite.run, List.flatMap_map, List.map_flatMap]

end Fixture.Suite

namespace World

open Fixture Fixture.Suite

variable {w : World} {noColor : Bool} {arguments : CommandLine.TestArguments} {path category : Text}
  {m : Member}

/-! ## What is checked -/

/-- The part of a suite that a call selects. -/
def selected (w : World) (arguments : CommandLine.TestArguments) : Suite :=
  ((w.suite arguments.path).select arguments.categories).1

/-- The fixtures that a call checks. -/
def fixtures (w : World) (arguments : CommandLine.TestArguments) : List Member :=
  (w.selected arguments).flatMap (·.2)

/-- What comes of the fixtures that a call checks. Each is read from its own path. -/
def results (w : World) (arguments : CommandLine.TestArguments) : List Checked :=
  (w.fixtures arguments).map fun m => checked w.readFrontMatter w.read m.path

theorem selected_of_suite_eq_nil (h : w.suite arguments.path = []) : w.selected arguments = [] := by
  rw [selected, select_fst, h]
  split <;> rfl

/-- A call that has nothing to check fails. -/
theorem code_test_of_nil (noColor : Bool) (hfile : w.files.isFile (.ofText arguments.path) = false)
    (h : w.selected arguments = []) : (w.test noColor arguments).code = 1 := by
  rw [test, hfile, if_neg Bool.false_ne_true]
  cases hall : w.suite arguments.path with
  | nil => rfl
  | cons entry rest =>
      rw [selected, hall] at h
      simp only [h, List.isEmpty_nil, if_true]
      rfl

/-- A call that has something to check reports on it, behind the warnings about its requests. -/
theorem test_of_ne_nil (noColor : Bool) (hfile : w.files.isFile (.ofText arguments.path) = false)
    (h : w.selected arguments ≠ []) :
    let results := Suite.run w.readFrontMatter w.read (w.selected arguments)
    (w.test noColor arguments).code = (if allPassed results then 0 else 1) ∧
      ∃ warnings, (w.test noColor arguments).err =
        Text.unlines (warnings ++ reportLines noColor true results) := by
  intro results
  rw [test, hfile, if_neg Bool.false_ne_true]
  cases hall : w.suite arguments.path with
  | nil => exact absurd (selected_of_suite_eq_nil hall) h
  | cons entry rest =>
      have hselected : w.selected arguments =
          (select (entry :: rest) arguments.categories).1 := by
        rw [selected, hall]
      simp only [← hselected, List.isEmpty_iff, if_neg h]
      exact ⟨rfl, _, rfl⟩

/-! ## What is found, and what is selected -/

theorem ordered_suite (w : World) (path : Text) : (w.suite path).Ordered :=
  ordered_discover w.files (.ofText path)

theorem lists_suite_iff :
    (w.suite path).Lists category m ↔
      (Finds w.files (.ofText path) m.steps ∧ m.path = OsText.below (.ofText path) m.steps) ∧
        categoryOf m.steps = category :=
  lists_discover_iff

/-- The category is asked for, or nothing is. -/
def IsSelected (arguments : CommandLine.TestArguments) (category : Text) : Prop :=
  arguments.categories = [] ∨ ∃ request ∈ arguments.categories, Asks request category

instance (arguments : CommandLine.TestArguments) (category : Text) :
    Decidable (IsSelected arguments category) :=
  inferInstanceAs (Decidable (_ ∨ _))

theorem mem_selected_iff {entry : Text × List Member} :
    entry ∈ w.selected arguments ↔
      entry ∈ w.suite arguments.path ∧ IsSelected arguments entry.1 := by
  rw [selected, select_fst, IsSelected]
  by_cases hnil : arguments.categories = []
  · simp [hnil]
  · simp [hnil]

theorem selected_sublist (w : World) (arguments : CommandLine.TestArguments) :
    (w.selected arguments).Sublist (w.suite arguments.path) := by
  rw [selected, select_fst]
  split
  · exact List.Sublist.refl _
  · exact List.filter_sublist

/-- Of a selected category all fixtures are checked, and of the others none. -/
theorem lists_selected_iff :
    (w.selected arguments).Lists category m ↔
      (w.suite arguments.path).Lists category m ∧ IsSelected arguments category := by
  constructor
  · rintro ⟨entry, hentry, rfl, hm⟩
    obtain ⟨hsuite, hselected⟩ := mem_selected_iff.mp hentry
    exact ⟨⟨entry, hsuite, rfl, hm⟩, hselected⟩
  · rintro ⟨⟨entry, hsuite, rfl, hm⟩, hselected⟩
    exact ⟨entry, mem_selected_iff.mpr ⟨hsuite, hselected⟩, rfl, hm⟩

theorem mem_fixtures_iff :
    m ∈ w.fixtures arguments ↔
      (Finds w.files (.ofText arguments.path) m.steps ∧
          m.path = OsText.below (.ofText arguments.path) m.steps) ∧
        IsSelected arguments (categoryOf m.steps) := by
  rw [fixtures, mem_flatMap_iff]
  constructor
  · rintro ⟨category, hlists⟩
    obtain ⟨hsuite, hselected⟩ := lists_selected_iff.mp hlists
    obtain ⟨hfixture, rfl⟩ := lists_suite_iff.mp hsuite
    exact ⟨hfixture, hselected⟩
  · rintro ⟨hfixture, hselected⟩
    exact ⟨_, lists_selected_iff.mpr ⟨lists_suite_iff.mpr ⟨hfixture, rfl⟩, hselected⟩⟩

theorem ordered_selected (w : World) (arguments : CommandLine.TestArguments) :
    (w.selected arguments).Ordered :=
  (ordered_suite w arguments.path).sublist (selected_sublist w arguments)

/-- No path is checked twice. -/
theorem nodup_fixtures (w : World) (arguments : CommandLine.TestArguments) :
    ((w.fixtures arguments).map (·.path)).Nodup := by
  have hsteps : (w.fixtures arguments).Pairwise fun a b => a.steps ≠ b.steps :=
    List.pairwise_map.mp (ordered_selected w arguments).nodup
  refine List.pairwise_map.mpr (hsteps.imp_of_mem fun {a b} ha hb hne hpath => hne ?_)
  obtain ⟨⟨hfindsa, hpatha⟩, -⟩ := mem_fixtures_iff.mp ha
  obtain ⟨⟨hfindsb, hpathb⟩, -⟩ := mem_fixtures_iff.mp hb
  rw [hpatha, hpathb] at hpath
  exact (OsText.below_inj hfindsa.1.ne_nil hfindsb.1.ne_nil).mp hpath

/-! ## The run -/

/-- The call leaves out no fixture that the system shows below a directory, takes none twice, and
says what came of them. -/
structure Complete (w : World) (noColor : Bool) (arguments : CommandLine.TestArguments)
    (root : OsText) : Prop where
  /-- Each fixture that the search finds lies in one category. -/
  lists : ∀ category m, (w.suite arguments.path).Lists category m ↔
    (Finds w.files root m.steps ∧ m.path = OsText.below root m.steps) ∧
      categoryOf m.steps = category
  /-- Where the system shows the directories on the way, the search finds the files of the directory
  tree that are named like fixtures. -/
  shown : ∀ (disk : Disk) (steps : List EntryName),
    (∀ front, front <+: steps → front ≠ steps → w.files.Shows root disk front) →
      (Finds w.files root steps ↔ disk.kind? steps = some .other ∧ IsNamed steps)
  /-- Below a directory that cannot be listed, the search finds nothing. -/
  hidden : ∀ front rest : List EntryName, w.files.names? (OsText.below root front) = none →
    rest ≠ [] → ¬ Finds w.files root (front ++ rest)
  /-- The category is the way to the directory, with a slash for each backslash; in the names of
  directories, what is no text is shown by replacement characters. -/
  category : ∀ (steps : List EntryName) (texts : List Text),
    steps.dropLast.map EntryName.bytes = texts.map OsText.ofText →
      categoryOf steps = (Text.join "/" texts).map (fun c => if c = '\\' then '/' else c) ∧
        ((∀ t ∈ texts, '\\' ∉ t) → categoryOf steps = Text.join "/" texts)
  /-- No fixture is checked twice, whatever the requests are. -/
  nodup : ((w.fixtures arguments).map (·.path)).Nodup
  /-- The fixtures of the selected categories are checked. -/
  mem_fixtures : ∀ m, m ∈ w.fixtures arguments ↔
    (Finds w.files root m.steps ∧ m.path = OsText.below root m.steps) ∧
      IsSelected arguments (categoryOf m.steps)
  /-- Categories, and fixtures in a category, are checked in order. -/
  ordered : (w.selected arguments).Ordered
  /-- As many fixtures have passed and failed as were checked. -/
  counts : (w.results arguments).countP (·.failure.isNone) +
    (w.results arguments).countP (·.failure.isSome) = (w.fixtures arguments).length
  /-- The call succeeds if and only if a fixture was checked and all passed. -/
  code : (w.test noColor arguments).code = 0 ↔
    w.fixtures arguments ≠ [] ∧ ∀ result ∈ w.results arguments, result.failure = none
  /-- The report has a line about each fixture, and ends with how many have passed and failed. -/
  report : w.fixtures arguments ≠ [] → ∃ warnings failures, (w.test noColor arguments).err =
    Text.unlines (warnings ++
      ((Suite.run w.readFrontMatter w.read (w.selected arguments)).flatMap
          (categoryLines noColor) ++
        (failures ++ [[], summary noColor ((w.results arguments).countP (·.failure.isNone))
          ((w.results arguments).countP (·.failure.isSome))])))

theorem results_eq (w : World) (arguments : CommandLine.TestArguments) :
    (Suite.run w.readFrontMatter w.read (w.selected arguments)).flatMap (·.2) =
      w.results arguments :=
  flatMap_run w.readFrontMatter w.read (w.selected arguments)

theorem code_test_iff (noColor : Bool)
    (hfile : w.files.isFile (.ofText arguments.path) = false) :
    (w.test noColor arguments).code = 0 ↔
      w.selected arguments ≠ [] ∧ ∀ result ∈ w.results arguments, result.failure = none := by
  by_cases hnil : w.selected arguments = []
  · simp [code_test_of_nil noColor hfile hnil, hnil]
  · have hcode := (test_of_ne_nil noColor hfile hnil).1
    rw [and_iff_right hnil, ← results_eq, ← allPassed_iff, hcode]
    split
    · next hpassed => simp [hpassed]
    · next hpassed => simp [hpassed]

/-- **A run of the fixtures of a directory is complete.**  The fixtures that are checked are those
of the categories that are asked for, all that the system shows and each of them once, and the exit
code and the report tell what came of them. -/
theorem test_complete (w : World) (noColor : Bool) (arguments : CommandLine.TestArguments)
    (hfile : w.files.isFile (.ofText arguments.path) = false) :
    w.Complete noColor arguments (.ofText arguments.path) := by
  have hordered := ordered_selected w arguments
  -- no category is empty, so there is nothing to check exactly if no category is selected
  have hnil : w.fixtures arguments = [] ↔ w.selected arguments = [] := hordered.flatMap_eq_nil_iff
  constructor
  case lists => exact fun _ _ => lists_suite_iff
  case shown =>
    intro disk steps hshows
    rw [Finds, FileSystem.leadsToFile_iff_of_shows hshows]
  case hidden =>
    intro front rest hnames hne hfinds
    exact FileSystem.not_leadsToFile_of_names? hnames hne hfinds.1
  case category =>
    intro steps texts htexts
    exact ⟨categoryOf_eq_map_join htexts, categoryOf_eq_join htexts⟩
  case nodup => exact nodup_fixtures w arguments
  case mem_fixtures => exact fun _ => mem_fixtures_iff
  case ordered => exact hordered
  case counts => rw [countP_add_countP, results, List.length_map]
  case code => rw [Ne, hnil, code_test_iff noColor hfile]
  case report =>
    intro hne
    obtain ⟨-, warnings, herr⟩ := test_of_ne_nil noColor hfile (mt hnil.mpr hne)
    have hreport :=
      reportLines_eq noColor (Suite.run w.readFrontMatter w.read (w.selected arguments))
    rw [results_eq] at hreport
    exact ⟨warnings, _, by rw [herr, hreport]⟩

/-- A category that is asked for twice, beside a fixture that is not asked for. -/
theorem test_complete_of_repeated :
    let a : EntryName := .ofText "a" rfl
    let x : EntryName := .ofText "x.test.term" rfl
    let y : EntryName := .ofText "y.test.term" rfl
    let path (steps : List EntryName) : OsText := .below (.ofText "t") steps
    let source : Text := "---\nblock = \"a\"\n---\n### a\n"
    let w : World := { World.ofFile "book" source with
      files := .ofTables [(path [], some [x, a]), (path [a], some [y])]
        [(path [x], source), (path [a, y], source)]
      readFrontMatter _ := .ok ⟨none, "a", [], none, none, none, none⟩ }
    let arguments : CommandLine.TestArguments := ⟨"t", ["a", "/a/"], false⟩
    w.files.isFile (.ofText arguments.path) = false ∧
      (w.suite arguments.path).Lists [] ⟨[x], path [x]⟩ ∧
      (w.suite arguments.path).Lists "a" ⟨[a, y], path [a, y]⟩ ∧
      (∀ m, m ∈ w.fixtures arguments ↔ m = ⟨[a, y], path [a, y]⟩) ∧
      (w.test true arguments).code = 0 := by
  intro a x y path source w arguments
  have hfile : w.files.isFile (.ofText arguments.path) = false := by decide +kernel
  have hcomplete := test_complete w true arguments hfile
  have hsearch : collect w.files (.ofText "t") = [[x], [a, y]] := by decide +kernel
  have hfinds (steps : List EntryName) :
      Finds w.files (.ofText "t") steps ↔ steps = [x] ∨ steps = [a, y] := by
    rw [← mem_collect_iff, hsearch, List.mem_pair]
  have hfixtures : ∀ m, m ∈ w.fixtures arguments ↔ m = ⟨[a, y], path [a, y]⟩ := by
    rintro ⟨steps, there⟩
    rw [hcomplete.mem_fixtures]
    constructor
    · rintro ⟨⟨hsteps, hpath⟩, hselected⟩
      rcases (hfinds steps).mp hsteps with rfl | rfl
      · have hroot : ¬ IsSelected arguments (categoryOf [x]) := by decide
        exact absurd hselected hroot
      · exact congrArg (Member.mk [a, y]) hpath
    · intro heq
      cases heq
      exact ⟨⟨(hfinds _).mpr (.inr rfl), rfl⟩, by decide⟩
  have hpassed : (checked w.readFrontMatter w.read (path [a, y])).failure = none := by
    decide +kernel
  refine ⟨hfile, (hcomplete.lists _ _).mpr ⟨⟨(hfinds _).mpr (.inl rfl), rfl⟩, by decide⟩,
    (hcomplete.lists _ _).mpr ⟨⟨(hfinds _).mpr (.inr rfl), rfl⟩, by decide⟩, hfixtures,
      hcomplete.code.mpr ⟨?_, ?_⟩⟩
  · exact List.ne_nil_of_mem ((hfixtures _).mpr rfl)
  · intro result hresult
    obtain ⟨m, hm, rfl⟩ := List.mem_map.mp hresult
    rw [(hfixtures m).mp hm]
    exact hpassed

/-- Fixtures that are not in the category of their directory: one in a directory with a backslash in
its name, one in a directory that cannot be listed, and one whose name is no text. -/
theorem not_lists_in_directory :
    let a : EntryName := .ofText "a" rfl
    let b : EntryName := .ofText "b" rfl
    let joined : EntryName := .ofText "a\\b" rfl
    let closed : EntryName := .ofText "c" rfl
    let x : EntryName := .ofText "x.test.term" rfl
    let strange : EntryName := ⟨0xFF :: x.bytes, by decide, by decide⟩
    let path (steps : List EntryName) : OsText := .below (.ofText "t") steps
    let w : World := { World.ofFile "book" [] with
      files := .ofTables
        [(path [], some [a, joined, closed, strange]), (path [a], some [b]),
          (path [a, b], some [x]), (path [joined], some [x]), (path [closed], none)]
        [(path [a, b, x], []), (path [joined, x], []), (path [closed, x], []),
          (path [strange], [])] }
    let lists (category : Text) (steps : List EntryName) : Prop :=
      (w.suite "t").Lists category ⟨steps, path steps⟩
    (∀ steps ∈ [[a, b, x], [joined, x], [closed, x], [strange]], w.files.isFile (path steps)) ∧
      (lists "a/b" [a, b, x] ∧ lists "a/b" [joined, x] ∧ ¬ lists "a\\b" [joined, x]) ∧
      ∀ category, ¬ lists category [closed, x] ∧ ¬ lists category [strange] := by
  intro a b joined closed x strange path w lists
  have hlists (category : Text) (steps : List EntryName) : lists category steps ↔
      Finds w.files (.ofText "t") steps ∧ categoryOf steps = category := by
    refine lists_suite_iff.trans ?_
    rw [and_iff_left rfl]
  simp only [hlists]
  have hfiles : ∀ steps ∈ [[a, b, x], [joined, x], [closed, x], [strange]],
      w.files.isFile (path steps) := by
    decide +kernel
  have hshared : Finds w.files (.ofText "t") [a, b, x] ∧
      Finds w.files (.ofText "t") [joined, x] := by
    decide +kernel
  have hmissing : ¬ Finds w.files (.ofText "t") [closed, x] ∧
      ¬ Finds w.files (.ofText "t") [strange] := by
    decide +kernel
  refine ⟨hfiles, ⟨⟨hshared.1, by decide⟩, ⟨hshared.2, by decide⟩, fun h => ?_⟩, fun _ => ?_⟩
  · exact absurd h.2 (by decide)
  · exact ⟨fun h => hmissing.1 h.1, fun h => hmissing.2 h.1⟩

end World

end Runbook
