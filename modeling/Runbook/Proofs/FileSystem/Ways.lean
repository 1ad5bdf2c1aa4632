import Mathlib.Data.List.Induction
import Mathlib.Data.List.Infix
import Runbook.FileSystem
import Runbook.Proofs.Text.Ends

/-!
# Ways through a file system

A way is a list of names, each to be looked up where the names before it lead.  What the system
answers on the way decides whether it leads to a file (`FileSystem.LeadsToFile`): every name is
listed, and all of them but the last lead to directories.

The answers need not tell all that there is.  Where they do (`FileSystem.Shows`), the ways that lead
to files are those to the files of the directory tree (`leadsToFile_iff_of_shows`).  Distinct ways
have distinct paths (`below_inj`).
-/

namespace Runbook

namespace OsText

variable {root : OsText} {name : EntryName} {front rest steps : List EntryName}

/-! ## The path of a way -/

@[simp] theorem below_nil (root : OsText) : below root [] = root := rfl

theorem below_cons (root : OsText) (name : EntryName) (rest : List EntryName) :
    below root (name :: rest) = below (join root name) rest := rfl

/-- What stands in front of the names in a path: the directory and a slash. -/
def opening (root : OsText) : OsText :=
  if root = [] ∨ root.getLast? = some slash then root else root ++ [slash]

theorem join_eq (root : OsText) (name : EntryName) : join root name = opening root ++ name.bytes :=
  rfl

theorem ofSteps_cons (name : EntryName) (hne : rest ≠ []) :
    ofSteps (name :: rest) = name.bytes ++ slash :: ofSteps rest := by
  obtain ⟨next, others, rfl⟩ := List.exists_cons_of_ne_nil hne
  simp [ofSteps, List.intercalate]

/-- Behind a name comes a slash. -/
theorem opening_append_bytes (t : OsText) (name : EntryName) :
    opening (t ++ name.bytes) = t ++ name.bytes ++ [slash] := by
  have hlast : (t ++ name.bytes).getLast? ≠ some slash := by
    rw [List.getLast?_append_of_ne_nil _ name.ne_nil]
    exact fun h => name.not_mem (List.mem_of_getLast? h)
  rw [opening, if_neg (not_or.mpr ⟨by simp [name.ne_nil], hlast⟩)]

/-- The names stand one after another behind the directory. -/
theorem below_eq (root : OsText) (hne : steps ≠ []) :
    below root steps = opening root ++ ofSteps steps := by
  induction steps generalizing root with
  | nil => exact absurd rfl hne
  | cons name rest ih =>
      by_cases hrest : rest = []
      · rw [hrest, below_cons, join_eq]
        simp [ofSteps, List.intercalate]
      · rw [below_cons, ih _ hrest, join_eq, opening_append_bytes, ofSteps_cons name hrest]
        simp

/-- Two lists agree up to the first separator, and behind it. -/
theorem append_cons_inj_of_not_mem {s t u v : OsText} (hs : slash ∉ s) (ht : slash ∉ t) :
    s ++ slash :: u = t ++ slash :: v ↔ s = t ∧ u = v := by
  constructor
  · intro h
    obtain rfl := Text.eq_of_append_eq_append hs ht (by simp) (by simp) h
    exact ⟨rfl, by simpa using h⟩
  · rintro ⟨rfl, rfl⟩
    rfl

/-- The names of a way, each with a slash behind it. -/
def closedSteps (steps : List EntryName) : OsText := steps.flatMap (·.bytes ++ [slash])

theorem ofSteps_append_slash (hne : steps ≠ []) : ofSteps steps ++ [slash] = closedSteps steps := by
  induction steps with
  | nil => exact absurd rfl hne
  | cons name rest ih =>
      rw [closedSteps, List.flatMap_cons, ← closedSteps]
      by_cases hrest : rest = []
      · simp [hrest, ofSteps, List.intercalate, closedSteps]
      · rw [ofSteps_cons name hrest, ← ih hrest]
        simp

theorem closedSteps_inj {others : List EntryName} :
    closedSteps steps = closedSteps others ↔ steps = others := by
  refine ⟨fun h => ?_, congrArg closedSteps⟩
  induction steps generalizing others with
  | nil =>
      cases others with
      | nil => rfl
      | cons other others => simp [closedSteps] at h
  | cons name rest ih =>
      cases others with
      | nil => simp [closedSteps] at h
      | cons other others =>
          simp only [closedSteps, List.flatMap_cons, List.append_assoc, List.singleton_append] at h
          rw [append_cons_inj_of_not_mem name.not_mem other.not_mem] at h
          obtain ⟨hname, hrest⟩ := h
          obtain rfl : name = other := EntryName.ext hname
          rw [ih hrest]

/-- Distinct ways have distinct paths. -/
theorem below_inj {others : List EntryName} (hne : steps ≠ []) (hne' : others ≠ []) :
    below root steps = below root others ↔ steps = others := by
  rw [below_eq root hne, below_eq root hne', List.append_cancel_left_eq]
  constructor
  · intro h
    rw [← closedSteps_inj, ← ofSteps_append_slash hne, ← ofSteps_append_slash hne', h]
  · rintro rfl
    rfl

/-! ## Ways through directories with texts for names -/

theorem ofText_append (s t : Text) : ofText (s ++ t) = ofText s ++ ofText t := by
  rw [ofText, Text.toOctets, List.flatMap_append, Text.octetValues, List.map_append]
  rfl

theorem intercalate_map_ofText (texts : List Text) :
    [slash].intercalate (texts.map ofText) = ofText (Text.join "/" texts) := by
  induction texts with
  | nil => rfl
  | cons t rest ih =>
      cases rest with
      | nil => simp [List.intercalate, Text.join]
      | cons u rest =>
          have hslash : ofText "/" = [slash] := by decide
          rw [Text.join, ofText_append, ofText_append, hslash, ← ih]
          simp [List.intercalate]

/-- Where all names are texts, so is the way. -/
theorem ofSteps_eq_ofText {texts : List Text}
    (h : steps.map EntryName.bytes = texts.map ofText) :
    ofSteps steps = ofText (Text.join "/" texts) := by
  rw [ofSteps, h, intercalate_map_ofText]

end OsText

/-! ## Ways to files -/

/-- Where a list is cut in front of an element, it is cut at its head or behind it. -/
theorem forall_split_cons {α : Type} {a : α} {l : List α} {P : List α → α → List α → Prop} :
    (∀ front b back, a :: l = front ++ b :: back → P front b back) ↔
      P [] a l ∧ ∀ front b back, l = front ++ b :: back → P (a :: front) b back := by
  constructor
  · intro h
    refine ⟨h [] a l rfl, ?_⟩
    rintro front b back rfl
    exact h (a :: front) b back rfl
  · rintro ⟨hfirst, hrest⟩ front b back heq
    cases front with
    | nil =>
        obtain ⟨rfl, rfl⟩ := List.cons.inj heq
        exact hfirst
    | cons c front =>
        obtain ⟨rfl, hl⟩ := List.cons.inj heq
        exact hrest front b back hl

/-- What the names of an entry can stand for. -/
inductive Kind where
  | directory
  | other
deriving DecidableEq

/-- A directory tree: what there is behind a way from its root. -/
structure Disk where
  kind? : List EntryName → Option Kind
  root : kind? [] = some .directory
  parent : ∀ front name, (kind? (front ++ [name])).isSome → kind? front = some .directory

namespace FileSystem

variable {files : FileSystem} {root : OsText} {name : EntryName}
  {front rest steps : List EntryName} {disk : Disk}

/-- The system lists a name in a directory. -/
def Lists (files : FileSystem) (directory : OsText) (name : EntryName) : Prop :=
  ∃ names, files.names? directory = some names ∧ name ∈ names

/-- A way leads to a file.  Every name is listed where the names before it lead, and the last one
alone does not lead to a directory. -/
structure LeadsToFile (files : FileSystem) (root : OsText) (steps : List EntryName) : Prop where
  ne_nil : steps ≠ []
  lists : ∀ front name rest, steps = front ++ name :: rest →
    files.Lists (OsText.below root front) name
  isDirectory : ∀ front name rest, steps = front ++ name :: rest →
    (files.isDirectory (OsText.below root (front ++ [name])) = true ↔ rest ≠ [])

/-- The system shows what there is in the directory behind a way. -/
structure Shows (files : FileSystem) (root : OsText) (disk : Disk) (front : List EntryName) :
    Prop where
  lists : ∀ name, files.Lists (OsText.below root front) name ↔
    (disk.kind? (front ++ [name])).isSome
  isDirectory : ∀ name, files.isDirectory (OsText.below root (front ++ [name])) = true ↔
    disk.kind? (front ++ [name]) = some .directory

theorem leadsToFile_cons :
    files.LeadsToFile root (name :: rest) ↔
      files.Lists root name ∧
        if files.isDirectory (OsText.join root name) then
          files.LeadsToFile (OsText.join root name) rest
        else rest = [] := by
  constructor
  · intro h
    obtain ⟨hfirst, hlists⟩ := forall_split_cons.mp h.lists
    obtain ⟨hkind, hdirectories⟩ := forall_split_cons.mp h.isDirectory
    refine ⟨hfirst, ?_⟩
    split
    · next hdirectory => exact ⟨hkind.mp hdirectory, hlists, hdirectories⟩
    · next hother => exact not_not.mp (mt hkind.mpr hother)
  · rintro ⟨hfirst, hrest⟩
    split at hrest
    · next hdirectory =>
        have hkind := iff_of_true hdirectory hrest.ne_nil
        exact ⟨List.cons_ne_nil _ _, forall_split_cons.mpr ⟨hfirst, hrest.lists⟩,
          forall_split_cons.mpr ⟨hkind, hrest.isDirectory⟩⟩
    · next hother =>
        obtain rfl := hrest
        have hkind : files.isDirectory (OsText.join root name) = true ↔
            ([] : List EntryName) ≠ [] :=
          iff_of_false hother (not_not.mpr rfl)
        exact ⟨List.cons_ne_nil _ _, forall_split_cons.mpr ⟨hfirst, by simp⟩,
          forall_split_cons.mpr ⟨hkind, by simp⟩⟩

end FileSystem

/-- What a way goes on from is a directory. -/
theorem Disk.kind?_of_append (disk : Disk) {front rest : List EntryName} (hne : rest ≠ [])
    (h : (disk.kind? (front ++ rest)).isSome) : disk.kind? front = some .directory := by
  induction rest using List.reverseRecOn with
  | nil => exact absurd rfl hne
  | append_singleton rest name ih =>
      rw [← List.append_assoc] at h
      have hparent := disk.parent _ _ h
      by_cases hrest : rest = []
      · rwa [hrest, List.append_nil] at hparent
      · exact ih hrest (by rw [hparent]; rfl)

namespace FileSystem

variable {files : FileSystem} {root : OsText} {front steps : List EntryName} {disk : Disk}

/-- Where the system shows all directories on the way, the way leads to a file exactly if there is
one. -/
theorem leadsToFile_iff_of_shows
    (h : ∀ front, front <+: steps → front ≠ steps → files.Shows root disk front) :
    files.LeadsToFile root steps ↔ disk.kind? steps = some .other := by
  have hshows : ∀ front name rest, steps = front ++ name :: rest → files.Shows root disk front := by
    rintro front name rest rfl
    exact h front (List.prefix_append _ _) (by simp)
  constructor
  · intro hleads
    obtain ⟨front, name, rfl⟩ := List.eq_nil_or_concat' steps |>.resolve_left hleads.ne_nil
    have hfront := hshows front name [] rfl
    have hsome := (hfront.lists name).mp (hleads.lists front name [] rfl)
    have hkind := (hfront.isDirectory name).not.mp fun hdirectory =>
      (hleads.isDirectory front name [] rfl).mp hdirectory rfl
    obtain ⟨kind, hkind'⟩ := Option.isSome_iff_exists.mp hsome
    cases kind with
    | directory => exact absurd hkind' hkind
    | other => exact hkind'
  · intro hkind
    have hdirectory : ∀ front name rest, steps = front ++ name :: rest → rest ≠ [] →
        disk.kind? (front ++ [name]) = some .directory := by
      intro front name rest heq hrest
      rw [heq, List.append_cons] at hkind
      exact disk.kind?_of_append hrest (by rw [hkind]; rfl)
    constructor
    case ne_nil =>
      rintro rfl
      rw [disk.root] at hkind
      cases hkind
    case lists =>
      intro front name rest heq
      rw [(hshows front name rest heq).lists]
      by_cases hrest : rest = []
      · rw [← hrest, ← heq, hkind]
        rfl
      · rw [hdirectory front name rest heq hrest]
        rfl
    case isDirectory =>
      intro front name rest heq
      rw [(hshows front name rest heq).isDirectory]
      by_cases hrest : rest = []
      · rw [← hrest, ← heq, hkind]
        simp [hrest]
      · exact iff_of_true (hdirectory front name rest heq hrest) hrest

/-- Nothing is reached through a directory that is not listed. -/
theorem not_leadsToFile_of_names? {rest : List EntryName}
    (h : files.names? (OsText.below root front) = none) (hne : rest ≠ []) :
    ¬ files.LeadsToFile root (front ++ rest) := by
  intro hleads
  obtain ⟨name, others, rfl⟩ := List.exists_cons_of_ne_nil hne
  obtain ⟨names, hnames, -⟩ := hleads.lists front name others rfl
  rw [h] at hnames
  cases hnames

end FileSystem

end Runbook
