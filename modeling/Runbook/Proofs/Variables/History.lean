import Mathlib.Data.List.Nodup
import Runbook.Proofs.Text.Ends
import Runbook.Variables

/-!
# What a table remembers

A table is filled by insertions, one after another, and a name may be inserted any number of times.
The table remembers two things of this history: where each name came in first, which gives the
order, and what it was inserted with last, which gives the value (`Table.Recalls`).

One insertion keeps this up (`Table.Recalls.insert`), and so a table recalls every history that it
was filled by (`Table.recalls_ofList`, `Table.Recalls.foldl_insert`).  For a table of variables the
history begins with the lines of a body.  Which lines declare something, and what, is said by
`VariableTable.Declares` without the reader, and `VariableTable.DeclaredBy` takes the lines in
order.
-/

namespace Runbook

namespace Table

variable {κ ν : Type} [DecidableEq κ] {t : Table κ ν} {history pairs : List (κ × ν)} {key other : κ}
  {value : ν}

/-! ## One insertion -/

theorem put_of_mem {entries : List (κ × ν)} (hnodup : (entries.map Prod.fst).Nodup)
    (h : key ∈ entries.map Prod.fst) :
    put key value entries = entries.map fun e => if e.1 = key then (key, value) else e := by
  induction entries with
  | nil => cases h
  | cons e rest ih =>
      obtain ⟨k, v⟩ := e
      rw [List.map_cons, List.nodup_cons] at hnodup
      by_cases hk : k = key
      · subst hk
        have hrest : rest.map (fun e => if e.1 = k then (k, value) else e) = rest := by
          conv_rhs => rw [← List.map_id rest]
          apply List.map_congr_left
          intro e he
          have hmem : e.1 ∈ rest.map Prod.fst := List.mem_map_of_mem he
          apply if_neg
          intro heq
          exact hnodup.1 (heq ▸ hmem)
        simp [put, hrest]
      · have hrest : key ∈ rest.map Prod.fst := by simpa [Ne.symm hk] using h
        simp [put, hk, ih hnodup.2 hrest]

theorem put_of_not_mem {entries : List (κ × ν)} (h : key ∉ entries.map Prod.fst) :
    put key value entries = entries ++ [(key, value)] := by
  induction entries with
  | nil => rfl
  | cons e rest ih =>
      obtain ⟨k, v⟩ := e
      rw [List.map_cons, List.mem_cons, not_or] at h
      simp [put, Ne.symm h.1, ih h.2]

/-- An insertion changes the entry of its key in place, or puts a new one behind all others. -/
theorem entries_insert (t : Table κ ν) (key : κ) (value : ν) :
    (t.insert key value).entries =
      if key ∈ t.keys then t.entries.map fun e => if e.1 = key then (key, value) else e
      else t.entries ++ [(key, value)] := by
  split
  · next h => exact put_of_mem t.nodup h
  · next h => exact put_of_not_mem h

theorem keys_insert_of_mem (h : key ∈ t.keys) (value : ν) : (t.insert key value).keys = t.keys := by
  rw [keys, entries_insert, if_pos h, List.map_map]
  apply List.map_congr_left
  intro e _
  simp only [Function.comp_apply]
  split
  · next heq => exact heq.symm
  · rfl

theorem keys_insert_of_not_mem (h : key ∉ t.keys) (value : ν) :
    (t.insert key value).keys = t.keys ++ [key] := by
  rw [keys, entries_insert, if_neg h, List.map_append]
  rfl

/-! ## Entries and look-ups -/

theorem get?_eq_some_iff_mem : t.get? key = some value ↔ (key, value) ∈ t.entries := by
  constructor
  · exact mem_of_lookup
  · intro h
    obtain ⟨found, hfound⟩ := Option.isSome_iff_exists.mp (mem_keys_iff.mp (List.mem_map_of_mem h))
    have hmem : (key, found) ∈ t.entries := mem_of_lookup hfound
    have heq : (key, found) = (key, value) := List.inj_on_of_nodup_map t.nodup hmem h rfl
    rw [hfound, (Prod.mk.inj heq).2]

/-- Entries that are inserted behind others, none of them twice, stay as they are. -/
theorem entries_foldl_insert (h : (t.keys ++ pairs.map Prod.fst).Nodup) :
    (pairs.foldl (fun t (key, value) => t.insert key value) t).entries = t.entries ++ pairs := by
  induction pairs generalizing t with
  | nil => simp
  | cons e rest ih =>
      obtain ⟨k, v⟩ := e
      have hnew : k ∉ t.keys := by
        intro hmem
        exact (List.nodup_append.mp h).2.2 k hmem k (by simp) rfl
      have hrest : ((t.insert k v).keys ++ rest.map Prod.fst).Nodup := by
        rw [keys_insert_of_not_mem hnew]
        simpa using h
      rw [List.foldl_cons, ih hrest, entries_insert, if_neg hnew]
      simp

/-- A table is filled again by its own entries. -/
theorem ofList_entries (t : Table κ ν) : ofList t.entries = t := by
  have hentries : (ofList t.entries).entries = t.entries :=
    entries_foldl_insert (t := empty) t.nodup
  cases hfilled : ofList t.entries
  cases t
  simp_all

/-- The order of the entries does not matter to who looks something up. -/
theorem get?_ofList_of_perm (h : pairs.Perm t.entries) (key : κ) :
    (ofList pairs).get? key = t.get? key := by
  have hnodup : (pairs.map Prod.fst).Nodup := (h.map Prod.fst).nodup_iff.mpr t.nodup
  have hentries : (ofList pairs).entries = pairs := entries_foldl_insert (t := empty) hnodup
  apply Option.ext
  intro value
  rw [get?_eq_some_iff_mem, get?_eq_some_iff_mem, hentries, h.mem_iff]

/-! ## Histories -/

/-- The number of the insertion that the key came in with. -/
def firstInsertion (history : List (κ × ν)) (key : κ) : Nat := (history.map Prod.fst).idxOf key

/-- The key was inserted with this value last. -/
def InsertedLast (history : List (κ × ν)) (key : κ) (value : ν) : Prop :=
  ∃ before after, history = before ++ (key, value) :: after ∧ key ∉ after.map Prod.fst

/-- The table holds what was inserted: the keys in the order of their first insertions, each with
the value of its last one. -/
structure Recalls (history : List (κ × ν)) (t : Table κ ν) : Prop where
  mem_keys_iff : ∀ key, key ∈ t.keys ↔ key ∈ history.map Prod.fst
  ordered : t.keys.Pairwise fun a b => firstInsertion history a < firstInsertion history b
  get?_eq_some_iff : ∀ key value, t.get? key = some value ↔ InsertedLast history key value

theorem insertedLast_concat {last : ν} :
    InsertedLast (history ++ [(key, last)]) other value ↔
      if other = key then last = value else InsertedLast history other value := by
  constructor
  · rintro ⟨before, after, heq, hafter⟩
    rcases List.eq_nil_or_concat' after with rfl | ⟨front, e, rfl⟩
    · obtain ⟨rfl, hlast⟩ := List.append_inj' heq rfl
      obtain ⟨rfl, rfl⟩ := Prod.mk.inj (List.singleton_inj.mp hlast)
      exact if_pos rfl ▸ rfl
    · rw [← List.cons_append, ← List.append_assoc] at heq
      obtain ⟨rfl, hlast⟩ := List.append_inj' heq rfl
      obtain rfl := List.singleton_inj.mp hlast
      rw [List.map_append, List.mem_append, not_or] at hafter
      have hne : other ≠ key := by simpa using hafter.2
      rw [if_neg hne]
      exact ⟨before, front, rfl, hafter.1⟩
  · intro h
    split at h
    · next heq =>
        subst heq h
        exact ⟨history, [], rfl, List.not_mem_nil⟩
    · next hne =>
        obtain ⟨before, after, rfl, hafter⟩ := h
        refine ⟨before, after ++ [(key, last)], by simp, ?_⟩
        simpa [hne] using hafter

theorem recalls_empty : Recalls [] (empty : Table κ ν) where
  mem_keys_iff := by simp [keys, empty]
  ordered := List.Pairwise.nil
  get?_eq_some_iff := by simp [InsertedLast]

/-- What was in the history keeps its place there. -/
theorem firstInsertion_append (h : key ∈ history.map Prod.fst) :
    firstInsertion (history ++ pairs) key = firstInsertion history key := by
  unfold firstInsertion
  rw [List.map_append, List.idxOf_append_of_mem h]

/-- **One more insertion** is recalled, too. -/
theorem Recalls.insert (h : Recalls history t) (key : κ) (value : ν) :
    Recalls (history ++ [(key, value)]) (t.insert key value) := by
  have hordered : t.keys.Pairwise fun a b =>
      firstInsertion (history ++ [(key, value)]) a <
        firstInsertion (history ++ [(key, value)]) b := by
    apply h.ordered.imp_of_mem
    intro a b ha hb hlt
    rwa [firstInsertion_append ((h.mem_keys_iff a).mp ha),
      firstInsertion_append ((h.mem_keys_iff b).mp hb)]
  constructor
  case mem_keys_iff =>
    intro other
    rw [Table.mem_keys_iff, get?_insert, List.map_append, List.mem_append, ← h.mem_keys_iff,
      Table.mem_keys_iff]
    by_cases hother : other = key <;> simp [hother]
  case ordered =>
    by_cases hkey : key ∈ t.keys
    · rwa [keys_insert_of_mem hkey]
    · rw [keys_insert_of_not_mem hkey, List.pairwise_append]
      refine ⟨hordered, List.pairwise_singleton _ _, ?_⟩
      intro a ha b hb
      obtain rfl := List.mem_singleton.mp hb
      -- the new key comes in with the last insertion, and all others came in before
      have hold : a ∈ history.map Prod.fst := (h.mem_keys_iff a).mp ha
      have hnew : b ∉ history.map Prod.fst := fun hb => hkey ((h.mem_keys_iff b).mpr hb)
      rw [firstInsertion_append hold]
      have hlt := List.idxOf_lt_length_of_mem hold
      simp only [firstInsertion, List.map_append, List.idxOf_append_of_notMem hnew]
      omega
  case get?_eq_some_iff =>
    intro other found
    rw [get?_insert, insertedLast_concat, ← h.get?_eq_some_iff]
    split <;> simp

/-- **A whole run of insertions** is recalled behind what was recalled before. -/
theorem Recalls.foldl_insert (h : Recalls history t) (pairs : List (κ × ν)) :
    Recalls (history ++ pairs) (pairs.foldl (fun t (key, value) => t.insert key value) t) := by
  induction pairs generalizing history t with
  | nil => simpa using h
  | cons e rest ih =>
      have hrest := ih (h.insert e.1 e.2)
      rwa [List.append_assoc, List.singleton_append] at hrest

theorem recalls_ofList (pairs : List (κ × ν)) : Recalls pairs (ofList pairs) :=
  recalls_empty.foldl_insert pairs

omit [DecidableEq κ] in
theorem mem_of_insertedLast (h : InsertedLast history key value) : (key, value) ∈ history := by
  obtain ⟨before, after, rfl, -⟩ := h
  simp

/-- Every entry of a table was inserted. -/
theorem mem_of_mem_entries_ofList {e : κ × ν} (h : e ∈ (ofList pairs).entries) : e ∈ pairs := by
  have hget : (ofList pairs).get? e.1 = some e.2 := get?_eq_some_iff_mem.mpr h
  exact mem_of_insertedLast (((recalls_ofList pairs).get?_eq_some_iff e.1 e.2).mp hget)

end Table

namespace VariableTable

variable {line before after name value body : Text} {lines : List Text}
  {declared : List (Text × Text)}

/-! ## Declarations -/

/-- The line declares this value for this name. It is not blank and no comment, and its first equals
sign separates a name, which is not empty, from the value. -/
structure Declares (line name value : Text) : Prop where
  not_blank : Text.trim line ≠ []
  not_comment : (Text.trim line).head? ≠ some '#'
  split : ∃ before after, line = before ++ '=' :: after ∧ '=' ∉ before ∧ name = Text.trim before ∧
    value = Text.trim after
  named : name ≠ []

/-- These are the declarations of the lines, one after another. All other lines are skipped. -/
inductive DeclaredBy : List Text → List (Text × Text) → Prop where
  | nil : DeclaredBy [] []
  | declares {line name value : Text} {lines : List Text} {declared : List (Text × Text)}
      (first : Declares line name value) (rest : DeclaredBy lines declared) :
      DeclaredBy (line :: lines) ((name, value) :: declared)
  | skips {line : Text} {lines : List Text} {declared : List (Text × Text)}
      (first : ∀ name value, ¬ Declares line name value) (rest : DeclaredBy lines declared) :
      DeclaredBy (line :: lines) declared

theorem declaration?_of_not_mem (h : '=' ∉ line) : declaration? line = none := by
  have hsplit : Text.splitOnce? ['='] (Text.trim line) = none :=
    Text.splitOnce?_of_not_mem fun hmem => h (Text.mem_of_mem_trim hmem)
  simp [declaration?, hsplit]

/-- The white space around a line is white space around its name and its value. -/
theorem declaration?_of_split (h : '=' ∉ before) :
    declaration? (before ++ '=' :: after) =
      if (Text.trim (before ++ '=' :: after)).head? = some '#' ∨ Text.trim before = [] then none
      else some (Text.trim before, Text.trim after) := by
  have htrim :
      Text.trim (before ++ '=' :: after) = Text.trimStart before ++ '=' :: Text.trimEnd after :=
    Text.trim_append_cons (by decide) before after
  have hmem : '=' ∉ Text.trimStart before :=
    fun hmem => h ((List.dropWhile_suffix isBlank).subset hmem)
  have hsplit : Text.splitOnce? "=" (Text.trim (before ++ '=' :: after)) =
      some (Text.trimStart before, Text.trimEnd after) := by
    rw [htrim]
    exact Text.splitOnce?_append_cons hmem _
  have hne : Text.trim (before ++ '=' :: after) ≠ [] := by simp [htrim]
  unfold declaration?
  simp only [hsplit, hne, false_or, Text.trim_trimStart, Text.trim_trimEnd]
  split
  · next hcomment => rw [if_pos (.inl hcomment)]
  · next hcomment => simp [hcomment]

/-- **What the reader of a line finds is what the line declares.** -/
theorem declaration?_eq_some_iff :
    declaration? line = some (name, value) ↔ Declares line name value := by
  constructor
  · intro h
    by_cases hmem : '=' ∈ line
    · obtain ⟨before, after, rfl, hbefore⟩ := List.eq_append_cons_of_mem hmem
      rw [declaration?_of_split hbefore] at h
      split at h
      · cases h
      · next hkept =>
          rw [not_or] at hkept
          obtain ⟨rfl, rfl⟩ := Prod.mk.inj (Option.some.inj h)
          have hblank : Text.trim (before ++ '=' :: after) ≠ [] := by
            rw [Text.trim_append_cons (by decide)]
            simp
          exact ⟨hblank, hkept.1, ⟨before, after, rfl, hbefore, rfl, rfl⟩, hkept.2⟩
    · rw [declaration?_of_not_mem hmem] at h
      cases h
  · rintro ⟨-, hcomment, ⟨before, after, rfl, hbefore, rfl, rfl⟩, hnamed⟩
    rw [declaration?_of_split hbefore, if_neg]
    rintro (hhash | hnil)
    · exact hcomment hhash
    · exact hnamed hnil

theorem declaredBy_filterMap (lines : List Text) :
    DeclaredBy lines (lines.filterMap declaration?) := by
  induction lines with
  | nil => exact .nil
  | cons line lines ih =>
      cases hline : declaration? line with
      | none =>
          rw [List.filterMap_cons_none hline]
          apply DeclaredBy.skips _ ih
          intro name value h
          rw [declaration?_eq_some_iff.mpr h] at hline
          cases hline
      | some e =>
          rw [List.filterMap_cons_some hline]
          exact .declares (declaration?_eq_some_iff.mp hline) ih

/-- **A table of variables recalls its history**, which is the declarations of a body, line by line,
and whatever is inserted later.  Its names are pairwise distinct and stand in the order of their
first insertions.  A name has the value of its last insertion, or none if it was never inserted, and
a map with the same entries gives the same answer. One more insertion changes one entry in place, or
puts a new one behind the others. -/
theorem recalls_history (body : Text) (later : List (Text × Text)) :
    let table : VariableTable :=
      later.foldl (fun t (name, value) => t.insert name value) (parse body)
    table.keys.Nodup ∧
      (∃ declared, DeclaredBy (Text.lines body) declared ∧ parse body = .ofList declared ∧
        table.Recalls (declared ++ later) ∧
        ∀ name, table.get? name = none ↔ name ∉ (declared ++ later).map Prod.fst) ∧
      (∀ pairs : List (Text × Text), pairs.Perm table.entries →
        ∀ name, Environment.ofPairs pairs name = table.get? name) ∧
      ∀ name value, (table.insert name value).entries =
        if name ∈ table.keys then table.entries.map fun e => if e.1 = name then (name, value) else e
        else table.entries ++ [(name, value)] := by
  intro table
  have hrecalls : table.Recalls (declarations body ++ later) :=
    (Table.recalls_ofList (declarations body)).foldl_insert later
  refine ⟨table.nodup, ⟨declarations body, declaredBy_filterMap _, rfl, hrecalls, ?_⟩, ?_, ?_⟩
  · intro name
    rw [← hrecalls.mem_keys_iff, Table.mem_keys_iff, Option.not_isSome_iff_eq_none]
  · intro pairs hperm name
    exact Table.get?_ofList_of_perm hperm name
  · intro name value
    convert Table.entries_insert table name value

/-- One name is declared twice and another one inserted again later, between lines that declare
nothing. -/
theorem recalls_history_of_redeclared :
    let later : List (Text × Text) := [("C", "4"), ("B", "5")]
    let table : VariableTable := later.foldl (fun t (name, value) => t.insert name value)
      (parse "# tools\n A = 1\nB=x=y\n\njunk\n=2\nA\u00a0=3\r\n")
    let pairs : List (Text × Text) := [("C", "4"), ("A", "3"), ("B", "5")]
    let entries : List (Text × Text) := [("A", "3"), ("B", "5"), ("C", "4")]
    table.entries = entries ∧ pairs.Perm table.entries ∧
    Environment.ofPairs pairs "B" = table.get? "B" := by
  intro later table pairs entries
  have hentries : table.entries = entries := by decide
  have hperm : pairs.Perm table.entries := by
    rw [hentries]
    decide
  exact ⟨hentries, hperm, (recalls_history _ later).2.2.1 pairs hperm "B"⟩

end VariableTable

end Runbook
