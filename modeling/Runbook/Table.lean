/-!
# Tables

A table maps keys to values and remembers the order in which its keys came in.  Inserting a key that
is there already replaces the value and keeps the place.

The view of a table is `get?`; `get?_insert` and `get?_erase` say what the operations do to it, and
the keys stay pairwise distinct because the type says so.
-/

namespace Runbook

/-- A finite map whose entries keep the order of their first insertion. -/
structure Table (κ ν : Type) where
  /-- The keys with their values, in order. -/
  entries : List (κ × ν)
  /-- No key occurs twice. -/
  nodup : (entries.map Prod.fst).Nodup
deriving DecidableEq

namespace Table

variable {κ ν : Type} [DecidableEq κ]

/-- The table without entries. -/
def empty : Table κ ν := ⟨[], List.nodup_nil⟩

instance : Inhabited (Table κ ν) := ⟨empty⟩

/-- The keys, in order. -/
def keys (t : Table κ ν) : List κ := t.entries.map Prod.fst

/-- The number of entries. -/
def size (t : Table κ ν) : Nat := t.entries.length

/-- The value that entries give a key. -/
def lookup (key : κ) : List (κ × ν) → Option ν
  | [] => none
  | (k, v) :: rest => if k = key then some v else lookup key rest

/-- The value of a key. -/
def get? (t : Table κ ν) (key : κ) : Option ν := lookup key t.entries

/-- Whether the table has the key. -/
def contains (t : Table κ ν) (key : κ) : Bool := (t.get? key).isSome

/-- The entries with `value` at `key`, in place if the key is there and at the end if not. -/
def put (key : κ) (value : ν) : List (κ × ν) → List (κ × ν)
  | [] => [(key, value)]
  | (k, v) :: rest => if k = key then (k, value) :: rest else (k, v) :: put key value rest

theorem mem_keys_put {key k : κ} {value : ν} {entries : List (κ × ν)} :
    k ∈ (put key value entries).map Prod.fst ↔ k = key ∨ k ∈ entries.map Prod.fst := by
  induction entries with
  | nil => simp [put]
  | cons e rest ih =>
    obtain ⟨k', v'⟩ := e
    by_cases h : k' = key
    · simp [put, h]
    · simp only [put, if_neg h, List.map_cons, List.mem_cons, ih]
      grind

theorem nodup_put {key : κ} {value : ν} {entries : List (κ × ν)}
    (h : (entries.map Prod.fst).Nodup) : ((put key value entries).map Prod.fst).Nodup := by
  induction entries with
  | nil => simp [put]
  | cons e rest ih =>
    obtain ⟨k', v'⟩ := e
    simp only [List.map_cons, List.nodup_cons] at h
    by_cases hk : k' = key
    · simp only [put, if_pos hk, List.map_cons, List.nodup_cons]
      exact h
    · simp only [put, if_neg hk, List.map_cons, List.nodup_cons]
      exact ⟨fun hmem => (mem_keys_put.1 hmem).elim hk h.1, ih h.2⟩

/-- The table with `value` at `key`. -/
def insert (t : Table κ ν) (key : κ) (value : ν) : Table κ ν :=
  ⟨put key value t.entries, nodup_put t.nodup⟩

/-- The table without `key`. -/
def erase (t : Table κ ν) (key : κ) : Table κ ν :=
  ⟨t.entries.filter (fun e => e.1 ≠ key),
    List.Sublist.nodup (List.Sublist.map _ List.filter_sublist) t.nodup⟩

/-- The table with every value changed by a function. -/
def map {μ : Type} (f : ν → μ) (t : Table κ ν) : Table κ μ :=
  ⟨t.entries.map fun e => (e.1, f e.2), by simpa [Function.comp_def] using t.nodup⟩

/-- The table that arises when pairs are inserted one after another. -/
def ofList (pairs : List (κ × ν)) : Table κ ν :=
  pairs.foldl (fun t (key, value) => t.insert key value) empty

theorem isSome_lookup_iff {key : κ} {entries : List (κ × ν)} :
    (lookup key entries).isSome ↔ key ∈ entries.map Prod.fst := by
  induction entries with
  | nil => simp [lookup]
  | cons e rest ih => grind [lookup]

/-- The keys are what has a value. -/
theorem mem_keys_iff {t : Table κ ν} {key : κ} : key ∈ t.keys ↔ (t.get? key).isSome :=
  isSome_lookup_iff.symm

/-- A key with a value is one of the keys. -/
theorem mem_keys_of_get? {t : Table κ ν} {key : κ} {value : ν} (h : t.get? key = some value) :
    key ∈ t.keys :=
  mem_keys_iff.mpr (Option.isSome_of_eq_some h)

theorem mem_of_lookup {key : κ} {value : ν} {entries : List (κ × ν)}
    (h : lookup key entries = some value) : (key, value) ∈ entries := by
  induction entries with
  | nil => cases h
  | cons e rest ih => grind [lookup]

/-- Putting in the value that is there already changes nothing. -/
theorem put_of_lookup {key : κ} {value : ν} {entries : List (κ × ν)}
    (h : lookup key entries = some value) : put key value entries = entries := by
  induction entries with
  | nil => cases h
  | cons e rest ih => grind [lookup, put]

theorem insert_of_get? {t : Table κ ν} {key : κ} {value : ν} (h : t.get? key = some value) :
    t.insert key value = t := by
  rw [insert]
  congr
  exact put_of_lookup h

@[simp] theorem get?_empty (key : κ) : (empty : Table κ ν).get? key = none := rfl

theorem lookup_put (key k : κ) (value : ν) (entries : List (κ × ν)) :
    lookup k (put key value entries) = if k = key then some value else lookup k entries := by
  induction entries with
  | nil => by_cases h : key = k <;> simp [put, lookup, h, eq_comm]
  | cons e rest ih =>
    obtain ⟨k', v'⟩ := e
    simp only [put]
    split <;> grind [lookup]

theorem lookup_filter_ne (key k : κ) (entries : List (κ × ν)) :
    lookup k (entries.filter (fun e => e.1 ≠ key)) =
      if k = key then none else lookup k entries := by
  induction entries with
  | nil => simp [lookup]
  | cons e rest ih =>
    obtain ⟨k', v'⟩ := e
    by_cases hk : k' = key
    · rw [List.filter_cons_of_neg (by simp [hk]), ih]
      grind [lookup]
    · rw [List.filter_cons_of_pos (by simp [hk])]
      grind [lookup]

theorem lookup_map {μ : Type} (f : ν → μ) (k : κ) (entries : List (κ × ν)) :
    lookup k (entries.map fun e => (e.1, f e.2)) = (lookup k entries).map f := by
  induction entries with
  | nil => rfl
  | cons e rest ih => grind [lookup]

@[simp] theorem get?_map {μ : Type} (f : ν → μ) (t : Table κ ν) (k : κ) :
    (t.map f).get? k = (t.get? k).map f :=
  lookup_map f k t.entries

/-- Inserting sets the value of one key and of no other. -/
@[simp] theorem get?_insert (t : Table κ ν) (key k : κ) (value : ν) :
    (t.insert key value).get? k = if k = key then some value else t.get? k :=
  lookup_put key k value t.entries

theorem get?_foldl_insert (pairs : List (κ × ν)) (t : Table κ ν) (k : κ) :
    (pairs.foldl (fun t (key, value) => t.insert key value) t).get? k =
      ((pairs.reverse.find? (·.1 = k)).map Prod.snd).or (t.get? k) := by
  induction pairs generalizing t with
  | nil => simp
  | cons e rest ih =>
    rw [List.foldl_cons, ih, get?_insert, List.reverse_cons, List.find?_append]
    cases rest.reverse.find? (·.1 = k) <;> grind

/-- The last pair of a key gives it its value. -/
theorem get?_ofList (pairs : List (κ × ν)) (k : κ) :
    (ofList pairs).get? k = (pairs.reverse.find? (·.1 = k)).map Prod.snd := by
  rw [ofList, get?_foldl_insert, get?_empty, Option.or_none]

/-- Erasing takes away one key and no other. -/
@[simp] theorem get?_erase (t : Table κ ν) (key k : κ) :
    (t.erase key).get? k = if k = key then none else t.get? k :=
  lookup_filter_ne key k t.entries

end Table

end Runbook
