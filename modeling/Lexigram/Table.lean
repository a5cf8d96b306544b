/-!
Tables: finite maps as lists of entries, the keys in ascending order. `find?`,
`insert` and `erase` keep to the first entry with a key; on a table built by
`insert` and `erase` there is at most one, and `keys` ascends strictly.
-/

namespace Lexigram

/-- Entries in ascending order of their keys. -/
abbrev Table (κ α : Type) := List (κ × α)

namespace Table

variable {κ α β : Type}

/-- The keys, in order. -/
def keys (t : Table κ α) : List κ :=
  t.map (·.1)

/-- The values, in the order of their keys. -/
def values (t : Table κ α) : List α :=
  t.map (·.2)

/-- The value under a key. -/
def find? [DecidableEq κ] (t : Table κ α) (k : κ) : Option α :=
  match t with
  | [] => none
  | (key, v) :: rest => if key = k then some v else find? rest k

/-- Puts a value under a key, in place of the one there. -/
def insert [DecidableEq κ] [LT κ] [DecidableLT κ] (t : Table κ α) (k : κ)
    (v : α) : Table κ α :=
  match t with
  | [] => [(k, v)]
  | (key, w) :: rest =>
    if key = k then (k, v) :: rest
    else if k < key then (k, v) :: (key, w) :: rest
    else (key, w) :: insert rest k v

/-- Takes a key and its value out. -/
def erase [DecidableEq κ] (t : Table κ α) (k : κ) : Table κ α :=
  match t with
  | [] => []
  | (key, w) :: rest => if key = k then rest else (key, w) :: erase rest k

/-- Puts all entries of a list in, one after the other. -/
def insertAll [DecidableEq κ] [LT κ] [DecidableLT κ] (t : Table κ α)
    (entries : List (κ × α)) : Table κ α :=
  entries.foldl (fun t entry => t.insert entry.1 entry.2) t

@[simp] theorem find?_insert_self [DecidableEq κ] [LT κ] [DecidableLT κ]
    (t : Table κ α) (k : κ) (v : α) : (t.insert k v).find? k = some v := by
  induction t with
  | nil => simp [insert, find?]
  | cons entry rest ih =>
    by_cases same : entry.1 = k
    · simp [insert, find?, same]
    · by_cases before : k < entry.1 <;> simp [insert, find?, same, before, ih]

theorem find?_insert_of_ne [DecidableEq κ] [LT κ] [DecidableLT κ]
    (t : Table κ α) {k j : κ} (v : α) (h : j ≠ k) :
    (t.insert k v).find? j = t.find? j := by
  induction t with
  | nil => simp [insert, find?, Ne.symm h]
  | cons entry rest ih =>
    by_cases same : entry.1 = k
    · simp [insert, find?, same, Ne.symm h]
    · by_cases before : k < entry.1
      · simp [insert, find?, same, before, Ne.symm h]
      · simp [insert, find?, same, before, ih]

theorem find?_insert [DecidableEq κ] [LT κ] [DecidableLT κ] (t : Table κ α)
    (k j : κ) (v : α) :
    (t.insert k v).find? j = if j = k then some v else t.find? j := by
  split
  · next same => rw [same, find?_insert_self]
  · next differ => exact find?_insert_of_ne t v differ

theorem find?_insertAll_of_not_mem [DecidableEq κ] [LT κ] [DecidableLT κ]
    (t : Table κ α) {entries : List (κ × α)} {k : κ} (h : k ∉ keys entries) :
    (t.insertAll entries).find? k = t.find? k := by
  induction entries generalizing t with
  | nil => rfl
  | cons entry rest ih =>
    simp only [keys, List.map_cons, List.mem_cons, not_or] at h
    exact (ih _ h.2).trans (find?_insert_of_ne t entry.2 h.1)

theorem find?_insertAll_of_mem [DecidableEq κ] [LT κ] [DecidableLT κ]
    (t : Table κ α) {entries : List (κ × α)} (nodup : (keys entries).Nodup)
    {k : κ} {v : α} (h : (k, v) ∈ entries) :
    (t.insertAll entries).find? k = some v := by
  induction entries generalizing t with
  | nil => cases h
  | cons entry rest ih =>
    simp only [keys, List.map_cons, List.nodup_cons] at nodup
    rcases List.mem_cons.mp h with rfl | later
    · exact (find?_insertAll_of_not_mem _ nodup.1).trans
        (find?_insert_self t k v)
    · exact ih _ nodup.2 later

end Table

end Lexigram
