/-!
# Tables

A finite map as a list of entries in ascending order of their keys.
-/

namespace TrackerWire

/-- Values by key. -/
structure Table (α β : Type) where
  /-- The entries, in ascending order of their keys. -/
  entries : List (α × β)
  deriving DecidableEq, Repr

namespace Table

variable {α β : Type}

def empty : Table α β := ⟨[]⟩

instance : Inhabited (Table α β) := ⟨empty⟩

/-- The value of the first entry of a key. -/
def valueIn [DecidableEq α] (key : α) : List (α × β) → Option β
  | [] => none
  | (k, v) :: rest => if k = key then some v else valueIn key rest

/-- The value of a key. -/
def get? [DecidableEq α] (table : Table α β) (key : α) : Option β := valueIn key table.entries

@[simp] theorem get?_empty [DecidableEq α] (key : α) : (empty : Table α β).get? key = none := rfl

def keys (table : Table α β) : List α := table.entries.map Prod.fst

/-- Where no key has two entries, each entry is found by its key. -/
theorem get?_of_mem [DecidableEq α] {table : Table α β} (hkeys : table.keys.Nodup) {key : α}
    {value : β} (h : (key, value) ∈ table.entries) : table.get? key = some value := by
  obtain ⟨entries⟩ := table
  simp only [keys, get?] at hkeys h ⊢
  induction entries with
  | nil => cases h
  | cons entry rest ih =>
    obtain ⟨k, v⟩ := entry
    rw [List.map_cons, List.nodup_cons] at hkeys
    rcases List.mem_cons.mp h with h | h
    · cases h
      exact if_pos rfl
    · have hne : k ≠ key := fun he => hkeys.1 (List.mem_map.mpr ⟨_, h, he.symm⟩)
      rw [valueIn, if_neg hne]
      exact ih hkeys.2 h

theorem get?_eq_none [DecidableEq α] {table : Table α β} {key : α} (h : key ∉ table.keys) :
    table.get? key = none := by
  obtain ⟨entries⟩ := table
  simp only [keys, get?] at h ⊢
  induction entries with
  | nil => rfl
  | cons entry rest ih =>
    rw [List.map_cons, List.mem_cons, not_or] at h
    rw [valueIn, if_neg fun he => h.1 he.symm]
    exact ih h.2

section Put

variable [DecidableEq α] [LT α] [DecidableLT α]

/-- The entries with one put in: over the entry of the same key, else before the first greater
key. -/
def putInto (key : α) (value : β) : List (α × β) → List (α × β)
  | [] => [(key, value)]
  | (k, v) :: rest =>
    if k = key then (key, value) :: rest
    else if key < k then (key, value) :: (k, v) :: rest
    else (k, v) :: putInto key value rest

/-- A table in which a key has a value. -/
def put (table : Table α β) (key : α) (value : β) : Table α β :=
  ⟨putInto key value table.entries⟩

theorem valueIn_putInto (key k : α) (value : β) (entries : List (α × β)) :
    valueIn k (putInto key value entries) =
      if key = k then some value else valueIn k entries := by
  induction entries with
  | nil => simp [putInto, valueIn]
  | cons entry rest ih =>
    obtain ⟨k', v'⟩ := entry
    simp only [putInto]
    by_cases e : k' = key
    · subst e
      by_cases h : k' = k <;> simp [valueIn, h]
    · rw [if_neg e]
      split
      · by_cases h : key = k <;> simp [valueIn, h]
      · by_cases h : key = k
        · subst h
          simp [valueIn, e, ih]
        · simp [valueIn, ih, h]

theorem get?_put (table : Table α β) (key k : α) (value : β) :
    (table.put key value).get? k = if key = k then some value else table.get? k :=
  valueIn_putInto key k value table.entries

theorem mem_entries_put {table : Table α β} {key : α} {value : β} {entry : α × β}
    (h : entry ∈ (table.put key value).entries) :
    entry = (key, value) ∨ entry ∈ table.entries := by
  obtain ⟨entries⟩ := table
  simp only [put] at h ⊢
  induction entries with
  | nil => exact .inl (List.mem_singleton.mp h)
  | cons first rest ih =>
    rw [putInto] at h
    split at h
    · exact (List.mem_cons.mp h).imp_right (List.mem_cons_of_mem _)
    · split at h
      · exact List.mem_cons.mp h
      · rcases List.mem_cons.mp h with h | h
        · exact .inr (List.mem_cons.mpr (.inl h))
        · exact (ih h).imp_right (List.mem_cons_of_mem _)

/-- A key without an entry gets one, and the others stay. -/
theorem entries_put {table : Table α β} {key : α} (h : key ∉ table.keys) (value : β) :
    (table.put key value).entries.Perm ((key, value) :: table.entries) := by
  obtain ⟨entries⟩ := table
  simp only [keys, put] at h ⊢
  induction entries with
  | nil => exact .refl _
  | cons entry rest ih =>
    rw [List.map_cons, List.mem_cons, not_or] at h
    rw [putInto, if_neg fun he => h.1 he.symm]
    split
    · exact .refl _
    · exact ((ih h.2).cons entry).trans (.swap ..)

end Put

end Table

end TrackerWire
