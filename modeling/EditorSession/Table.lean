import EditorSession.Bytes

/-! Tables keyed by byte strings. Setting a key that is present replaces its value in place, so the
keys of a table built by `set` are distinct and stand in order of first insertion. -/

namespace EditorSession

/-- Entries in order of first insertion. -/
abbrev Table (α : Type) := List (Bytes × α)

namespace Table

variable {α : Type}

/-- The value of the first entry under `key`. -/
def get? (key : Bytes) : Table α → Option α
  | [] => none
  | (k, v) :: rest => if k = key then some v else get? key rest

/-- Replaces the value under `key`, or appends a new entry. -/
def set (key : Bytes) (value : α) : Table α → Table α
  | [] => [(key, value)]
  | (k, v) :: rest => if k = key then (k, value) :: rest else (k, v) :: set key value rest

/-- Removes every entry under `key`. -/
def erase (key : Bytes) (table : Table α) : Table α := table.filter fun entry => entry.1 ≠ key

/-- Applies `f` to the value under `key`. -/
def modify (key : Bytes) (f : α → α) (table : Table α) : Table α :=
  table.map fun (k, v) => if k = key then (k, f v) else (k, v)

def contains (key : Bytes) (table : Table α) : Bool := (get? key table).isSome

/-- Builds a table from pairs; of repeated keys the last one wins. -/
def ofPairs (pairs : List (Bytes × α)) : Table α :=
  pairs.foldl (fun table (k, v) => set k v table) []

@[simp] theorem get?_set_self (key : Bytes) (value : α) (table : Table α) :
    get? key (set key value table) = some value := by
  induction table with
  | nil => simp [set, get?]
  | cons entry rest ih => by_cases h : entry.1 = key <;> simp [set, get?, h, ih]

theorem get?_set_ne {key other : Bytes} (h : other ≠ key) (value : α) (table : Table α) :
    get? other (set key value table) = get? other table := by
  induction table with
  | nil => simp [set, get?, Ne.symm h]
  | cons entry rest ih =>
    obtain ⟨k, v⟩ := entry
    by_cases hk : k = key
    · simp [set, get?, hk, Ne.symm h]
    · by_cases ho : k = other <;> simp_all [set, get?]

@[simp] theorem get?_erase_self (key : Bytes) (table : Table α) :
    get? key (erase key table) = none := by
  induction table with
  | nil => rfl
  | cons entry rest ih =>
    by_cases h : entry.1 = key
    · simpa [erase, h] using ih
    · simpa [erase, get?, h] using ih

end Table

end EditorSession
