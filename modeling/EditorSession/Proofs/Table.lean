import EditorSession.Table
import Mathlib.Data.List.Induction

/-! Tables as finite maps. Lookup agrees with membership once the keys are distinct, which setting
and erasing preserve. A table built from pairs holds every key once, with the last of its values. -/

namespace EditorSession.Table

variable {α : Type}

def keys (table : Table α) : List Bytes := table.map (·.1)

theorem keys_cons (key : Bytes) (value : α) (table : Table α) :
    keys ((key, value) :: table) = key :: keys table := rfl

/-! ### Lookup and membership -/

theorem mem_of_get? {key : Bytes} {value : α} {table : Table α}
    (h : get? key table = some value) : (key, value) ∈ table := by
  induction table with
  | nil => simp [get?] at h
  | cons entry rest ih =>
    obtain ⟨k, v⟩ := entry
    by_cases hk : k = key
    · subst hk
      simp only [get?, ↓reduceIte, Option.some.injEq] at h
      subst h
      exact List.mem_cons_self
    · simp only [get?, hk, ↓reduceIte] at h
      exact List.mem_cons_of_mem _ (ih h)

theorem get?_of_mem {key : Bytes} {value : α} {table : Table α}
    (hn : table.keys.Nodup) (h : (key, value) ∈ table) : get? key table = some value := by
  induction table with
  | nil => cases h
  | cons entry rest ih =>
    obtain ⟨k, v⟩ := entry
    obtain ⟨hk, hn⟩ := List.nodup_cons.mp hn
    rcases List.mem_cons.mp h with h | h
    · cases h
      simp [get?]
    · have hne : k ≠ key := by
        rintro rfl
        exact hk (List.mem_map.mpr ⟨(k, value), h, rfl⟩)
      simpa [get?, hne] using ih hn h

theorem get?_eq_some_iff {key : Bytes} {value : α} {table : Table α} (hn : table.keys.Nodup) :
    get? key table = some value ↔ (key, value) ∈ table :=
  ⟨mem_of_get?, get?_of_mem hn⟩

theorem get?_eq_none_iff {key : Bytes} {table : Table α} :
    get? key table = none ↔ ∀ value, (key, value) ∉ table := by
  induction table with
  | nil => simp [get?]
  | cons entry rest ih =>
    obtain ⟨k, v⟩ := entry
    by_cases hk : k = key
    · subst hk
      simp only [get?, ↓reduceIte, reduceCtorEq, false_iff]
      intro h
      exact h v List.mem_cons_self
    · simpa [get?, hk, Ne.symm hk] using ih

theorem get?_eq_none_iff_not_mem_keys {key : Bytes} {table : Table α} :
    get? key table = none ↔ key ∉ keys table := by
  rw [get?_eq_none_iff]
  constructor
  · intro h hk
    obtain ⟨⟨k, v⟩, hv, rfl⟩ := List.mem_map.mp hk
    exact h v hv
  · exact fun h _ hv => h (List.mem_map.mpr ⟨_, hv, rfl⟩)

theorem get?_eq_none_of_not_mem_keys {key : Bytes} {table : Table α} (h : key ∉ keys table) :
    get? key table = none :=
  get?_eq_none_iff_not_mem_keys.mpr h

/-- Looking up a key finds its first entry. -/
theorem get?_eq_some_iff_append {key : Bytes} {value : α} {table : Table α} :
    get? key table = some value ↔
      ∃ before after, table = before ++ (key, value) :: after ∧ key ∉ keys before := by
  induction table with
  | nil => simp [get?]
  | cons entry rest ih =>
    obtain ⟨k, v⟩ := entry
    by_cases hk : k = key
    · subst hk
      constructor
      · intro h
        obtain rfl : v = value := by simpa [get?] using h
        exact ⟨[], rest, rfl, List.not_mem_nil⟩
      · rintro ⟨before, after, hs, hb⟩
        cases before with
        | nil =>
          obtain ⟨rfl, rfl⟩ : v = value ∧ rest = after := by simpa using hs
          simp [get?]
        | cons entry before =>
          obtain rfl := (List.cons.inj hs).1
          exact absurd List.mem_cons_self hb
    · rw [get?, if_neg hk, ih]
      constructor
      · rintro ⟨before, after, rfl, hb⟩
        refine ⟨(k, v) :: before, after, rfl, ?_⟩
        rw [keys_cons, List.mem_cons, not_or]
        exact ⟨Ne.symm hk, hb⟩
      · rintro ⟨before, after, hs, hb⟩
        cases before with
        | nil => exact absurd (congrArg Prod.fst (List.cons.inj hs).1) hk
        | cons entry before =>
          obtain ⟨rfl, rfl⟩ := List.cons.inj hs
          exact ⟨before, after, rfl, fun hm => hb (List.mem_cons_of_mem _ hm)⟩

theorem contains_eq_false_iff {key : Bytes} {table : Table α} :
    contains key table = false ↔ ∀ value, (key, value) ∉ table := by
  rw [contains, ← get?_eq_none_iff]
  cases get? key table <;> simp

/-! ### Setting -/

/-- A new key goes to the end. -/
theorem set_of_not_mem {key : Bytes} {table : Table α} (value : α)
    (h : ∀ v, (key, v) ∉ table) : set key value table = table ++ [(key, value)] := by
  induction table with
  | nil => rfl
  | cons entry rest ih =>
    obtain ⟨k, v⟩ := entry
    have hk : k ≠ key := by
      rintro rfl
      exact h v List.mem_cons_self
    have hr : ∀ v, (key, v) ∉ rest := fun v hv => h v (List.mem_cons_of_mem _ hv)
    simp [set, hk, ih hr]

theorem keys_set (key : Bytes) (value : α) (table : Table α) :
    keys (set key value table) = if key ∈ keys table then keys table else keys table ++ [key] := by
  induction table with
  | nil => rfl
  | cons entry rest ih =>
    obtain ⟨k, v⟩ := entry
    by_cases hk : k = key
    · subst hk
      simp [set, keys]
    · have hc : keys (set key value ((k, v) :: rest)) = k :: keys (set key value rest) := by
        rw [set, if_neg hk]
        rfl
      have hm : key ∈ keys ((k, v) :: rest) ↔ key ∈ keys rest := by
        simp [keys, Ne.symm hk]
      rw [hc, ih]
      by_cases h : key ∈ keys rest
      · rw [if_pos h, if_pos (hm.mpr h)]
        rfl
      · rw [if_neg h, if_neg (mt hm.mp h)]
        rfl

theorem nodup_keys_set (key : Bytes) (value : α) {table : Table α} (h : table.keys.Nodup) :
    (set key value table).keys.Nodup := by
  rw [keys_set]
  by_cases hk : key ∈ keys table
  · rwa [if_pos hk]
  · rw [if_neg hk, List.nodup_append]
    refine ⟨h, by simp, ?_⟩
    rintro k hm _ hs rfl
    rw [List.mem_singleton.mp hs] at hm
    exact hk hm

theorem mem_set_iff {key k : Bytes} {value v : α} {table : Table α} (hn : table.keys.Nodup) :
    (k, v) ∈ set key value table ↔ k = key ∧ v = value ∨ k ≠ key ∧ (k, v) ∈ table := by
  rw [← get?_eq_some_iff (nodup_keys_set key value hn)]
  by_cases hk : k = key
  · subst hk
    simp [eq_comm]
  · rw [get?_set_ne hk, get?_eq_some_iff hn]
    simp [hk]

/-! ### Erasing -/

@[simp] theorem mem_erase {key : Bytes} {entry : Bytes × α} {table : Table α} :
    entry ∈ erase key table ↔ entry ∈ table ∧ entry.1 ≠ key := by
  simp [erase]

theorem get?_erase_ne {key other : Bytes} (h : other ≠ key) (table : Table α) :
    get? other (erase key table) = get? other table := by
  induction table with
  | nil => rfl
  | cons entry rest ih =>
    obtain ⟨k, v⟩ := entry
    by_cases hk : k = key
    · subst hk
      simpa [erase, get?, Ne.symm h] using ih
    · by_cases ho : k = other
      · subst ho
        simp [erase, get?, hk]
      · simpa [erase, get?, hk, ho] using ih

theorem contains_of_erase {key other : Bytes} {table : Table α}
    (h : contains other (erase key table) = true) : contains other table = true := by
  by_cases ho : other = key
  · simp [ho, contains] at h
  · rwa [contains, get?_erase_ne ho] at h

/-- A new key that is erased again leaves the table as it was. -/
theorem erase_set_of_not_mem {key : Bytes} {table : Table α} (value : α)
    (h : ∀ v, (key, v) ∉ table) : erase key (set key value table) = table := by
  have hk : ∀ entry ∈ table, entry.1 ≠ key := by
    rintro ⟨k, v⟩ hm rfl
    exact h v hm
  rw [set_of_not_mem value h, erase, List.filter_append, List.filter_eq_self.mpr (by simpa using hk)]
  simp

theorem nodup_keys_erase (key : Bytes) {table : Table α} (h : table.keys.Nodup) :
    (erase key table).keys.Nodup :=
  h.sublist (List.filter_sublist.map _)

/-! ### Building from pairs -/

/-- `table` holds what `pairs` say: every key once, where it first appears, with its last value. -/
structure Settles (pairs : List (Bytes × α)) (table : Table α) : Prop where
  order : keys table = (keys pairs).eraseDups
  values : ∀ key, get? key table = get? key pairs.reverse

theorem ofPairs_append_singleton (pairs : List (Bytes × α)) (key : Bytes) (value : α) :
    ofPairs (pairs ++ [(key, value)]) = set key value (ofPairs pairs) := by
  simp [ofPairs]

theorem nodup_keys_ofPairs (pairs : List (Bytes × α)) : (ofPairs pairs).keys.Nodup := by
  induction pairs using List.reverseRecOn with
  | nil => exact List.nodup_nil
  | append_singleton pairs entry ih =>
    rw [ofPairs_append_singleton]
    exact nodup_keys_set _ _ ih

theorem settles_ofPairs (pairs : List (Bytes × α)) : Settles pairs (ofPairs pairs) := by
  induction pairs using List.reverseRecOn with
  | nil => exact ⟨rfl, fun _ => rfl⟩
  | append_singleton pairs entry ih =>
    obtain ⟨key, value⟩ := entry
    rw [ofPairs_append_singleton]
    refine ⟨?_, fun other => ?_⟩
    · have hk : keys (pairs ++ [(key, value)]) = keys pairs ++ [key] := by simp [keys]
      rw [keys_set, ih.order, hk, List.eraseDups_append]
      by_cases hm : key ∈ keys pairs
      · simp [hm, List.removeAll]
      · simp [hm, List.removeAll, List.eraseDups_cons]
    · rw [List.reverse_append]
      by_cases ho : other = key
      · subst ho
        simp [get?]
      · simpa [get?_set_ne ho, get?, Ne.symm ho] using ih.values other

/-- A table is determined by its keys and their values. -/
theorem eq_of_keys {s t : Table α} (hn : s.keys.Nodup) (hk : keys s = keys t)
    (hv : ∀ key, get? key s = get? key t) : s = t := by
  induction s generalizing t with
  | nil => exact (List.map_eq_nil_iff.mp hk.symm).symm
  | cons entry s ih =>
    obtain ⟨k, v⟩ := entry
    cases t with
    | nil => cases hk
    | cons entry t =>
      obtain ⟨k', v'⟩ := entry
      rw [keys_cons, keys_cons, List.cons.injEq] at hk
      obtain ⟨rfl, hk⟩ := hk
      rw [keys_cons, List.nodup_cons] at hn
      obtain rfl : v = v' := by simpa [get?] using hv k
      suffices hr : ∀ key, get? key s = get? key t by rw [ih hn.2 hk hr]
      intro key
      by_cases h : k = key
      · subst h
        rw [get?_eq_none_of_not_mem_keys hn.1, get?_eq_none_of_not_mem_keys (hk ▸ hn.1)]
      · simpa [get?, h] using hv key

theorem Settles.eq_ofPairs {pairs : List (Bytes × α)} {table : Table α} (h : Settles pairs table) :
    table = ofPairs pairs := by
  have hs := settles_ofPairs pairs
  refine (eq_of_keys (nodup_keys_ofPairs pairs) ?_ fun key => ?_).symm
  · rw [hs.order, h.order]
  · rw [hs.values, h.values]

theorem Settles.mem {pairs : List (Bytes × α)} {table : Table α} (h : Settles pairs table)
    {entry : Bytes × α} (hm : entry ∈ table) : entry ∈ pairs := by
  have hn : table.keys.Nodup := h.eq_ofPairs ▸ nodup_keys_ofPairs pairs
  have hg := get?_of_mem hn hm
  rw [h.values] at hg
  exact List.mem_reverse.mp (mem_of_get? hg)

/-- As a finite map, a table of `pairs`: it has every key once, with the value of the last pair that has
this key, and no other key. The order of its entries is left open. -/
structure HoldsLast (pairs : List (Bytes × α)) (table : Table α) : Prop where
  nodup : table.keys.Nodup
  entries : ∀ key value, (key, value) ∈ table ↔
    ∃ before after, pairs = before ++ (key, value) :: after ∧ key ∉ keys after

theorem holdsLast_ofPairs (pairs : List (Bytes × α)) : HoldsLast pairs (ofPairs pairs) := by
  refine ⟨nodup_keys_ofPairs pairs, fun key value => ?_⟩
  rw [← get?_eq_some_iff (nodup_keys_ofPairs pairs), (settles_ofPairs pairs).values,
    get?_eq_some_iff_append]
  constructor
  · rintro ⟨after, before, hs, ha⟩
    refine ⟨before.reverse, after.reverse, ?_, by simpa [keys] using ha⟩
    rw [← List.reverse_reverse pairs, hs]
    simp
  · rintro ⟨before, after, rfl, ha⟩
    exact ⟨after.reverse, before.reverse, by simp, by simpa [keys] using ha⟩

/-- Pairs with distinct keys are a table already. -/
theorem ofPairs_of_nodup {pairs : Table α} (h : pairs.keys.Nodup) : ofPairs pairs = pairs := by
  induction pairs using List.reverseRecOn with
  | nil => rfl
  | append_singleton pairs entry ih =>
    obtain ⟨key, value⟩ := entry
    have hk : keys (pairs ++ [(key, value)]) = keys pairs ++ [key] := by simp [keys]
    rw [hk, List.nodup_append] at h
    obtain ⟨hp, -, hd⟩ := h
    rw [ofPairs_append_singleton, ih hp, set_of_not_mem]
    intro v hv
    exact hd key (List.mem_map.mpr ⟨_, hv, rfl⟩) key (by simp) rfl

end EditorSession.Table
