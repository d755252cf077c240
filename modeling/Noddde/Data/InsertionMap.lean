import Mathlib.Data.List.Nodup
/-!
# Insertion-ordered maps

A finite map that is iterated in the order in which its keys were first
inserted: overwriting a key keeps its place.  The entries carry the proof that
no key occurs twice.
-/

structure InsertionMap (κ α : Type) where
  entries : List (κ × α)
  nodup : (entries.map Prod.fst).Nodup

namespace InsertionMap

variable {κ α : Type} [DecidableEq κ]

def getEntry (k : κ) : List (κ × α) → Option α
  | [] => none
  | e :: rest => if e.1 = k then some e.2 else getEntry k rest

def setEntry (k : κ) (v : α) : List (κ × α) → List (κ × α)
  | [] => [(k, v)]
  | e :: rest => if e.1 = k then (k, v) :: rest else e :: setEntry k v rest

theorem keys_setEntry (k : κ) (v : α) (l : List (κ × α)) :
    (setEntry k v l).map Prod.fst =
      if k ∈ l.map Prod.fst then l.map Prod.fst else l.map Prod.fst ++ [k] := by
  induction l with
  | nil => simp [setEntry]
  | cons e rest ih =>
      by_cases he : e.1 = k
      · subst he
        simp [setEntry]
      · have hk : ¬ k = e.1 := fun h => he h.symm
        simp only [setEntry, if_neg he, List.map_cons, ih, List.mem_cons, hk, false_or]
        split_ifs <;> rfl

theorem setEntry_of_not_mem {k : κ} {l : List (κ × α)} (h : k ∉ l.map Prod.fst) (v : α) :
    setEntry k v l = l ++ [(k, v)] := by
  induction l with
  | nil => rfl
  | cons e rest ih =>
      rw [List.map_cons, List.mem_cons, not_or] at h
      rw [setEntry, if_neg (Ne.symm h.1), ih h.2]
      rfl

theorem getEntry_setEntry (k k' : κ) (v : α) (l : List (κ × α)) :
    getEntry k' (setEntry k v l) = if k' = k then some v else getEntry k' l := by
  induction l with
  | nil => simp [setEntry, getEntry, eq_comm]
  | cons e rest ih =>
      by_cases he : e.1 = k
      · subst he
        by_cases h : k' = e.1
        · simp [setEntry, getEntry, h]
        · simp [setEntry, getEntry, h, Ne.symm h]
      · by_cases h : e.1 = k'
        · have hk : ¬ k' = k := fun hk => he (h.trans hk)
          simp [setEntry, getEntry, h, hk]
        · simp [setEntry, getEntry, he, h, ih]

theorem mem_iff_getEntry {l : List (κ × α)} (hl : (l.map Prod.fst).Nodup) (k : κ) (v : α) :
    (k, v) ∈ l ↔ getEntry k l = some v := by
  induction l with
  | nil => simp [getEntry]
  | cons e rest ih =>
      rw [List.map_cons, List.nodup_cons] at hl
      by_cases h : e.1 = k
      · subst h
        have hrest : (e.1, v) ∉ rest := fun hm =>
          hl.1 (List.mem_map.mpr ⟨_, hm, rfl⟩)
        simp [getEntry, Prod.ext_iff, hrest, eq_comm]
      · have hne : (k, v) ≠ e := fun heq => h (by rw [← heq])
        simp [getEntry, h, hne, ih hl.2]

/-- Among the keys that meet `p`, a key that meets it is set as it is among all. -/
theorem filter_setEntry_of_pos {p : κ → Bool} {k : κ} (h : p k = true) (v : α)
    (l : List (κ × α)) :
    (setEntry k v l).filter (fun e => p e.1) = setEntry k v (l.filter fun e => p e.1) := by
  induction l with
  | nil => simp [setEntry, h]
  | cons e rest ih =>
      by_cases he : e.1 = k
      · have hpe : p e.1 = true := he ▸ h
        simp [setEntry, he, h]
      · by_cases hpe : p e.1 = true
        · simp [setEntry, he, hpe, ih]
        · simp [setEntry, he, hpe, ih]

/-- What is set under another key is not seen. -/
theorem filter_setEntry_of_neg {p : κ → Bool} {k : κ} (h : p k = false) (v : α)
    (l : List (κ × α)) :
    (setEntry k v l).filter (fun e => p e.1) = l.filter fun e => p e.1 := by
  induction l with
  | nil => simp [setEntry, h]
  | cons e rest ih =>
      by_cases he : e.1 = k
      · simp [setEntry, he, h]
      · simp [setEntry, he, List.filter_cons, ih]

theorem getEntry_filter {p : κ → Bool} {k : κ} (h : p k = true) (l : List (κ × α)) :
    getEntry k (l.filter fun e => p e.1) = getEntry k l := by
  induction l with
  | nil => rfl
  | cons e rest ih =>
      by_cases he : e.1 = k
      · simp [getEntry, he, h]
      · by_cases hpe : p e.1 = true
        · simp [getEntry, he, hpe, ih]
        · simp [getEntry, he, hpe, ih]

def empty : InsertionMap κ α := ⟨[], List.nodup_nil⟩

instance : EmptyCollection (InsertionMap κ α) := ⟨empty⟩

def get (m : InsertionMap κ α) (k : κ) : Option α := getEntry k m.entries

def set (m : InsertionMap κ α) (k : κ) (v : α) : InsertionMap κ α where
  entries := setEntry k v m.entries
  nodup := by
    rw [keys_setEntry]
    split_ifs with hk
    · exact m.nodup
    · exact List.nodup_append.mpr
        ⟨m.nodup, List.nodup_singleton k, by
          intro a ha b hb
          obtain rfl := List.mem_singleton.mp hb
          exact fun hab => hk (hab ▸ ha)⟩

def delete (m : InsertionMap κ α) (k : κ) : InsertionMap κ α where
  entries := m.entries.filter fun e => decide (e.1 ≠ k)
  nodup := (List.filter_sublist.map Prod.fst).nodup m.nodup

/-- Delete each entry whose value meets `p`, in a loop over the map. -/
def deleteWhere (p : α → Bool) (m : InsertionMap κ α) : InsertionMap κ α where
  entries := m.entries.filter fun e => !p e.2
  nodup := (List.filter_sublist.map Prod.fst).nodup m.nodup

/-- `map.values()`, in insertion order -/
def values (m : InsertionMap κ α) : List α := m.entries.map Prod.snd

/-- Change every value in place. -/
def mapValues (f : α → α) (m : InsertionMap κ α) : InsertionMap κ α where
  entries := m.entries.map fun e => (e.1, f e.2)
  nodup := by simpa [List.map_map, Function.comp_def] using m.nodup

/-- Change every value in place, with its key at hand. -/
def mapEntries (f : κ → α → α) (m : InsertionMap κ α) : InsertionMap κ α where
  entries := m.entries.map fun e => (e.1, f e.1 e.2)
  nodup := by simpa [List.map_map, Function.comp_def] using m.nodup

/-- The map of the values' images. -/
def map {β : Type} (f : α → β) (m : InsertionMap κ α) : InsertionMap κ β where
  entries := m.entries.map fun e => (e.1, f e.2)
  nodup := by simpa [List.map_map, Function.comp_def] using m.nodup

def keys (m : InsertionMap κ α) : List κ := m.entries.map Prod.fst

theorem keys_set_of_mem {m : InsertionMap κ α} {k : κ} (h : k ∈ m.keys) (v : α) :
    (m.set k v).keys = m.keys :=
  (keys_setEntry k v m.entries).trans (if_pos h)

theorem keys_set_of_not_mem {m : InsertionMap κ α} {k : κ} (h : k ∉ m.keys) (v : α) :
    (m.set k v).keys = m.keys ++ [k] :=
  (keys_setEntry k v m.entries).trans (if_neg h)

theorem mem_keys_set_iff {m : InsertionMap κ α} {k k' : κ} {v : α} :
    k' ∈ (m.set k v).keys ↔ k' ∈ m.keys ∨ k' = k := by
  by_cases hk : k ∈ m.keys
  · rw [keys_set_of_mem hk]
    constructor
    · exact .inl
    · rintro (hk' | rfl)
      · exact hk'
      · exact hk
  · rw [keys_set_of_not_mem hk, List.mem_append, List.mem_singleton]

@[simp] theorem get_empty (k : κ) : (∅ : InsertionMap κ α).get k = none := rfl

theorem get_set (m : InsertionMap κ α) (k k' : κ) (v : α) :
    (m.set k v).get k' = if k' = k then some v else m.get k' :=
  getEntry_setEntry k k' v m.entries

@[simp] theorem get_set_self (m : InsertionMap κ α) (k : κ) (v : α) :
    (m.set k v).get k = some v := by
  simp [get_set]

theorem get_delete (m : InsertionMap κ α) (k k' : κ) :
    (m.delete k).get k' = if k' = k then none else m.get k' := by
  obtain ⟨l, hl⟩ := m
  simp only [get, delete]
  clear hl
  induction l with
  | nil => simp [getEntry]
  | cons e rest ih =>
      by_cases he : e.1 = k
      · by_cases h : k' = k
        · rw [if_pos h] at ih ⊢
          rw [List.filter_cons_of_neg (by simpa using he), ih]
        · have hne : ¬ e.1 = k' := fun hk => h (hk ▸ he)
          rw [if_neg h] at ih ⊢
          rw [List.filter_cons_of_neg (by simpa using he), ih, getEntry, if_neg hne]
      · rw [List.filter_cons_of_pos (by simpa using he), getEntry, getEntry, ih]
        by_cases h : k' = k
        · have hne : ¬ e.1 = k' := fun hk => he (hk.trans h)
          simp [h, if_neg (h ▸ hne)]
        · simp [h]

theorem get_mapValues (f : α → α) (m : InsertionMap κ α) (k : κ) :
    (m.mapValues f).get k = (m.get k).map f := by
  obtain ⟨l, hl⟩ := m
  simp only [get, mapValues]
  clear hl
  induction l with
  | nil => rfl
  | cons e rest ih =>
      simp only [List.map_cons, getEntry, ih]
      split_ifs <;> rfl

theorem get_map {β : Type} (f : α → β) (m : InsertionMap κ α) (k : κ) :
    (m.map f).get k = (m.get k).map f := by
  obtain ⟨l, hl⟩ := m
  simp only [get, map]
  clear hl
  induction l with
  | nil => rfl
  | cons e rest ih =>
      simp only [List.map_cons, getEntry, ih]
      split_ifs <;> rfl

theorem get_mapEntries (f : κ → α → α) (m : InsertionMap κ α) (k : κ) :
    (m.mapEntries f).get k = (m.get k).map (f k) := by
  obtain ⟨l, hl⟩ := m
  simp only [get, mapEntries]
  clear hl
  induction l with
  | nil => rfl
  | cons e rest ih =>
      simp only [List.map_cons, getEntry, ih]
      split_ifs with h
      · rw [h]
        rfl
      · rfl

theorem mem_entries_iff (m : InsertionMap κ α) (k : κ) (v : α) :
    (k, v) ∈ m.entries ↔ m.get k = some v :=
  mem_iff_getEntry m.nodup k v

theorem get_deleteWhere (p : α → Bool) (m : InsertionMap κ α) (k : κ) :
    (m.deleteWhere p).get k = (m.get k).filter fun v => !p v := by
  ext v
  rw [← mem_entries_iff, Option.filter_eq_some_iff, ← mem_entries_iff]
  exact List.mem_filter

theorem mem_keys_iff (m : InsertionMap κ α) (k : κ) : k ∈ m.keys ↔ ∃ v, m.get k = some v := by
  simp only [keys, List.mem_map, Prod.exists, mem_entries_iff]
  exact ⟨fun ⟨_, v, h, hk⟩ => ⟨v, hk ▸ h⟩, fun ⟨v, h⟩ => ⟨k, v, h, rfl⟩⟩

theorem mem_values_iff (m : InsertionMap κ α) (v : α) :
    v ∈ m.values ↔ ∃ k, m.get k = some v := by
  simp only [values, List.mem_map, Prod.exists, mem_iff_getEntry m.nodup]
  exact ⟨fun ⟨k, _, h, hv⟩ => ⟨k, hv ▸ h⟩, fun ⟨k, h⟩ => ⟨k, v, h, rfl⟩⟩

end InsertionMap
