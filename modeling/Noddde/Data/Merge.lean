import Noddde.Data.InsertionMap
import Mathlib.Data.List.Perm.Basic
/-!
# Merges of streams

A merge is a list whose entries carry the stream they are from: it has every
stream in its own order, and nothing else.
-/

variable {κ α : Type} [DecidableEq κ]

def Merges (order : List (κ × α)) (streams : κ → List α) : Prop :=
  ∀ k, (order.filter fun entry => entry.1 = k).map Prod.snd = streams k

theorem count_map_snd_filter [DecidableEq α] (order : List (κ × α)) (k : κ) (x : α) :
    ((order.filter fun entry => entry.1 = k).map Prod.snd).count x = order.count (k, x) := by
  induction order with
  | nil => rfl
  | cons entry rest ih =>
      obtain ⟨k', x'⟩ := entry
      by_cases h : k' = k
      · subst h
        simp [List.count_cons, ih]
      · simp [ih, h]

namespace Merges

variable {order order' : List (κ × α)} {streams : κ → List α}

/-- Two merges of the same streams have the same entries. -/
theorem perm (h : Merges order streams) (h' : Merges order' streams) : order.Perm order' := by
  classical
  rw [List.perm_iff_count]
  rintro ⟨k, x⟩
  rw [← count_map_snd_filter, ← count_map_snd_filter, h k, h' k]

theorem filter (h : Merges order streams) (p : α → Bool) :
    Merges (order.filter fun entry => p entry.2) fun k => (streams k).filter p := by
  intro k
  change _ = (streams k).filter p
  rw [← h k, List.filter_filter, List.filter_map, List.filter_filter]
  congr 2
  funext entry
  exact Bool.and_comm _ _

theorem select (h : Merges order streams) (p : κ → Bool) :
    Merges (order.filter fun entry => p entry.1) fun k => if p k then streams k else [] := by
  intro k
  change _ = if p k then streams k else []
  rw [List.filter_filter]
  by_cases hk : p k = true
  · rw [if_pos hk, ← h k]
    congr 2
    funext entry
    by_cases heq : entry.1 = k
    · simp [heq, hk]
    · simp [heq]
  · rw [if_neg hk, List.filter_eq_nil_iff.mpr]
    · rfl
    · intro entry _
      by_cases heq : entry.1 = k
      · simp [heq, hk]
      · simp [heq]

theorem mem_stream (h : Merges order streams) {k : κ} {x : α} (hmem : (k, x) ∈ order) :
    x ∈ streams k := by
  rw [← h k]
  exact List.mem_map.mpr ⟨_, List.mem_filter.mpr ⟨hmem, by simp⟩, rfl⟩

theorem mem_order (h : Merges order streams) {k : κ} {x : α} (hmem : x ∈ streams k) :
    (k, x) ∈ order := by
  rw [← h k] at hmem
  obtain ⟨⟨k', x'⟩, hentry, rfl⟩ := List.mem_map.mp hmem
  obtain ⟨horder, hk⟩ := List.mem_filter.mp hentry
  obtain rfl : k' = k := of_decide_eq_true hk
  exact horder

end Merges

namespace InsertionMap

variable (m : InsertionMap κ (List α))

/-- The lists of a map one after the other, each entry with its key. -/
def tagged : List (κ × α) :=
  m.entries.flatMap fun entry => entry.2.map fun x => (entry.1, x)

omit [DecidableEq κ] in
theorem map_snd_tagged : m.tagged.map Prod.snd = m.values.flatten := by
  simp [tagged, values, List.flatMap_def, Function.comp_def]

theorem merges_tagged : Merges m.tagged fun k => (m.get k).getD [] := by
  obtain ⟨l, hl⟩ := m
  intro k
  simp only [tagged, get]
  induction l with
  | nil => rfl
  | cons entry rest ih =>
      rw [List.map_cons, List.nodup_cons] at hl
      rw [List.flatMap_cons, List.filter_append, List.map_append, ih hl.2, getEntry]
      by_cases h : entry.1 = k
      · subst h
        have hrest : getEntry entry.1 rest = none := by
          cases hget : getEntry entry.1 rest with
          | none => rfl
          | some x =>
              have hmem := (mem_iff_getEntry hl.2 _ _).mpr hget
              exact absurd (List.mem_map.mpr ⟨_, hmem, rfl⟩) hl.1
        simp [hrest, List.filter_map, Function.comp_def]
      · simp [h]

end InsertionMap
