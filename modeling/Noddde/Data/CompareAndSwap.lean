import Mathlib.Data.List.Basic
import Mathlib.Logic.Function.Basic
/-!
# Compare-and-swap on a table of versioned rows

A call names the version that it expects; it is accepted exactly if the row has that
version, and then the row gets the next one.  The table is determined by the calls
that were accepted.
-/

namespace CompareAndSwap

variable {ι κ ρ : Type} {version : ρ → Nat}

/-- A call, with the row that it writes. -/
structure Call (κ ρ : Type) (version : ρ → Nat) where
  key : κ
  expected : Nat
  row : ρ
  next : version row = expected + 1

/-- The version under a key, 0 where there is no row. -/
def current (version : ρ → Nat) (table : κ → Option ρ) (key : κ) : Nat :=
  (table key).elim 0 version

variable [DecidableEq κ]

/-- The table once the call is accepted. -/
def Call.apply (call : Call κ ρ version) (table : κ → Option ρ) : Option (κ → Option ρ) :=
  if current version table call.key = call.expected
  then some (Function.update table call.key (some call.row))
  else none

variable (calls : ι → Call κ ρ version)

/-- A table that is reached by accepting calls, the newest first. -/
inductive Accepted : List ι → (κ → Option ρ) → Prop where
  | nil : Accepted [] fun _ => none
  | cons {history : List ι} {table next : κ → Option ρ} {i : ι} :
      Accepted history table → (calls i).apply table = some next → Accepted (i :: history) next

def under (key : κ) (history : List ι) : List ι :=
  history.filter fun i => (calls i).key = key

variable {calls} {history : List ι} {table next : κ → Option ρ} {i : ι} {key : κ}

theorem apply_eq_some {call : Call κ ρ version} (h : call.apply table = some next) :
    current version table call.key = call.expected ∧
      next = Function.update table call.key (some call.row) := by
  unfold Call.apply at h
  split_ifs at h with hversion
  exact ⟨hversion, (Option.some.inj h).symm⟩

theorem current_update {call : Call κ ρ version} :
    current version (Function.update table call.key (some call.row)) key =
      if call.key = key then call.expected + 1 else current version table key := by
  unfold current
  split_ifs with hkey
  · subst hkey
    rw [Function.update_self]
    exact call.next
  · rw [Function.update_of_ne (Ne.symm hkey)]

theorem under_cons (i : ι) (history : List ι) :
    under calls key (i :: history) =
      if (calls i).key = key then i :: under calls key history else under calls key history := by
  unfold under
  rw [List.filter_cons]
  simp only [decide_eq_true_eq]

/-- The version of a row counts the calls that were accepted. -/
theorem Accepted.current_eq (h : Accepted calls history table) (key : κ) :
    current version table key = (under calls key history).length := by
  induction h with
  | nil => rfl
  | cons haccepted happly ih =>
      obtain ⟨hversion, rfl⟩ := apply_eq_some happly
      rw [current_update, under_cons]
      split_ifs with hkey
      · subst hkey
        rw [List.length_cons, ← ih, hversion]
      · exact ih

theorem Accepted.row (h : Accepted calls history table) (key : κ) :
    table key = (under calls key history).head?.map fun i => (calls i).row := by
  induction h with
  | nil => rfl
  | cons haccepted happly ih =>
      obtain ⟨-, rfl⟩ := apply_eq_some happly
      rw [under_cons]
      split_ifs with hkey
      · subst hkey
        exact Function.update_self _ _ _
      · rw [Function.update_of_ne (Ne.symm hkey)]
        exact ih

theorem Accepted.expected_lt (h : Accepted calls history table) :
    ∀ i ∈ history, (calls i).expected < current version table (calls i).key := by
  induction h with
  | nil => exact fun _ hmem => absurd hmem List.not_mem_nil
  | cons haccepted happly ih =>
      obtain ⟨hversion, rfl⟩ := apply_eq_some happly
      intro j hmem
      rw [current_update]
      cases List.mem_cons.mp hmem with
      | inl heq =>
          subst heq
          rw [if_pos rfl]
          exact Nat.lt_succ_self _
      | inr hold =>
          have hlt := ih j hold
          split_ifs with hkey
          · rw [← hkey, hversion] at hlt
            exact Nat.lt_succ_of_lt hlt
          · exact hlt

/-- Whatever was accepted before under the key of a call expects less. -/
theorem Accepted.expected_lt_of_apply (h : Accepted calls history table)
    (happly : (calls i).apply table = some next) :
    ∀ j ∈ history, (calls j).key = (calls i).key → (calls j).expected < (calls i).expected := by
  intro j hmem hkey
  have hlt := h.expected_lt j hmem
  rwa [hkey, (apply_eq_some happly).1] at hlt

/-- At most one call is accepted for a key and an expected version. -/
theorem Accepted.unique (h : Accepted calls history table) :
    ∀ i ∈ history, ∀ j ∈ history, (calls i).key = (calls j).key →
      (calls i).expected = (calls j).expected → i = j := by
  induction h with
  | nil => exact fun _ hmem => absurd hmem List.not_mem_nil
  | cons haccepted happly ih =>
      have hlt := haccepted.expected_lt_of_apply happly
      intro i hi j hj hkey hexpected
      cases List.mem_cons.mp hi with
      | inl hnew =>
          subst hnew
          cases List.mem_cons.mp hj with
          | inl heq => exact heq.symm
          | inr hold => exact absurd (hlt j hold hkey.symm) (by omega)
      | inr hold =>
          cases List.mem_cons.mp hj with
          | inl hnew =>
              subst hnew
              exact absurd (hlt i hold hkey) (by omega)
          | inr hold' => exact ih i hold j hold' hkey hexpected

theorem Accepted.nodup (h : Accepted calls history table) : history.Nodup := by
  induction h with
  | nil => exact List.nodup_nil
  | cons haccepted happly ih =>
      apply List.nodup_cons.mpr
      refine ⟨fun hmem => ?_, ih⟩
      exact Nat.lt_irrefl _ (haccepted.expected_lt_of_apply happly _ hmem rfl)

end CompareAndSwap
