import Mathlib.Data.List.Infix
/-!
# Logs

A log is serial if every batch was decided on exactly the part of the log that precedes
it, as if the writers had taken turns.  A log with its newest entry first is causal if
every entry is one that may follow those before it.
-/

variable {α : Type}

/-- Every batch is in relation with the batches before it, joined. -/
def Serial (Decides : List α → List α → Prop) (batches : List (List α)) : Prop :=
  ∀ before batch after, batches = before ++ batch :: after → Decides before.flatten batch

namespace Serial

variable {Decides Decides' : List α → List α → Prop} {batches : List (List α)}

theorem nil : Serial Decides [] := by
  intro before batch after h
  simp at h

/-- The writer of the next batch has seen all of the log. -/
theorem snoc (h : Serial Decides batches) {batch : List α}
    (hbatch : Decides batches.flatten batch) : Serial Decides (batches ++ [batch]) := by
  intro before b after heq
  rcases List.eq_nil_or_concat after with rfl | ⟨init, last, rfl⟩
  · obtain ⟨rfl, hlast⟩ := List.append_inj' heq rfl
    obtain rfl := List.singleton_inj.mp hlast
    exact hbatch
  · rw [List.concat_eq_append, ← List.cons_append, ← List.append_assoc] at heq
    exact h before b init (List.append_inj' heq rfl).1

theorem mono (h : Serial Decides batches)
    (hmono : ∀ log batch, Decides log batch → Decides' log batch) : Serial Decides' batches :=
  fun before batch after heq => hmono _ _ (h before batch after heq)

end Serial

/-- Every entry is in relation with the entries before it; the newest one comes first. -/
def Causal (Follows : α → List α → Prop) : List α → Prop
  | [] => True
  | a :: old => Follows a old ∧ Causal Follows old

namespace Causal

variable {Follows : α → List α → Prop} {log old new : List α}

theorem append (h : Causal Follows old)
    (hnew : ∀ before a after, new = before ++ a :: after → Follows a (after ++ old)) :
    Causal Follows (new ++ old) := by
  induction new with
  | nil => exact h
  | cons a rest ih =>
      exact ⟨hnew [] a rest rfl, ih fun before a' after heq => hnew (a :: before) a' after
        (congrArg _ heq)⟩

theorem follows (h : Causal Follows log) {a : α} (heq : log = new ++ a :: old) :
    Follows a old := by
  induction new generalizing log with
  | nil =>
      subst heq
      exact h.1
  | cons a' rest ih =>
      subst heq
      exact ih h.2 rfl

end Causal

/-- A part of a log is still at its place when the log has grown. -/
theorem List.take_of_prefix {log log' : List α} (h : log <+: log') {n : Nat}
    (hn : n ≤ log.length) : log'.take n = log.take n := by
  obtain ⟨rest, rfl⟩ := h
  exact List.take_append_of_le_length hn
