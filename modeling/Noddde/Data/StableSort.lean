import Mathlib.Data.List.Sort
/-!
# Stable sorting

`List.mergeSort` and `List.insertionSort` are stable, so they agree for every total
preorder, antisymmetric or not, and sorting commutes with taking elements out.
-/

namespace StableSort

variable {α : Type} {r : α → α → Prop} [DecidableRel r]

theorem orderedInsert_append {a : α} {xs ys : List α} (hxs : ∀ x ∈ xs, ¬ r a x)
    (hys : ∀ y ∈ ys, r a y) : (xs ++ ys).orderedInsert r a = xs ++ a :: ys := by
  induction xs with
  | nil =>
      cases ys with
      | nil => rfl
      | cons y ys => exact List.orderedInsert_cons_of_le r ys (hys y List.mem_cons_self)
  | cons x xs ih =>
      rw [List.cons_append, List.orderedInsert_of_not_le r _ (hxs x List.mem_cons_self),
        ih fun x' hx' => hxs x' (List.mem_cons_of_mem _ hx')]
      rfl

theorem filter_orderedInsert_of_neg {p : α → Bool} {a : α} (ha : ¬ p a = true) (xs : List α) :
    (xs.orderedInsert r a).filter p = xs.filter p := by
  induction xs with
  | nil => exact List.filter_cons_of_neg ha
  | cons x xs ih =>
      rw [List.orderedInsert_cons]
      split_ifs with hax
      · exact List.filter_cons_of_neg ha
      · rw [List.filter_cons, List.filter_cons, ih]

variable [IsTrans α r]

theorem filter_orderedInsert_of_pos {p : α → Bool} {a : α} (ha : p a = true) {xs : List α}
    (hxs : xs.Pairwise r) : (xs.orderedInsert r a).filter p = (xs.filter p).orderedInsert r a := by
  induction xs with
  | nil => exact List.filter_cons_of_pos ha
  | cons x xs ih =>
      obtain ⟨hhead, htail⟩ := List.pairwise_cons.mp hxs
      rw [List.orderedInsert_cons]
      split_ifs with hax
      · have hall : ∀ y ∈ (x :: xs).filter p, r a y := by
          intro y hy
          rcases List.mem_cons.mp (List.mem_of_mem_filter hy) with rfl | hy
          · exact hax
          · exact IsTrans.trans a x y hax (hhead y hy)
        rw [List.filter_cons_of_pos ha]
        exact (orderedInsert_append (List.forall_mem_nil _) hall).symm
      · by_cases hx : p x = true
        · rw [List.filter_cons_of_pos hx, List.filter_cons_of_pos hx, ih htail,
            List.orderedInsert_of_not_le r _ hax]
        · rw [List.filter_cons_of_neg hx, List.filter_cons_of_neg hx, ih htail]

variable [Std.Total r]

theorem filter_insertionSort (p : α → Bool) (xs : List α) :
    (xs.insertionSort r).filter p = (xs.filter p).insertionSort r := by
  induction xs with
  | nil => rfl
  | cons x xs ih =>
      rw [List.insertionSort_cons]
      by_cases hx : p x = true
      · rw [filter_orderedInsert_of_pos hx (List.pairwise_insertionSort r xs), ih,
          List.filter_cons_of_pos hx, List.insertionSort_cons]
      · rw [filter_orderedInsert_of_neg hx, ih, List.filter_cons_of_neg hx]

theorem mergeSort_eq_insertionSort (xs : List α) :
    xs.mergeSort (fun a b => decide (r a b)) = xs.insertionSort r := by
  have htrans (a b c : α) (hab : decide (r a b) = true) (hbc : decide (r b c) = true) :
      decide (r a c) = true :=
    decide_eq_true (IsTrans.trans a b c (of_decide_eq_true hab) (of_decide_eq_true hbc))
  have htotal (a b : α) : (decide (r a b) || decide (r b a)) = true := by
    simpa using Std.Total.total a b
  induction xs with
  | nil => simp
  | cons x xs ih =>
      obtain ⟨before, after, hcons, hrest, hbefore⟩ := List.mergeSort_cons htrans htotal x xs
      have hsorted := List.pairwise_mergeSort htrans htotal (x :: xs)
      rw [hcons, List.pairwise_append] at hsorted
      rw [hcons, List.insertionSort_cons, ← ih, hrest, orderedInsert_append]
      · intro y hy hxy
        have hnot := hbefore y hy
        simp [hxy] at hnot
      · exact fun y hy => of_decide_eq_true ((List.pairwise_cons.mp hsorted.2.1).1 y hy)

end StableSort
