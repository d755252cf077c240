import Mathlib.Data.List.Basic
import Mathlib.Order.Lattice
/-!
# Keyset pagination

A loop reads a list that is sorted by a key in pages.  A page starts after the key of the
last element of the page before; the loop ends with a page that is not full.
-/

namespace Keyset

variable {α β κ ε : Type}

/-- Yield what `decode` makes of each element, up to the first that it rejects. -/
def yieldEach (decode : α → Except ε β) : List α → List β × Except ε Unit
  | [] => ([], .ok ())
  | x :: rest =>
      match decode x with
      | .error e => ([], .error e)
      | .ok y =>
          let (ys, outcome) := yieldEach decode rest
          (y :: ys, outcome)

/-- The loop from a cursor on; `none` if it has not ended within so many turns. -/
def readPages (page : κ → List α) (key : α → κ) (decode : α → Except ε β) (batchSize : Nat) :
    Nat → κ → Option (List β × Except ε Unit)
  | 0, _ => none
  | fuel + 1, cursor =>
      let rows := page cursor
      match rows.getLast? with
      | none => some ([], .ok ())
      | some last =>
          match yieldEach decode rows with
          | (yielded, .error e) => some (yielded, .error e)
          | (yielded, .ok ()) =>
              if rows.length < batchSize then some (yielded, .ok ())
              else
                (readPages page key decode batchSize fuel (key last)).map
                  fun (later, outcome) => (yielded ++ later, outcome)

variable {decode : α → Except ε β}

variable (decode) in
theorem yieldEach_append (xs ys : List α) :
    yieldEach decode (xs ++ ys) =
      match yieldEach decode xs with
      | (yielded, .error e) => (yielded, .error e)
      | (yielded, .ok ()) =>
          (yielded ++ (yieldEach decode ys).1, (yieldEach decode ys).2) := by
  induction xs with
  | nil => rfl
  | cons x rest ih =>
      rw [List.cons_append, yieldEach, yieldEach]
      cases decode x with
      | error e => rfl
      | ok y =>
          rw [ih]
          rcases yieldEach decode rest with ⟨yielded, _ | _⟩ <;> rfl

/-- Everything is yielded exactly if everything decodes. -/
theorem yieldEach_eq_ok_iff {xs : List α} {ys : List β} :
    yieldEach decode xs = (ys, .ok ()) ↔ xs.mapM decode = .ok ys := by
  induction xs generalizing ys with
  | nil => simp [yieldEach, pure, Except.pure, eq_comm]
  | cons x rest ih =>
      rw [yieldEach, List.mapM_cons]
      cases decode x with
      | error e => simp [bind, Except.bind]
      | ok y =>
          rcases hrest : yieldEach decode rest with ⟨yielded, e | _⟩
          · cases hmap : rest.mapM decode with
            | error e => simp [bind, Except.bind]
            | ok others =>
                have := ih.mpr hmap
                rw [hrest] at this
                cases (Prod.mk.inj this).2
          · have hmap := ih.mp hrest
            simp [hmap, bind, Except.bind, pure, Except.pure]

section Sorted

variable [LinearOrder κ] {key : α → κ} {xs : List α}

/-- After the last element of a page comes what the page left. -/
theorem filter_last_lt (hxs : xs.Pairwise fun x y => key x < key y) {n : Nat} {last : α}
    (hlast : (xs.take n).getLast? = some last) :
    xs.filter (fun x => decide (key last < key x)) = xs.drop n := by
  have hpage := List.take_append_drop n xs
  obtain ⟨front, hfront⟩ : ∃ front, xs.take n = front ++ [last] :=
    List.getLast?_eq_some_iff.mp hlast
  rw [hfront] at hpage
  rw [← hpage] at hxs
  obtain ⟨hsorted, -, hlater⟩ := List.pairwise_append.mp hxs
  have hbefore : ∀ x ∈ front ++ [last], ¬ key last < key x := by
    intro x hx
    rcases List.mem_append.mp hx with hx | hx
    · exact lt_asymm ((List.pairwise_append.mp hsorted).2.2 x hx last
        (List.mem_singleton_self _))
    · rw [List.mem_singleton.mp hx]
      exact lt_irrefl _
  conv_lhs => rw [← hpage]
  rw [List.filter_append, List.filter_eq_nil_iff.mpr (by simpa using hbefore), List.nil_append,
    List.filter_eq_self.mpr]
  intro y hy
  simpa using hlater last (List.mem_append_right _ (List.mem_singleton_self _)) y hy

/-- The loop yields what is left after its cursor, if it has a turn for each element left. -/
theorem readPages_eq (decode : α → Except ε β) (hxs : xs.Pairwise fun x y => key x < key y)
    {batchSize : Nat} (hbatch : 0 < batchSize) {fuel : Nat} {cursor : κ}
    (hfuel : (xs.filter fun x => decide (cursor < key x)).length < fuel) :
    readPages (fun cursor => (xs.filter fun x => decide (cursor < key x)).take batchSize) key
        decode batchSize fuel cursor =
      some (yieldEach decode (xs.filter fun x => decide (cursor < key x))) := by
  induction fuel generalizing cursor with
  | zero => omega
  | succ fuel ih =>
      let rest := xs.filter fun x => decide (cursor < key x)
      have hrest : rest.Pairwise fun x y => key x < key y := hxs.filter _
      rw [readPages]
      cases hlast : (rest.take batchSize).getLast? with
      | none =>
          have hempty : rest = [] := by
            rcases List.take_eq_nil_iff.mp (List.getLast?_eq_none_iff.mp hlast) with h | h
            · omega
            · exact h
          simp only [rest] at hempty
          simp [hempty, yieldEach]
      | some last =>
          -- what comes after the page comes after the cursor as well
          have hcursor : cursor < key last := by
            have hmem := List.mem_of_mem_take (List.mem_of_getLast? hlast)
            simpa using (List.mem_filter.mp hmem).2
          have hnext : xs.filter (fun x => decide (key last < key x)) = rest.drop batchSize := by
            rw [← filter_last_lt hrest hlast, List.filter_filter]
            refine List.filter_congr fun x _ => ?_
            by_cases hx : key last < key x
            · simp [hx, hcursor.trans hx]
            · simp [hx]
          have hyield := yieldEach_append decode (rest.take batchSize)
            (rest.drop batchSize)
          rw [List.take_append_drop] at hyield
          change _ = some (yieldEach decode rest)
          rw [hyield]
          rcases yieldEach decode (rest.take batchSize) with ⟨yielded, e | _⟩
          · rfl
          · dsimp only
            by_cases hfull : (rest.take batchSize).length < batchSize
            · rw [if_pos hfull]
              have hdrop : rest.drop batchSize = [] := by
                rw [List.length_take] at hfull
                exact List.drop_eq_nil_of_le (by omega)
              simp [hdrop, yieldEach]
            · rw [if_neg hfull, ih, hnext]
              · rfl
              · rw [hnext, List.length_drop]
                rw [List.length_take] at hfull
                change rest.length < fuel + 1 at hfuel
                omega

end Sorted

end Keyset
