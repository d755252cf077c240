import Mathlib.Data.List.Infix
import Mathlib.Data.List.InsertIdx
import Noddde.Data.Words
/-!
# Searching and editing lists of lines
-/

namespace Lines

open Words (intercalate_cons_cons)

variable {α : Type}

def includes [BEq α] (search : List α) : List α → Bool
  | [] => search.isEmpty
  | a :: text => search.isPrefixOf (a :: text) || includes search text

/-- The index of the last element with a property, by a loop that overwrites it. -/
def lastIndex (p : α → Bool) (l : List α) : Option Nat :=
  l.zipIdx.foldl (fun last (a, i) => if p a then some i else last) none

/-- The lines after the first opening one, up to a closing one. -/
def between (opening closing : α → Bool) (l : List α) : List α :=
  ((l.dropWhile fun a => !opening a).drop 1).takeWhile fun a => !closing a

variable {s a : α} {p x y w t l : List α}

/-! ## Search -/

theorem includes_iff [BEq α] [LawfulBEq α] {search text : List α} :
    includes search text = true ↔ search <:+: text := by
  induction text with
  | nil => simp [includes]
  | cons a text ih =>
    rw [includes, Bool.or_eq_true, List.isPrefixOf_iff_prefix, ih, List.infix_cons_iff]

theorem includes_eq_false [BEq α] [LawfulBEq α] {search text : List α} (hs : s ∈ search)
    (ht : s ∉ text) : includes search text = false := by
  by_contra h
  rw [Bool.not_eq_false, includes_iff] at h
  exact ht (h.subset hs)

/-- A text without the separator does not reach across it. -/
theorem infix_append_cons (hs : s ∉ p) :
    p <:+: w ++ s :: t ↔ p <:+: w ∨ p <:+: t := by
  constructor
  · rintro ⟨u, v, h⟩
    rcases List.append_eq_append_iff.mp h with ⟨b, rfl, hv⟩ | ⟨b, hup, hb⟩
    · exact .inl ⟨u, b, rfl⟩
    · rcases b with _ | ⟨c, b⟩
      · exact .inl ⟨u, [], by rw [List.append_nil, hup, List.append_nil]⟩
      · obtain ⟨rfl, rfl⟩ := List.cons.inj hb
        rcases List.append_eq_append_iff.mp hup with ⟨d, rfl, hd⟩ | ⟨d, rfl, hd⟩
        · exact absurd (hd ▸ List.mem_append_right d List.mem_cons_self) hs
        · rcases d with _ | ⟨e, d⟩
          · rw [List.nil_append] at hd
            exact absurd (hd ▸ List.mem_cons_self) hs
          · obtain ⟨rfl, rfl⟩ := List.cons.inj hd
            exact .inr ⟨d, v, rfl⟩
  · rintro (h | h)
    · exact h.trans (List.prefix_append w (s :: t)).isInfix
    · exact h.trans ((List.suffix_cons s t).trans (List.suffix_append w (s :: t))).isInfix

/-- A key and the mark after it stand at the end of what comes before the first mark, or later. -/
theorem infix_concat_append_cons (hx : s ∉ x) (hw : s ∉ w) :
    x ++ [s] <:+: w ++ s :: t ↔ x <:+ w ∨ x ++ [s] <:+: t := by
  constructor
  · rintro ⟨u, v, h⟩
    rw [← List.append_assoc, List.append_assoc _ [s] v, List.singleton_append] at h
    rcases List.append_eq_append_iff.mp h with ⟨b, rfl, hb⟩ | ⟨b, hb, hv⟩
    · rcases b with _ | ⟨c, b⟩
      · exact .inl ⟨u, by rw [List.append_nil]⟩
      · obtain ⟨rfl, -⟩ := List.cons.inj hb
        exact absurd (List.mem_append_right (u ++ x) List.mem_cons_self) hw
    · rcases b with _ | ⟨c, b⟩
      · exact .inl ⟨u, by rw [hb, List.append_nil]⟩
      · obtain ⟨rfl, rfl⟩ := List.cons.inj hv
        rcases List.append_eq_append_iff.mp hb with ⟨d, rfl, hd⟩ | ⟨d, rfl, hd⟩
        · exact absurd (hd ▸ List.mem_append_right d List.mem_cons_self) hx
        · rcases d with _ | ⟨e, d⟩
          · rw [List.nil_append] at hd
            exact absurd (hd ▸ List.mem_cons_self) hx
          · obtain ⟨rfl, rfl⟩ := List.cons.inj hd
            exact .inr ⟨d, v, by simp⟩
  · rintro (⟨u, rfl⟩ | h)
    · exact ⟨u, t, by simp⟩
    · exact h.trans ((List.suffix_cons s t).trans (List.suffix_append w (s :: t))).isInfix

theorem suffix_of_suffix_append_cons (ha : a ∉ x) (h : x <:+ y ++ a :: w) : x <:+ w := by
  obtain ⟨u, h⟩ := h
  rcases List.append_eq_append_iff.mp h with ⟨b, rfl, hb⟩ | ⟨b, rfl, hb⟩
  · exact absurd (List.mem_append_right b List.mem_cons_self) (hb ▸ ha)
  · rcases b with _ | ⟨c, b⟩
    · rw [List.nil_append] at hb
      exact absurd (hb ▸ List.mem_cons_self) ha
    · obtain ⟨-, rfl⟩ := List.cons.inj hb
      exact List.suffix_append b x

theorem not_suffix_of_getLast? {b : α} (hx : x.getLast? = some a) (hy : y.getLast? = some b)
    (hab : a ≠ b) : ¬ x <:+ y := by
  rintro ⟨u, rfl⟩
  rw [List.getLast?_append, hx, Option.some_or] at hy
  exact hab (Option.some.inj hy)

/-! ## Joined lines -/

theorem intercalate_append {ls ls' : List (List α)} (h : ls ≠ []) (h' : ls' ≠ []) :
    [s].intercalate (ls ++ ls') = [s].intercalate ls ++ s :: [s].intercalate ls' := by
  induction ls with
  | nil => exact absurd rfl h
  | cons l ls ih =>
    obtain ⟨l', ls'', rfl⟩ := List.exists_cons_of_ne_nil h'
    cases ls with
    | nil =>
      rw [List.singleton_append, intercalate_cons_cons]
      simp [List.intercalate]
    | cons l₂ ls =>
      rw [List.cons_append, List.cons_append, intercalate_cons_cons, ← List.cons_append,
        ih (List.cons_ne_nil l₂ ls), intercalate_cons_cons, List.append_assoc, List.cons_append]

/-- Joined lines among others are these lines. -/
theorem intercalate_nested {ls new ls' : List (List α)} (h : new ≠ []) :
    [s].intercalate (ls ++ [s].intercalate new :: ls') = [s].intercalate (ls ++ (new ++ ls')) := by
  have hrest : [s].intercalate ([s].intercalate new :: ls') = [s].intercalate (new ++ ls') := by
    cases ls' with
    | nil => simp [List.intercalate]
    | cons l ls' =>
      rw [intercalate_cons_cons, intercalate_append h (List.cons_ne_nil l ls')]
  cases ls with
  | nil => exact hrest
  | cons l ls =>
    rw [intercalate_append (List.cons_ne_nil l ls) (List.cons_ne_nil _ ls'), hrest,
      intercalate_append (List.cons_ne_nil l ls) (by simp [h])]

theorem infix_intercalate {ls : List (List α)} (hp : p ≠ []) (hs : s ∉ p) :
    p <:+: [s].intercalate ls ↔ ∃ l ∈ ls, p <:+: l := by
  induction ls with
  | nil => simpa [List.intercalate] using hp
  | cons l ls ih =>
    cases ls with
    | nil => simp [List.intercalate]
    | cons l' ls =>
      rw [intercalate_cons_cons, infix_append_cons hs, ih]
      simp

/-! ## Edits -/

theorem insertIdx_append (l l' : List α) (a : α) :
    (l ++ l').insertIdx l.length a = l ++ a :: l' := by
  induction l with
  | nil => rfl
  | cons b l ih => simp [ih]

theorem insertIdx_append_cons (l : List α) (b : α) (l' : List α) (a : α) :
    (l ++ b :: l').insertIdx (l.length + 1) a = l ++ b :: a :: l' := by
  have h := insertIdx_append (l ++ [b]) l' a
  simpa using h

theorem getD_append_cons (l : List α) (a : α) (l' : List α) (b : α) :
    (l ++ a :: l').getD l.length b = a := by
  simp

theorem findIdx?_append_cons {test : α → Bool} {l' : List α} (h : ∀ b ∈ l, test b = false)
    (ha : test a = true) : (l ++ a :: l').findIdx? test = some l.length := by
  have hnone : l.findIdx? test = none := List.findIdx?_eq_none_iff.mpr h
  rw [List.findIdx?_append, hnone, List.findIdx?_cons, if_pos ha]
  simp

theorem lastIndex_append_cons {test : α → Bool} {l' : List α} (ha : test a = true)
    (h : ∀ b ∈ l', test b = false) : lastIndex test (l ++ a :: l') = some l.length := by
  have hkeep : ∀ (n : Nat) (last : Option Nat),
      (l'.zipIdx n).foldl (fun last (b, i) => if test b then some i else last) last = last := by
    induction l' with
    | nil => exact fun _ _ => rfl
    | cons b l' ih =>
      obtain ⟨hb, hl'⟩ := List.forall_mem_cons.mp h
      intro n last
      have hkept : (if test b then some n else last) = last := if_neg (by simp [hb])
      rw [List.zipIdx_cons, List.foldl_cons]
      simp only [hkept]
      exact ih hl' (n + 1) last
  rw [lastIndex, List.zipIdx_append, List.foldl_append, List.zipIdx_cons, List.foldl_cons, hkeep]
  simp [ha]

theorem exists_last {test : α → Bool} (h : ∃ a ∈ l, test a = true) :
    ∃ l₁ a l₂, l = l₁ ++ a :: l₂ ∧ test a = true ∧ ∀ b ∈ l₂, test b = false := by
  induction l with
  | nil => simp at h
  | cons b l ih =>
    by_cases hl : ∃ a ∈ l, test a = true
    · obtain ⟨l₁, a, l₂, rfl, ha, hl₂⟩ := ih hl
      exact ⟨b :: l₁, a, l₂, rfl, ha, hl₂⟩
    · obtain ⟨a, ha, htest⟩ := h
      rcases List.mem_cons.mp ha with rfl | ha
      · exact ⟨[], a, l, rfl, htest, fun b hb => by simpa using fun hb' => hl ⟨b, hb, hb'⟩⟩
      · exact absurd ⟨a, ha, htest⟩ hl

theorem between_append {opening closing : α → Bool} {before body after : List α} {c : α}
    (hbefore : ∀ b ∈ before, opening b = false) (ha : opening a = true)
    (hbody : ∀ b ∈ body, closing b = false) (hc : closing c = true) :
    between opening closing (before ++ a :: (body ++ c :: after)) = body := by
  have hdrop : ((before ++ a :: (body ++ c :: after)).dropWhile fun b => !opening b) =
      a :: (body ++ c :: after) := by
    rw [List.dropWhile_append_of_pos (fun b hb => by simp [hbefore b hb])]
    exact List.dropWhile_cons_of_neg (by simp [ha])
  rw [between, hdrop, List.drop_one, List.tail_cons,
    List.takeWhile_append_of_pos (fun b hb => by simp [hbody b hb]),
    List.takeWhile_cons_of_neg (by simp [hc]), List.append_nil]

end Lines
