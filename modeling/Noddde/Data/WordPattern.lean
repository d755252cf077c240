import Mathlib.Data.List.Basic
import Mathlib.Data.List.Infix
/-!
# Patterns of words

The words of a text lie between its separators.  A pattern of words has two wildcards:
for one word, and for any number of them.
-/

inductive PatternWord (W : Type) where
  | word (w : W)
  | one
  /-- Any number of words, also none. -/
  | any
  deriving DecidableEq, Repr

namespace PatternWord

variable {W : Type}

def Matches : List (PatternWord W) → List W → Prop
  | [], words => words = []
  | .word w :: pattern, words => ∃ rest, words = w :: rest ∧ Matches pattern rest
  | .one :: pattern, words => ∃ w rest, words = w :: rest ∧ Matches pattern rest
  | .any :: pattern, words => ∃ rest ∈ words.tails, Matches pattern rest

instance decidableMatches [DecidableEq W] :
    (pattern : List (PatternWord W)) → (words : List W) → Decidable (Matches pattern words)
  | [], words => inferInstanceAs (Decidable (words = []))
  | .word _ :: _, [] => isFalse fun ⟨_, heq, _⟩ => by cases heq
  | .word w :: pattern, x :: rest =>
      have := decidableMatches pattern rest
      decidable_of_iff (x = w ∧ Matches pattern rest)
        ⟨fun ⟨heq, hrest⟩ => ⟨rest, by rw [heq], hrest⟩,
          fun ⟨_, heq, hrest⟩ => by cases heq; exact ⟨rfl, hrest⟩⟩
  | .one :: _, [] => isFalse fun ⟨_, _, heq, _⟩ => by cases heq
  | .one :: pattern, x :: rest =>
      have := decidableMatches pattern rest
      decidable_of_iff (Matches pattern rest)
        ⟨fun hrest => ⟨x, rest, rfl, hrest⟩, fun ⟨_, _, heq, hrest⟩ => by cases heq; exact hrest⟩
  | .any :: pattern, words =>
      have := decidableMatches pattern
      inferInstanceAs (Decidable (∃ rest ∈ words.tails, Matches pattern rest))

variable {pattern : List (PatternWord W)} {words : List W}

@[simp] theorem matches_nil : Matches [] words ↔ words = [] := Iff.rfl

theorem matches_any (words : List W) : Matches [.any] words :=
  ⟨[], (List.mem_tails ..).mpr (List.nil_suffix), rfl⟩

theorem matches_oneOrMore : Matches [.one, .any] words ↔ words ≠ [] := by
  constructor
  · rintro ⟨w, rest, rfl, -⟩
    exact List.cons_ne_nil w rest
  · intro hne
    obtain ⟨w, rest, rfl⟩ := List.exists_cons_of_ne_nil hne
    exact ⟨w, rest, rfl, matches_any rest⟩

theorem matches_words_append (front : List W) :
    Matches (front.map .word ++ pattern) words ↔
      ∃ rest, words = front ++ rest ∧ Matches pattern rest := by
  induction front generalizing words with
  | nil => simp
  | cons w front ih =>
      constructor
      · rintro ⟨rest, rfl, hrest⟩
        obtain ⟨rest, rfl, hpattern⟩ := ih.mp hrest
        exact ⟨rest, rfl, hpattern⟩
      · rintro ⟨rest, rfl, hpattern⟩
        exact ⟨front ++ rest, rfl, ih.mpr ⟨rest, rfl, hpattern⟩⟩

theorem matches_words (front : List W) : Matches (front.map .word) words ↔ words = front := by
  have happend : Matches (front.map .word ++ []) words ↔
      ∃ rest, words = front ++ rest ∧ Matches [] rest := matches_words_append front
  simpa using happend

/-- Words that are read as themselves or as wildcards match what they are read as. -/
theorem matches_read {read : W → PatternWord W}
    (hread : ∀ w, read w = .word w ∨ read w = .one ∨ read w = .any) (words : List W) :
    Matches (words.map read) words := by
  induction words with
  | nil => rfl
  | cons w rest ih =>
      rw [List.map_cons]
      obtain hword | hone | hany := hread w
      · rw [hword]
        exact ⟨rest, rfl, ih⟩
      · rw [hone]
        exact ⟨w, rest, rfl, ih⟩
      · rw [hany]
        exact ⟨rest, (List.mem_tails ..).mpr (List.suffix_cons w rest), ih⟩

end PatternWord

namespace List

variable {α : Type} [DecidableEq α]

omit [DecidableEq α] in
theorem intercalate_append {separator : List α} {front back : List (List α)}
    (hfront : front ≠ []) (hback : back ≠ []) :
    separator.intercalate (front ++ back) =
      separator.intercalate front ++ separator ++ separator.intercalate back := by
  induction front with
  | nil => exact absurd rfl hfront
  | cons w front ih =>
      rw [cons_append, intercalate_cons_of_ne_nil (append_ne_nil_of_right_ne_nil front hback)]
      by_cases hnil : front = []
      · simp [hnil]
      · rw [ih hnil, intercalate_cons_of_ne_nil hnil]
        simp only [append_assoc]

omit [DecidableEq α] in
theorem mem_intercalate {separator w : List α} {words : List (List α)} {c : α}
    (hw : w ∈ words) (hc : c ∈ w) : c ∈ separator.intercalate words := by
  induction words with
  | nil => cases hw
  | cons v words ih =>
      by_cases hnil : words = []
      · subst hnil
        rw [mem_singleton] at hw
        rwa [intercalate_singleton, ← hw]
      · rw [intercalate_cons_of_ne_nil hnil, mem_append, mem_append]
        cases hw with
        | head => exact .inl (.inl hc)
        | tail _ htail => exact .inr (ih htail)

theorem mem_of_mem_splitOn {a c : α} {text w : List α} (hw : w ∈ text.splitOn a) (hc : c ∈ w) :
    c ∈ text := by
  have htext : [a].intercalate (text.splitOn a) = text := intercalate_splitOn a
  rw [← htext]
  exact mem_intercalate hw hc

/-- A text that begins with the words of another one and has more words. -/
theorem eq_append_of_splitOn_eq {a : α} {text front : List α} {rest : List (List α)}
    (hrest : rest ≠ []) (h : text.splitOn a = front.splitOn a ++ rest) :
    text = front ++ a :: [a].intercalate rest := by
  calc text = [a].intercalate (text.splitOn a) := (intercalate_splitOn a).symm
    _ = [a].intercalate (front.splitOn a) ++ [a] ++ [a].intercalate rest := by
        rw [h, intercalate_append (splitOn_ne_nil a front) hrest]
    _ = front ++ a :: [a].intercalate rest := by
        rw [intercalate_splitOn, append_assoc, singleton_append]

end List
