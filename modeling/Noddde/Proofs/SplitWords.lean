import Noddde.Cli.Naming
/-!
# The words of a name

The two patterns for letters insert a space where the case says that a word begins.
-/

namespace Noddde.Cli

open Unicode Words

def isBreak (c : UInt16) : Bool := isSeparator c || isSpace c

def humpBoundary (a : UInt16) (rest : JsString) : Bool := isLower a && rest.head?.any isUpper

def acronymBoundary (a : UInt16) (rest : JsString) : Bool :=
  isUpper a && rest.head?.any isUpper && rest.tail.head?.any isLower

/-- Before the rest begins a new word. -/
def caseBoundary (a : UInt16) (rest : JsString) : Bool :=
  humpBoundary a rest || acronymBoundary a rest

variable {a b c : UInt16} {rest s t w : JsString}

theorem isLower_eq_false (h : isUpper a = true) : isLower a = false := by
  cases hl : isLower a with
  | false => rfl
  | true =>
    rw [isUpper_eq_false hl] at h
    cases h

theorem caseBoundary_eq_false (h : rest.head?.any isUpper = false) :
    caseBoundary a rest = false := by
  simp [caseBoundary, humpBoundary, acronymBoundary, h]

theorem replaceAll_camelHump (s : JsString) :
    replaceAll camelHump 0 s = marked space humpBoundary s := by
  refine replaceAll_eq rfl ?_ ?_ s
  · intro a rest hnone
    refine marked_cons_of_false ?_
    cases rest with
    | nil => simp [humpBoundary]
    | cons b rest => simpa [camelHump, humpBoundary] using hnone
  · intro a rest text length hsome
    cases rest with
    | nil => cases hsome
    | cons b rest =>
      simp only [camelHump] at hsome
      split at hsome
      · next h =>
        obtain ⟨ha, hb⟩ := Bool.and_eq_true_iff.mp h
        obtain ⟨rfl, rfl⟩ := Prod.mk.inj (Option.some.inj hsome)
        have hnext : humpBoundary b rest = false := by simp [humpBoundary, isLower_eq_false hb]
        refine ⟨1, rfl, ?_⟩
        rw [marked_cons_of_true (by simp [humpBoundary, ha, hb]), marked_cons_of_false hnext]
        rfl
      · cases hsome

theorem capitalized_eq_some {text : JsString} {length : Nat}
    (h : capitalized s = some (text, length)) :
    ∃ b c rest, isUpper b = true ∧ isLower c = true ∧ s = b :: c :: rest ∧
      text = [space, b, c] ∧ length = 2 := by
  rcases s with _ | ⟨b, _ | ⟨c, rest⟩⟩
  · cases h
  · cases h
  · rw [capitalized] at h
    split at h
    · next hbc =>
      obtain ⟨hb, hc⟩ := Bool.and_eq_true_iff.mp hbc
      obtain ⟨rfl, rfl⟩ := Prod.mk.inj (Option.some.inj h)
      exact ⟨b, c, rest, hb, hc, rfl, rfl, rfl⟩
    · cases h

/-- The letters of an acronym, then a word that begins with a capital. -/
theorem acronym_eq_some {text : JsString} {length : Nat} (h : acronym s = some (text, length)) :
    ∃ letters b c rest, letters ≠ [] ∧ (∀ a ∈ letters, isUpper a = true) ∧ isUpper b = true ∧
      isLower c = true ∧ s = letters ++ b :: c :: rest ∧ text = letters ++ [space, b, c] ∧
      length = letters.length + 2 := by
  induction s generalizing text length with
  | nil => cases h
  | cons a s ih =>
    rw [acronym] at h
    split at h
    · next ha =>
      obtain ⟨⟨text', length'⟩, hfound, hmap⟩ := Option.map_eq_some_iff.mp h
      obtain ⟨rfl, rfl⟩ := Prod.mk.inj hmap
      rcases Option.or_eq_some_iff.mp hfound with hmore | ⟨-, hlast⟩
      · obtain ⟨letters, b, c, rest, -, hletters, hb, hc, rfl, rfl, rfl⟩ := ih hmore
        refine ⟨a :: letters, b, c, rest, List.cons_ne_nil a letters, ?_, hb, hc, rfl, rfl, rfl⟩
        exact List.forall_mem_cons.mpr ⟨ha, hletters⟩
      · obtain ⟨b, c, rest, hb, hc, rfl, rfl, rfl⟩ := capitalized_eq_some hlast
        exact ⟨[a], b, c, rest, List.cons_ne_nil a [], by simpa using ha, hb, hc, rfl, rfl, rfl⟩
    · cases h

theorem acronymBoundary_eq_false (h : acronym (a :: rest) = none) :
    acronymBoundary a rest = false := by
  by_contra hb
  rw [Bool.not_eq_false] at hb
  simp only [acronymBoundary, Bool.and_eq_true] at hb
  obtain ⟨⟨ha, hb⟩, hc⟩ := hb
  rw [acronym, if_pos ha, Option.map_eq_none_iff, Option.or_eq_none_iff] at h
  rcases rest with _ | ⟨b, _ | ⟨c, rest⟩⟩
  · cases hb
  · cases hc
  · simp only [List.head?_cons, List.tail_cons, Option.any_some] at hb hc
    simp [capitalized, hb, hc] at h

theorem marked_acronym {letters : JsString} (hne : letters ≠ [])
    (hletters : ∀ a ∈ letters, isUpper a = true) (hb : isUpper b = true) (hc : isLower c = true) :
    marked space acronymBoundary (letters ++ b :: c :: rest) =
      letters ++ space :: b :: c :: marked space acronymBoundary rest := by
  induction letters with
  | nil => exact absurd rfl hne
  | cons a letters ih =>
    obtain ⟨ha, hletters⟩ := List.forall_mem_cons.mp hletters
    cases letters with
    | nil =>
      have hcut : acronymBoundary a (b :: c :: rest) = true := by
        simp [acronymBoundary, ha, hb, hc]
      have hword : acronymBoundary b (c :: rest) = false := by
        simp [acronymBoundary, isUpper_eq_false hc]
      have hlower : acronymBoundary c rest = false := by
        simp [acronymBoundary, isUpper_eq_false hc]
      rw [List.singleton_append, marked_cons_of_true hcut, marked_cons_of_false hword,
        marked_cons_of_false hlower]
      rfl
    | cons a' letters =>
      have hinside : acronymBoundary a (a' :: letters ++ b :: c :: rest) = false := by
        cases letters with
        | nil => simp [acronymBoundary, isLower_eq_false hb]
        | cons a'' letters =>
          have ha'' : isUpper a'' = true := hletters a'' (by simp)
          simp [acronymBoundary, isLower_eq_false ha'']
      rw [List.cons_append, marked_cons_of_false hinside,
        ih (List.cons_ne_nil a' letters) hletters]
      rfl

theorem replaceAll_acronym (s : JsString) :
    replaceAll acronym 0 s = marked space acronymBoundary s := by
  refine replaceAll_eq rfl ?_ ?_ s
  · intro a rest hnone
    exact marked_cons_of_false (acronymBoundary_eq_false hnone)
  · intro a rest text length hsome
    obtain ⟨letters, b, c, after, hne, hletters, hb, hc, hs, rfl, rfl⟩ := acronym_eq_some hsome
    refine ⟨letters.length + 1, rfl, ?_⟩
    have hrest : rest.drop (letters.length + 1) = after := by
      obtain ⟨a', letters, rfl⟩ := List.exists_cons_of_ne_nil hne
      have htwo : letters.length + 1 + 1 - letters.length = 2 := by omega
      rw [(List.cons.inj hs).2]
      simp [List.drop_append, htwo, Nat.le_add_right_of_le]
    rw [hs, hrest, marked_acronym hne hletters hb hc]
    simp

/-- The spaces of the first pattern do not disturb the second. -/
theorem marked_marked (s : JsString) :
    marked space acronymBoundary (marked space humpBoundary s) = marked space caseBoundary s := by
  induction s with
  | nil => rfl
  | cons a s ih =>
    cases s with
    | nil => rfl
    | cons b s =>
      cases hump : humpBoundary a (b :: s) with
      | true =>
        have ha : acronymBoundary a (space :: marked space humpBoundary (b :: s)) = false := by
          simp [acronymBoundary, isUpper, space]
        have hspace : acronymBoundary space (marked space humpBoundary (b :: s)) = false := by
          simp [acronymBoundary, isUpper, space]
        rw [marked_cons_of_true hump, marked_cons_of_false ha, marked_cons_of_false hspace, ih,
          marked_cons_of_true (by simp [caseBoundary, hump])]
      | false =>
        have hsame : acronymBoundary a (marked space humpBoundary (b :: s)) =
            caseBoundary a (b :: s) := by
          cases hb : isUpper b with
          | false => simp [caseBoundary, hump, acronymBoundary, head?_marked, hb]
          | true =>
            have hbs : humpBoundary b s = false := by simp [humpBoundary, isLower_eq_false hb]
            rw [marked_cons_of_false hbs]
            simp [caseBoundary, hump, acronymBoundary, head?_marked]
        rw [marked_cons_of_false hump]
        cases hcut : caseBoundary a (b :: s) with
        | true =>
          rw [hcut] at hsame
          obtain ⟨m, hm⟩ : ∃ m, marked space humpBoundary (b :: s) = b :: m :=
            List.head?_eq_some_iff.mp (head?_marked (b :: s))
          rw [hm] at hsame ih ⊢
          rw [marked_cons_of_true hsame, ih, marked_cons_of_true hcut]
        | false => rw [marked_cons_of_false (hsame.trans hcut), ih, marked_cons_of_false hcut]

theorem splitWords_eq (s : JsString) :
    splitWords s = words isBreak (marked space caseBoundary s) := by
  rw [splitWords, words_trim, words_replaceAll (by decide), replaceAll_camelHump, replaceAll_acronym,
    marked_marked]
  rfl

theorem ne_nil_of_mem_splitWords (h : w ∈ splitWords s) : w ≠ [] := by
  rw [splitWords_eq] at h
  exact ne_nil_of_mem_words h

theorem isBreak_of_mem_splitWords (h : w ∈ splitWords s) (hc : c ∈ w) : isBreak c = false := by
  rw [splitWords_eq] at h
  exact (of_mem_words h c hc).2

/-- A name without separators is cut by its case. -/
theorem splitWords_of_no_break (h : ∀ c ∈ s, isBreak c = false) :
    splitWords s = cuts caseBoundary s := by
  rw [splitWords_eq]
  exact words_marked (by decide) h

/-- Words in lower case come back from between hyphens. -/
theorem splitWords_intercalate {ws : List JsString}
    (h : ∀ w ∈ ws, w ≠ [] ∧ ∀ c ∈ w, isBreak c = false ∧ isUpper c = false) :
    splitWords ([hyphen].intercalate ws) = ws := by
  have hupper : ∀ c ∈ [hyphen].intercalate ws, isUpper c = false := by
    intro c hc
    rcases eq_or_mem_of_mem_intercalate hc with rfl | ⟨w, hw, hcw⟩
    · rfl
    · exact ((h w hw).2 c hcw).2
  have hnone : ∀ u c v, [hyphen].intercalate ws = u ++ c :: v → v ≠ [] →
      caseBoundary c v = false := by
    intro u c v heq hv
    obtain ⟨d, v, rfl⟩ := List.exists_cons_of_ne_nil hv
    refine caseBoundary_eq_false ?_
    exact hupper d (by simp [heq])
  rw [splitWords_eq, marked_of_none hnone]
  exact words_intercalate (by decide) fun w hw => ⟨(h w hw).1, fun c hc => ((h w hw).2 c hc).1⟩

end Noddde.Cli
