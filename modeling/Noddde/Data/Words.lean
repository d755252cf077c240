import Mathlib.Data.List.DropRight
import Mathlib.Data.List.Infix
/-!
# Words

The words of a list lie between its separators.  A list can also be cut between two
elements, where nothing separates them.
-/

namespace Words

variable {α : Type}

/-- `replace` with a global pattern.  A match at the start of a list is what replaces it and
its length; the elements of a match are skipped. -/
def replaceAll (found : List α → Option (List α × Nat)) : (skip : Nat) → List α → List α
  | _, [] => []
  | skip + 1, _ :: rest => replaceAll found skip rest
  | 0, a :: rest =>
      match found (a :: rest) with
      | some (text, length + 1) => text ++ replaceAll found length rest
      | _ => a :: replaceAll found 0 rest

/-- A run of separators, as long as it is. -/
def runOf (sep : α → Bool) (text s : List α) : Option (List α × Nat) :=
  if (s.takeWhile sep).length = 0 then none else some (text, (s.takeWhile sep).length)

def trim (sep : α → Bool) (s : List α) : List α := (s.dropWhile sep).rdropWhile sep

/-- The non-empty lists between separators. -/
def words (sep : α → Bool) (s : List α) : List (List α) :=
  (s.splitOnP sep).filter fun w => !w.isEmpty

/-- The pieces of a list that is cut before each rest at which the last element of a piece
meets a boundary. -/
def cuts (boundary : α → List α → Bool) : List α → List (List α)
  | [] => []
  | [a] => [[a]]
  | a :: b :: rest =>
      if boundary a (b :: rest) then [a] :: cuts boundary (b :: rest)
      else (cuts boundary (b :: rest)).modifyHead (a :: ·)

/-- A mark is put where the list is cut. -/
def marked (mark : α) (boundary : α → List α → Bool) : List α → List α
  | [] => []
  | [a] => [a]
  | a :: b :: rest =>
      if boundary a (b :: rest) then a :: mark :: marked mark boundary (b :: rest)
      else a :: marked mark boundary (b :: rest)

/-! ## Replacement -/

section Replace

variable {found : List α → Option (List α × Nat)}

theorem replaceAll_skip (skip : Nat) (s : List α) :
    replaceAll found skip s = replaceAll found 0 (s.drop skip) := by
  induction s generalizing skip with
  | nil => cases skip <;> rfl
  | cons a rest ih =>
    cases skip with
    | zero => rfl
    | succ skip => exact ih skip

theorem replaceAll_cons_none {a : α} {rest : List α} (h : found (a :: rest) = none) :
    replaceAll found 0 (a :: rest) = a :: replaceAll found 0 rest := by
  rw [replaceAll, h]

theorem replaceAll_cons_some {a : α} {rest text : List α} {length : Nat}
    (h : found (a :: rest) = some (text, length + 1)) :
    replaceAll found 0 (a :: rest) = text ++ replaceAll found 0 (rest.drop length) := by
  rw [replaceAll, h]
  exact congrArg (text ++ ·) (replaceAll_skip length rest)

/-- What treats matches and other elements as `replaceAll` does is `replaceAll`. -/
theorem replaceAll_eq {F : List α → List α} (hnil : F [] = [])
    (hnone : ∀ a rest, found (a :: rest) = none → F (a :: rest) = a :: F rest)
    (hsome : ∀ a rest text length, found (a :: rest) = some (text, length) →
      ∃ n, length = n + 1 ∧ F (a :: rest) = text ++ F (rest.drop n))
    (s : List α) : replaceAll found 0 s = F s := by
  suffices h : ∀ n, ∀ s : List α, s.length ≤ n → replaceAll found 0 s = F s from
    h s.length s (Nat.le_refl _)
  intro n
  induction n with
  | zero =>
    intro s hs
    rw [List.eq_nil_of_length_eq_zero (Nat.le_zero.mp hs), hnil]
    rfl
  | succ n ih =>
    intro s hs
    cases s with
    | nil =>
      rw [hnil]
      rfl
    | cons a rest =>
      have hrest : rest.length ≤ n := Nat.le_of_succ_le_succ hs
      cases hfound : found (a :: rest) with
      | none => rw [replaceAll_cons_none hfound, hnone a rest hfound, ih rest hrest]
      | some hit =>
        obtain ⟨text, length⟩ := hit
        obtain ⟨skip, rfl, hF⟩ := hsome a rest text length hfound
        rw [replaceAll_cons_some hfound, hF, ih _ ((List.drop_suffix skip rest).length_le.trans hrest)]

end Replace

/-! ## Words -/

section Words

variable {sep : α → Bool} {a b : α} {s t w : List α}

@[simp] theorem words_nil : words sep [] = [] := rfl

theorem words_append_cons (ha : sep a = true) (s t : List α) :
    words sep (s ++ a :: t) = words sep s ++ words sep t := by
  rw [words, List.splitOnP_append_cons s t ha, List.filter_append]
  rfl

theorem words_cons (ha : sep a = true) (t : List α) : words sep (a :: t) = words sep t :=
  words_append_cons ha [] t

theorem words_of_forall (h : ∀ a ∈ w, sep a = false) (hw : w ≠ []) : words sep w = [w] := by
  rw [words, List.splitOnP_eq_singleton h]
  cases w with
  | nil => exact absurd rfl hw
  | cons a w => rfl

theorem words_eq_nil (h : ∀ a ∈ s, sep a = true) : words sep s = [] := by
  induction s with
  | nil => rfl
  | cons a s ih =>
    rw [words_cons (h a List.mem_cons_self), ih fun b hb => h b (List.mem_cons_of_mem a hb)]

theorem words_append_of_forall (h : ∀ a ∈ s, sep a = true) (t : List α) :
    words sep (s ++ t) = words sep t := by
  induction s with
  | nil => rfl
  | cons a s ih =>
    rw [List.cons_append, words_cons (h a List.mem_cons_self),
      ih fun b hb => h b (List.mem_cons_of_mem a hb)]

theorem words_append_of_forall_right (h : ∀ a ∈ t, sep a = true) (s : List α) :
    words sep (s ++ t) = words sep s := by
  cases t with
  | nil => rw [List.append_nil]
  | cons a t =>
    rw [words_append_cons (h a List.mem_cons_self),
      words_eq_nil fun b hb => h b (List.mem_cons_of_mem a hb), List.append_nil]

theorem words_trim (s : List α) : words sep (trim sep s) = words sep s := by
  have hfront : ∀ a ∈ s.takeWhile sep, sep a = true := fun a => List.mem_takeWhile_imp
  have hback : ∀ a ∈ (s.dropWhile sep).rtakeWhile sep, sep a = true :=
    fun a => List.mem_rtakeWhile_imp
  calc
    words sep (trim sep s) = words sep (trim sep s ++ (s.dropWhile sep).rtakeWhile sep) :=
      (words_append_of_forall_right hback _).symm
    _ = words sep (s.dropWhile sep) := by
      rw [trim, List.rdropWhile_append_rtakeWhile]
    _ = words sep (s.takeWhile sep ++ s.dropWhile sep) := (words_append_of_forall hfront _).symm
    _ = words sep s := by rw [List.takeWhile_append_dropWhile]

theorem trim_ne_nil (ha : a ∈ s) (hsep : sep a = false) : trim sep s ≠ [] := by
  intro h
  have hall := List.rdropWhile_eq_nil_iff.mp h
  rw [← List.takeWhile_append_dropWhile (p := sep) (l := s)] at ha
  rcases List.mem_append.mp ha with ha | ha
  · rw [List.mem_takeWhile_imp ha] at hsep
    cases hsep
  · rw [hall a ha] at hsep
    cases hsep

theorem ne_nil_of_mem_words (h : w ∈ words sep s) : w ≠ [] := by
  have hne := (List.mem_filter.mp h).2
  rintro rfl
  cases hne

theorem of_mem_splitOnP (h : w ∈ s.splitOnP sep) : ∀ a ∈ w, a ∈ s ∧ sep a = false := by
  induction s generalizing w with
  | nil =>
    rw [List.splitOnP_nil, List.mem_singleton] at h
    rw [h]
    exact nofun
  | cons b s ih =>
    rw [List.splitOnP_cons_eq_if_modifyHead] at h
    intro a ha
    split at h
    · rcases List.mem_cons.mp h with rfl | h
      · cases ha
      · exact ⟨List.mem_cons_of_mem b (ih h a ha).1, (ih h a ha).2⟩
    · next hb =>
      obtain ⟨first, rest, hsplit⟩ := List.exists_cons_of_ne_nil (List.splitOnP_ne_nil sep s)
      rw [hsplit] at ih h
      rcases List.mem_cons.mp h with rfl | h
      · rcases List.mem_cons.mp ha with rfl | ha
        · exact ⟨List.mem_cons_self, eq_false_of_ne_true hb⟩
        · have hfirst := ih List.mem_cons_self a ha
          exact ⟨List.mem_cons_of_mem b hfirst.1, hfirst.2⟩
      · have hrest := ih (List.mem_cons_of_mem first h) a ha
        exact ⟨List.mem_cons_of_mem b hrest.1, hrest.2⟩

theorem of_mem_words (h : w ∈ words sep s) : ∀ a ∈ w, a ∈ s ∧ sep a = false :=
  of_mem_splitOnP (List.mem_filter.mp h).1

theorem intercalate_cons_cons (a : α) (w v : List α) (ws : List (List α)) :
    [a].intercalate (w :: v :: ws) = w ++ a :: [a].intercalate (v :: ws) := by
  simp [List.intercalate, List.intersperse]

theorem eq_or_mem_of_mem_intercalate {ws : List (List α)} (h : b ∈ [a].intercalate ws) :
    b = a ∨ ∃ w ∈ ws, b ∈ w := by
  induction ws with
  | nil => cases h
  | cons w ws ih =>
    cases ws with
    | nil => exact .inr ⟨w, List.mem_cons_self, by simpa [List.intercalate] using h⟩
    | cons v ws =>
      rw [intercalate_cons_cons] at h
      rcases List.mem_append.mp h with hw | h
      · exact .inr ⟨w, List.mem_cons_self, hw⟩
      · rcases List.mem_cons.mp h with rfl | h
        · exact .inl rfl
        · refine (ih h).imp_right fun ⟨w', hw', hb⟩ => ?_
          exact ⟨w', List.mem_cons_of_mem w hw', hb⟩

/-- Words with a separator between them are the words of the joined list. -/
theorem words_intercalate (ha : sep a = true) {ws : List (List α)}
    (h : ∀ w ∈ ws, w ≠ [] ∧ ∀ b ∈ w, sep b = false) :
    words sep ([a].intercalate ws) = ws := by
  induction ws with
  | nil => rfl
  | cons w ws ih =>
    obtain ⟨hne, hw⟩ := h w List.mem_cons_self
    have hrest := ih fun v hv => h v (List.mem_cons_of_mem w hv)
    cases ws with
    | nil => simpa [List.intercalate] using words_of_forall hw hne
    | cons v ws =>
      rw [intercalate_cons_cons, words_append_cons ha, words_of_forall hw hne, hrest]
      rfl

theorem runOf_cons {text rest : List α} (ha : sep a = true) :
    runOf sep text (a :: rest) = some (text, (rest.takeWhile sep).length + 1) := by
  simp [runOf, ha]

theorem runOf_cons_none {text rest : List α} (ha : sep a = false) :
    runOf sep text (a :: rest) = none := by
  simp [runOf, ha]

theorem drop_length_takeWhile (s : List α) :
    s.drop (s.takeWhile sep).length = s.dropWhile sep := by
  induction s with
  | nil => rfl
  | cons a s ih => cases ha : sep a <;> simp [ha, ih]

/-- When runs of some separators become another one, the words stay. -/
theorem words_replaceAll {other : α → Bool} {mark : α} (hmark : sep mark = true) (s : List α) :
    words sep (replaceAll (runOf other [mark]) 0 s) =
      words (fun a => other a || sep a) s := by
  -- Strengthened for a word that has begun.
  suffices h : ∀ n, ∀ s : List α, s.length ≤ n → ∀ w : List α,
      (∀ a ∈ w, (other a || sep a) = false) →
      words sep (w ++ replaceAll (runOf other [mark]) 0 s) =
        words (fun a => other a || sep a) (w ++ s) from h s.length s (Nat.le_refl _) [] nofun
  have hbegun : ∀ w : List α, (∀ a ∈ w, (other a || sep a) = false) →
      words sep w = words (fun a => other a || sep a) w := by
    intro w hw
    cases w with
    | nil => rfl
    | cons b w =>
      rw [words_of_forall hw (List.cons_ne_nil b w),
        words_of_forall (fun a ha => (Bool.or_eq_false_iff.mp (hw a ha)).2) (List.cons_ne_nil b w)]
  intro n
  induction n with
  | zero =>
    intro s hs w hw
    rw [List.eq_nil_of_length_eq_zero (Nat.le_zero.mp hs), replaceAll, List.append_nil]
    exact hbegun w hw
  | succ n ih =>
    intro s hs w hw
    cases s with
    | nil =>
      rw [replaceAll, List.append_nil]
      exact hbegun w hw
    | cons a rest =>
      have hrest : rest.length ≤ n := Nat.le_of_succ_le_succ hs
      cases hother : other a with
      | true =>
        have hrun : ∀ b ∈ rest.takeWhile other, (other b || sep b) = true := fun b hb => by
          rw [List.mem_takeWhile_imp hb, Bool.true_or]
        have hshort : (rest.dropWhile other).length ≤ n :=
          (List.dropWhile_suffix other).length_le.trans hrest
        have htail := ih _ hshort [] nofun
        rw [replaceAll_cons_some (runOf_cons hother), drop_length_takeWhile, List.singleton_append,
          words_append_cons hmark, words_append_cons (by simp [hother]), hbegun w hw]
        congr 1
        rw [List.nil_append, List.nil_append] at htail
        rw [htail, ← words_append_of_forall hrun, List.takeWhile_append_dropWhile]
      | false =>
        rw [replaceAll_cons_none (runOf_cons_none hother)]
        cases hsep : sep a with
        | true =>
          rw [words_append_cons hsep, words_append_cons (by simp [hsep]), hbegun w hw]
          congr 1
          exact ih rest hrest [] nofun
        | false =>
          have hbegan : ∀ b ∈ w ++ [a], (other b || sep b) = false := by
            simpa [or_imp, forall_and, hother, hsep] using hw
          rw [List.append_cons, List.append_cons w a rest]
          exact ih rest hrest (w ++ [a]) hbegan

end Words

/-! ## Cuts -/

section Cuts

variable {boundary : α → List α → Bool} {a b : α} {s t w : List α} {ws : List (List α)}

theorem cuts_cons (a : α) (s : List α) :
    ∃ first rest, cuts boundary (a :: s) = (a :: first) :: rest := by
  induction s generalizing a with
  | nil => exact ⟨[], [], rfl⟩
  | cons b s ih =>
    rw [cuts]
    split
    · exact ⟨[], _, rfl⟩
    · obtain ⟨first, rest, h⟩ := ih b
      exact ⟨b :: first, rest, by rw [h]; rfl⟩

theorem flatten_cuts (s : List α) : (cuts boundary s).flatten = s := by
  fun_induction cuts boundary s with
  | case1 => rfl
  | case2 a => rfl
  | case3 a b rest h ih => rw [List.flatten_cons, ih]; rfl
  | case4 a b rest h ih =>
    obtain ⟨first, others, hcuts⟩ := @cuts_cons _ boundary b rest
    rw [hcuts] at ih ⊢
    rw [← ih]
    rfl

theorem ne_nil_of_mem_cuts (h : w ∈ cuts boundary s) : w ≠ [] := by
  induction s generalizing w with
  | nil => cases h
  | cons a s ih =>
    cases s with
    | nil =>
      obtain rfl := List.mem_singleton.mp h
      exact List.cons_ne_nil a []
    | cons b s =>
      rw [cuts] at h
      split at h
      · rcases List.mem_cons.mp h with rfl | h
        · exact List.cons_ne_nil a []
        · exact ih h
      · obtain ⟨first, rest, hcuts⟩ := @cuts_cons _ boundary b s
        rw [hcuts] at h ih
        rcases List.mem_cons.mp h with rfl | h
        · exact List.cons_ne_nil a _
        · exact ih (List.mem_cons_of_mem _ h)

/-- A piece that others follow ends where the list is cut. -/
theorem of_cuts_cons (h : cuts boundary s = w :: ws) (hws : ws ≠ []) :
    s = w ++ ws.flatten ∧ cuts boundary ws.flatten = ws ∧
      ∃ a, w.getLast? = some a ∧ boundary a ws.flatten = true := by
  induction s generalizing w with
  | nil => cases h
  | cons a s ih =>
    cases s with
    | nil =>
      obtain ⟨-, rfl⟩ := List.cons.inj h
      exact absurd rfl hws
    | cons b s =>
      rw [cuts] at h
      split at h
      · next hcut =>
        obtain ⟨rfl, rfl⟩ := List.cons.inj h
        rw [flatten_cuts]
        exact ⟨rfl, rfl, a, rfl, hcut⟩
      · obtain ⟨first, rest, hcuts⟩ := @cuts_cons _ boundary b s
        rw [hcuts] at h
        obtain ⟨rfl, rfl⟩ := List.cons.inj h
        obtain ⟨hs, hrest, c, hlast, hcut⟩ := ih hcuts
        exact ⟨by rw [hs]; rfl, hrest, c, hlast, hcut⟩

/-- A list is one piece up to a boundary if there is none in it. -/
theorem cuts_append (hw : w.getLast? = some a) (ht : boundary a t = true) (hne : t ≠ [])
    (hnone : ∀ u c v, w = u ++ c :: v → v ≠ [] → boundary c (v ++ t) = false) :
    cuts boundary (w ++ t) = w :: cuts boundary t := by
  induction w with
  | nil => cases hw
  | cons c w ih =>
    cases w with
    | nil =>
      obtain rfl := Option.some.inj hw
      obtain ⟨b, rest, rfl⟩ := List.exists_cons_of_ne_nil hne
      exact if_pos ht
    | cons d w =>
      have hc : boundary c (d :: (w ++ t)) = false :=
        hnone [] c (d :: w) rfl (List.cons_ne_nil d w)
      have hrest := ih (by rwa [List.getLast?_cons_cons] at hw)
        fun u e v h => hnone (c :: u) e v (congrArg (c :: ·) h)
      rw [List.cons_append, List.cons_append, cuts, if_neg (by simp [hc]), ← List.cons_append,
        hrest]
      rfl

/-- The last piece. -/
theorem cuts_of_none (hw : w ≠ [])
    (hnone : ∀ u c v, w = u ++ c :: v → v ≠ [] → boundary c v = false) :
    cuts boundary w = [w] := by
  induction w with
  | nil => exact absurd rfl hw
  | cons c w ih =>
    cases w with
    | nil => rfl
    | cons d w =>
      have hc : boundary c (d :: w) = false := hnone [] c (d :: w) rfl (List.cons_ne_nil d w)
      have hrest := ih (List.cons_ne_nil d w)
        fun u e v h => hnone (c :: u) e v (congrArg (c :: ·) h)
      rw [cuts, if_neg (by simp [hc]), hrest]
      rfl

theorem marked_of_none {mark : α}
    (hnone : ∀ u c v, s = u ++ c :: v → v ≠ [] → boundary c v = false) :
    marked mark boundary s = s := by
  induction s with
  | nil => rfl
  | cons c s ih =>
    cases s with
    | nil => rfl
    | cons d s =>
      have hc : boundary c (d :: s) = false := hnone [] c (d :: s) rfl (List.cons_ne_nil d s)
      rw [marked, if_neg (by simp [hc]), ih fun u e v h => hnone (c :: u) e v (congrArg (c :: ·) h)]

theorem marked_cons_of_true {mark : α} (h : boundary a (b :: s) = true) :
    marked mark boundary (a :: b :: s) = a :: mark :: marked mark boundary (b :: s) :=
  if_pos h

theorem marked_cons_of_false {mark : α} (h : boundary a s = false) :
    marked mark boundary (a :: s) = a :: marked mark boundary s := by
  cases s with
  | nil => rfl
  | cons b s => exact if_neg (by simp [h])

theorem head?_marked {mark : α} (s : List α) : (marked mark boundary s).head? = s.head? := by
  fun_cases marked mark boundary s <;> rfl

/-- The words of a marked list without separators are its pieces. -/
theorem words_marked {sep : α → Bool} {mark : α} (hmark : sep mark = true)
    (h : ∀ a ∈ s, sep a = false) : words sep (marked mark boundary s) = cuts boundary s := by
  have hsplit : s ≠ [] → (marked mark boundary s).splitOnP sep = cuts boundary s := by
    intro hs
    fun_induction marked mark boundary s with
    | case1 => exact absurd rfl hs
    | case2 a =>
      rw [List.splitOnP_eq_singleton h]
      rfl
    | case3 a b rest hcut ih =>
      have ha : sep a = false := h a List.mem_cons_self
      rw [cuts, if_pos hcut, List.splitOnP_cons_eq_if_modifyHead, if_neg (by simp [ha]),
        List.splitOnP_cons_eq_if_modifyHead, if_pos hmark,
        ih (fun c hc => h c (List.mem_cons_of_mem a hc)) (List.cons_ne_nil b rest)]
      rfl
    | case4 a b rest hcut ih =>
      have ha : sep a = false := h a List.mem_cons_self
      rw [cuts, if_neg hcut, List.splitOnP_cons_eq_if_modifyHead, if_neg (by simp [ha]),
        ih (fun c hc => h c (List.mem_cons_of_mem a hc)) (List.cons_ne_nil b rest)]
  cases s with
  | nil => rfl
  | cons a s =>
    rw [words, hsplit (List.cons_ne_nil a s)]
    refine List.filter_eq_self.mpr fun w hw => ?_
    simpa using ne_nil_of_mem_cuts hw

end Cuts

end Words
