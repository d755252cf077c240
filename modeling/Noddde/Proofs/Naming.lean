import Mathlib.Algebra.Order.BigOperators.Group.List
import Mathlib.Algebra.GroupWithZero.Nat
import Mathlib.Algebra.Order.Group.Nat
import Noddde.Data.AsciiCase
import Noddde.Proofs.SplitWords
/-!
# Names that work end to end
-/

namespace Noddde.Cli

open Unicode Words Utf16

/-! ## Capitalised words -/

/-- A new word begins between the two. -/
def CutBefore (v w : JsString) : Prop := ∃ a, v.getLast? = some a ∧ caseBoundary a w = true

def StartsUpper (w : JsString) : Prop := ∃ d r, w = d :: r ∧ isUpper d = true

section Cuts

variable {a d d' e e' : UInt16} {r r' v w t : JsString} {ws : List JsString}

theorem caseBoundary_cons (a d : UInt16) (r : JsString) :
    caseBoundary a (d :: r) = (isUpper d && (isLower a || isUpper a && r.head?.any isLower)) := by
  cases hd : isUpper d <;> simp [caseBoundary, humpBoundary, acronymBoundary, hd]

theorem startsUpper_of_caseBoundary (h : caseBoundary a w = true) : StartsUpper w := by
  rcases w with _ | ⟨d, r⟩
  · simp [caseBoundary, humpBoundary, acronymBoundary] at h
  · rw [caseBoundary_cons, Bool.and_eq_true] at h
    exact ⟨d, r, rfl, h.1⟩

/-- What follows the second word does not matter, if it begins with a capital. -/
theorem caseBoundary_append (hw : w ≠ []) (ht : ∀ c ∈ t.head?, isUpper c = true) :
    caseBoundary a (w ++ t) = caseBoundary a w := by
  obtain ⟨d, r, rfl⟩ := List.exists_cons_of_ne_nil hw
  rw [List.cons_append, caseBoundary_cons, caseBoundary_cons]
  rcases r with _ | ⟨b, r⟩
  · rcases t with _ | ⟨c, t⟩
    · rfl
    · simp [isLower_eq_false (ht c rfl)]
  · rfl

theorem head?_flatten_isUpper (hws : ∀ w ∈ ws, StartsUpper w) :
    ∀ c ∈ ws.flatten.head?, isUpper c = true := by
  rcases ws with _ | ⟨w, ws⟩
  · nofun
  · obtain ⟨d, r, rfl, hd⟩ := hws w List.mem_cons_self
    intro c hc
    obtain rfl := Option.some.inj hc
    exact hd

/-- There is no boundary within a capitalised word. -/
theorem caseBoundary_inside (hr : ∀ c ∈ r, isUpper c = false) {u : JsString} {c : UInt16}
    {v : JsString} (h : d :: r = u ++ c :: v) (hv : v ≠ []) (t : JsString) :
    caseBoundary c (v ++ t) = false := by
  obtain ⟨x, v, rfl⟩ := List.exists_cons_of_ne_nil hv
  have hx : x ∈ r := by
    rcases u with _ | ⟨y, u⟩
    · rw [(List.cons.inj h).2]
      exact List.mem_cons_self
    · rw [(List.cons.inj h).2]
      simp
  exact caseBoundary_eq_false (by simp [hr x hx])

theorem cuts_flatten (hws : ∀ w ∈ ws, ∃ d r, w = d :: r ∧ isUpper d = true ∧
    ∀ c ∈ r, isUpper c = false) (hchain : ws.IsChain CutBefore) :
    cuts caseBoundary ws.flatten = ws := by
  induction ws with
  | nil => rfl
  | cons w ws ih =>
    obtain ⟨hw, hrest⟩ := List.forall_mem_cons.mp hws
    obtain ⟨d, r, rfl, hd, hr⟩ := hw
    rcases ws with _ | ⟨v, ws⟩
    · rw [List.flatten_cons, List.flatten_nil, List.append_nil]
      refine cuts_of_none (List.cons_ne_nil d r) fun u c v h hv => ?_
      have hnone := caseBoundary_inside hr h hv []
      rwa [List.append_nil] at hnone
    · obtain ⟨hcut, hchain⟩ := List.isChain_cons_cons.mp hchain
      obtain ⟨a, hlast, ha⟩ := hcut
      have hv : v ≠ [] := by
        obtain ⟨d', r', rfl, -⟩ := hrest v List.mem_cons_self
        exact List.cons_ne_nil d' r'
      have hnext : ∀ c ∈ ws.flatten.head?, isUpper c = true := by
        refine head?_flatten_isUpper fun w hw => ?_
        obtain ⟨d', r', rfl, hd', -⟩ := hrest w (List.mem_cons_of_mem v hw)
        exact ⟨d', r', rfl, hd'⟩
      have hboundary : caseBoundary a (v :: ws).flatten = true := by
        rw [List.flatten_cons, caseBoundary_append hv hnext]
        exact ha
      have hne : (v :: ws).flatten ≠ [] := by simp [hv]
      rw [List.flatten_cons, cuts_append hlast hboundary hne
        fun u c v h hv => caseBoundary_inside hr h hv _, ih hrest hchain]

theorem chain_of_cuts (h : cuts caseBoundary ws.flatten = ws) :
    ws.IsChain CutBefore ∧ ∀ w ∈ ws.tail, StartsUpper w := by
  induction ws with
  | nil => exact ⟨.nil, nofun⟩
  | cons w ws ih =>
    rcases ws with _ | ⟨v, ws⟩
    · exact ⟨.singleton w, nofun⟩
    · obtain ⟨-, hrest, a, hlast, ha⟩ := of_cuts_cons h (List.cons_ne_nil v ws)
      obtain ⟨hchain, hupper⟩ := ih hrest
      have hv : v ≠ [] := ne_nil_of_mem_cuts (hrest ▸ List.mem_cons_self)
      have hnext : ∀ c ∈ ws.flatten.head?, isUpper c = true := head?_flatten_isUpper hupper
      rw [List.flatten_cons, caseBoundary_append hv hnext] at ha
      exact ⟨List.isChain_cons_cons.mpr ⟨⟨a, hlast, ha⟩, hchain⟩,
        List.forall_mem_cons.mpr ⟨startsUpper_of_caseBoundary ha, hupper⟩⟩

end Cuts

variable {U : CharacterData}

/-! ## Names -/

structure WorksEndToEnd (U : CharacterData) (s : JsString) : Prop where
  identifier : isIdentifier U (toPascalCase U s) = true
  pascal_kebab : toPascalCase U (toKebabCase U s) = toPascalCase U s
  kebab_pascal : toKebabCase U (toPascalCase U s) = toKebabCase U s

/-- Where two words in lower case meet, the first ends in a letter.  If it is a single one, then
another letter follows in second place of the second word. -/
def Joined (v w : JsString) : Prop :=
  (if v.length = 1 then w[1]?.any isLower else v.getLast?.any isLower) = true

structure KeepsWords (U : CharacterData) (s : JsString) : Prop where
  letter : ∀ w ∈ splitWords s, ∃ c r, w = c :: r ∧ (isUpper c = true ∨ isLower c = true)
  /-- It fails where a sigma after the first letter is a final one. -/
  sigma : ∀ w ∈ splitWords s,
    U.toLowerCase w = U.toLowerCase (w.take 1) ++ U.toLowerCase (w.drop 1)
  joined : ((splitWords s).map U.toLowerCase).IsChain Joined
  idContinue : ∀ w ∈ splitWords s, ∀ p ∈ decode w, U.idContinue p = true

structure Cased (U : CharacterData) (w : JsString) (d e : UInt16) : Prop where
  isUpper : isUpper d = true
  isLower : isLower e = true
  capitalize : capitalize U w = d :: U.toLowerCase (w.drop 1)
  lower : U.toLowerCase w = e :: U.toLowerCase (w.drop 1)
  capitalize_lower : Cli.capitalize U (U.toLowerCase w) = d :: U.toLowerCase (w.drop 1)
  lower_capitalize : U.toLowerCase (Cli.capitalize U w) = e :: U.toLowerCase (w.drop 1)

theorem capitalize_cons (c : UInt16) (r : JsString) :
    capitalize U (c :: r) = U.toUpperCase [c] ++ U.toLowerCase r := rfl

theorem cased_of_letter {c : UInt16} {r : JsString} (hc : isUpper c = true ∨ isLower c = true)
    (hsigma : U.toLowerCase (c :: r) = U.toLowerCase [c] ++ U.toLowerCase r) :
    ∃ d e, Cased U (c :: r) d e := by
  obtain ⟨d, e, hd, he, -, hupper, hupper', hlower, hlower'⟩ := U.letter_cases hc
  have hc₁ : U.toUpperCase [c] = [d] := by
    rw [U.toUpperCase_singleton, hupper]
    rfl
  have he₁ : U.toUpperCase [e] = [d] := by
    rw [U.toUpperCase_singleton, hupper']
    rfl
  have hlow : U.toLowerCase [c] = [e] := by
    rw [U.toLowerCase_singleton, hlower]
    rfl
  have hsurrogate := (ascii_not_surrogate (lt_of_letter (.inl hd))).1
  have hsigma' : d ≠ capitalSigma := by
    rintro rfl
    cases hd
  have hcapitalize : capitalize U (c :: r) = d :: U.toLowerCase r := by
    rw [capitalize_cons, hc₁, List.singleton_append]
  have hlowered : U.toLowerCase (c :: r) = e :: U.toLowerCase r := by
    rw [hsigma, hlow, List.singleton_append]
  refine ⟨d, e, hd, he, hcapitalize, hlowered, ?_, ?_⟩
  · rw [hlowered, capitalize_cons, he₁, U.toLowerCase_toLowerCase]
    rfl
  · rw [hcapitalize, U.toLowerCase_cons_toLowerCase hsurrogate hsigma', hlower']
    rfl

theorem cutBefore_iff {v w : JsString} {d e d' e' : UInt16} (hv : Cased U v d e)
    (hw : Cased U w d' e') :
    CutBefore (capitalize U v) (capitalize U w) ↔ Joined (U.toLowerCase v) (U.toLowerCase w) := by
  have hrest : ∀ c ∈ U.toLowerCase (v.drop 1), isUpper c = false :=
    fun c hc => U.isUpper_of_mem_toLowerCase hc
  rw [hv.capitalize, hw.capitalize, hv.lower, hw.lower, CutBefore, Joined]
  generalize U.toLowerCase (v.drop 1) = r at hrest
  rcases List.eq_nil_or_concat r with rfl | ⟨front, last, rfl⟩
  · simp [caseBoundary_cons, hw.isUpper, hv.isUpper, isLower_eq_false hv.isUpper,
      List.head?_eq_getElem?]
  · have hlast : isUpper last = false := hrest last (by simp)
    have hconcat : ∀ x : UInt16, (x :: (front ++ [last])).getLast? = some last := fun x => by
      rw [← List.cons_append, List.getLast?_concat]
    simp [caseBoundary_cons, hw.isUpper, hlast, hconcat]

theorem isPlain_of_isBreak {c : UInt16} (h : isBreak c = true) : isPlain c = true := by
  rcases Bool.or_eq_true_iff.mp h with h | h
  · rcases Bool.or_eq_true_iff.mp h with h | h <;> rw [eq_of_beq h] <;> decide
  · exact Bool.or_eq_true_iff.mpr (.inl h)

theorem mem_capitalize {c : UInt16} (hc : isPlain c = true) (w : JsString) :
    c ∈ capitalize U w ↔ c ∈ w := by
  rw [capitalize, List.mem_append, U.mem_toUpperCase hc, U.mem_toLowerCase hc, ← List.mem_append,
    List.take_append_drop]

theorem isBreak_of_mem_capitalize {s w : JsString} {c : UInt16} (hw : w ∈ splitWords s)
    (hc : c ∈ capitalize U w) : isBreak c = false := by
  cases h : isBreak c with
  | false => rfl
  | true =>
    rw [mem_capitalize (isPlain_of_isBreak h)] at hc
    rw [isBreak_of_mem_splitWords hw hc] at h
    cases h

theorem isBreak_of_mem_toLowerCase {s w : JsString} {c : UInt16} (hw : w ∈ splitWords s)
    (hc : c ∈ U.toLowerCase w) : isBreak c = false := by
  cases h : isBreak c with
  | false => rfl
  | true =>
    rw [U.mem_toLowerCase (isPlain_of_isBreak h)] at hc
    rw [isBreak_of_mem_splitWords hw hc] at h
    cases h

theorem splitWords_toKebabCase (s : JsString) :
    splitWords (toKebabCase U s) = (splitWords s).map U.toLowerCase := by
  refine splitWords_intercalate (List.forall_mem_map.mpr fun w hw => ⟨?_, fun c hc => ?_⟩)
  · exact U.toLowerCase_ne_nil (ne_nil_of_mem_splitWords hw)
  · exact ⟨isBreak_of_mem_toLowerCase hw hc, U.isUpper_of_mem_toLowerCase hc⟩

theorem toPascalCase_eq_flatten (s : JsString) :
    toPascalCase U s = ((splitWords s).map (capitalize U)).flatten := rfl

theorem splitWords_toPascalCase (s : JsString) : splitWords (toPascalCase U s) =
    cuts caseBoundary ((splitWords s).map (capitalize U)).flatten := by
  refine splitWords_of_no_break fun c hc => ?_
  obtain ⟨w, hw, hcw⟩ := List.mem_flatMap.mp hc
  exact isBreak_of_mem_capitalize hw hcw

/-! ## Identifiers -/

theorem decode_flatten {ws : List JsString} (h : ∀ w ∈ ws.tail, StartsUpper w) :
    decode ws.flatten = ws.flatMap decode := by
  induction ws with
  | nil => rfl
  | cons w ws ih =>
    have hnext : ∀ c ∈ ws.flatten.head?, Json.isLowSurrogate c = false := fun c hc =>
      (ascii_not_surrogate (lt_of_letter (.inl (head?_flatten_isUpper h c hc)))).2
    rw [List.flatten_cons, decode_append w _ hnext,
      ih fun v hv => h v (List.mem_of_mem_tail hv), List.flatMap_cons]

theorem not_reserved {d : UInt16} (hd : isUpper d = true) (t : JsString) :
    d :: t ∉ reservedWords := by
  have hlower : ∀ w ∈ reservedWords, w.head?.any isLower = true := by decide
  intro h
  have hd' : isLower d = true := hlower _ h
  rw [isLower_eq_false hd] at hd'
  cases hd'

theorem isIdentifier_iff {t : JsString} (ht : StartsUpper t) :
    isIdentifier U t = true ↔ ∀ p ∈ decode t, U.idContinue p = true := by
  obtain ⟨d, r, rfl, hd⟩ := ht
  have hsurrogate := (ascii_not_surrogate (lt_of_letter (.inl hd))).1
  simp [isIdentifier, not_reserved hd, CharacterData.isIdentifierName, decode_cons hsurrogate,
    U.idStart_letter (.inl hd), U.idContinue_letter (.inl hd)]

theorem idContinue_capitalize {c d e : UInt16} {r : JsString}
    (hc : isUpper c = true ∨ isLower c = true) (h : Cased U (c :: r) d e) :
    (∀ p ∈ decode (capitalize U (c :: r)), U.idContinue p = true) ↔
      ∀ p ∈ decode (c :: r), U.idContinue p = true := by
  have hc' := (ascii_not_surrogate (lt_of_letter hc)).1
  have hd' := (ascii_not_surrogate (lt_of_letter (.inl h.isUpper))).1
  rw [h.capitalize, decode_cons hd', decode_cons hc', List.forall_mem_cons, List.forall_mem_cons,
    List.drop_succ_cons, List.drop_zero, U.decode_toLowerCase, U.idContinue_lowerFrom]
  simp [U.idContinue_letter hc, U.idContinue_letter (.inl h.isUpper)]

/-! ## Names whose words are kept -/

theorem KeepsWords.cased {s w : JsString} (h : KeepsWords U s) (hw : w ∈ splitWords s) :
    ∃ d e, Cased U w d e := by
  obtain ⟨c, r, rfl, hc⟩ := h.letter w hw
  exact cased_of_letter hc (h.sigma _ hw)

theorem KeepsWords.startsUpper {s : JsString} (h : KeepsWords U s) :
    ∀ w ∈ (splitWords s).map (capitalize U), StartsUpper w := by
  refine List.forall_mem_map.mpr fun w hw => ?_
  obtain ⟨d, e, hcased⟩ := h.cased hw
  exact ⟨d, _, hcased.capitalize, hcased.isUpper⟩

theorem chain_iff {s : JsString} (h : ∀ w ∈ splitWords s, ∃ d e, Cased U w d e) :
    ((splitWords s).map (capitalize U)).IsChain CutBefore ↔
      ((splitWords s).map U.toLowerCase).IsChain Joined := by
  rw [List.isChain_map, List.isChain_map]
  refine List.IsChain.iff_of_mem_imp fun v w hv hw => ?_
  obtain ⟨d, e, hv'⟩ := h v hv
  obtain ⟨d', e', hw'⟩ := h w hw
  exact cutBefore_iff hv' hw'

theorem KeepsWords.splitWords_pascal {s : JsString} (h : KeepsWords U s) :
    splitWords (toPascalCase U s) = (splitWords s).map (capitalize U) := by
  rw [splitWords_toPascalCase]
  refine cuts_flatten (List.forall_mem_map.mpr fun w hw => ?_)
    ((chain_iff fun w hw => h.cased hw).mpr h.joined)
  obtain ⟨d, e, hcased⟩ := h.cased hw
  exact ⟨d, _, hcased.capitalize, hcased.isUpper, fun c hc => U.isUpper_of_mem_toLowerCase hc⟩

theorem idContinue_pascal {s : JsString}
    (hupper : ∀ w ∈ (splitWords s).map (capitalize U), StartsUpper w)
    (hletter : ∀ w ∈ splitWords s, ∃ c r, w = c :: r ∧ (isUpper c = true ∨ isLower c = true))
    (hcased : ∀ w ∈ splitWords s, ∃ d e, Cased U w d e) :
    (∀ p ∈ decode (toPascalCase U s), U.idContinue p = true) ↔
      ∀ w ∈ splitWords s, ∀ p ∈ decode w, U.idContinue p = true := by
  rw [toPascalCase_eq_flatten, decode_flatten fun w hw => hupper w (List.mem_of_mem_tail hw)]
  have hwords : ∀ w ∈ splitWords s, (∀ p ∈ decode (capitalize U w), U.idContinue p = true) ↔
      ∀ p ∈ decode w, U.idContinue p = true := by
    intro w hw
    obtain ⟨c, r, rfl, hc⟩ := hletter w hw
    obtain ⟨d, e, hcr⟩ := hcased _ hw
    exact idContinue_capitalize hc hcr
  constructor
  · intro h w hw
    refine (hwords w hw).mp fun p hp => h p ?_
    exact List.mem_flatMap.mpr ⟨_, List.mem_map_of_mem hw, hp⟩
  · intro h p hp
    obtain ⟨v, hv, hp⟩ := List.mem_flatMap.mp hp
    obtain ⟨w, hw, rfl⟩ := List.mem_map.mp hv
    exact (hwords w hw).mpr (h w hw) p hp

theorem worksEndToEnd_of_keepsWords {s : JsString} (hs : StartsUpper (toPascalCase U s))
    (h : KeepsWords U s) : WorksEndToEnd U s := by
  have hcased : ∀ w ∈ splitWords s, ∃ d e, Cased U w d e := fun w hw => h.cased hw
  refine ⟨?_, ?_, ?_⟩
  · rw [isIdentifier_iff hs, idContinue_pascal h.startsUpper h.letter hcased]
    exact h.idContinue
  · rw [toPascalCase, splitWords_toKebabCase, List.flatMap_map]
    refine List.flatMap_congr fun w hw => ?_
    obtain ⟨d, e, hw⟩ := hcased w hw
    rw [hw.capitalize, hw.capitalize_lower]
  · rw [toKebabCase, h.splitWords_pascal, List.map_map]
    refine congrArg _ (List.map_congr_left fun w hw => ?_)
    obtain ⟨d, e, hw⟩ := hcased w hw
    exact hw.lower_capitalize.trans hw.lower.symm

/-! ## Names that work -/

/-- Pointwise bounds whose sums agree are reached. -/
theorem eq_of_sum_eq {α : Type} {f g : α → Nat} {l : List α} (hle : ∀ x ∈ l, f x ≤ g x)
    (hsum : (l.map f).sum = (l.map g).sum) : ∀ x ∈ l, f x = g x := by
  induction l with
  | nil => nofun
  | cons x l ih =>
    obtain ⟨hx, hl⟩ := List.forall_mem_cons.mp hle
    have hrest : (l.map f).sum ≤ (l.map g).sum := List.sum_le_sum hl
    simp only [List.map_cons, List.sum_cons] at hsum
    exact List.forall_mem_cons.mpr ⟨by omega, ih hl (by omega)⟩

section Works

variable {s : JsString}

theorem WorksEndToEnd.lowered (h : WorksEndToEnd U s) :
    (splitWords (toPascalCase U s)).map U.toLowerCase = (splitWords s).map U.toLowerCase := by
  rw [← splitWords_toKebabCase, ← splitWords_toKebabCase, h.kebab_pascal]

theorem WorksEndToEnd.dottedI_not_mem (h : WorksEndToEnd U s) : dottedI ∉ toPascalCase U s := by
  rw [← h.pascal_kebab, toPascalCase, splitWords_toKebabCase]
  intro hmem
  obtain ⟨v, hv, hmem⟩ := List.mem_flatMap.mp hmem
  obtain ⟨w, -, rfl⟩ := List.mem_map.mp hv
  rcases hlow : U.toLowerCase w with _ | ⟨c, r⟩
  · rw [hlow] at hmem
    cases hmem
  · rw [hlow, capitalize_cons] at hmem
    rcases List.mem_append.mp hmem with hmem | hmem
    · rw [U.dottedI_mem_toUpperCase] at hmem
      refine U.dottedI_not_mem_toLowerCase w ?_
      rw [hlow, hmem]
      exact List.mem_cons_self
    · exact U.dottedI_not_mem_toLowerCase r hmem

theorem length_capitalize {c : UInt16} (r : JsString) (hc : c ≠ dottedI) :
    (capitalize U (c :: r)).length + 1 =
      (U.toLowerCase (c :: r)).length + (U.toUpperCase [c]).length := by
  rw [capitalize_cons, List.length_append, U.length_toLowerCase, U.length_toLowerCase,
    List.count_cons_of_ne hc, List.length_cons]
  omega

theorem WorksEndToEnd.ne_dottedI (h : WorksEndToEnd U s) {c : UInt16} {r : JsString}
    (hw : c :: r ∈ splitWords s) : c ≠ dottedI := by
  rintro rfl
  refine h.dottedI_not_mem (List.mem_flatMap.mpr ⟨_, hw, ?_⟩)
  exact List.mem_append_left _ ((U.dottedI_mem_toUpperCase _).mpr rfl)

theorem flatten_splitWords_pascal (s : JsString) :
    (splitWords (toPascalCase U s)).flatten = toPascalCase U s := by
  rw [splitWords_toPascalCase, flatten_cuts, toPascalCase_eq_flatten]

theorem WorksEndToEnd.length_lower (h : WorksEndToEnd U s) :
    ∀ w ∈ splitWords (toPascalCase U s), (U.toLowerCase w).length = w.length := by
  intro w hw
  have hnot : dottedI ∉ w := fun hmem => h.dottedI_not_mem <| by
    rw [← flatten_splitWords_pascal]
    exact List.mem_flatten_of_mem hw hmem
  rw [U.length_toLowerCase, List.count_eq_zero_of_not_mem hnot, Nat.add_zero]

theorem WorksEndToEnd.map_length (h : WorksEndToEnd U s) :
    (splitWords (toPascalCase U s)).map List.length =
      (splitWords s).map fun w => (U.toLowerCase w).length := by
  calc
    (splitWords (toPascalCase U s)).map List.length =
        ((splitWords (toPascalCase U s)).map U.toLowerCase).map List.length := by
      rw [List.map_map]
      exact List.map_congr_left fun w hw => (h.length_lower w hw).symm
    _ = (splitWords s).map fun w => (U.toLowerCase w).length := by
      rw [h.lowered, List.map_map]
      rfl

theorem WorksEndToEnd.length_eq (h : WorksEndToEnd U s) :
    ∀ w ∈ splitWords s, (U.toLowerCase w).length = (capitalize U w).length := by
  refine eq_of_sum_eq ?_ ?_
  · intro w hw
    obtain ⟨c, r, rfl⟩ := List.exists_cons_of_ne_nil (ne_nil_of_mem_splitWords hw)
    have hlength := length_capitalize (U := U) r (h.ne_dottedI hw)
    have hpos := List.length_pos_of_ne_nil (U.toUpperCase_singleton_ne_nil c)
    omega
  · rw [← h.map_length, ← List.length_flatten, flatten_splitWords_pascal, toPascalCase_eq_flatten,
      List.length_flatten, List.map_map]
    rfl

theorem WorksEndToEnd.splitWords_pascal (h : WorksEndToEnd U s) :
    splitWords (toPascalCase U s) = (splitWords s).map (capitalize U) := by
  refine List.eq_iff_flatten_eq.mpr ⟨flatten_splitWords_pascal s, ?_⟩
  rw [h.map_length, List.map_map]
  exact List.map_congr_left h.length_eq

theorem WorksEndToEnd.lower_capitalize (h : WorksEndToEnd U s) :
    ∀ w ∈ splitWords s, U.toLowerCase (capitalize U w) = U.toLowerCase w := by
  have hlowered := h.lowered
  rw [h.splitWords_pascal, List.map_map] at hlowered
  exact List.map_inj_left.mp hlowered

theorem WorksEndToEnd.chain (h : WorksEndToEnd U s) :
    ((splitWords s).map (capitalize U)).IsChain CutBefore ∧
      ∀ w ∈ ((splitWords s).map (capitalize U)).tail, StartsUpper w := by
  refine chain_of_cuts ?_
  rw [← splitWords_toPascalCase, h.splitWords_pascal]

theorem WorksEndToEnd.startsUpper (h : WorksEndToEnd U s) (hs : StartsUpper (toPascalCase U s)) :
    ∀ w ∈ (splitWords s).map (capitalize U), StartsUpper w := by
  have htail := h.chain.2
  rw [toPascalCase_eq_flatten] at hs
  have hne : ∀ w ∈ (splitWords s).map (capitalize U), w ≠ [] := by
    rw [← h.splitWords_pascal]
    exact fun w => ne_nil_of_mem_splitWords
  generalize (splitWords s).map (capitalize U) = ws at *
  rcases ws with _ | ⟨v, ws⟩
  · nofun
  · refine List.forall_mem_cons.mpr ⟨?_, htail⟩
    obtain ⟨c, r, rfl⟩ := List.exists_cons_of_ne_nil (hne v List.mem_cons_self)
    obtain ⟨d, t, heq, hd⟩ := hs
    obtain ⟨rfl, -⟩ := List.cons.inj heq
    exact ⟨c, r, rfl, hd⟩

/-- The first unit of a word is an ASCII letter, and the rest of the word is lowered as if it
stood alone. -/
theorem WorksEndToEnd.letter (h : WorksEndToEnd U s) (hs : StartsUpper (toPascalCase U s))
    {w : JsString} (hw : w ∈ splitWords s) :
    ∃ c r, w = c :: r ∧ (isUpper c = true ∨ isLower c = true) ∧
      U.toLowerCase (c :: r) = U.toLowerCase [c] ++ U.toLowerCase r := by
  obtain ⟨c, r, rfl⟩ := List.exists_cons_of_ne_nil (ne_nil_of_mem_splitWords hw)
  have hdotted := h.ne_dottedI hw
  have hlength := length_capitalize (U := U) r hdotted
  rw [h.length_eq _ hw] at hlength
  obtain ⟨d, hd⟩ : ∃ d, U.toUpperCase [c] = [d] := List.length_eq_one_iff.mp (by omega)
  have hcapitalize : capitalize U (c :: r) = d :: U.toLowerCase r := by
    rw [capitalize_cons, hd, List.singleton_append]
  obtain ⟨x, t, heq, hx⟩ := h.startsUpper hs _ (List.mem_map_of_mem hw)
  obtain ⟨rfl, -⟩ := List.cons.inj (hcapitalize.symm.trans heq)
  have hupper : U.upper (.unit c) = [.unit d] := by
    rw [U.toUpperCase_singleton] at hd
    exact CharacterData.eq_of_encode_eq_singleton hd
  have hsurrogate := ascii_not_surrogate (lt_of_letter (.inl hx))
  have hsigma : d ≠ capitalSigma := by
    rintro rfl
    cases hx
  obtain ⟨-, e, -, he, -, -, -, hlower, -⟩ := U.letter_cases (.inl hx)
  have hlowered : U.toLowerCase (c :: r) = e :: U.toLowerCase r := by
    rw [← h.lower_capitalize _ hw, hcapitalize,
      U.toLowerCase_cons_toLowerCase hsurrogate.1 hsigma, hlower]
    rfl
  have hhigh : Json.isHighSurrogate c = false := by
    by_contra hc
    have hlone : (CodePoint.unit c).isLone = true :=
      Bool.or_eq_true_iff.mpr (.inl (Bool.not_eq_false _ ▸ hc))
    rw [U.upper_of_isLone _ hlone] at hupper
    obtain rfl := CodePoint.unit.inj (List.singleton_inj.mp hupper)
    exact hc hsurrogate.1
  have hfirst : encode (U.lower (.unit c)) = [e] := by
    obtain ⟨x, hx⟩ := List.length_eq_one_iff.mp
      ((U.length_encode_lower c).trans (by rw [if_neg hdotted]))
    rw [U.toLowerCase_cons hhigh, hx] at hlowered
    rw [hx, (List.cons.inj hlowered).1]
  refine ⟨c, r, rfl, ?_, ?_⟩
  · have hmem : .unit e ∈ U.lower (.unit c) := by
      rw [CharacterData.eq_of_encode_eq_singleton hfirst]
      exact List.mem_singleton_self _
    rcases U.eq_of_ascii (.unit c) e d he hx hmem hupper with heq | heq
    · exact .inr (CodePoint.unit.inj heq ▸ he)
    · exact .inl (CodePoint.unit.inj heq ▸ hx)
  · rw [hlowered, U.toLowerCase_singleton, hfirst]
    rfl

end Works

variable {s : JsString}

theorem keepsWords_of_worksEndToEnd (hs : StartsUpper (toPascalCase U s)) (h : WorksEndToEnd U s) :
    KeepsWords U s := by
  have hletter : ∀ w ∈ splitWords s,
      ∃ c r, w = c :: r ∧ (isUpper c = true ∨ isLower c = true) := by
    intro w hw
    obtain ⟨c, r, hcr, hc, -⟩ := h.letter hs hw
    exact ⟨c, r, hcr, hc⟩
  have hcased : ∀ w ∈ splitWords s, ∃ d e, Cased U w d e := by
    intro w hw
    obtain ⟨c, r, rfl, hc, hsigma⟩ := h.letter hs hw
    exact cased_of_letter hc hsigma
  refine ⟨hletter, ?_, (chain_iff hcased).mp h.chain.1, ?_⟩
  · intro w hw
    obtain ⟨c, r, rfl, -, hsigma⟩ := h.letter hs hw
    exact hsigma
  · rw [← idContinue_pascal (h.startsUpper hs) hletter hcased, ← isIdentifier_iff hs]
    exact h.identifier

theorem validateName_eq_ok : validateName U s = .ok () ↔ StartsUpper (toPascalCase U s) := by
  rw [validateName]
  rcases toPascalCase U s with _ | ⟨d, t⟩
  · simp [StartsUpper]
  · cases hd : isUpper d <;> simp [StartsUpper, hd, pure, Except.pure]

/-- The module that was created under a name is found by the name that is displayed for it. -/
theorem WorksEndToEnd.resolves (h : WorksEndToEnd U s) {entries : List DirectoryEntry}
    (hentry : { name := (buildContext U s).kebabName, isDirectory := true, hasDefinition := true } ∈
      entries) {access : JsString → Bool} (haccess : access (buildContext U s).kebabName = true) :
    ∃ found ∈ discoverAggregates U entries, found.dir = (buildContext U s).kebabName ∧
      (resolveAggregateDir U access found.name).map (·.dir) = some found.dir := by
  have hresolved : toKebabCase U (toPascalCase U (toKebabCase U s)) = toKebabCase U s := by
    rw [h.pascal_kebab, h.kebab_pascal]
  refine ⟨{ name := toPascalCase U (toKebabCase U s), dir := toKebabCase U s },
    List.mem_filterMap.mpr ⟨_, hentry, rfl⟩, rfl, ?_⟩
  rw [resolveAggregateDir, hresolved, if_pos (show access (toKebabCase U s) = true from haccess)]
  rfl

/-- A word without a sigma after its first letter is lowered letter by letter. -/
theorem sigma_of_not_mem {c : UInt16} {r : JsString} (hc : isUpper c = true ∨ isLower c = true)
    (hsigma : capitalSigma ∉ r) : U.toLowerCase (c :: r) = U.toLowerCase [c] ++ U.toLowerCase r :=
  U.toLowerCase_cons_of_not_mem (ascii_not_surrogate (lt_of_letter hc)).1 hsigma

/-- The names that work among those that are accepted. -/
theorem worksEndToEnd_iff (h : validateName U s = .ok ()) :
    WorksEndToEnd U s ↔ KeepsWords U s :=
  ⟨keepsWords_of_worksEndToEnd (validateName_eq_ok.mp h),
    worksEndToEnd_of_keepsWords (validateName_eq_ok.mp h)⟩

theorem worksEndToEnd_iff_bankAccount :
    validateName .ascii (Json.ascii "bank-account") = .ok () ∧
      KeepsWords .ascii (Json.ascii "bank-account") ∧
      WorksEndToEnd .ascii (Json.ascii "bank-account") := by
  have hwords : splitWords (Json.ascii "bank-account") =
      [Json.ascii "bank", Json.ascii "account"] := by decide
  have hkeeps : KeepsWords .ascii (Json.ascii "bank-account") := by
    refine ⟨?_, by decide, ?_, by decide⟩
    · rw [hwords]
      exact List.forall_mem_cons.mpr ⟨⟨_, _, rfl, .inr (by decide)⟩,
        List.forall_mem_singleton.mpr ⟨_, _, rfl, .inr (by decide)⟩⟩
    · rw [hwords]
      exact List.isChain_cons_cons.mpr ⟨by unfold Joined; decide, .singleton _⟩
  exact ⟨by decide, hkeeps, (worksEndToEnd_iff (by decide)).mpr hkeeps⟩

/-- A point stays in the identifier; a digit begins a word in kebab case only. -/
theorem worksEndToEnd_fails :
    (validateName .ascii (Json.ascii "foo.bar") = .ok () ∧
      ¬ WorksEndToEnd .ascii (Json.ascii "foo.bar")) ∧
    validateName .ascii (Json.ascii "step-2") = .ok () ∧
      ¬ WorksEndToEnd .ascii (Json.ascii "step-2") := by
  refine ⟨⟨by decide, fun h => ?_⟩, by decide, fun h => ?_⟩
  · exact absurd h.identifier (by decide)
  · exact absurd h.kebab_pascal (by decide)

end Noddde.Cli
