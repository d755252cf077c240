import Noddde.Data.CaseMapping
/-!
# Case conversion of ASCII

A character database for texts of ASCII.  Of the other characters it knows those that the
properties of a database name.
-/

open Utf16

namespace Unicode

theorem isPlain_not_letter {c : UInt16} (h : isPlain c = true) :
    isUpper c = false ∧ isLower c = false := by
  simp only [isPlain, isSpace, isUpper, isLower, Bool.or_eq_true, Bool.and_eq_true,
    Bool.and_eq_false_iff, Bool.not_eq_true', decide_eq_true_eq, decide_eq_false_iff_not,
    beq_iff_eq, UInt16.le_iff_toNat_le, UInt16.lt_iff_toNat_lt, ← UInt16.toNat_inj] at *
  simp only [UInt16.reduceToNat] at *
  omega

namespace CharacterData

def asciiLower : CodePoint → List CodePoint
  | .unit c =>
      if isUpper c then [.unit (c + 0x20)]
      else if c = dottedI then [.unit 0x69, .unit 0x307]
      else if c = capitalSigma then [.unit smallSigma]
      else [.unit c]
  | p => [p]

def asciiUpper : CodePoint → List CodePoint
  | .unit c => if isLower c then [.unit (c - 0x20)] else [.unit c]
  | p => [p]

def asciiIdStart : CodePoint → Bool
  | .unit c => isUpper c || isLower c || c == dollar || c == lowLine
  | _ => false

def asciiIdContinue : CodePoint → Bool
  | .unit c => isUpper c || isLower c || isDigit c || c == dollar || c == lowLine ||
      [dottedI, 0x307, capitalSigma, smallSigma, finalSigma].contains c
  | _ => false

theorem asciiLower_cases (p : CodePoint) :
    (∃ c, p = .unit c ∧ isUpper c = true ∧ asciiLower p = [.unit (c + 0x20)]) ∨
      (p = .unit dottedI ∧ asciiLower p = [.unit 0x69, .unit 0x307]) ∨
      (p = .unit capitalSigma ∧ asciiLower p = [.unit smallSigma]) ∨
      ((∀ c, p = .unit c → isUpper c = false) ∧ p ≠ .unit dottedI ∧ p ≠ .unit capitalSigma ∧
        asciiLower p = [p]) := by
  cases p with
  | pair high low hhigh hlow => simp [asciiLower]
  | unit c =>
    rw [asciiLower]
    split_ifs with hupper hdotted hsigma
    · exact .inl ⟨c, rfl, hupper, rfl⟩
    · exact .inr (.inl ⟨by rw [hdotted], rfl⟩)
    · exact .inr (.inr (.inl ⟨by rw [hsigma], rfl⟩))
    · simp [hupper, hdotted, hsigma]

theorem asciiUpper_cases (p : CodePoint) :
    (∃ c, p = .unit c ∧ isLower c = true ∧ asciiUpper p = [.unit (c - 0x20)]) ∨
      ((∀ c, p = .unit c → isLower c = false) ∧ asciiUpper p = [p]) := by
  cases p with
  | pair high low hhigh hlow => simp [asciiUpper]
  | unit c =>
    rw [asciiUpper]
    split_ifs with hlower
    · exact .inl ⟨c, rfl, hlower, rfl⟩
    · simp [hlower]

theorem asciiLower_of_isLower {c : UInt16} (h : isLower c = true) :
    asciiLower (.unit c) = [.unit c] := by
  have hupper := isUpper_eq_false h
  rcases asciiLower_cases (.unit c) with ⟨d, hd, hd', -⟩ | ⟨hd, -⟩ | ⟨hd, -⟩ | ⟨-, -, -, heq⟩
  · obtain rfl := CodePoint.unit.inj hd
    simp [hupper] at hd'
  · obtain rfl := CodePoint.unit.inj hd
    cases h
  · obtain rfl := CodePoint.unit.inj hd
    cases h
  · exact heq

theorem asciiIdContinue_of_lt {c : UInt16} (h : c < 0x80) : asciiIdContinue (.unit c) =
    (isUpper c || isLower c || isDigit c || c == dollar || c == lowLine) := by
  have hnot : [dottedI, 0x307, capitalSigma, smallSigma, finalSigma].contains c = false := by
    by_contra hc
    rw [Bool.not_eq_false, List.contains_iff_mem] at hc
    have hlarge : ∀ d ∈ [dottedI, 0x307, capitalSigma, smallSigma, finalSigma], ¬ d < 0x80 := by
      simp only [List.forall_mem_cons]
      exact ⟨by decide, by decide, by decide, by decide, by decide, List.forall_mem_nil _⟩
    exact hlarge c hc h
  rw [asciiIdContinue, hnot, Bool.or_false]

theorem asciiIdContinue_of_isSpace {c : UInt16} (h : isSpace c = true) :
    asciiIdContinue (.unit c) = false := by
  obtain ⟨hupper, hlower⟩ := isPlain_not_letter (c := c) (by simp [isPlain, h])
  have hnot : ∀ d ∈ [dollar, lowLine, dottedI, 0x307, capitalSigma, smallSigma, finalSigma],
      isSpace d = false := by
    simp only [List.forall_mem_cons]
    exact ⟨rfl, rfl, rfl, rfl, rfl, rfl, rfl, List.forall_mem_nil _⟩
  have hdigit : isDigit c = false := by
    simp only [isSpace, isDigit, Bool.or_eq_true, Bool.and_eq_true, Bool.and_eq_false_iff,
      decide_eq_true_eq, decide_eq_false_iff_not, beq_iff_eq, UInt16.le_iff_toNat_le,
      ← UInt16.toNat_inj] at *
    simp only [UInt16.reduceToNat] at *
    omega
  have hne : ∀ d ∈ [dollar, lowLine, dottedI, 0x307, capitalSigma, smallSigma, finalSigma],
      c ≠ d := by
    rintro d hd rfl
    rw [hnot c hd] at h
    cases h
  simp only [List.forall_mem_cons] at hne
  simp [asciiIdContinue, hupper, hlower, hdigit, hne]

def ascii : CharacterData where
  lower := asciiLower
  upper := asciiUpper
  cased
    | .unit c => isUpper c || isLower c || [dottedI, capitalSigma, smallSigma, finalSigma].contains c
    | _ => false
  caseIgnorable p := p == .unit 0x307
  idStart := asciiIdStart
  idContinue := asciiIdContinue
  lower_of_isUpper c h := if_pos h
  lower_of_isLower c h := asciiLower_of_isLower h
  upper_of_isUpper c h := by
    have hlower : isLower c = false := by
      by_contra hl
      rw [Bool.not_eq_false] at hl
      rw [isUpper_eq_false hl] at h
      cases h
    simp [asciiUpper, hlower]
  upper_of_isLower c h := if_pos h
  mem_lower_of_isPlain c p h := by
    obtain ⟨hupper, hlower⟩ := isPlain_not_letter h
    rcases asciiLower_cases p with ⟨d, rfl, hd, heq⟩ | ⟨rfl, heq⟩ | ⟨rfl, heq⟩ | ⟨-, -, -, heq⟩ <;>
      rw [heq]
    · have hne : c ≠ d + 0x20 := by
        rintro rfl
        rw [isLower_add hd] at hlower
        cases hlower
      have hne' : d ≠ c := by
        rintro rfl
        rw [hd] at hupper
        cases hupper
      simp [hne, hne']
    · have hi : c ≠ 0x69 := by rintro rfl; cases h
      have hdot : c ≠ 0x307 := by rintro rfl; cases h
      have hdotted : dottedI ≠ c := by rintro rfl; cases h
      simp [hi, hdot, hdotted]
    · have hsmall : c ≠ smallSigma := by rintro rfl; cases h
      have hcapital : capitalSigma ≠ c := by rintro rfl; cases h
      simp [hsmall, hcapital]
    · rw [List.mem_singleton, eq_comm]
  mem_upper_of_isPlain c p h := by
    obtain ⟨hupper, hlower⟩ := isPlain_not_letter h
    rcases asciiUpper_cases p with ⟨d, rfl, hd, heq⟩ | ⟨-, heq⟩ <;> rw [heq]
    · have hne : c ≠ d - 0x20 := by
        rintro rfl
        rw [isUpper_sub hd] at hupper
        cases hupper
      have hne' : d ≠ c := by
        rintro rfl
        rw [hd] at hlower
        cases hlower
      simp [hne, hne']
    · rw [List.mem_singleton, eq_comm]
  lower_of_mem_lower p q hq := by
    rcases asciiLower_cases p with ⟨d, rfl, hd, heq⟩ | ⟨rfl, heq⟩ | ⟨rfl, heq⟩ | ⟨-, -, -, heq⟩ <;>
      rw [heq] at hq
    · obtain rfl := List.mem_singleton.mp hq
      exact asciiLower_of_isLower (isLower_add hd)
    · rcases List.mem_cons.mp hq with rfl | hq
      · rfl
      · obtain rfl := List.mem_singleton.mp hq
        rfl
    · obtain rfl := List.mem_singleton.mp hq
      rfl
    · obtain rfl := List.mem_singleton.mp hq
      exact heq
  length_lower p := by
    rcases asciiLower_cases p with ⟨d, rfl, hd, heq⟩ | ⟨rfl, heq⟩ | ⟨rfl, heq⟩ | ⟨-, hne, -, heq⟩ <;>
      rw [heq]
    · have hne : d ≠ dottedI := by rintro rfl; cases hd
      simp [CodePoint.units, hne]
    · rfl
    · rfl
    · simp [hne]
  upper_ne_nil p := by
    rcases asciiUpper_cases p with ⟨d, rfl, hd, heq⟩ | ⟨-, heq⟩ <;> rw [heq] <;>
      exact List.cons_ne_nil _ _
  dottedI_mem_upper p := by
    rcases asciiUpper_cases p with ⟨d, rfl, hd, heq⟩ | ⟨-, heq⟩ <;> rw [heq]
    · have hne : dottedI ≠ d - 0x20 := by
        intro h
        have hupper := isUpper_sub hd
        rw [← h] at hupper
        cases hupper
      have hne' : d ≠ dottedI := by rintro rfl; cases hd
      simp [hne, hne']
    · rw [List.mem_singleton, eq_comm]
  eq_of_ascii p c d hc hd hmem hupper := by
    rcases asciiUpper_cases p with ⟨e, rfl, he, heq⟩ | ⟨-, heq⟩
    · rw [asciiLower_of_isLower he] at hmem
      exact .inl (List.mem_singleton.mp hmem).symm
    · rw [heq] at hupper
      exact .inr (List.singleton_inj.mp hupper)
  lower_capitalSigma := rfl
  lower_finalSigma := rfl
  lower_of_isLone p h := by
    rcases asciiLower_cases p with ⟨d, rfl, hd, -⟩ | ⟨rfl, -⟩ | ⟨rfl, -⟩ | ⟨-, -, -, heq⟩
    · obtain ⟨hhigh, hlow⟩ := ascii_not_surrogate (lt_of_letter (.inl hd))
      simp [CodePoint.isLone, CodePoint.isLoneHigh, CodePoint.isLoneLow, hhigh, hlow] at h
    · cases h
    · cases h
    · exact heq
  upper_of_isLone p h := by
    rcases asciiUpper_cases p with ⟨d, rfl, hd, -⟩ | ⟨-, heq⟩
    · obtain ⟨hhigh, hlow⟩ := ascii_not_surrogate (lt_of_letter (.inr hd))
      simp [CodePoint.isLone, CodePoint.isLoneHigh, CodePoint.isLoneLow, hhigh, hlow] at h
    · exact heq
  eq_of_isLone_of_mem_lower p q hq h := by
    rcases asciiLower_cases p with ⟨d, rfl, hd, heq⟩ | ⟨rfl, heq⟩ | ⟨rfl, heq⟩ | ⟨-, -, -, heq⟩ <;>
      rw [heq] at hq
    · obtain rfl := List.mem_singleton.mp hq
      obtain ⟨hhigh, hlow⟩ := ascii_not_surrogate (lt_of_letter (.inr (isLower_add hd)))
      simp [CodePoint.isLone, CodePoint.isLoneHigh, CodePoint.isLoneLow, hhigh, hlow] at h
    · rcases List.mem_cons.mp hq with rfl | hq
      · cases h
      · obtain rfl := List.mem_singleton.mp hq
        cases h
    · obtain rfl := List.mem_singleton.mp hq
      cases h
    · exact (List.mem_singleton.mp hq).symm
  idStart_ascii c _ := rfl
  idContinue_ascii c h := asciiIdContinue_of_lt h
  idContinue_of_idStart p h := by
    cases p with
    | unit c =>
      simp only [asciiIdStart, Bool.or_eq_true] at h
      simp only [asciiIdContinue, Bool.or_eq_true]
      tauto
    | pair high low hhigh hlow => cases h
  idContinue_of_isSpace c h := asciiIdContinue_of_isSpace h
  idContinue_lower p := by
    rcases asciiLower_cases p with ⟨d, rfl, hd, heq⟩ | ⟨rfl, heq⟩ | ⟨rfl, heq⟩ | ⟨-, -, -, heq⟩ <;>
      rw [heq]
    · simp [asciiIdContinue, hd, isLower_add hd]
    · decide
    · decide
    · simp
  idContinue_finalSigma := rfl

end CharacterData

end Unicode
