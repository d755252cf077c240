import Noddde.Data.Utf16
/-!
# Case conversion

The character database of Unicode is a parameter with the properties of its versions that
the proofs use.
-/

open Utf16

namespace Unicode

def isUpper (c : UInt16) : Bool := 0x41 ≤ c && c ≤ 0x5A

def isLower (c : UInt16) : Bool := 0x61 ≤ c && c ≤ 0x7A

def isDigit (c : UInt16) : Bool := 0x30 ≤ c && c ≤ 0x39

def isWord (c : UInt16) : Bool := isUpper c || isLower c || isDigit c || c == 0x5F

def isSpace (c : UInt16) : Bool :=
  0x09 ≤ c && c ≤ 0x0D || c == 0x20 || c == 0xA0 || c == 0x1680 || 0x2000 ≤ c && c ≤ 0x200A ||
    c == 0x2028 || c == 0x2029 || c == 0x202F || c == 0x205F || c == 0x3000 || c == 0xFEFF

/-- White space, and what ASCII has besides letters. -/
def isPlain (c : UInt16) : Bool := isSpace c || c < 0x80 && !isUpper c && !isLower c

/-- No part of an identifier. -/
def isMark (c : UInt16) : Bool :=
  isSpace c || c < 0x80 && !isUpper c && !isLower c && !isDigit c && c != 0x24 && c != 0x5F

def dollar : UInt16 := 0x24

def lowLine : UInt16 := 0x5F

def dottedI : UInt16 := 0x130

def capitalSigma : UInt16 := 0x3A3

def smallSigma : UInt16 := 0x3C3

def finalSigma : UInt16 := 0x3C2

structure CharacterData where
  lower : CodePoint → List CodePoint
  upper : CodePoint → List CodePoint
  cased : CodePoint → Bool
  caseIgnorable : CodePoint → Bool
  idStart : CodePoint → Bool
  idContinue : CodePoint → Bool
  lower_of_isUpper : ∀ c, isUpper c = true → lower (.unit c) = [.unit (c + 0x20)]
  lower_of_isLower : ∀ c, isLower c = true → lower (.unit c) = [.unit c]
  upper_of_isUpper : ∀ c, isUpper c = true → upper (.unit c) = [.unit c]
  upper_of_isLower : ∀ c, isLower c = true → upper (.unit c) = [.unit (c - 0x20)]
  mem_lower_of_isPlain : ∀ c p, isPlain c = true → (.unit c ∈ lower p ↔ p = .unit c)
  mem_upper_of_isPlain : ∀ c p, isPlain c = true → (.unit c ∈ upper p ↔ p = .unit c)
  /-- What is lower case stays so. -/
  lower_of_mem_lower : ∀ p, ∀ q ∈ lower p, lower q = [q]
  /-- One character becomes longer. -/
  length_lower : ∀ p, (encode (lower p)).length =
    p.units.length + if p = .unit dottedI then 1 else 0
  upper_ne_nil : ∀ p, upper p ≠ []
  dottedI_mem_upper : ∀ p, .unit dottedI ∈ upper p ↔ p = .unit dottedI
  /-- The lower case of no other character has an ASCII letter if its upper case is one. -/
  eq_of_ascii : ∀ p c d, isLower c = true → isUpper d = true → .unit c ∈ lower p →
    upper p = [.unit d] → p = .unit c ∨ p = .unit d
  lower_capitalSigma : lower (.unit capitalSigma) = [.unit smallSigma]
  lower_finalSigma : lower (.unit finalSigma) = [.unit finalSigma]
  lower_of_isLone : ∀ p, p.isLone = true → lower p = [p]
  upper_of_isLone : ∀ p, p.isLone = true → upper p = [p]
  eq_of_isLone_of_mem_lower : ∀ p, ∀ q ∈ lower p, q.isLone = true → p = q
  idStart_ascii : ∀ c, c < 0x80 → idStart (.unit c) =
    (isUpper c || isLower c || c == dollar || c == lowLine)
  idContinue_ascii : ∀ c, c < 0x80 → idContinue (.unit c) =
    (isUpper c || isLower c || isDigit c || c == dollar || c == lowLine)
  idContinue_of_idStart : ∀ p, idStart p = true → idContinue p = true
  idContinue_of_isSpace : ∀ c, isSpace c = true → idContinue (.unit c) = false
  idContinue_lower : ∀ p, (∀ q ∈ lower p, idContinue q = true) ↔ idContinue p = true
  idContinue_finalSigma : idContinue (.unit finalSigma) = idContinue (.unit capitalSigma)

namespace CharacterData

variable (U : CharacterData)

/-- A cased letter, after case-ignorable characters only. -/
def meetsCased : List CodePoint → Bool
  | [] => false
  | p :: points => U.cased p || U.caseIgnorable p && meetsCased points

/-- The characters before stand in reverse. -/
def lowerAt (before : List CodePoint) (p : CodePoint) (after : List CodePoint) : List CodePoint :=
  if p = .unit capitalSigma ∧ U.meetsCased before = true ∧ U.meetsCased after = false then
    [.unit finalSigma]
  else U.lower p

def lowerFrom (before : List CodePoint) : List CodePoint → List CodePoint
  | [] => []
  | p :: after => U.lowerAt before p after ++ lowerFrom (p :: before) after

def toLowerCase (s : JsString) : JsString := encode (U.lowerFrom [] (decode s))

def toUpperCase (s : JsString) : JsString := encode ((decode s).flatMap U.upper)

def isIdentifierName (s : JsString) : Bool :=
  match decode s with
  | [] => false
  | p :: points => U.idStart p && points.all U.idContinue

end CharacterData

/-! ## Units -/

section Units

variable {c : UInt16}

theorem isPlain_not_surrogate (h : isPlain c = true) :
    Json.isHighSurrogate c = false ∧ Json.isLowSurrogate c = false := by
  simp only [isPlain, isSpace, Json.isHighSurrogate, Json.isLowSurrogate, Bool.or_eq_true,
    Bool.and_eq_true, Bool.and_eq_false_iff, decide_eq_true_eq, decide_eq_false_iff_not, beq_iff_eq,
    UInt16.le_iff_toNat_le, UInt16.lt_iff_toNat_lt, ← UInt16.toNat_inj] at *
  simp only [UInt16.reduceToNat] at *
  omega

theorem isLower_add (h : isUpper c = true) : isLower (c + 0x20) = true := by
  simp only [isUpper, isLower, Bool.and_eq_true, decide_eq_true_eq, UInt16.le_iff_toNat_le,
    UInt16.toNat_add] at *
  simp only [UInt16.reduceToNat] at *
  omega

theorem isSpace_of_isWord (h : isWord c = true) : isSpace c = false := by
  simp only [isWord, isUpper, isLower, isDigit, isSpace, Bool.or_eq_true, Bool.and_eq_true,
    Bool.or_eq_false_iff, Bool.and_eq_false_iff, decide_eq_true_eq, decide_eq_false_iff_not,
    beq_iff_eq, beq_eq_false_iff_ne, ne_eq, UInt16.le_iff_toNat_le, ← UInt16.toNat_inj] at *
  simp only [UInt16.reduceToNat] at *
  omega

theorem isUpper_sub (h : isLower c = true) : isUpper (c - 0x20) = true := by
  simp only [isUpper, isLower, Bool.and_eq_true, decide_eq_true_eq, UInt16.le_iff_toNat_le,
    UInt16.toNat_sub] at *
  simp only [UInt16.reduceToNat] at *
  omega

theorem lt_of_letter (h : isUpper c = true ∨ isLower c = true) : c < 0x80 := by
  simp only [isUpper, isLower, Bool.and_eq_true, decide_eq_true_eq, UInt16.le_iff_toNat_le,
    UInt16.lt_iff_toNat_lt] at *
  simp only [UInt16.reduceToNat] at *
  omega

theorem ascii_not_surrogate (h : c < 0x80) :
    Json.isHighSurrogate c = false ∧ Json.isLowSurrogate c = false := by
  simp only [Json.isHighSurrogate, Json.isLowSurrogate, Bool.and_eq_false_iff,
    decide_eq_false_iff_not, UInt16.le_iff_toNat_le, UInt16.lt_iff_toNat_lt] at *
  simp only [UInt16.reduceToNat] at *
  omega

theorem isUpper_eq_false (h : isLower c = true) : isUpper c = false := by
  simp only [isUpper, isLower, Bool.and_eq_true, Bool.and_eq_false_iff, decide_eq_true_eq,
    decide_eq_false_iff_not, UInt16.le_iff_toNat_le] at *
  simp only [UInt16.reduceToNat] at *
  omega

end Units

/-! ## Lower case -/

namespace CharacterData

variable {U : CharacterData} {before after points : List CodePoint} {p q : CodePoint}

theorem lowerAt_eq (h : p ≠ .unit capitalSigma) : U.lowerAt before p after = U.lower p :=
  if_neg fun hsigma => h hsigma.1

theorem lowerAt_cases : U.lowerAt before p after = U.lower p ∨
    p = .unit capitalSigma ∧ U.lowerAt before p after = [.unit finalSigma] := by
  by_cases h : p = .unit capitalSigma ∧ U.meetsCased before = true ∧ U.meetsCased after = false
  · exact .inr ⟨h.1, if_pos h⟩
  · exact .inl (if_neg h)

theorem lower_of_mem_lowerAt (hq : q ∈ U.lowerAt before p after) : U.lower q = [q] := by
  rcases U.lowerAt_cases with h | ⟨-, h⟩ <;> rw [h] at hq
  · exact U.lower_of_mem_lower p q hq
  · obtain rfl := List.mem_singleton.mp hq
    exact U.lower_finalSigma

theorem length_lowerAt : (encode (U.lowerAt before p after)).length =
    p.units.length + if p = .unit dottedI then 1 else 0 := by
  rcases U.lowerAt_cases with h | ⟨hp, h⟩ <;> rw [h]
  · exact U.length_lower p
  · rw [hp]
    rfl

theorem lowerAt_ne_nil : U.lowerAt before p after ≠ [] := by
  intro h
  have hlength : (encode (U.lowerAt before p after)).length =
      p.units.length + if p = .unit dottedI then 1 else 0 := length_lowerAt
  rw [h] at hlength
  cases p with
  | unit c => simp [CodePoint.units] at hlength; omega
  | pair high low hhigh hlow => simp [CodePoint.units] at hlength

theorem lowerAt_of_isLone (h : p.isLone = true) : U.lowerAt before p after = [p] := by
  rw [lowerAt_eq, U.lower_of_isLone p h]
  rintro rfl
  cases h

theorem eq_of_mem_lowerAt (hq : q ∈ U.lowerAt before p after) (hlone : q.isLone = true) :
    p = q := by
  rcases U.lowerAt_cases with h | ⟨-, h⟩ <;> rw [h] at hq
  · exact U.eq_of_isLone_of_mem_lower p q hq hlone
  · obtain rfl := List.mem_singleton.mp hq
    cases hlone

theorem idContinue_lowerAt :
    (∀ q ∈ U.lowerAt before p after, U.idContinue q = true) ↔ U.idContinue p = true := by
  rcases U.lowerAt_cases with h | ⟨hp, h⟩ <;> rw [h]
  · exact U.idContinue_lower p
  · simp [hp, U.idContinue_finalSigma]

theorem mem_lowerAt_of_isPlain {c : UInt16} (hc : isPlain c = true) :
    .unit c ∈ U.lowerAt before p after ↔ p = .unit c := by
  rcases U.lowerAt_cases with h | ⟨hp, h⟩ <;> rw [h]
  · exact U.mem_lower_of_isPlain c p hc
  · have hfinal : c ≠ finalSigma := by
      rintro rfl
      cases hc
    have hcapital : c ≠ capitalSigma := by
      rintro rfl
      cases hc
    simp [hp, hfinal, hcapital, eq_comm]

theorem lowerFrom_of_fixed (h : ∀ p ∈ points, U.lower p = [p]) :
    U.lowerFrom before points = points := by
  induction points generalizing before with
  | nil => rfl
  | cons p after ih =>
    have hp : U.lower p = [p] := h p List.mem_cons_self
    have hsigma : p ≠ .unit capitalSigma := by
      rintro rfl
      rw [U.lower_capitalSigma] at hp
      cases hp
    rw [lowerFrom, lowerAt_eq hsigma, hp, ih fun q hq => h q (List.mem_cons_of_mem p hq)]
    rfl

theorem lower_of_mem_lowerFrom (hq : q ∈ U.lowerFrom before points) : U.lower q = [q] := by
  induction points generalizing before with
  | nil => cases hq
  | cons p after ih =>
    rcases List.mem_append.mp hq with hq | hq
    · exact lower_of_mem_lowerAt hq
    · exact ih hq

theorem mem_lowerFrom_of_isPlain {c : UInt16} (hc : isPlain c = true) :
    .unit c ∈ U.lowerFrom before points ↔ .unit c ∈ points := by
  induction points generalizing before with
  | nil => rfl
  | cons p after ih =>
    rw [lowerFrom, List.mem_append, mem_lowerAt_of_isPlain hc, ih, List.mem_cons, eq_comm]

theorem idContinue_lowerFrom :
    (∀ q ∈ U.lowerFrom before points, U.idContinue q = true) ↔
      ∀ p ∈ points, U.idContinue p = true := by
  induction points generalizing before with
  | nil => simp [lowerFrom]
  | cons p after ih =>
    rw [lowerFrom, List.forall_mem_append, idContinue_lowerAt, ih, List.forall_mem_cons]

theorem length_lowerFrom : (encode (U.lowerFrom before points)).length =
    (encode points).length + points.count (.unit dottedI) := by
  induction points generalizing before with
  | nil => rfl
  | cons p after ih =>
    rw [lowerFrom, encode_append, List.length_append, length_lowerAt, ih, encode_cons,
      List.length_append, List.count_cons]
    simp only [beq_iff_eq]
    omega

theorem apart_lowerFrom (h : Apart points) : Apart (U.lowerFrom before points) := by
  induction points generalizing before with
  | nil => exact .nil
  | cons p after ih =>
    obtain ⟨hhead, hafter⟩ := List.isChain_cons.mp h
    refine List.isChain_append.mpr ⟨?_, ih hafter, ?_⟩
    · by_cases hlone : p.isLone = true
      · rw [lowerAt_of_isLone hlone]
        exact .singleton p
      · refine (List.pairwise_of_forall_mem_list fun x hx y _ hxy => ?_).isChain
        have hx' : x.isLone = true := by simp [CodePoint.isLone, hxy.1]
        exact hlone (by rw [eq_of_mem_lowerAt hx hx']; exact hx')
    · rintro x hx y hy ⟨hhigh, hlow⟩
      have hpx : p = x :=
        eq_of_mem_lowerAt (List.mem_of_mem_getLast? hx) (by simp [CodePoint.isLone, hhigh])
      subst hpx
      cases after with
      | nil => cases hy
      | cons q after =>
        rw [lowerFrom, List.head?_append_of_ne_nil _ lowerAt_ne_nil] at hy
        have hqy : q = y :=
          eq_of_mem_lowerAt (List.mem_of_mem_head? hy) (by simp [CodePoint.isLone, hlow])
        subst hqy
        exact hhead q rfl ⟨hhigh, hlow⟩

/-! ## Strings -/

variable {s : JsString} {c : UInt16}

theorem decode_toLowerCase (s : JsString) :
    decode (U.toLowerCase s) = U.lowerFrom [] (decode s) :=
  decode_encode (apart_lowerFrom (apart_decode s))

theorem toLowerCase_toLowerCase (s : JsString) :
    U.toLowerCase (U.toLowerCase s) = U.toLowerCase s := by
  rw [toLowerCase, decode_toLowerCase, lowerFrom_of_fixed fun q => lower_of_mem_lowerFrom]
  rfl

theorem toLowerCase_cons_toLowerCase (hc : Json.isHighSurrogate c = false)
    (hsigma : c ≠ capitalSigma) (s : JsString) :
    U.toLowerCase (c :: U.toLowerCase s) = encode (U.lower (.unit c)) ++ U.toLowerCase s := by
  have hp : CodePoint.unit c ≠ .unit capitalSigma := fun h => hsigma (CodePoint.unit.inj h)
  rw [toLowerCase, decode_cons hc, decode_toLowerCase, lowerFrom, lowerAt_eq hp,
    lowerFrom_of_fixed fun q => lower_of_mem_lowerFrom, encode_append]
  rfl

theorem mem_toLowerCase (hc : isPlain c = true) : c ∈ U.toLowerCase s ↔ c ∈ s := by
  obtain ⟨hhigh, hlow⟩ := isPlain_not_surrogate hc
  rw [toLowerCase, mem_encode hhigh hlow, mem_lowerFrom_of_isPlain hc, mem_decode hhigh hlow]

theorem mem_toUpperCase (hc : isPlain c = true) : c ∈ U.toUpperCase s ↔ c ∈ s := by
  obtain ⟨hhigh, hlow⟩ := isPlain_not_surrogate hc
  rw [toUpperCase, mem_encode hhigh hlow, List.mem_flatMap, ← mem_decode hhigh hlow s]
  simp [U.mem_upper_of_isPlain c _ hc]

theorem lower_of_mem_toLowerCase (hhigh : Json.isHighSurrogate c = false)
    (hlow : Json.isLowSurrogate c = false) (h : c ∈ U.toLowerCase s) :
    U.lower (.unit c) = [.unit c] :=
  lower_of_mem_lowerFrom ((mem_encode hhigh hlow _).mp h)

theorem isUpper_of_mem_toLowerCase (h : c ∈ U.toLowerCase s) : isUpper c = false := by
  by_contra hc
  rw [Bool.not_eq_false] at hc
  obtain ⟨hhigh, hlow⟩ := ascii_not_surrogate (lt_of_letter (.inl hc))
  have hlower := lower_of_mem_toLowerCase hhigh hlow h
  rw [U.lower_of_isUpper c hc] at hlower
  have hadd : isLower c = true := by
    have := isLower_add hc
    rwa [CodePoint.unit.inj (List.singleton_inj.mp hlower)] at this
  rw [isUpper_eq_false hadd] at hc
  cases hc

theorem dottedI_not_mem_toLowerCase (s : JsString) : dottedI ∉ U.toLowerCase s := by
  intro h
  have hlower := lower_of_mem_toLowerCase rfl rfl h
  have hlength := U.length_lower (.unit dottedI)
  rw [hlower] at hlength
  cases hlength

theorem length_toLowerCase (s : JsString) :
    (U.toLowerCase s).length = s.length + s.count dottedI := by
  have hcount : (decode s).count (.unit dottedI) = s.count dottedI := count_decode rfl rfl s
  rw [toLowerCase, length_lowerFrom, encode_decode, hcount]

theorem toLowerCase_ne_nil (h : s ≠ []) : U.toLowerCase s ≠ [] := by
  intro hnil
  have hlength := U.length_toLowerCase s
  rw [hnil, List.length_nil] at hlength
  exact h (List.eq_nil_of_length_eq_zero (Nat.eq_zero_of_add_eq_zero_right hlength.symm))

theorem toLowerCase_cons (hc : Json.isHighSurrogate c = false) (s : JsString) :
    U.toLowerCase (c :: s) =
      encode (U.lower (.unit c)) ++ encode (U.lowerFrom [.unit c] (decode s)) := by
  have hfirst : U.lowerAt [] (.unit c) (decode s) = U.lower (.unit c) :=
    if_neg fun h => Bool.false_ne_true h.2.1
  rw [toLowerCase, decode_cons hc, lowerFrom, hfirst, encode_append]

theorem toLowerCase_singleton (c : UInt16) : U.toLowerCase [c] = encode (U.lower (.unit c)) := by
  have hfirst : U.lowerAt [] (.unit c) [] = U.lower (.unit c) :=
    if_neg fun h => Bool.false_ne_true h.2.1
  rw [toLowerCase, decode, lowerFrom, hfirst, lowerFrom, List.append_nil]

theorem toUpperCase_singleton (c : UInt16) : U.toUpperCase [c] = encode (U.upper (.unit c)) := by
  simp [toUpperCase, decode]

theorem toUpperCase_singleton_ne_nil (c : UInt16) : U.toUpperCase [c] ≠ [] := by
  rw [toUpperCase_singleton]
  obtain ⟨p, points, h⟩ := List.exists_cons_of_ne_nil (U.upper_ne_nil (.unit c))
  rw [h]
  cases p <;> exact List.cons_ne_nil _ _

theorem dottedI_mem_toUpperCase (c : UInt16) : dottedI ∈ U.toUpperCase [c] ↔ c = dottedI := by
  rw [toUpperCase_singleton, mem_encode rfl rfl, U.dottedI_mem_upper, CodePoint.unit.injEq]

theorem lowerFrom_of_not_mem (h : .unit capitalSigma ∉ points) :
    U.lowerFrom before points = points.flatMap U.lower := by
  induction points generalizing before with
  | nil => rfl
  | cons p after ih =>
    obtain ⟨hp, hafter⟩ := not_or.mp (mt List.mem_cons.mpr h)
    rw [lowerFrom, lowerAt_eq (Ne.symm hp), ih hafter, List.flatMap_cons]

/-- Without a sigma, the first character does not matter to the others. -/
theorem toLowerCase_cons_of_not_mem (hc : Json.isHighSurrogate c = false)
    (hsigma : capitalSigma ∉ s) :
    U.toLowerCase (c :: s) = U.toLowerCase [c] ++ U.toLowerCase s := by
  have hnot : .unit capitalSigma ∉ decode s := by rwa [mem_decode rfl rfl]
  rw [toLowerCase_cons hc, toLowerCase_singleton, lowerFrom_of_not_mem hnot, toLowerCase,
    lowerFrom_of_not_mem hnot]

theorem length_encode_lower (c : UInt16) : (encode (U.lower (.unit c))).length =
    1 + if c = dottedI then 1 else 0 := by
  have hlength := U.length_lower (.unit c)
  rw [hlength]
  simp [CodePoint.units]

theorem eq_of_encode_eq_singleton {c : UInt16} (h : encode points = [c]) : points = [.unit c] := by
  rcases points with _ | ⟨p, points⟩
  · cases h
  · cases p with
    | unit d =>
      obtain ⟨rfl, hrest⟩ := List.cons.inj h
      rcases points with _ | ⟨q, points⟩
      · rfl
      · cases q <;> cases hrest
    | pair high low hhigh hlow => cases h

/-! ## Letters -/

theorem letter_cases (h : isUpper c = true ∨ isLower c = true) :
    ∃ d e, isUpper d = true ∧ isLower e = true ∧ (c = d ∨ c = e) ∧
      U.upper (.unit c) = [.unit d] ∧ U.upper (.unit e) = [.unit d] ∧
      U.lower (.unit c) = [.unit e] ∧ U.lower (.unit d) = [.unit e] := by
  rcases h with h | h
  · have he := isLower_add h
    have hupper := U.upper_of_isLower _ he
    rw [UInt16.add_sub_cancel] at hupper
    have hlower := U.lower_of_isUpper c h
    exact ⟨c, c + 0x20, h, he, .inl rfl, U.upper_of_isUpper c h, hupper, hlower, hlower⟩
  · have hd := isUpper_sub h
    have hlower := U.lower_of_isUpper _ hd
    rw [UInt16.sub_add_cancel] at hlower
    have hupper := U.upper_of_isLower c h
    exact ⟨c - 0x20, c, hd, h, .inr rfl, hupper, hupper, U.lower_of_isLower c h, hlower⟩

theorem idContinue_letter (h : isUpper c = true ∨ isLower c = true) :
    U.idContinue (.unit c) = true := by
  rw [U.idContinue_ascii c (lt_of_letter h)]
  rcases h with h | h <;> simp [h]

theorem idStart_letter (h : isUpper c = true ∨ isLower c = true) :
    U.idStart (.unit c) = true := by
  rw [U.idStart_ascii c (lt_of_letter h)]
  rcases h with h | h <;> simp [h]

theorem isPlain_of_isMark (h : isMark c = true) : isPlain c = true := by
  simp only [isMark, Bool.or_eq_true, Bool.and_eq_true] at h
  rcases h with h | ⟨⟨⟨⟨⟨h, hupper⟩, hlower⟩, -⟩, -⟩, -⟩
  · simp [isPlain, h]
  · simp only [isPlain, h, hupper, hlower, Bool.and_self, Bool.or_true]

theorem idContinue_of_isMark (h : isMark c = true) : U.idContinue (.unit c) = false := by
  simp only [isMark, Bool.or_eq_true, Bool.and_eq_true, Bool.not_eq_true', bne_iff_ne,
    decide_eq_true_eq] at h
  rcases h with h | ⟨⟨⟨⟨⟨h, hupper⟩, hlower⟩, hdigit⟩, hdollar⟩, hline⟩
  · exact U.idContinue_of_isSpace c h
  · rw [U.idContinue_ascii c h]
    simp [hupper, hlower, hdigit, dollar, lowLine, hdollar, hline]

theorem idContinue_of_isIdentifierName (h : U.isIdentifierName s = true) :
    ∀ p ∈ decode s, U.idContinue p = true := by
  rw [isIdentifierName] at h
  split at h
  · cases h
  · next p points hs =>
    rw [Bool.and_eq_true, List.all_eq_true] at h
    rw [hs]
    exact List.forall_mem_cons.mpr ⟨U.idContinue_of_idStart p h.1, h.2⟩

theorem not_mem_of_isIdentifierName (h : U.isIdentifierName s = true) (hc : isMark c = true) :
    c ∉ s := by
  obtain ⟨hhigh, hlow⟩ := isPlain_not_surrogate (isPlain_of_isMark hc)
  intro hmem
  rw [← mem_decode hhigh hlow] at hmem
  have hcontinue := idContinue_of_isIdentifierName h _ hmem
  rw [idContinue_of_isMark hc] at hcontinue
  cases hcontinue

theorem ne_nil_of_isIdentifierName (h : U.isIdentifierName s = true) : s ≠ [] := by
  rintro rfl
  cases h

theorem isIdentifierName_append (hs : U.isIdentifierName s = true) {t : JsString}
    (ht : ∀ p ∈ decode t, U.idContinue p = true)
    (hhead : t.head?.any Json.isLowSurrogate = false) : U.isIdentifierName (s ++ t) = true := by
  have hnext : ∀ c ∈ t.head?, Json.isLowSurrogate c = false := fun c hc => by
    rwa [hc, Option.any_some] at hhead
  rw [isIdentifierName] at hs
  split at hs
  · cases hs
  · next p points hpoints =>
    rw [Bool.and_eq_true, List.all_eq_true] at hs
    rw [isIdentifierName, decode_append s t hnext, hpoints, List.cons_append]
    exact Bool.and_eq_true_iff.mpr ⟨hs.1, List.all_eq_true.mpr
      (List.forall_mem_append.mpr ⟨hs.2, ht⟩)⟩

theorem idContinue_of_letters (h : s.all (fun c => isUpper c || isLower c) = true) :
    ∀ p ∈ decode s, U.idContinue p = true := by
  induction s with
  | nil => nofun
  | cons c s ih =>
    rw [List.all_cons, Bool.and_eq_true, Bool.or_eq_true] at h
    obtain ⟨hc, hs⟩ := h
    rw [decode_cons (ascii_not_surrogate (lt_of_letter hc)).1]
    exact List.forall_mem_cons.mpr ⟨U.idContinue_letter hc, ih hs⟩

theorem isIdentifierName_letter (h : isUpper c = true ∨ isLower c = true) :
    U.isIdentifierName [c] = true := by
  have hpoints : decode [c] = [.unit c] := decode_cons (ascii_not_surrogate (lt_of_letter h)).1 []
  rw [isIdentifierName, hpoints]
  simp [U.idStart_letter h]

end CharacterData

end Unicode
