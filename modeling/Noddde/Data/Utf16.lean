import Mathlib.Data.List.Chain
import Noddde.Data.Json
/-!
# Code points of a UTF-16 text

Two surrogates in order are one code point; a surrogate without its other half stands for
itself.
-/

open Json (isHighSurrogate isLowSurrogate)

inductive CodePoint where
  | unit (c : UInt16)
  | pair (high low : UInt16) (hhigh : isHighSurrogate high = true) (hlow : isLowSurrogate low = true)
  deriving DecidableEq

namespace CodePoint

def units : CodePoint → JsString
  | .unit c => [c]
  | .pair high low _ _ => [high, low]

def isLoneHigh : CodePoint → Bool
  | .unit c => isHighSurrogate c
  | .pair .. => false

def isLoneLow : CodePoint → Bool
  | .unit c => isLowSurrogate c
  | .pair .. => false

def isLone (p : CodePoint) : Bool := p.isLoneHigh || p.isLoneLow

end CodePoint

namespace Utf16

open CodePoint

def encode (points : List CodePoint) : JsString := points.flatMap units

def decode : JsString → List CodePoint
  | [] => []
  | [c] => [.unit c]
  | c :: d :: rest =>
      if h : isHighSurrogate c = true ∧ isLowSurrogate d = true then
        .pair c d h.1 h.2 :: decode rest
      else .unit c :: decode (d :: rest)

@[simp] theorem encode_nil : encode [] = [] := rfl

@[simp] theorem encode_cons (p : CodePoint) (points : List CodePoint) :
    encode (p :: points) = p.units ++ encode points := rfl

@[simp] theorem encode_append (points points' : List CodePoint) :
    encode (points ++ points') = encode points ++ encode points' :=
  List.flatMap_append

theorem encode_decode (s : JsString) : encode (decode s) = s := by
  fun_induction decode s with
  | case1 => rfl
  | case2 c => rfl
  | case3 c d rest h ih => rw [encode_cons, ih]; rfl
  | case4 c d rest h ih => rw [encode_cons, ih]; rfl

theorem decode_unit_cons {c : UInt16} {s : JsString}
    (h : ∀ d ∈ s.head?, ¬ (isHighSurrogate c = true ∧ isLowSurrogate d = true)) :
    decode (c :: s) = .unit c :: decode s := by
  cases s with
  | nil => rfl
  | cons d rest => rw [decode, dif_neg (h d rfl)]

theorem decode_cons {c : UInt16} (hc : isHighSurrogate c = false) (s : JsString) :
    decode (c :: s) = .unit c :: decode s :=
  decode_unit_cons fun _ _ h => by simp [hc] at h

/-- No surrogate of the first text meets its other half in the second. -/
theorem decode_append (s t : JsString) (ht : ∀ c ∈ t.head?, isLowSurrogate c = false) :
    decode (s ++ t) = decode s ++ decode t := by
  fun_induction decode s with
  | case1 => rfl
  | case2 c =>
    cases t with
    | nil => rfl
    | cons d rest =>
      have hd : isLowSurrogate d = false := ht d rfl
      simp [decode, hd]
  | case3 c d rest h ih => simp only [List.cons_append, decode, dif_pos h, ih]
  | case4 c d rest h ih =>
    simp only [List.cons_append, decode, dif_neg h]
    rw [List.cons_append] at ih
    rw [ih]

theorem not_lone_units {c : UInt16} (hhigh : isHighSurrogate c = false)
    (hlow : isLowSurrogate c = false) (p : CodePoint) : c ∈ p.units ↔ p = .unit c := by
  cases p with
  | unit d => simp [units, eq_comm]
  | pair high low h l =>
    have hc₁ : c ≠ high := fun heq => by simp [heq, h] at hhigh
    have hc₂ : c ≠ low := fun heq => by simp [heq, l] at hlow
    simp [units, hc₁, hc₂]

theorem mem_encode {c : UInt16} (hhigh : isHighSurrogate c = false)
    (hlow : isLowSurrogate c = false) (points : List CodePoint) :
    c ∈ encode points ↔ .unit c ∈ points := by
  simp only [encode, List.mem_flatMap, not_lone_units hhigh hlow]
  simp

theorem mem_decode {c : UInt16} (hhigh : isHighSurrogate c = false)
    (hlow : isLowSurrogate c = false) (s : JsString) : .unit c ∈ decode s ↔ c ∈ s := by
  rw [← mem_encode hhigh hlow, encode_decode]

theorem count_encode {c : UInt16} (hhigh : isHighSurrogate c = false)
    (hlow : isLowSurrogate c = false) (points : List CodePoint) :
    (encode points).count c = points.count (.unit c) := by
  induction points with
  | nil => rfl
  | cons p points ih =>
    rw [encode_cons, List.count_append, ih, List.count_cons, Nat.add_comm]
    congr 1
    cases p with
    | unit d => simp [units, List.count_cons]
    | pair high low h l =>
      have hnot : c ∉ (pair high low h l).units := by simp [not_lone_units hhigh hlow]
      simp [List.count_eq_zero_of_not_mem hnot]

theorem count_decode {c : UInt16} (hhigh : isHighSurrogate c = false)
    (hlow : isLowSurrogate c = false) (s : JsString) :
    (decode s).count (.unit c) = s.count c := by
  rw [← count_encode hhigh hlow, encode_decode]

/-- No two halves of a pair stand next to each other in order. -/
def Apart (points : List CodePoint) : Prop :=
  points.IsChain fun p q => ¬ (p.isLoneHigh = true ∧ q.isLoneLow = true)

theorem head?_decode_isLoneLow {d : UInt16} {rest : JsString} {q : CodePoint}
    (hq : q ∈ (decode (d :: rest)).head?) (hlow : q.isLoneLow = true) :
    isLowSurrogate d = true := by
  cases rest with
  | nil =>
    obtain rfl : CodePoint.unit d = q := by simpa [decode] using hq
    exact hlow
  | cons e rest =>
    rw [decode] at hq
    split at hq
    · obtain rfl := Option.some.inj hq
      cases hlow
    · obtain rfl := Option.some.inj hq
      exact hlow

theorem apart_decode (s : JsString) : Apart (decode s) := by
  fun_induction decode s with
  | case1 => exact .nil
  | case2 c => exact .singleton _
  | case3 c d rest h ih =>
    refine List.isChain_cons.mpr ⟨fun q _ => ?_, ih⟩
    simp [isLoneHigh]
  | case4 c d rest h ih =>
    refine List.isChain_cons.mpr ⟨fun q hq ⟨hhigh, hlow⟩ => ?_, ih⟩
    exact h ⟨hhigh, head?_decode_isLoneLow hq hlow⟩

theorem not_low_of_high {c : UInt16} (h : isHighSurrogate c = true) : isLowSurrogate c = false := by
  simp only [isHighSurrogate, isLowSurrogate, Bool.and_eq_true, decide_eq_true_eq] at *
  simp [UInt16.not_le.mpr h.2]

theorem head?_encode {points : List CodePoint} {d : UInt16} (hd : d ∈ (encode points).head?)
    (hlow : isLowSurrogate d = true) : ∃ p ∈ points.head?, p.isLoneLow = true := by
  cases points with
  | nil => cases hd
  | cons p points =>
    refine ⟨p, rfl, ?_⟩
    cases p with
    | unit c =>
      obtain rfl := Option.some.inj hd
      exact hlow
    | pair high low hhigh _ =>
      obtain rfl := Option.some.inj hd
      rw [not_low_of_high hhigh] at hlow
      cases hlow

theorem decode_encode {points : List CodePoint} (h : Apart points) :
    decode (encode points) = points := by
  induction points with
  | nil => rfl
  | cons p points ih =>
    obtain ⟨hhead, hrest⟩ := List.isChain_cons.mp h
    cases p with
    | pair high low hhigh hlow =>
      have hpair : isHighSurrogate high = true ∧ isLowSurrogate low = true := ⟨hhigh, hlow⟩
      simp only [encode_cons, units, List.cons_append, List.nil_append, decode, dif_pos hpair,
        ih hrest]
    | unit c =>
      have hnext : ∀ d ∈ (encode points).head?,
          ¬ (isHighSurrogate c = true ∧ isLowSurrogate d = true) := by
        rintro d hd ⟨hhigh, hlow⟩
        obtain ⟨q, hq, hloneLow⟩ := head?_encode hd hlow
        exact hhead q hq ⟨hhigh, hloneLow⟩
      rw [encode_cons, units, List.singleton_append, decode_unit_cons hnext, ih hrest]

end Utf16
