import Mathlib.Tactic.IntervalCases
import Noddde.Data.Digits
import Noddde.Engine.Uuid
/-!
# Identifiers and their time

The digits of an identifier start with its time, so that identifiers come in the order of
their times.
-/

namespace Noddde.Uuid

def digits (id : JsString) : JsString := id.filter (· ≠ dash)

/-- What the digits of an identifier say. -/
structure Encodes (now : ℤ) (bytes : Vector UInt8 16) (id : JsString) : Prop where
  timestamp : ∃ time : List Nat, time.length = 12 ∧ (∀ digit ∈ time, digit < 16) ∧
    Digits.value 16 time = now ∧ (digits id).take 12 = time.map Json.hexDigit
  version : (digits id)[12]? = some (Json.hexDigit 7)
  variant : ∃ digit ∈ [8, 9, 10, 11], (digits id)[16]? = some (Json.hexDigit digit)
  random : ∀ i, 12 < i → i ≠ 16 → (digits id)[i]? = (toHex bytes)[i]?

/-! ## Bytes -/

theorem toInt32_div (n k : Nat) : toInt32 ((n : ℚ) / 2 ^ k) = Int32.ofInt (n / 2 ^ k : Nat) := by
  have hfloor : ⌊(n : ℚ) / 2 ^ k⌋ = (n / 2 ^ k : Nat) := by
    have h := Rat.floor_natCast_div_natCast n (2 ^ k)
    push_cast at h ⊢
    exact h
  rw [toInt32, if_pos (by positivity), hfloor]

theorem toUint8_toNat (n : Int32) : (toUint8 n).toNat = n.toBitVec.toNat % 256 := by
  have hsigned : n.toInt % 2 ^ 32 = n.toBitVec.toNat % 2 ^ 32 := by
    rw [← Int32.toInt_toBitVec, BitVec.toInt_eq_toNat_bmod]
    exact Int.bmod_emod
  have hbyte : n.toInt % 2 ^ 8 = n.toBitVec.toNat % 2 ^ 8 := by omega
  rw [toUint8, UInt8.ofInt, hbyte, UInt8.toNat_ofNat']
  omega

/-- No quotient loses its last byte, whatever its sign is as a number of 32 bits. -/
theorem toUint8_and (n : Nat) : toUint8 (Int32.ofInt n &&& 0xff) = UInt8.ofNat n := by
  have hbits : (Int32.ofInt n &&& 0xff).toBitVec = BitVec.ofNat 32 n &&& 0xff := by
    rw [Int32.toBitVec_and, Int32.toBitVec_ofInt, BitVec.ofInt_natCast]
    rfl
  have hmask : (0xff : BitVec 32).toNat = 2 ^ 8 - 1 := rfl
  refine UInt8.toNat_inj.mp ?_
  rw [toUint8_toNat, hbits, BitVec.toNat_and, BitVec.toNat_ofNat, hmask,
    Nat.and_two_pow_sub_one_eq_mod, UInt8.toNat_ofNat']
  omega

theorem lowByte_div (n k : Nat) : lowByte ((n : ℚ) / 2 ^ k) = UInt8.ofNat (n / 2 ^ k) := by
  rw [lowByte, toInt32_div, toUint8_and]

theorem lowByte_natCast (n : Nat) : lowByte n = UInt8.ofNat n := by
  have h := lowByte_div n 0
  rwa [pow_zero, div_one, pow_zero, Nat.div_one] at h

theorem ofUint8_eq (byte : UInt8) : ofUint8 byte = Int32.ofInt byte.toNat := by
  have h := toInt32_div byte.toNat 0
  rwa [pow_zero, div_one, pow_zero, Nat.div_one] at h

def versionByte (byte : UInt8) : UInt8 := toUint8 ((ofUint8 byte &&& 0x0f) ||| 0x70)

def variantByte (byte : UInt8) : UInt8 := toUint8 ((ofUint8 byte &&& 0x3f) ||| 0x80)

theorem versionByte_toNat (byte : UInt8) :
    (versionByte byte).toNat = 0x70 + byte.toNat % 16 := by
  have hbyte : ∀ n < 256, (toUint8 ((Int32.ofInt (n : Nat) &&& 0x0f) ||| 0x70)).toNat =
      0x70 + n % 16 := by
    decide +kernel
  rw [versionByte, ofUint8_eq, hbyte _ byte.toNat_lt]

theorem variantByte_toNat (byte : UInt8) :
    (variantByte byte).toNat = 0x80 + byte.toNat % 64 := by
  have hbyte : ∀ n < 256, (toUint8 ((Int32.ofInt (n : Nat) &&& 0x3f) ||| 0x80)).toNat =
      0x80 + n % 64 := by
    decide +kernel
  rw [variantByte, ofUint8_eq, hbyte _ byte.toNat_lt]

theorem uuidBytes_getElem (now : Nat) (bytes : Vector UInt8 16) (i : Nat) (hi : i < 16) :
    (uuidBytes now bytes)[i] =
      if i < 6 then UInt8.ofNat (now / 256 ^ (5 - i))
      else if i = 6 then versionByte bytes[6]
      else if i = 8 then variantByte bytes[8]
      else bytes[i] := by
  simp only [uuidBytes, Int.cast_natCast, lowByte_div, lowByte_natCast, Vector.getElem_set]
  interval_cases i <;> simp [versionByte, variantByte]

/-! ## Digits -/

theorem getElem?_flatMap_byteHex (bytes : List UInt8) (i : Nat) :
    (bytes.flatMap byteHex)[i]? = bytes[i / 2]?.map fun byte =>
      Json.hexDigit (if i % 2 = 0 then byte.toNat / 16 else byte.toNat % 16) := by
  induction bytes generalizing i with
  | nil => simp
  | cons byte bytes ih =>
      match i with
      | 0 => rfl
      | 1 => rfl
      | i + 2 =>
          have hdiv : (i + 2) / 2 = i / 2 + 1 := by omega
          have hmod : (i + 2) % 2 = i % 2 := by omega
          rw [hdiv, hmod, List.getElem?_cons_succ, ← ih]
          rfl

theorem toHex_getElem? (bytes : Vector UInt8 16) (i : Nat) :
    (toHex bytes)[i]? = bytes[i / 2]?.map fun byte =>
      Json.hexDigit (if i % 2 = 0 then byte.toNat / 16 else byte.toNat % 16) := by
  rw [toHex, getElem?_flatMap_byteHex, Vector.getElem?_toList]

theorem hexDigit_lt_hexDigit : ∀ m < 16, ∀ n < 16, m < n → Json.hexDigit m < Json.hexDigit n := by
  decide

theorem hexDigit_ne_dash : ∀ n < 16, Json.hexDigit n ≠ dash := by decide

/-- The first six bytes are the number of milliseconds, the most significant first. -/
theorem take_uuidBytes (now : Nat) (bytes : Vector UInt8 16) :
    (uuidBytes now bytes).toList.take 6 = (Digits.fixed 256 6 now).map UInt8.ofNat := by
  refine List.ext_getElem (by simp) fun i hi _ => ?_
  have hlt : i < 6 := by simpa using hi
  rw [List.getElem_take, Vector.getElem_toList, uuidBytes_getElem now bytes i (by omega),
    if_pos hlt, List.getElem_map, Digits.getElem_fixed]
  exact (UInt8.ofNat_mod_size ..).symm

theorem take_flatMap_byteHex (bytes : List UInt8) (n : Nat) :
    (bytes.flatMap byteHex).take (2 * n) = (bytes.take n).flatMap byteHex := by
  induction n generalizing bytes with
  | zero => rfl
  | succ n ih =>
      cases bytes with
      | nil => rfl
      | cons byte bytes =>
          have htwo : 2 * (n + 1) = 2 * n + 1 + 1 := by omega
          rw [htwo, List.take_succ_cons, List.flatMap_cons, List.flatMap_cons, ← ih]
          rfl

theorem byteHex_ofNat {n : Nat} (hn : n < 256) :
    byteHex (UInt8.ofNat n) = [n / 16, n % 16].map Json.hexDigit := by
  rw [byteHex, UInt8.toNat_ofNat_of_lt' hn]
  rfl

/-- The first twelve digits are those of the number of milliseconds. -/
theorem take_toHex (now : Nat) (bytes : Vector UInt8 16) :
    (toHex (uuidBytes now bytes)).take 12 = (Digits.fixed 16 12 now).map Json.hexDigit := by
  have hpairs : ((Digits.fixed (16 * 16) 6 now).map UInt8.ofNat).flatMap byteHex =
      ((Digits.fixed (16 * 16) 6 now).flatMap fun digit => [digit / 16, digit % 16]).map
        Json.hexDigit := by
    rw [List.flatMap_map, List.map_flatMap]
    exact List.flatMap_congr fun digit hmem =>
      byteHex_ofNat (Digits.lt_of_mem_fixed (by decide) hmem)
  rw [toHex, take_flatMap_byteHex _ 6, take_uuidBytes, hpairs, Digits.flatMap_fixed]

/-! ## The text -/

theorem slice_append_drop (text : JsString) {start stop : Nat} (hle : start ≤ stop) :
    slice text start stop ++ text.drop stop = text.drop start := by
  obtain ⟨length, rfl⟩ := Nat.exists_eq_add_of_le hle
  rw [slice, List.drop_take, Nat.add_sub_cancel_left, ← List.drop_drop, List.take_append_drop]

theorem ne_dash_of_mem_toHex {bytes : Vector UInt8 16} {c : UInt16} (hmem : c ∈ toHex bytes) :
    c ≠ dash := by
  obtain ⟨byte, -, hdigit⟩ := List.mem_flatMap.mp hmem
  have hbyte := byte.toNat_lt
  simp only [byteHex, List.mem_cons, List.not_mem_nil, or_false] at hdigit
  rcases hdigit with rfl | rfl
  · exact hexDigit_ne_dash _ (by omega)
  · exact hexDigit_ne_dash _ (by omega)

theorem digits_eq_self {text hex : JsString} (hsub : text.Sublist hex)
    (hhex : ∀ c ∈ hex, c ≠ dash) : digits text = text :=
  List.filter_eq_self.mpr fun c hmem => decide_eq_true (hhex c (hsub.subset hmem))

theorem digits_append_dash (front rest : JsString) :
    digits (front ++ dash :: rest) = digits front ++ digits rest := by
  rw [digits, List.filter_append, List.filter_cons_of_neg (by simp)]
  rfl

theorem digits_uuidv7 (now : ℤ) (bytes : Vector UInt8 16) :
    digits (uuidv7 now bytes) = toHex (uuidBytes now bytes) := by
  have hhex : ∀ c ∈ toHex (uuidBytes now bytes), c ≠ dash := fun c => ne_dash_of_mem_toHex
  have hslice : ∀ start stop, digits (slice (toHex (uuidBytes now bytes)) start stop) =
      slice (toHex (uuidBytes now bytes)) start stop := fun start stop =>
    digits_eq_self ((List.drop_sublist _ _).trans (List.take_sublist _ _)) hhex
  have hrest := digits_eq_self (List.drop_sublist 20 (toHex (uuidBytes now bytes))) hhex
  simp only [uuidv7, digits_append_dash, hslice, hrest]
  rw [slice_append_drop _ (by decide), slice_append_drop _ (by decide),
    slice_append_drop _ (by decide), slice_append_drop _ (by decide), List.drop_zero]

/-! ## What an identifier says -/

/-- A digit that is none of the time, of the version and of the variant. -/
theorem toHex_uuidBytes_random (now : Nat) (bytes : Vector UInt8 16) {i : Nat} (hi : 12 < i)
    (hvariant : i ≠ 16) : (toHex (uuidBytes now bytes))[i]? = (toHex bytes)[i]? := by
  rw [toHex_getElem?, toHex_getElem?]
  by_cases hlt : i / 2 < 16
  · rw [Vector.getElem?_eq_getElem hlt, Vector.getElem?_eq_getElem hlt,
      uuidBytes_getElem now bytes _ hlt, if_neg (by omega), Option.map_some, Option.map_some]
    by_cases hsix : i / 2 = 6
    · have hodd : ¬ i % 2 = 0 := by omega
      simp only [hsix, if_true, if_neg hodd, versionByte_toNat]
      congr 2
      omega
    · rw [if_neg hsix]
      by_cases height : i / 2 = 8
      · have hodd : ¬ i % 2 = 0 := by omega
        simp only [height, if_true, if_neg hodd, variantByte_toNat]
        congr 2
        omega
      · rw [if_neg height]
  · rw [Vector.getElem?_eq_none (by omega), Vector.getElem?_eq_none (by omega)]

theorem encodes_uuidv7 {now : Nat} (hlt : now < 2 ^ 48) (bytes : Vector UInt8 16) :
    Encodes now bytes (uuidv7 now bytes) := by
  have hdigits := digits_uuidv7 now bytes
  refine ⟨⟨Digits.fixed 16 12 now, Digits.length_fixed 12 now, fun digit =>
    Digits.lt_of_mem_fixed (by decide), ?_, ?_⟩, ?_, ?_, ?_⟩
  · rw [Digits.value_fixed, Nat.mod_eq_of_lt (by omega)]
  · rw [hdigits]
    exact take_toHex now bytes
  · have hbyte := uuidBytes_getElem now bytes 6 (by decide)
    have hseven : (versionByte bytes[6]).toNat / 16 = 7 := by
      rw [versionByte_toNat]
      omega
    rw [hdigits]
    rw [toHex_getElem?, Vector.getElem?_eq_getElem (by decide), hbyte]
    exact congrArg (fun digit => some (Json.hexDigit digit)) hseven
  · have hbyte := uuidBytes_getElem now bytes 8 (by decide)
    refine ⟨(variantByte bytes[8]).toNat / 16, ?_, ?_⟩
    · rw [variantByte_toNat]
      have hmod := Nat.mod_lt bytes[8].toNat (by decide : 64 > 0)
      simp only [List.mem_cons, List.not_mem_nil, or_false]
      omega
    · rw [hdigits, toHex_getElem?, Vector.getElem?_eq_getElem (by decide), hbyte]
      rfl
  · intro i hi hvariant
    rw [hdigits]
    exact toHex_uuidBytes_random now bytes hi hvariant

/-- An identifier starts with two groups of digits of its time. -/
theorem uuidv7_groups (now : Nat) (bytes : Vector UInt8 16) : ∃ rest, uuidv7 now bytes =
    (Digits.fixed 16 8 (now / 16 ^ 4)).map Json.hexDigit ++
      ([dash] ++ ((Digits.fixed 16 4 now).map Json.hexDigit ++ rest)) := by
  have htime := take_toHex now bytes
  rw [Digits.fixed_append 8 4, List.map_append] at htime
  have hfirst : slice (toHex (uuidBytes now bytes)) 0 8 =
      (Digits.fixed 16 8 (now / 16 ^ 4)).map Json.hexDigit := by
    have htake := congrArg (List.take 8) htime
    rw [List.take_take, List.take_left' (by simp)] at htake
    exact htake
  have hsecond : slice (toHex (uuidBytes now bytes)) 8 12 =
      (Digits.fixed 16 4 now).map Json.hexDigit := by
    rw [slice, htime, List.drop_left' (by simp)]
  exact ⟨_, by rw [uuidv7, hfirst, hsecond]; rfl⟩

theorem uuidv7_lt {now₁ now₂ : Nat} (hlt : now₁ < now₂) (h₂ : now₂ < 2 ^ 48)
    (bytes₁ bytes₂ : Vector UInt8 16) : uuidv7 now₁ bytes₁ < uuidv7 now₂ bytes₂ := by
  obtain ⟨rest₁, heq₁⟩ := uuidv7_groups now₁ bytes₁
  obtain ⟨rest₂, heq₂⟩ := uuidv7_groups now₂ bytes₂
  rw [heq₁, heq₂]
  exact Digits.groups_lt_groups hexDigit_lt_hexDigit hlt h₂ [dash] rest₁ rest₂

/-- An identifier shows its time, its version and its variant, and identifiers come in the
order of their times. -/
theorem uuidv7_encodes_time :
    (∀ now bytes, 0 ≤ now → now < 2 ^ 48 → Encodes now bytes (uuidv7 now bytes)) ∧
    ∀ now₁ now₂ bytes₁ bytes₂, 0 ≤ now₁ → now₁ < now₂ → now₂ < 2 ^ 48 →
      uuidv7 now₁ bytes₁ < uuidv7 now₂ bytes₂ := by
  constructor
  · intro now bytes h₀ hlt
    obtain ⟨n, rfl⟩ := Int.eq_ofNat_of_zero_le h₀
    exact encodes_uuidv7 (by exact_mod_cast hlt) bytes
  · intro now₁ now₂ bytes₁ bytes₂ h₀ hlt h₂
    obtain ⟨n₁, rfl⟩ := Int.eq_ofNat_of_zero_le h₀
    obtain ⟨n₂, rfl⟩ := Int.eq_ofNat_of_zero_le (h₀.trans hlt.le)
    exact uuidv7_lt (by exact_mod_cast hlt) (by exact_mod_cast h₂) bytes₁ bytes₂

theorem uuidv7_encodes_time_2026 :
    Encodes 1767225600000 (.replicate 16 0xff) (uuidv7 1767225600000 (.replicate 16 0xff)) ∧
      uuidv7 1767225600000 (.replicate 16 0xff) < uuidv7 1767225600001 (.replicate 16 0) :=
  ⟨uuidv7_encodes_time.1 _ _ (by decide) (by decide),
    uuidv7_encodes_time.2 _ _ _ _ (by decide) (by decide) (by decide)⟩

end Noddde.Uuid
