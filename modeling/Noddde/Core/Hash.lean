import Noddde.Data.Fnv
import Noddde.Data.Json
/-!
# fnv1a64

The key of an advisory lock, as a number.
-/

namespace Noddde.Persistence

def FNV_OFFSET_BASIS : Nat := 0xcbf29ce484222325

def FNV_PRIME : Nat := 0x100000001b3

def MASK : Nat := 0xffffffffffffffff

/-- The loop; none of its numbers is negative. -/
def hashUnits (key : JsString) : Nat :=
  key.foldl (fun hash unit => ((hash ^^^ unit.toNat) * FNV_PRIME) &&& MASK) FNV_OFFSET_BASIS

def fnv1a64 (key : JsString) : Int :=
  let hash := hashUnits key
  if hash ≥ 0x8000000000000000 then hash - 0x10000000000000000 else hash

/-- FNV-1a over the code units, in words of 64 bits. -/
def fnv1a (key : JsString) : BitVec 64 :=
  Fnv.fold 0x100000001b3 0xcbf29ce484222325 (key.map fun unit => unit.toBitVec.setWidth 64)

theorem hashUnits_eq (key : JsString) : hashUnits key = (fnv1a key).toNat := by
  have hunits : (key.map fun unit => unit.toBitVec.setWidth 64).map BitVec.toNat =
      key.map UInt16.toNat := by
    rw [List.map_map]
    refine List.map_congr_left fun unit _ => ?_
    rw [Function.comp_apply, BitVec.toNat_setWidth_of_le (by decide)]
    rfl
  rw [fnv1a, ← Fnv.maskedFold_toNat, hunits, List.foldl_map]
  rfl

theorem fnv1a64_eq (key : JsString) : fnv1a64 key = (fnv1a key).toInt := by
  rw [← Fnv.signed_toNat, ← hashUnits_eq]
  rfl

example : fnv1a64 (Json.ascii "a") = -5808556873153909620 := by decide

end Noddde.Persistence
