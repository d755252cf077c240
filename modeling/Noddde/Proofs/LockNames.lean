import Noddde.Adapters.AdvisoryLocker
/-!
# The advisory locks of keys

Two keys share a lock where their folds are equal, and nowhere else.
-/

namespace Noddde.Adapters

open Persistence

theorem bigint_toInt (hash : BitVec 64) :
    bigint hash.toInt = some (Int64.ofBitVec hash) := by
  have hlow : -2 ^ 63 ≤ hash.toInt := BitVec.le_toInt hash
  have hhigh : hash.toInt < 2 ^ 63 := BitVec.toInt_lt
  rw [bigint, if_pos ⟨hlow, hhigh⟩, Int64.ofInt_bitVecToInt]

theorem lockId_eq (key : JsString) :
    PostgresLocker.lockId key = some (Int64.ofBitVec (fnv1a key)) := by
  rw [PostgresLocker.lockId, fnv1a64_eq, bigint_toInt]

theorem toBitVec_foldl (key : JsString) (hash : UInt64) :
    (key.foldl (fun hash (unit : UInt16) => (hash ^^^ unit.toUInt64) * 0x100000001b3)
        hash).toBitVec =
      Fnv.fold 0x100000001b3 hash.toBitVec
        (key.map fun unit => unit.toBitVec.setWidth 64) := by
  induction key generalizing hash with
  | nil => rfl
  | cons unit key ih => exact ih ((hash ^^^ unit.toUInt64) * 0x100000001b3)

/-- The lock is the hash in machine words. -/
theorem lockId_eq_fnv1a64 (key : JsString) :
    PostgresLocker.lockId key = some (Adapters.fnv1a64 key) := by
  rw [lockId_eq]
  exact congrArg (fun bits => some (Int64.ofBitVec bits)) (toBitVec_foldl key _).symm

theorem lockId_eq_iff (key₁ key₂ : JsString) :
    PostgresLocker.lockId key₁ = PostgresLocker.lockId key₂ ↔ fnv1a key₁ = fnv1a key₂ := by
  rw [lockId_eq, lockId_eq, Option.some.injEq]
  exact ⟨fun h => congrArg Int64.toBitVec h, fun h => congrArg Int64.ofBitVec h⟩

/-- `fnv1a64` is the fold, in the range of `bigint`, and no two folds share a lock. -/
theorem fnv1a64_is_fnv1a :
    (∀ key, -2 ^ 63 ≤ Persistence.fnv1a64 key ∧ Persistence.fnv1a64 key < 2 ^ 63 ∧
      Persistence.fnv1a64 key ≡ (fnv1a key).toNat [ZMOD 2 ^ 64]) ∧
    ∀ key₁ key₂, (∃ lock, PostgresLocker.lockId key₁ = some lock) ∧
      (PostgresLocker.lockId key₁ = PostgresLocker.lockId key₂ ↔ fnv1a key₁ = fnv1a key₂) := by
  refine ⟨fun key => ?_, fun key₁ key₂ => ⟨⟨_, lockId_eq key₁⟩, lockId_eq_iff key₁ key₂⟩⟩
  rw [fnv1a64_eq]
  refine ⟨BitVec.le_toInt _, BitVec.toInt_lt, ?_⟩
  rw [BitVec.toInt_eq_toNat_bmod]
  exact Int.bmod_emod

end Noddde.Adapters
