import Mathlib.Data.Int.ModEq
import Mathlib.Data.Nat.Bitwise
import Mathlib.Tactic.Ring
/-!
# FNV-1a at a width

The hash is folded over units: xor, then multiply, modulo a power of two.  A fold over
unbounded numbers follows it where each step masks its product, and the signed number of a
hash tells it from every other.
-/

namespace Fnv

variable {w : Nat}

def step (prime hash unit : BitVec w) : BitVec w := (hash ^^^ unit) * prime

def fold (prime basis : BitVec w) (units : List (BitVec w)) : BitVec w :=
  units.foldl (step prime) basis

/-- The step on numbers, with the product masked. -/
def maskedStep (prime mask hash unit : Nat) : Nat := ((hash ^^^ unit) * prime) &&& mask

/-- The number of the same bits below `2 ^ (w - 1)`. -/
def signed (w hash : Nat) : Int :=
  if hash ≥ 2 ^ (w - 1) then (hash : Int) - 2 ^ w else hash

theorem maskedStep_toNat (prime hash unit : BitVec w) :
    maskedStep prime.toNat (2 ^ w - 1) hash.toNat unit.toNat =
      (step prime hash unit).toNat := by
  rw [maskedStep, step, Nat.and_two_pow_sub_one_eq_mod, BitVec.toNat_mul, BitVec.toNat_xor]

/-- The mask keeps the fold over numbers in step with the one over words. -/
theorem maskedFold_toNat (prime basis : BitVec w) (units : List (BitVec w)) :
    (units.map BitVec.toNat).foldl (maskedStep prime.toNat (2 ^ w - 1)) basis.toNat =
      (fold prime basis units).toNat := by
  induction units generalizing basis with
  | nil => rfl
  | cons unit units ih =>
      rw [List.map_cons, List.foldl_cons, maskedStep_toNat, ih]
      rfl

theorem signed_toNat (hash : BitVec w) : signed w hash.toNat = hash.toInt := by
  have hlt := hash.isLt
  rw [signed, BitVec.toInt_eq_toNat_cond]
  cases w with
  | zero =>
      have hzero : hash.toNat = 0 := by omega
      simp [hzero]
  | succ w =>
      rw [Nat.add_sub_cancel]
      rw [pow_succ] at hlt ⊢
      by_cases hhigh : hash.toNat ≥ 2 ^ w
      · rw [if_pos hhigh, if_neg (by omega)]
        push_cast
        ring
      · rw [if_neg hhigh, if_pos (by omega)]

end Fnv
