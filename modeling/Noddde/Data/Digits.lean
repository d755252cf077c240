import Mathlib.Data.List.Lex
import Mathlib.Data.Nat.Init
import Mathlib.Order.Monotone.Defs
import Mathlib.Tactic.Ring
/-!
# Digits at a width

The digits of a number, the first the most significant.  At one width the lexicographic
order of the digits is the order of the numbers, and a text around the digits keeps it.
-/

namespace Digits

/-- The last `width` digits of `n`. -/
def fixed (base : Nat) : Nat → Nat → List Nat
  | 0, _ => []
  | width + 1, n => n / base ^ width % base :: fixed base width n

def value (base : Nat) (digits : List Nat) : Nat :=
  digits.foldl (fun n digit => n * base + digit) 0

variable {base : Nat}

@[simp] theorem length_fixed (width n : Nat) : (fixed base width n).length = width := by
  induction width with
  | zero => rfl
  | succ width ih => rw [fixed, List.length_cons, ih]

theorem getElem_fixed (width n i : Nat) (hi : i < (fixed base width n).length) :
    (fixed base width n)[i] = n / base ^ (width - 1 - i) % base := by
  induction width generalizing i with
  | zero => cases hi
  | succ width ih => cases i with
    | zero => rfl
    | succ i =>
        have hexponent : width + 1 - 1 - (i + 1) = width - 1 - i := by omega
        rw [hexponent]
        exact ih i (Nat.lt_of_succ_lt_succ hi)

theorem lt_of_mem_fixed (hbase : 0 < base) {width n digit : Nat}
    (hmem : digit ∈ fixed base width n) : digit < base := by
  induction width with
  | zero => cases hmem
  | succ width ih =>
      rcases List.mem_cons.mp hmem with rfl | hrest
      · exact Nat.mod_lt _ hbase
      · exact ih hrest

theorem foldl_fixed (width n start : Nat) :
    (fixed base width n).foldl (fun m digit => m * base + digit) start =
      start * base ^ width + n % base ^ width := by
  induction width generalizing start with
  | zero => simp [fixed, Nat.mod_one]
  | succ width ih =>
      rw [fixed, List.foldl_cons, ih, Nat.mod_pow_succ]
      ring

/-- The digits are those of the number. -/
theorem value_fixed (width n : Nat) : value base (fixed base width n) = n % base ^ width := by
  rw [value, foldl_fixed, Nat.zero_mul, Nat.zero_add]

theorem fixed_append (left right n : Nat) :
    fixed base (left + right) n = fixed base left (n / base ^ right) ++ fixed base right n := by
  induction left with
  | zero => rw [Nat.zero_add, fixed, List.nil_append]
  | succ left ih =>
      rw [Nat.add_right_comm, fixed, fixed, ih, List.cons_append, Nat.div_div_eq_div_mul,
        ← Nat.pow_add, Nat.add_comm right left]

/-- A digit of the square of a base is two digits of the base. -/
theorem flatMap_fixed (width n : Nat) :
    (fixed (base * base) width n).flatMap (fun digit => [digit / base, digit % base]) =
      fixed base (2 * width) n := by
  induction width with
  | zero => rfl
  | succ width ih =>
      have hpow : (base * base) ^ width = base ^ (2 * width) := by
        rw [← pow_two, ← pow_mul]
      have hhigh : n / (base * base) ^ width % (base * base) / base =
          n / base ^ (2 * width + 1) % base := by
        rw [Nat.mod_mul_left_div_self, hpow, Nat.div_div_eq_div_mul, ← pow_succ]
      have hlow : n / (base * base) ^ width % (base * base) % base =
          n / base ^ (2 * width) % base := by
        rw [Nat.mod_mul_left_mod, hpow]
      rw [fixed, List.flatMap_cons, hhigh, hlow, ih]
      rfl

/-! ## The lexicographic order -/

/-- The leading digit decides, and where it is the same the rest does. -/
theorem add_mul_lt_add_mul_iff {p r₁ r₂ x₁ x₂ : Nat} (h₁ : r₁ < p) (h₂ : r₂ < p) :
    r₁ + p * x₁ < r₂ + p * x₂ ↔ x₁ < x₂ ∨ x₁ = x₂ ∧ r₁ < r₂ := by
  rcases Nat.lt_trichotomy x₁ x₂ with hlt | rfl | hgt
  · have hle : p * x₁ + p ≤ p * x₂ := Nat.mul_succ p x₁ ▸ Nat.mul_le_mul_left p hlt
    exact iff_of_true (by omega) (.inl hlt)
  · omega
  · have hle : p * x₂ + p ≤ p * x₁ := Nat.mul_succ p x₂ ▸ Nat.mul_le_mul_left p hgt
    exact iff_of_false (by omega) (by omega)

theorem fixed_lt_fixed_iff (hbase : 0 < base) (width m n : Nat) :
    fixed base width m < fixed base width n ↔ m % base ^ width < n % base ^ width := by
  induction width with
  | zero => simp [fixed, Nat.mod_one]
  | succ width ih =>
      have hpow : 0 < base ^ width := Nat.pow_pos hbase
      rw [fixed, fixed, List.cons_lt_cons_iff, ih, Nat.mod_pow_succ, Nat.mod_pow_succ,
        add_mul_lt_add_mul_iff (Nat.mod_lt m hpow) (Nat.mod_lt n hpow)]

variable {α : Type} [LT α]

theorem append_lt_append_of_lt {a b : List α} (hlength : a.length = b.length) (hlt : a < b)
    (c d : List α) : a ++ c < b ++ d := by
  induction a generalizing b with
  | nil => cases b with
    | nil => cases hlt
    | cons y b => cases hlength
  | cons x a ih => cases b with
    | nil => cases hlength
    | cons y b =>
        rw [List.cons_append, List.cons_append, List.cons_lt_cons_iff]
        rcases List.cons_lt_cons_iff.mp hlt with hhead | ⟨rfl, htail⟩
        · exact .inl hhead
        · exact .inr ⟨rfl, ih (Nat.succ.inj hlength) htail⟩

theorem map_lt_map {f : Nat → α} (hmono : ∀ x < base, ∀ y < base, x < y → f x < f y)
    {a b : List Nat} (ha : ∀ x ∈ a, x < base) (hb : ∀ x ∈ b, x < base) (hlt : a < b) :
    a.map f < b.map f := by
  induction a generalizing b with
  | nil => cases b with
    | nil => cases hlt
    | cons y b => exact List.Lex.nil
  | cons x a ih => cases b with
    | nil => cases hlt
    | cons y b =>
        have hx := ha x List.mem_cons_self
        have hy := hb y List.mem_cons_self
        rw [List.map_cons, List.map_cons, List.cons_lt_cons_iff]
        rcases List.cons_lt_cons_iff.mp hlt with hhead | ⟨rfl, htail⟩
        · exact .inl (hmono x hx y hy hhead)
        · exact .inr ⟨rfl, ih (fun z hz => ha z (List.mem_cons_of_mem x hz))
            (fun z hz => hb z (List.mem_cons_of_mem x hz)) htail⟩

/-- A smaller number comes first, also where its digits stand in two groups with a text
between them, and whatever follows. -/
theorem groups_lt_groups {f : Nat → α} (hmono : ∀ x < base, ∀ y < base, x < y → f x < f y)
    {left right m n : Nat} (hlt : m < n) (hn : n < base ^ (left + right))
    (between : List α) (c d : List α) :
    (fixed base left (m / base ^ right)).map f ++ (between ++ ((fixed base right m).map f ++ c)) <
      (fixed base left (n / base ^ right)).map f ++
        (between ++ ((fixed base right n).map f ++ d)) := by
  have hbase : 0 < base := by
    rcases Nat.eq_zero_or_pos base with rfl | hbase
    · have hle : 0 ^ (left + right) ≤ 1 := by
        cases left + right <;> simp
      omega
    · exact hbase
  have hdiv : n / base ^ right < base ^ left := by
    rw [pow_add] at hn
    exact Nat.div_lt_of_lt_mul (Nat.mul_comm _ _ ▸ hn)
  have hdigits : ∀ width k, ∀ x ∈ fixed base width k, x < base :=
    fun _ _ _ hmem => lt_of_mem_fixed hbase hmem
  rcases Nat.lt_or_eq_of_le (Nat.div_le_div_right (c := base ^ right) hlt.le) with hhigh | hhigh
  · refine append_lt_append_of_lt (by simp) (map_lt_map hmono (hdigits _ _) (hdigits _ _) ?_) _ _
    rw [fixed_lt_fixed_iff hbase, Nat.mod_eq_of_lt (hhigh.trans hdiv), Nat.mod_eq_of_lt hdiv]
    exact hhigh
  · rw [hhigh]
    refine List.append_left_lt (List.append_left_lt ?_)
    refine append_lt_append_of_lt (by simp) (map_lt_map hmono (hdigits _ _) (hdigits _ _) ?_) _ _
    rw [fixed_lt_fixed_iff hbase]
    have hm := Nat.div_add_mod m (base ^ right)
    have hn := Nat.div_add_mod n (base ^ right)
    rw [hhigh] at hm
    omega

end Digits
