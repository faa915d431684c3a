import Mathlib

/-! # Numbers in a mixed radix

    The digits of an array count with weights.  Digits may have signs and be too large;
    moving a part of one digit to the next one leaves the value as it is. -/

namespace MixedRadix

open Finset

/-- The value of the first `n` digits. -/
def value (weight : Nat → Int) (n : Nat) (x : Nat → Int) : Int := ∑ i ∈ range n, x i * weight i

variable {weight : Nat → Int} {n : Nat} {x y : Nat → Int}

theorem value_congr (h : ∀ i < n, x i = y i) : value weight n x = value weight n y :=
  sum_congr rfl fun i hi => by rw [h i (mem_range.mp hi)]

theorem value_succ : value weight (n + 1) x = value weight n x + x n * weight n :=
  sum_range_succ _ _

theorem value_add :
    value weight n (fun i => x i + y i) = value weight n x + value weight n y := by
  rw [value, value, value, ← sum_add_distrib]
  exact sum_congr rfl fun i _ => add_mul _ _ _

theorem value_sub :
    value weight n (fun i => x i - y i) = value weight n x - value weight n y := by
  rw [value, value, value, ← sum_sub_distrib]
  exact sum_congr rfl fun i _ => sub_mul _ _ _

theorem value_mul (c : Int) : value weight n (fun i => x i * c) = value weight n x * c := by
  rw [value, value, sum_mul]
  exact sum_congr rfl fun i _ => mul_right_comm _ _ _

/-- One digit is replaced. -/
theorem value_update {i : Nat} (hi : i < n) (v : Int) :
    value weight n (Function.update x i v) = value weight n x + (v - x i) * weight i := by
  rw [value, value, ← add_sum_erase _ _ (mem_range.mpr hi),
    ← add_sum_erase (range n) (fun i => x i * weight i) (mem_range.mpr hi), Function.update_self]
  have hothers : ∑ j ∈ (range n).erase i, Function.update x i v j * weight j
      = ∑ j ∈ (range n).erase i, x j * weight j :=
    sum_congr rfl fun j hj => by rw [Function.update_of_ne (ne_of_mem_erase hj)]
  rw [hothers]
  ring

/-- A digit outside is replaced. -/
theorem value_update_outside {i : Nat} (hi : n ≤ i) (v : Int) :
    value weight n (Function.update x i v) = value weight n x :=
  value_congr fun j hj => Function.update_of_ne (by omega) v x

/-- **MOVING** `c` from one digit to another that counts `factor` times as much. -/
theorem value_move {i j : Nat} (hi : i < n) (hj : j < n) (hne : i ≠ j) {factor c a b : Int}
    (hweight : factor * weight i = weight j) (ha : a = x i - c * factor) (hb : b = x j + c) :
    value weight n (Function.update (Function.update x i a) j b) = value weight n x := by
  rw [value_update hj, value_update hi, Function.update_of_ne hne.symm, ha, hb, ← hweight]
  ring

/-- The digits of a number have its value. -/
theorem value_digits {size : Nat → Int} (hzero : weight 0 = 1)
    (hweight : ∀ i, weight (i + 1) = size i * weight i) (hpos : ∀ i, 0 < weight i) (m : Int) :
    value weight n (fun i => m / weight i % size i) = m % weight n := by
  induction n with
  | zero =>
      rw [hzero, Int.emod_one]
      rfl
  | succ n ih =>
      rw [value_succ, ih, hweight, mul_comm (size n), Int.emod_def m (weight n * size n),
        Int.emod_def m, Int.emod_def (m / weight n), Int.ediv_ediv_of_nonneg (hpos n).le]
      ring

/-- Digits within their ranges. -/
theorem value_lt {size : Nat → Int} (hzero : weight 0 = 1)
    (hweight : ∀ i, weight (i + 1) = size i * weight i) (hpos : ∀ i, 0 < weight i)
    (hdigits : ∀ i < n, 0 ≤ x i ∧ x i < size i) :
    0 ≤ value weight n x ∧ value weight n x < weight n := by
  induction n with
  | zero => exact ⟨le_refl _, by rw [hzero]; exact one_pos⟩
  | succ n ih =>
      obtain ⟨hlow, hhigh⟩ := ih fun i hi => hdigits i (Nat.lt_succ_of_lt hi)
      obtain ⟨hlast, hsize⟩ := hdigits n (Nat.lt_succ_self n)
      rw [value_succ, hweight]
      refine ⟨add_nonneg hlow (mul_nonneg hlast (hpos n).le), ?_⟩
      calc value weight n x + x n * weight n
          < weight n + x n * weight n := by linarith
        _ = (x n + 1) * weight n := by ring
        _ ≤ size n * weight n := mul_le_mul_of_nonneg_right (by omega) (hpos n).le

end MixedRadix
