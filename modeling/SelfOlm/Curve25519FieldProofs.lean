import SelfOlm.Curve25519
import SelfOlm.Lib.MixedRadix

/-! # The field behind the limbs

    Ten limbs stand for a number modulo 2²⁵⁵ - 19.  No function overflows on limbs of
    the sizes that its callers give it, and what it computes is the operation of the
    field. -/

namespace OlmCurve25519

open CheckedArith Checked MixedRadix

/-! ## Values -/

/-- The modulus. -/
def prime : Nat := 2 ^ 255 - 19

/-- Limb `i` counts 2 to the 25½ `i`, rounded up. -/
def weight (i : Nat) : Int := 2 ^ ((51 * i + 1) / 2)

/-- The number that ten limbs stand for. -/
def integer (x : Limbs) : Int := value weight 10 x

/-- The element of the field that they stand for. -/
def element (x : Limbs) : ZMod prime := integer x

/-- The size of the first `n` limbs. -/
def Bounded (n : Nat) (x : Limbs) (b : Int) : Prop := ∀ i < n, |x i| ≤ b

/-- Reduced coefficients. -/
def Reduced (x : Limbs) : Prop := Bounded 10 x (2 ^ 26 - 1)

/-- A sum or a difference of reduced ones. -/
def Wide (x : Limbs) : Prop := Bounded 10 x (2 ^ 27)

theorem weight_pos (i : Nat) : 0 < weight i := by
  rw [weight]
  positivity

theorem weight_ten : weight 10 = 2 ^ 255 := by
  rw [weight]

theorem Bounded.mono {n m : Nat} {x : Limbs} {b c : Int} (h : Bounded n x b) (hm : m ≤ n)
    (hle : b ≤ c) : Bounded m x c :=
  fun i hi => (h i (hi.trans_le hm)).trans hle

theorem Reduced.wide {x : Limbs} (h : Reduced x) : Wide x := h.mono (le_refl _) (by norm_num)

theorem element_congr {x y : Limbs} (h : ∀ i < 10, x i = y i) : element x = element y := by
  rw [element, element, integer, integer, value_congr h]

/-- 2²⁵⁵ is 19. -/
theorem cast_pow_255 : (2 : ZMod prime) ^ 255 = 19 := by
  have hzero : ((prime : Nat) : ZMod prime) = 0 := ZMod.natCast_self prime
  have hsplit : 2 ^ 255 = prime + 19 := by
    rw [prime]
    norm_num
  have hcast := congrArg (fun n : Nat => (n : ZMod prime)) hsplit
  rw [Nat.cast_pow, Nat.cast_add, hzero, zero_add] at hcast
  exact hcast

/-! ## Sums and products -/

theorem limbOf_is {x b : Int} (h : |x| ≤ b) (hb : b < 2 ^ 31) : Is (limbOf x) x b := by
  rw [limbOf, castTo_fits (by decide) (fits_of_abs h hb)]
  exact Is.of h

theorem fsum_spec {x z : Limbs} (hx : Reduced x) (hz : Reduced z) :
    ∃ t, fsum x z = some t ∧ Wide t ∧ element t = element x + element z := by
  have his : ∀ i < 10, Is (of (x i) + of (z i) : Limb) (x i + z i) (2 ^ 27) := fun i hi =>
    ((Is.of (hx i hi)).add (Is.of (hz i hi)) (by norm_num)).mono (by norm_num)
  obtain ⟨t, ht, hv⟩ := defined_is his
  refine ⟨t, ht, fun i hi => (hv i hi).2, ?_⟩
  rw [element, element, element, integer, value_congr fun i hi => (hv i hi).1, value_add]
  exact Int.cast_add _ _

theorem fdifference_spec {x z : Limbs} (hx : Reduced x) (hz : Reduced z) :
    ∃ t, fdifference x z = some t ∧ Wide t ∧ element t = element z - element x := by
  have his : ∀ i < 10, Is (of (z i) - of (x i) : Limb) (z i - x i) (2 ^ 27) := fun i hi =>
    ((Is.of (hz i hi)).sub (Is.of (hx i hi)) (by norm_num)).mono (by norm_num)
  obtain ⟨t, ht, hv⟩ := defined_is his
  refine ⟨t, ht, fun i hi => (hv i hi).2, ?_⟩
  rw [element, element, element, integer, value_congr fun i hi => (hv i hi).1, value_sub]
  exact Int.cast_sub _ _

theorem fscalarProduct_spec {x : Limbs} (hx : Wide x) :
    ∃ t, fscalarProduct x 121665 = some t ∧ Bounded 10 t (2 ^ 44) ∧
      element t = element x * 121665 := by
  have hscalar : Is (of 121665 : Limb) 121665 121665 := Is.of (by norm_num)
  have his : ∀ i < 10, Is (of (x i) * of 121665 : Limb) (x i * 121665) (2 ^ 44) := fun i hi =>
    ((Is.of (hx i hi)).mul hscalar (by norm_num)).mono (by norm_num)
  obtain ⟨t, ht, hv⟩ := defined_is his
  refine ⟨t, ht, fun i hi => (hv i hi).2, ?_⟩
  rw [element, element, integer, value_congr fun i hi => (hv i hi).1, value_mul, Int.cast_mul]
  rfl

theorem weight_add_ten (k : Nat) : weight (10 + k) = 2 ^ 255 * weight k := by
  have hexponent : (51 * (10 + k) + 1) / 2 = 255 + (51 * k + 1) / 2 := by omega
  rw [weight, weight, hexponent, pow_add]

/-- The value of nineteen limbs, of which nine are too far up. -/
theorem value_nineteen (t : Limbs) :
    value weight 19 t = value weight 10 t + 2 ^ 255 * value weight 9 (fun k => t (10 + k)) := by
  rw [value, value, value, Finset.sum_range_add _ 10 9, Finset.mul_sum]
  congr 1
  refine Finset.sum_congr rfl fun k _ => ?_
  rw [weight_add_ten]
  ring

theorem value_nine (t : Limbs) :
    value weight 9 t = t 0 + t 1 * 2 ^ 26 + t 2 * 2 ^ 51 + t 3 * 2 ^ 77 + t 4 * 2 ^ 102
      + t 5 * 2 ^ 128 + t 6 * 2 ^ 153 + t 7 * 2 ^ 179 + t 8 * 2 ^ 204 := by
  simp only [value, Finset.sum_range_succ, Finset.sum_range_zero, weight]
  ring

theorem value_ten (t : Limbs) : value weight 10 t = value weight 9 t + t 9 * 2 ^ 230 := by
  rw [value_succ]
  rfl

/-- The sums of products are the coefficients of the product. -/
theorem value_productTerms (a b : Limbs) :
    value weight 19 (productTerms a b) = value weight 10 a * value weight 10 b := by
  rw [value_nineteen]
  simp only [value_ten, value_nine, productTerms]
  ring

theorem value_squareTerms (a : Limbs) :
    value weight 19 (squareTerms a) = value weight 10 a * value weight 10 a := by
  rw [value_nineteen]
  simp only [value_ten, value_nine, squareTerms]
  ring

/-- The limbs that a sum of products may name. -/
def isLimb : Nat ⊕ Nat → Bool
  | .inl i => decide (i < 10)
  | .inr i => decide (i < 10)

/-- A sum of products in the limbs of two arrays. -/
def productExpr : Nat → Expr (Nat ⊕ Nat) :=
  productTerms (fun i => .var (.inl i)) fun i => .var (.inr i)

def squareExpr : Nat → Expr (Nat ⊕ Nat) := squareTerms fun i => .var (.inl i)

section Eval

variable {R : Type} [Add R] [Mul R] [∀ n, OfNat R n]

theorem eval_productExpr (a b : Nat → R) :
    ∀ k < 19, (productExpr k).eval (Sum.elim a b) = productTerms a b k := by
  intro k hk
  interval_cases k <;> rfl

theorem eval_squareExpr (a : Nat → R) :
    ∀ k < 19, (squareExpr k).eval (Sum.elim a a) = squareTerms a k := by
  intro k hk
  interval_cases k <;> rfl

end Eval

theorem limbs_is {a b : Limbs} (ha : Wide a) (hb : Wide b) :
    ∀ v, isLimb v = true → Is (Sum.elim (fun i => limbOf (a i)) (fun i => limbOf (b i)) v)
      (Sum.elim a b v) ((2 ^ 27 : Nat) : Int) := by
  rintro (i | i) hi
  · exact limbOf_is (ha i (of_decide_eq_true hi)) (by norm_num)
  · exact limbOf_is (hb i (of_decide_eq_true hi)) (by norm_num)

theorem expr_is {e : Expr (Nat ⊕ Nat)} {a b : Limbs} (ha : Wide a) (hb : Wide b)
    (h : e.within isLimb (2 ^ 27) (2 ^ 63) = true ∧ e.bound (2 ^ 27) ≤ 14 * 2 ^ 54) :
    Is (e.eval (Sum.elim (fun i => limbOf (a i)) fun i => limbOf (b i))) (e.eval (Sum.elim a b))
      (14 * 2 ^ 54) :=
  (Expr.is_eval (limbs_is ha hb) h.1).mono (by exact_mod_cast h.2)

/-- No sum has more than 14 products. -/
theorem productTerms_is {a b : Limbs} (ha : Wide a) (hb : Wide b) :
    ∀ k < 19, Is (productTerms (fun i => limbOf (a i)) (fun i => limbOf (b i)) k)
      (productTerms a b k) (14 * 2 ^ 54) := by
  intro k hk
  have hwithin : ∀ k < 19, (productExpr k).within isLimb (2 ^ 27) (2 ^ 63) = true ∧
      (productExpr k).bound (2 ^ 27) ≤ 14 * 2 ^ 54 := by decide +kernel
  rw [← eval_productExpr _ _ k hk, ← eval_productExpr _ _ k hk]
  exact expr_is ha hb (hwithin k hk)

theorem squareTerms_is {a : Limbs} (ha : Wide a) :
    ∀ k < 19, Is (squareTerms (fun i => limbOf (a i)) k) (squareTerms a k) (14 * 2 ^ 54) := by
  intro k hk
  have hwithin : ∀ k < 19, (squareExpr k).within isLimb (2 ^ 27) (2 ^ 63) = true ∧
      (squareExpr k).bound (2 ^ 27) ≤ 14 * 2 ^ 54 := by decide +kernel
  rw [← eval_squareExpr _ k hk, ← eval_squareExpr _ k hk]
  exact expr_is ha ha (hwithin k hk)

/-- `fproduct` on sums and differences of reduced limbs. -/
theorem fproduct_spec {a b : Limbs} (ha : Wide a) (hb : Wide b) :
    ∃ t, fproduct a b = some t ∧ Bounded 19 t (14 * 2 ^ 54) ∧
      value weight 19 t = integer a * integer b := by
  obtain ⟨t, ht, hv⟩ := defined_is (productTerms_is ha hb)
  refine ⟨t, ht, fun k hk => (hv k hk).2, ?_⟩
  rw [value_congr fun k hk => (hv k hk).1, value_productTerms]
  rfl

theorem fsquareInner_spec {a : Limbs} (ha : Wide a) :
    ∃ t, fsquareInner a = some t ∧ Bounded 19 t (14 * 2 ^ 54) ∧
      value weight 19 t = integer a * integer a := by
  obtain ⟨t, ht, hv⟩ := defined_is (squareTerms_is ha)
  refine ⟨t, ht, fun k hk => (hv k hk).2, ?_⟩
  rw [value_congr fun k hk => (hv k hk).1, value_squareTerms]
  rfl

/-! ## Reduction -/

theorem addNineteenTimes_is {x y b c : Int} (hx : |x| ≤ b) (hy : |y| ≤ c)
    (hfits : b + 19 * c < 2 ^ 63) : Is (addNineteenTimes x y) (x + 19 * y) (b + 19 * c) := by
  have hc : 0 ≤ c := (abs_nonneg y).trans hy
  have hb : 0 ≤ b := (abs_nonneg x).trans hx
  have hx' : Is (of x : Limb) x b := Is.of hx
  have hsum := ((hx'.add ((Is.of hy).shiftLeft (n := 4) (by decide) (by
      norm_num
      linarith)) (by
      norm_num
      linarith)).add ((Is.of hy).shiftLeft (n := 1) (by decide) (by
      norm_num
      linarith)) (by
      norm_num
      linarith)).add (Is.of hy) (by
      norm_num
      linarith)
  have hvalue : x + y * 2 ^ 4 + y * 2 ^ 1 + y = x + 19 * y := by ring
  have hbound : b + c * 2 ^ 4 + c * 2 ^ 1 + c = b + 19 * c := by ring
  rw [hvalue, hbound] at hsum
  exact hsum

/-- `freduce_degree`: the upper nine limbs count 19 times at the bottom. -/
theorem freduceDegree_spec {t : Limbs} (ht : Bounded 19 t (14 * 2 ^ 54)) :
    ∃ r, freduceDegree t = some r ∧ Bounded 10 r (280 * 2 ^ 54) ∧
      element r = (value weight 19 t : Int) := by
  have his : ∀ k < 19,
      Is (if k < 9 then addNineteenTimes (t k) (t (k + 10)) else of (t k) : Limb)
        (if k < 9 then t k + 19 * t (k + 10) else t k) (280 * 2 ^ 54) := by
    intro k hk
    by_cases hlow : k < 9
    · rw [if_pos hlow, if_pos hlow]
      exact (addNineteenTimes_is (ht k hk) (ht (k + 10) (by omega)) (by norm_num)).mono
        (by norm_num)
    · rw [if_neg hlow, if_neg hlow]
      exact (Is.of (ht k hk)).mono (by norm_num)
  obtain ⟨r, hr, hv⟩ := defined_is his
  refine ⟨r, hr, fun k hk => (hv k (by omega)).2, ?_⟩
  have hlow : value weight 9 r = value weight 9 t + value weight 9 (fun k => t (10 + k)) * 19 := by
    rw [← value_mul, ← value_add]
    refine value_congr fun k hk => ?_
    rw [(hv k (by omega)).1, if_pos hk, mul_comm, Nat.add_comm]
  have hinteger : integer r = value weight 10 t + value weight 9 (fun k => t (10 + k)) * 19 := by
    rw [integer, value_ten, value_ten, hlow, (hv 9 (by omega)).1, if_neg (by omega)]
    ring
  rw [element, hinteger, value_nineteen, Int.cast_add, Int.cast_add, Int.cast_mul, Int.cast_mul,
    Int.cast_pow, Int.cast_ofNat, Int.cast_ofNat, cast_pow_255, mul_comm]

/-- Division of `v` by `m`, to the side of zero. -/
structure Truncated (v m q : Int) : Prop where
  nonneg : 0 ≤ v → 0 ≤ q ∧ 0 ≤ v - q * m ∧ v - q * m < m
  neg : v < 0 → q ≤ 0 ∧ -m < v - q * m ∧ v - q * m ≤ 0

/-- The sign of the upper word as a mask. -/
theorem castTo_highword {v : Int} (h : Fits 64 v) :
    castTo 32 (v % 2 ^ 64 / 2 ^ 32) / 2 ^ 31 = if v < 0 then -1 else 0 := by
  obtain ⟨hlow, hhigh⟩ := h
  norm_num at hlow hhigh
  rw [castTo, Int.bmod_def]
  norm_num
  split_ifs <;> omega

theorem divBy226_spec {v : Int} (h : Fits 64 v) :
    ∃ q, divBy226 v = some q ∧ Truncated v (2 ^ 26) q := by
  obtain ⟨hlow, hhigh⟩ := h
  have hfits : Fits 64 (v + (if v < 0 then -1 else 0) % 2 ^ 32 / 2 ^ 6) := by
    norm_num at hlow hhigh
    constructor <;> norm_num <;> split_ifs <;> omega
  refine ⟨(v + (if v < 0 then -1 else 0) % 2 ^ 32 / 2 ^ 6) / 2 ^ 26, ?_, ?_, ?_⟩
  · rw [divBy226, divByPow, castTo_highword ⟨hlow, hhigh⟩, add_of hfits]
    rfl
  · intro hv
    rw [if_neg (not_lt.mpr hv)]
    norm_num
    omega
  · intro hv
    rw [if_pos hv]
    norm_num
    omega

theorem divBy225_spec {v : Int} (h : Fits 64 v) :
    ∃ q, divBy225 v = some q ∧ Truncated v (2 ^ 25) q := by
  obtain ⟨hlow, hhigh⟩ := h
  have hfits : Fits 64 (v + (if v < 0 then -1 else 0) % 2 ^ 32 / 2 ^ 7) := by
    norm_num at hlow hhigh
    constructor <;> norm_num <;> split_ifs <;> omega
  refine ⟨(v + (if v < 0 then -1 else 0) % 2 ^ 32 / 2 ^ 7) / 2 ^ 25, ?_, ?_, ?_⟩
  · rw [divBy225, divByPow, castTo_highword ⟨hlow, hhigh⟩, add_of hfits]
    rfl
  · intro hv
    rw [if_neg (not_lt.mpr hv)]
    norm_num
    omega
  · intro hv
    rw [if_pos hv]
    norm_num
    omega

/-- What is left is smaller than `m`, and what is carried over than the number over `m`. -/
theorem Truncated.sizes {v m q b : Int} (h : Truncated v m q) (hm : 0 < m) (hv : |v| ≤ b * m) :
    |v - q * m| ≤ m - 1 ∧ |q| ≤ b := by
  obtain ⟨hlow, hhigh⟩ := abs_le.mp hv
  rcases lt_or_ge v 0 with hneg | hpos
  · obtain ⟨hq, hrest, hzero⟩ := h.neg hneg
    refine ⟨abs_le.mpr ⟨by omega, by omega⟩, abs_le.mpr ⟨?_, ?_⟩⟩
    · by_contra hlt
      nlinarith
    · have hb : 0 ≤ b := by
        by_contra hlt
        nlinarith
      omega
  · obtain ⟨hq, hzero, hrest⟩ := h.nonneg hpos
    refine ⟨abs_le.mpr ⟨by omega, by omega⟩, abs_le.mpr ⟨?_, ?_⟩⟩
    · have hb : 0 ≤ b := by
        by_contra hlt
        nlinarith
      omega
    · by_contra hlt
      nlinarith

/-- **ONE CARRY**: the limb fits into its bits, and the value is the same. -/
theorem carryOver_spec {div : Int → Option Int} {shift : Nat}
    (hdiv : ∀ v, Fits 64 v → ∃ q, div v = some q ∧ Truncated v (2 ^ shift) q) {x : Limbs} {i : Nat}
    {b c : Int} (hi : |x i| ≤ b * 2 ^ shift) (hnext : |x (i + 1)| ≤ c)
    (hfits : b * 2 ^ shift < 2 ^ 63) (hsum : c + b < 2 ^ 63) :
    ∃ y q, carryOver div shift x i = some y ∧
      y = Function.update (Function.update x i (x i - q * 2 ^ shift)) (i + 1) (x (i + 1) + q) ∧
      |x i - q * 2 ^ shift| ≤ 2 ^ shift - 1 ∧ |x (i + 1) + q| ≤ c + b := by
  have hpos : (0 : Int) < 2 ^ shift := by positivity
  obtain ⟨q, hq, htruncated⟩ := hdiv (x i) (fits_of_abs hi hfits)
  obtain ⟨hrest, hsize⟩ := htruncated.sizes hpos hi
  have hb : 0 ≤ b := (abs_nonneg q).trans hsize
  have hshifted : |q * 2 ^ shift| ≤ b * 2 ^ shift := by
    rw [abs_mul, abs_of_pos hpos]
    exact mul_le_mul_of_nonneg_right hsize hpos.le
  have hone : (1 : Int) ≤ 2 ^ shift := hpos
  have hadd : |x (i + 1) + q| ≤ c + b := (abs_add_le _ _).trans (add_le_add hnext hsize)
  -- the rest is smaller than the limb was, or the limb was small
  have hsub : (of (x i) - of q <<< shift : Limb) = of (x i - q * 2 ^ shift) := by
    rw [shiftLeft_of (by decide) (fits_of_abs hshifted hfits)]
    refine sub_of ?_
    obtain ⟨hlow, hhigh⟩ := abs_le.mp hi
    rcases lt_or_ge (x i) 0 with hneg | hnonneg
    · obtain ⟨hqneg, -, hzero⟩ := htruncated.neg hneg
      have hproduct : q * 2 ^ shift ≤ 0 := mul_nonpos_of_nonpos_of_nonneg hqneg hpos.le
      exact ⟨by norm_num; omega, by norm_num; omega⟩
    · obtain ⟨hqnonneg, hzero, -⟩ := htruncated.nonneg hnonneg
      have hproduct : 0 ≤ q * 2 ^ shift := mul_nonneg hqnonneg hpos.le
      exact ⟨by norm_num; omega, by norm_num; omega⟩
  refine ⟨_, q, ?_, rfl, hrest, hadd⟩
  rw [carryOver, hq]
  simp only [Option.bind_eq_bind, Option.bind_some]
  rw [hsub, add_of (fits_of_abs hadd hsum)]
  rfl

/-- The loop of `freduce_coefficients` before limb `i`: the limbs in front are reduced, and the
    ones behind are as they were. -/
structure Carried (x : Limbs) (i : Nat) (y : Limbs) : Prop where
  same : value weight 11 y = value weight 11 x
  front : ∀ j < i, |y j| ≤ 2 ^ limbBits j - 1
  here : |y i| ≤ (if i < 10 then 280 * 2 ^ 54 else 0) + 281 * 2 ^ 29
  behind : ∀ j, i < j → j ≤ 10 → |y j| ≤ if j < 10 then 280 * 2 ^ 54 else 0

theorem weight_succ (i : Nat) : weight (i + 1) = 2 ^ limbBits i * weight i := by
  rw [weight, weight, limbBits, ← pow_add]
  congr 1
  split_ifs <;> omega

theorem Carried.next {x y : Limbs} {i shift : Nat} {div : Int → Option Int} (h : Carried x i y)
    (hi : i < 10) (hshift : shift = limbBits i)
    (hdiv : ∀ v, Fits 64 v → ∃ q, div v = some q ∧ Truncated v (2 ^ shift) q) :
    ∃ z, carryOver div shift y i = some z ∧ Carried x (i + 1) z := by
  have hhere : |y i| ≤ 281 * 2 ^ (54 - shift) * 2 ^ shift := by
    refine h.here.trans ?_
    rw [if_pos hi, hshift, limbBits]
    split_ifs <;> norm_num
  have hbehind : |y (i + 1)| ≤ if i + 1 < 10 then 280 * 2 ^ 54 else 0 :=
    h.behind (i + 1) (Nat.lt_succ_self i) hi
  have hexcess : (281 * 2 ^ (54 - shift) : Int) ≤ 281 * 2 ^ 29 := by
    rw [hshift, limbBits]
    split_ifs <;> norm_num
  have hlarge : ((if i + 1 < 10 then 280 * 2 ^ 54 else 0 : Int) + 281 * 2 ^ (54 - shift))
      < 2 ^ 63 := by
    refine lt_of_le_of_lt (add_le_add_right hexcess _) ?_
    split_ifs <;> norm_num
  have hfits : (281 * 2 ^ (54 - shift) * 2 ^ shift : Int) < 2 ^ 63 := by
    rw [hshift, limbBits]
    split_ifs <;> norm_num
  obtain ⟨z, q, hz, rfl, hrest, hnext⟩ := carryOver_spec hdiv hhere hbehind hfits hlarge
  refine ⟨_, hz, ?_, ?_, ?_, ?_⟩
  · rw [← h.same]
    refine value_move (by omega) (by omega) (by omega) ?_ rfl rfl
    rw [weight_succ, hshift]
  · intro j hj
    rcases Nat.lt_succ_iff_lt_or_eq.mp hj with hj | rfl
    · rw [Function.update_of_ne (by omega), Function.update_of_ne (by omega)]
      exact h.front j hj
    · rw [Function.update_of_ne (by omega), Function.update_self, ← hshift]
      exact hrest
  · rw [Function.update_self]
    exact hnext.trans (add_le_add_right hexcess _)
  · intro j hj hle
    rw [Function.update_of_ne (by omega), Function.update_of_ne (by omega)]
    exact h.behind j (by omega) hle

/-- `freduce_coefficients`. -/
theorem freduceCoefficients_spec {x : Limbs} (hx : Bounded 10 x (280 * 2 ^ 54)) :
    ∃ r, freduceCoefficients x = some r ∧ Reduced r ∧ element r = element x := by
  have hstart : Carried (Function.update x 10 0) 0 (Function.update x 10 0) := by
    refine ⟨rfl, fun j hj => absurd hj (Nat.not_lt_zero j), ?_, ?_⟩
    · rw [Function.update_of_ne (by omega)]
      exact (hx 0 (by omega)).trans (by norm_num)
    · intro j hj hle
      by_cases hlast : j < 10
      · rw [if_pos hlast, Function.update_of_ne (by omega)]
        exact hx j hlast
      · obtain rfl : j = 10 := by omega
        rw [if_neg hlast, Function.update_self, abs_zero]
  have hpair : ∀ i y, Carried (Function.update x 10 0) i y → i + 1 < 10 → i % 2 = 0 →
      ∃ z, (do
        let output ← carryOver divBy226 26 y i
        carryOver divBy225 25 output (i + 1)) = some z ∧
          Carried (Function.update x 10 0) (i + 2) z := by
    intro i y hy hi heven
    obtain ⟨z, hz, hcarried⟩ := hy.next (by omega) (by rw [limbBits, if_neg (by omega)])
      fun v hv => divBy226_spec hv
    obtain ⟨z', hz', hcarried'⟩ := hcarried.next (by omega) (by rw [limbBits, if_pos (by omega)])
      fun v hv => divBy225_spec hv
    refine ⟨z', ?_, hcarried'⟩
    rw [hz]
    exact hz'
  obtain ⟨y₂, h₂, hy₂⟩ := hpair 0 _ hstart (by omega) rfl
  obtain ⟨y₄, h₄, hy₄⟩ := hpair 2 _ hy₂ (by omega) rfl
  obtain ⟨y₆, h₆, hy₆⟩ := hpair 4 _ hy₄ (by omega) rfl
  obtain ⟨y₈, h₈, hy₈⟩ := hpair 6 _ hy₆ (by omega) rfl
  obtain ⟨y, h₁₀, hy⟩ := hpair 8 _ hy₈ (by omega) rfl
  have htop : |y 10| ≤ 281 * 2 ^ 29 := hy.here.trans (by norm_num)
  have hfirst := addNineteenTimes_is (hy.front 0 (by omega)) htop (by norm_num [limbBits])
  have hzero : |Function.update (Function.update y 0 (y 0 + 19 * y 10)) 10 0 0|
      ≤ 2 ^ 16 * 2 ^ 26 := by
    rw [Function.update_of_ne (by omega), Function.update_self]
    exact hfirst.le.trans (by norm_num [limbBits])
  have hone : |Function.update (Function.update y 0 (y 0 + 19 * y 10)) 10 0 1| ≤ 2 ^ 25 - 1 := by
    rw [Function.update_of_ne (by omega), Function.update_of_ne (by omega)]
    exact hy.front 1 (by omega)
  obtain ⟨r, q, hr, hupdate, hrest, hnext⟩ := carryOver_spec (fun v hv => divBy226_spec hv) hzero
    hone (by norm_num) (by norm_num)
  have hweight : (2 : Int) ^ 26 * weight 0 = weight 1 := rfl
  have hvalue : integer r = integer y + 19 * y 10 := by
    rw [hupdate, integer, integer,
      value_move (by omega) (by omega) (by omega) hweight rfl rfl,
      value_update_outside (le_refl _), value_update (by omega)]
    rw [show weight 0 = 1 from rfl]
    ring
  have hsame : integer y + y 10 * 2 ^ 255 = integer x := by
    have hten : integer y + y 10 * weight 10
        = integer (Function.update x 10 0) + Function.update x 10 0 10 * weight 10 := by
      rw [integer, integer, ← value_succ, ← value_succ]
      exact hy.same
    rw [Function.update_self, zero_mul, add_zero, integer, integer,
      value_update_outside (le_refl _), weight_ten] at hten
    exact hten
  refine ⟨r, ?_, ?_, ?_⟩
  · have hloop : [0, 2, 4, 6, 8].foldlM (fun output i => do
        let output ← carryOver divBy226 26 output i
        carryOver divBy225 25 output (i + 1)) (Function.update x 10 0) = some y := by
      rw [List.foldlM_cons, some_bind h₂, List.foldlM_cons, some_bind h₄, List.foldlM_cons,
        some_bind h₆, List.foldlM_cons, some_bind h₈, List.foldlM_cons, some_bind h₁₀]
      rfl
    rw [freduceCoefficients, some_bind hloop, hfirst.eq]
    exact hr
  · intro j hj
    rw [hupdate]
    by_cases h1 : j = 1
    · rw [h1, Function.update_self]
      exact hnext.trans (by norm_num)
    · rw [Function.update_of_ne h1]
      by_cases h0 : j = 0
      · rw [h0, Function.update_self]
        exact hrest
      · rw [Function.update_of_ne h0, Function.update_of_ne (by omega), Function.update_of_ne h0]
        refine (hy.front j hj).trans ?_
        rw [limbBits]
        split_ifs <;> norm_num
  · have hcast : ((y 10 * 2 ^ 255 : Int) : ZMod prime) = (19 * y 10 : Int) := by
      rw [Int.cast_mul, Int.cast_mul, Int.cast_pow, Int.cast_ofNat, cast_pow_255, mul_comm]
      rfl
    rw [element, element, hvalue, ← hsame, Int.cast_add, Int.cast_add, hcast]

end OlmCurve25519
