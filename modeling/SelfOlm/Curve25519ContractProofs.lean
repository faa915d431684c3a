import SelfOlm.Curve25519BytesProofs

/-! # The result as bytes

    Two passes of borrows make all limbs positive, two passes of carries bring them into
    their bits, and a last subtraction below the modulus.  What `fcontract` writes is then
    the number of the element, whatever the buffer had before. -/

namespace OlmCurve25519

open CheckedArith Checked MixedRadix LittleEndian

/-! ## Borrows and carries -/

theorem limbBits_cases (i : Nat) : limbBits i = 25 ∨ limbBits i = 26 := by
  rw [limbBits]
  split_ifs
  · exact Or.inl rfl
  · exact Or.inr rfl

theorem fits_of_le {v : Int} (hlow : -2 ^ 30 ≤ v) (hhigh : v ≤ 2 ^ 30) : Fits 32 v :=
  ⟨by norm_num at hlow ⊢; omega, by norm_num at hhigh ⊢; omega⟩

/-- Limb `i` gives `c` to limb `j`. -/
def give (factor : Int) (x : Limbs) (i j : Nat) (c : Int) : Limbs :=
  Function.update (Function.update x i (x i - c * 2 ^ limbBits i)) j (x j + c * factor)

section Give

variable {factor c : Int} {x : Limbs} {i j k : Nat}

theorem give_here (hne : i ≠ j) : give factor x i j c i = x i - c * 2 ^ limbBits i := by
  rw [give, Function.update_of_ne hne, Function.update_self]

theorem give_next : give factor x i j c j = x j + c * factor := by
  rw [give, Function.update_self]

theorem give_other (hi : k ≠ i) (hj : k ≠ j) : give factor x i j c k = x k := by
  rw [give, Function.update_of_ne hj, Function.update_of_ne hi]

theorem give_zero : give factor x i j 0 = x := by
  rw [give, zero_mul, zero_mul, sub_zero, add_zero, Function.update_eq_self,
    Function.update_eq_self]

section Describe

variable {P : Nat → Int → Prop}

/-- What holds of the limbs in front, and of the rest of limb `i`. -/
theorem give_front (hfront : ∀ j < i, P j (x j)) (hhere : P i (x i - c * 2 ^ limbBits i)) :
    ∀ j < i + 1, P j (give factor x i (i + 1) c j) := by
  intro j hj
  rcases Nat.lt_succ_iff_lt_or_eq.mp hj with hj | rfl
  · rw [give_other (by omega) (by omega)]
    exact hfront j hj
  · rw [give_here (by omega)]
    exact hhere

theorem give_behind (hbehind : ∀ j, i < j → j < 10 → P j (x j)) :
    ∀ j, i + 1 < j → j < 10 → P j (give factor x i (i + 1) c j) := by
  intro j hj hlt
  rw [give_other (by omega) (by omega)]
  exact hbehind j (by omega) hlt

/-- What the last limb gives to the first one changes no other. -/
theorem give_wrap (hfront : ∀ j < 9, P j (x j)) (hlast : P 9 (x 9 - c * 2 ^ limbBits 9)) :
    ∀ j, 0 < j → j < 10 → P j (give factor x 9 0 c j) := by
  intro j hpos hj
  by_cases hnine : j = 9
  · rw [hnine, give_here (by omega)]
    exact hlast
  · rw [give_other hnine (by omega)]
    exact hfront j (by omega)

end Describe

theorem element_give (hi : i < 9) : element (give 1 x i (i + 1) c) = element x := by
  rw [element, element, integer, integer, give, mul_one]
  congr 1
  exact value_move (by omega) (by omega) (by omega) (weight_succ i).symm rfl rfl

/-- 2²⁵⁵ is 19, from the last limb to the first one. -/
theorem element_wrap : element (give 19 x 9 0 c) = element x := by
  have hinteger : integer (give 19 x 9 0 c) = integer x + c * (19 - 2 ^ 255) := by
    rw [integer, give, value_update (by omega), value_update (by omega),
      Function.update_of_ne (by omega), show weight 0 = 1 from rfl,
      show weight 9 = 2 ^ 230 from rfl, show limbBits 9 = 25 from rfl, ← integer]
    ring
  have hzero : ((c * (19 - 2 ^ 255) : Int) : ZMod prime) = 0 := by
    rw [Int.cast_mul, Int.cast_sub, Int.cast_pow, Int.cast_ofNat, Int.cast_ofNat, cast_pow_255,
      sub_self, mul_zero]
  rw [element, element, hinteger, Int.cast_add, hzero, add_zero]

/-- A negative limb borrows. -/
theorem borrow_eq (hi : |x i| ≤ 2 ^ 27) (hj : |x j| ≤ 2 ^ 27) (hfactor : factor = 1 ∨ factor = 19) :
    borrow factor x i j
      = some (give factor x i j (if x i < 0 then x i / 2 ^ limbBits i else 0)) := by
  obtain ⟨hilow, hihigh⟩ := abs_le.mp hi
  obtain ⟨hjlow, hjhigh⟩ := abs_le.mp hj
  have hfits : Fits 32 (x i) := fits_of_le (by omega) (by omega)
  have hmask : x i / 2 ^ 31 = if x i < 0 then -1 else 0 := by
    split_ifs <;> omega
  have hand : (of (x i) &&& of (x i / 2 ^ 31) : S32) = of (if x i < 0 then x i else 0) := by
    rw [hmask]
    split_ifs
    · exact and_minus_one_of (by decide) hfits
    · exact and_zero_of _
  obtain ⟨c, hc⟩ : ∃ c, c = if x i < 0 then x i / 2 ^ limbBits i else 0 := ⟨_, rfl⟩
  have hshift : (if x i < 0 then x i else 0) / 2 ^ limbBits i = c := by
    rw [hc]
    split_ifs
    · rfl
    · exact Int.zero_ediv _
  have hsize : -4 ≤ c ∧ c ≤ 0 ∧ x i - c * 2 ^ limbBits i ≤ 2 ^ 27 ∧
      -2 ^ 27 ≤ x i - c * 2 ^ limbBits i ∧ -2 ^ 29 ≤ c * 2 ^ limbBits i := by
    rw [hc]
    rcases limbBits_cases i with hbits | hbits <;> rw [hbits] <;> split_ifs <;> omega
  have h₁ : (of (x i) >>> 31 : S32).toOption = some (x i / 2 ^ 31) := rfl
  have h₂ : (-((of (x i) &&& of (x i / 2 ^ 31)) >>> limbBits i) : S32).toOption = some (-c) := by
    rw [hand, shiftRight_of, hshift, neg_of (fits_of_le (by omega) (by omega))]
    rfl
  have h₃ : (of (x i) + of (-c) <<< limbBits i : S32).toOption
      = some (x i - c * 2 ^ limbBits i) := by
    rw [shiftLeft_of (by decide) (fits_of_le (by rw [neg_mul]; omega) (by rw [neg_mul]; omega)),
      neg_mul, add_of (fits_of_le (by omega) (by omega)), ← sub_eq_add_neg]
    rfl
  have h₄ : (of (x j) - of (-c) * of factor : S32).toOption = some (x j + c * factor) := by
    rcases hfactor with rfl | rfl
    · rw [mul_of (fits_of_le (by omega) (by omega)), sub_of (fits_of_le (by omega) (by omega)),
        neg_mul, sub_neg_eq_add]
      rfl
    · rw [mul_of (fits_of_le (by omega) (by omega)), sub_of (fits_of_le (by omega) (by omega)),
        neg_mul, sub_neg_eq_add]
      rfl
  rw [borrow, some_bind h₁, some_bind h₂, some_bind h₃, some_bind h₄, ← hc]
  rfl

/-- A limb gives what is over its bits. -/
theorem carry_eq (hi : 0 ≤ x i ∧ x i ≤ 2 ^ 27) (hj : 0 ≤ x j ∧ x j ≤ 2 ^ 27)
    (hfactor : factor = 1 ∨ factor = 19) :
    carry factor x i j = some (give factor x i j (x i / 2 ^ limbBits i)) := by
  obtain ⟨hilow, hihigh⟩ := hi
  obtain ⟨hjlow, hjhigh⟩ := hj
  obtain ⟨c, hc⟩ : ∃ c, c = x i / 2 ^ limbBits i := ⟨_, rfl⟩
  have hsize : 0 ≤ c ∧ c ≤ 4 := by
    rw [hc]
    rcases limbBits_cases i with hbits | hbits <;> rw [hbits] <;> omega
  have hrest : x i % 2 ^ limbBits i = x i - c * 2 ^ limbBits i := by
    rw [hc, Int.emod_def, mul_comm]
  have hbits : limbBits i < 32 := by
    rcases limbBits_cases i with hbits | hbits <;> omega
  have h₁ : (of (x i) >>> limbBits i : S32).toOption = some c := by
    rw [hc]
    rfl
  have h₂ : (of (x i) &&& of (limbMask i) : S32).toOption = some (x i - c * 2 ^ limbBits i) := by
    rw [limbMask_eq, and_mask_of hbits, hrest]
    rfl
  have h₃ : (of (x j) + of factor * of c : S32).toOption = some (x j + c * factor) := by
    rcases hfactor with rfl | rfl
    · rw [mul_of (fits_of_le (by omega) (by omega)), add_of (fits_of_le (by omega) (by omega)),
        mul_comm]
      rfl
    · rw [mul_of (fits_of_le (by omega) (by omega)), add_of (fits_of_le (by omega) (by omega)),
        mul_comm]
      rfl
  rw [carry, some_bind h₁, some_bind h₂, some_bind h₃, ← hc]
  rfl

end Give

/-! ## Passes -/

/-- A loop over the first limbs, where `P` holds before each one. -/
theorem foldlM_range {P : Nat → Limbs → Prop} {f : Limbs → Nat → Option Limbs} {n : Nat} {x : Limbs}
    (hstart : P 0 x) (hstep : ∀ i < n, ∀ y, P i y → ∃ z, f y i = some z ∧ P (i + 1) z) :
    ∃ z, (List.range n).foldlM f x = some z ∧ P n z := by
  induction n with
  | zero => exact ⟨x, rfl, hstart⟩
  | succ n ih =>
      obtain ⟨y, hy, hP⟩ := ih fun i hi => hstep i (Nat.lt_succ_of_lt hi)
      obtain ⟨z, hz, hnext⟩ := hstep n (Nat.lt_succ_self n) y hP
      refine ⟨z, ?_, hnext⟩
      rw [List.range_succ, List.foldlM_append, some_bind hy, List.foldlM_cons, some_bind hz]
      rfl

theorem pass_spec {P : Nat → Limbs → Prop} {step : Int → Limbs → Nat → Nat → Option Limbs}
    {x : Limbs} (hstart : P 0 x)
    (hstep : ∀ i < 9, ∀ y, P i y → ∃ z, step 1 y i (i + 1) = some z ∧ P (i + 1) z) :
    ∃ y, P 9 y ∧ pass step x = step 19 y 9 0 := by
  obtain ⟨y, hy, hP⟩ := foldlM_range (f := fun input i => step 1 input i (i + 1)) hstart hstep
  refine ⟨y, hP, ?_⟩
  rw [pass, some_bind hy]

/-- The first pass of borrows before limb `i`. -/
structure Borrowing (x : Limbs) (i : Nat) (y : Limbs) : Prop where
  same : element y = element x
  front : ∀ j < i, 0 ≤ y j ∧ y j ≤ 2 ^ 26 - 1
  here : -2 ^ 26 - 2 ≤ y i ∧ y i ≤ 2 ^ 26 - 1
  behind : ∀ j, i < j → j < 10 → |y j| ≤ 2 ^ 26 - 1

theorem Borrowing.next {x y : Limbs} {i : Nat} (h : Borrowing x i y) (hi : i < 9) :
    ∃ z, borrow 1 y i (i + 1) = some z ∧ Borrowing x (i + 1) z := by
  obtain ⟨hlow, hhigh⟩ := h.here
  have hbehind := h.behind (i + 1) (Nat.lt_succ_self i) (by omega)
  obtain ⟨hnlow, hnhigh⟩ := abs_le.mp hbehind
  have hbits := limbBits_cases i
  refine ⟨_, borrow_eq (abs_le.mpr ⟨by omega, by omega⟩) (hbehind.trans (by norm_num))
    (Or.inl rfl), ?_, ?_, ?_, ?_⟩
  · rw [element_give hi, h.same]
  · refine give_front (P := fun _ v => 0 ≤ v ∧ v ≤ 2 ^ 26 - 1) h.front ?_
    rcases hbits with hbits | hbits <;> rw [hbits] <;> split_ifs <;> omega
  · rw [give_next]
    rcases hbits with hbits | hbits <;> rw [hbits] <;> split_ifs <;> omega
  · exact give_behind (P := fun _ v => |v| ≤ 2 ^ 26 - 1) h.behind

/-- Limbs that only the first one may make negative. -/
structure NearlyPositive (x y : Limbs) : Prop where
  same : element y = element x
  first : -57 ≤ y 0 ∧ y 0 ≤ 2 ^ 26 - 1
  others : ∀ j, 0 < j → j < 10 → 0 ≤ y j ∧ y j ≤ 2 ^ 26 - 1

theorem borrowPass_first {x : Limbs} (hx : Reduced x) :
    ∃ y, pass borrow x = some y ∧ NearlyPositive x y := by
  have hstart : Borrowing x 0 x := by
    obtain ⟨hlow, hhigh⟩ := abs_le.mp (hx 0 (by omega))
    exact ⟨rfl, fun j hj => absurd hj (Nat.not_lt_zero j), ⟨by omega, hhigh⟩,
      fun j _ hj => hx j hj⟩
  obtain ⟨y, hy, hpass⟩ := pass_spec hstart fun i hi y hy => hy.next hi
  obtain ⟨hlow, hhigh⟩ := hy.here
  obtain ⟨hlow₀, hhigh₀⟩ := hy.front 0 (by omega)
  rw [hpass, borrow_eq (abs_le.mpr ⟨by omega, by omega⟩) (abs_le.mpr ⟨by omega, by omega⟩)
    (Or.inr rfl)]
  refine ⟨_, rfl, ?_, ?_, ?_⟩
  · rw [element_wrap, hy.same]
  · rw [give_next, show limbBits 9 = 25 from rfl]
    split_ifs <;> omega
  · refine give_wrap (P := fun _ v => 0 ≤ v ∧ v ≤ 2 ^ 26 - 1) hy.front ?_
    rw [show limbBits 9 = 25 from rfl]
    split_ifs <;> omega

/-- The second pass before limb `i`: a limb that is still negative leaves the first one large. -/
structure Settling (x : Limbs) (i : Nat) (y : Limbs) : Prop where
  same : element y = element x
  front : ∀ j < i, 0 ≤ y j ∧ y j ≤ 2 ^ 26 - 1
  here : -57 ≤ y i ∧ y i ≤ 2 ^ 26 - 1
  debt : 0 < i → y i < 0 → 2 ^ 26 - 57 ≤ y 0
  behind : ∀ j, i < j → j < 10 → 0 ≤ y j ∧ y j ≤ 2 ^ 26 - 1

theorem Settling.next {x y : Limbs} {i : Nat} (h : Settling x i y) (hi : i < 9) :
    ∃ z, borrow 1 y i (i + 1) = some z ∧ Settling x (i + 1) z := by
  obtain ⟨hlow, hhigh⟩ := h.here
  obtain ⟨hnlow, hnhigh⟩ := h.behind (i + 1) (Nat.lt_succ_self i) (by omega)
  have hbits := limbBits_cases i
  refine ⟨_, borrow_eq (abs_le.mpr ⟨by omega, by omega⟩) (abs_le.mpr ⟨by omega, by omega⟩)
    (Or.inl rfl), ?_, ?_, ?_, ?_, ?_⟩
  · rw [element_give hi, h.same]
  · refine give_front (P := fun _ v => 0 ≤ v ∧ v ≤ 2 ^ 26 - 1) h.front ?_
    rcases hbits with hbits | hbits <;> rw [hbits] <;> split_ifs <;> omega
  · rw [give_next]
    rcases hbits with hbits | hbits <;> rw [hbits] <;> split_ifs <;> omega
  · intro _ hneg
    rw [give_next] at hneg
    have hborrows : y i < 0 := by
      by_contra hnonneg
      rw [if_neg hnonneg] at hneg
      omega
    by_cases hzero : i = 0
    · subst hzero
      rw [give_here (by omega), if_pos hborrows, show limbBits 0 = 26 from rfl]
      omega
    · rw [give_other (by omega) (by omega)]
      exact h.debt (by omega) hborrows
  · exact give_behind (P := fun _ v => 0 ≤ v ∧ v ≤ 2 ^ 26 - 1) h.behind

/-- No limb is negative. -/
def Positive (x : Limbs) : Prop := ∀ j < 10, 0 ≤ x j ∧ x j ≤ 2 ^ 26 - 1

theorem borrowPass_second {x y : Limbs} (h : NearlyPositive x y) :
    ∃ z, pass borrow y = some z ∧ Positive z ∧ element z = element x := by
  have hstart : Settling x 0 y :=
    ⟨h.same, fun j hj => absurd hj (Nat.not_lt_zero j), h.first,
      fun hpos => absurd hpos (Nat.lt_irrefl 0), h.others⟩
  obtain ⟨z, hz, hpass⟩ := pass_spec hstart fun i hi y hy => hy.next hi
  obtain ⟨hlow, hhigh⟩ := hz.here
  obtain ⟨hlow₀, hhigh₀⟩ := hz.front 0 (by omega)
  have hdebt := hz.debt (by omega)
  rw [hpass, borrow_eq (abs_le.mpr ⟨by omega, by omega⟩) (abs_le.mpr ⟨by omega, by omega⟩)
    (Or.inr rfl)]
  refine ⟨_, rfl, ?_, ?_⟩
  · intro j hj
    rcases Nat.eq_zero_or_pos j with rfl | hpos
    · rw [give_next, show limbBits 9 = 25 from rfl]
      split_ifs with hneg
      · have hlarge := hdebt hneg
        omega
      · omega
    · refine give_wrap (P := fun _ v => 0 ≤ v ∧ v ≤ 2 ^ 26 - 1) hz.front ?_ j hpos hj
      rw [show limbBits 9 = 25 from rfl]
      split_ifs <;> omega
  · rw [element_wrap, hz.same]

/-- The third borrow finds nothing. -/
theorem borrow_positive {x : Limbs} (h : Positive x) : borrow 1 x 0 1 = some x := by
  obtain ⟨hlow, hhigh⟩ := h 0 (by omega)
  obtain ⟨hlow₁, hhigh₁⟩ := h 1 (by omega)
  rw [borrow_eq (abs_le.mpr ⟨by omega, by omega⟩) (abs_le.mpr ⟨by omega, by omega⟩)
    (Or.inl rfl), if_neg (by omega), give_zero]

/-- The first pass of carries before limb `i`. -/
structure Carrying (x : Limbs) (i : Nat) (y : Limbs) : Prop where
  same : element y = element x
  front : ∀ j < i, 0 ≤ y j ∧ y j < 2 ^ limbBits j
  here : 0 ≤ y i ∧ y i ≤ 2 ^ 26 + 1
  behind : ∀ j, i < j → j < 10 → 0 ≤ y j ∧ y j ≤ 2 ^ 26 - 1

theorem Carrying.next {x y : Limbs} {i : Nat} (h : Carrying x i y) (hi : i < 9) :
    ∃ z, carry 1 y i (i + 1) = some z ∧ Carrying x (i + 1) z := by
  obtain ⟨hlow, hhigh⟩ := h.here
  obtain ⟨hnlow, hnhigh⟩ := h.behind (i + 1) (Nat.lt_succ_self i) (by omega)
  have hbits := limbBits_cases i
  refine ⟨_, carry_eq ⟨hlow, by omega⟩ ⟨hnlow, by omega⟩ (Or.inl rfl), ?_, ?_, ?_, ?_⟩
  · rw [element_give hi, h.same]
  · refine give_front (P := fun j v => 0 ≤ v ∧ v < 2 ^ limbBits j) h.front ?_
    rcases hbits with hbits | hbits <;> rw [hbits] <;> omega
  · rw [give_next]
    rcases hbits with hbits | hbits <;> rw [hbits] <;> omega
  · exact give_behind (P := fun _ v => 0 ≤ v ∧ v ≤ 2 ^ 26 - 1) h.behind

/-- Limbs of which only the first one may be too large. -/
structure NearlyDigits (x y : Limbs) : Prop where
  same : element y = element x
  first : 0 ≤ y 0 ∧ y 0 ≤ 2 ^ 26 + 37
  others : ∀ j, 0 < j → j < 10 → 0 ≤ y j ∧ y j < 2 ^ limbBits j

theorem carryPass_first {x : Limbs} (hx : Positive x) :
    ∃ y, pass carry x = some y ∧ NearlyDigits x y := by
  have hstart : Carrying x 0 x := by
    obtain ⟨hlow, hhigh⟩ := hx 0 (by omega)
    exact ⟨rfl, fun j hj => absurd hj (Nat.not_lt_zero j), ⟨hlow, by omega⟩, fun j _ hj => hx j hj⟩
  obtain ⟨y, hy, hpass⟩ := pass_spec hstart fun i hi y hy => hy.next hi
  obtain ⟨hlow, hhigh⟩ := hy.here
  obtain ⟨hlow₀, hhigh₀⟩ := hy.front 0 (by omega)
  rw [show limbBits 0 = 26 from rfl] at hhigh₀
  rw [hpass, carry_eq ⟨hlow, by omega⟩ ⟨hlow₀, by omega⟩ (Or.inr rfl)]
  refine ⟨_, rfl, ?_, ?_, ?_⟩
  · rw [element_wrap, hy.same]
  · rw [give_next, show limbBits 9 = 25 from rfl]
    omega
  · refine give_wrap (P := fun j v => 0 ≤ v ∧ v < 2 ^ limbBits j) hy.front ?_
    rw [show limbBits 9 = 25 from rfl]
    omega

/-- The second pass before limb `i`: a limb that is too large leaves the first one small. -/
structure Finishing (x : Limbs) (i : Nat) (y : Limbs) : Prop where
  same : element y = element x
  front : ∀ j < i, 0 ≤ y j ∧ y j < 2 ^ limbBits j
  here : 0 ≤ y i ∧ y i ≤ 2 ^ limbBits i + 37
  surplus : 0 < i → y i ≤ 2 ^ limbBits i ∧ (2 ^ limbBits i ≤ y i → y 0 ≤ 37)
  behind : ∀ j, i < j → j < 10 → 0 ≤ y j ∧ y j < 2 ^ limbBits j

theorem Finishing.next {x y : Limbs} {i : Nat} (h : Finishing x i y) (hi : i < 9) :
    ∃ z, carry 1 y i (i + 1) = some z ∧ Finishing x (i + 1) z := by
  obtain ⟨hlow, hhigh⟩ := h.here
  obtain ⟨hnlow, hnhigh⟩ := h.behind (i + 1) (Nat.lt_succ_self i) (by omega)
  have hsize : (2 ^ limbBits i : Int) ≤ 2 ^ 26 := by
    rcases limbBits_cases i with hbits | hbits <;> rw [hbits]
    norm_num
  have hsize' : (2 ^ limbBits (i + 1) : Int) ≤ 2 ^ 26 := by
    rcases limbBits_cases (i + 1) with hbits | hbits <;> rw [hbits]
    norm_num
  have hpos : (38 : Int) ≤ 2 ^ limbBits i := by
    rcases limbBits_cases i with hbits | hbits <;> rw [hbits] <;> norm_num
  have hexcess : 0 ≤ y i / 2 ^ limbBits i ∧ y i / 2 ^ limbBits i ≤ 1 := by
    rcases limbBits_cases i with hbits | hbits <;> rw [hbits] at hhigh ⊢ <;> omega
  have hrest : 0 ≤ y i - y i / 2 ^ limbBits i * 2 ^ limbBits i ∧
      y i - y i / 2 ^ limbBits i * 2 ^ limbBits i < 2 ^ limbBits i := by
    rcases limbBits_cases i with hbits | hbits <;> rw [hbits] <;> omega
  refine ⟨_, carry_eq ⟨hlow, by omega⟩ ⟨hnlow, by omega⟩ (Or.inl rfl), ?_, ?_, ?_, ?_, ?_⟩
  · rw [element_give hi, h.same]
  · exact give_front (P := fun j v => 0 ≤ v ∧ v < 2 ^ limbBits j) h.front hrest
  · rw [give_next]
    omega
  · intro _
    rw [give_next]
    refine ⟨by omega, ?_⟩
    intro hlarge
    have hone : y i / 2 ^ limbBits i = 1 := by omega
    by_cases hzero : i = 0
    · subst hzero
      rw [give_here (by omega), hone]
      omega
    · rw [give_other (by omega) (by omega)]
      refine (h.surplus (by omega)).2 ?_
      rw [hone] at hrest
      omega
  · exact give_behind (P := fun j v => 0 ≤ v ∧ v < 2 ^ limbBits j) h.behind

/-- All limbs fit into their bits. -/
def Digits (x : Limbs) : Prop := ∀ j < 10, 0 ≤ x j ∧ x j < 2 ^ limbBits j

theorem carryPass_second {x y : Limbs} (h : NearlyDigits x y) :
    ∃ z, pass carry y = some z ∧ Digits z ∧ element z = element x := by
  have hstart : Finishing x 0 y :=
    ⟨h.same, fun j hj => absurd hj (Nat.not_lt_zero j), h.first,
      fun hpos => absurd hpos (Nat.lt_irrefl 0), h.others⟩
  obtain ⟨z, hz, hpass⟩ := pass_spec hstart fun i hi y hy => hy.next hi
  obtain ⟨hlow, -⟩ := hz.here
  obtain ⟨hhigh, hsmall⟩ := hz.surplus (by omega)
  obtain ⟨hlow₀, hhigh₀⟩ := hz.front 0 (by omega)
  rw [show limbBits 0 = 26 from rfl] at hhigh₀
  rw [show limbBits 9 = 25 from rfl] at hhigh hsmall
  rw [hpass, carry_eq ⟨hlow, by omega⟩ ⟨hlow₀, by omega⟩ (Or.inr rfl)]
  refine ⟨_, rfl, ?_, ?_⟩
  · intro j hj
    rcases Nat.eq_zero_or_pos j with rfl | hpos
    · rw [give_next, show limbBits 9 = 25 from rfl, show limbBits 0 = 26 from rfl]
      omega
    · refine give_wrap (P := fun j v => 0 ≤ v ∧ v < 2 ^ limbBits j) hz.front ?_ j hpos hj
      rw [show limbBits 9 = 25 from rfl]
      omega
  · rw [element_wrap, hz.same]

/-! ## The last subtraction -/

theorem complement_toInt (x : BitVec 32) : -1 - x.toInt = (~~~x).toInt := by
  have hx := x.isLt
  have hnot : (~~~x).toNat = 2 ^ 32 - 1 - x.toNat := BitVec.toNat_not
  rw [BitVec.toInt_eq_toNat_cond, BitVec.toInt_eq_toNat_cond, hnot]
  split_ifs <;> omega

theorem and_shiftLeft_toInt (x : BitVec 32) (n : Nat) :
    (of x.toInt &&& of x.toInt <<< n : S32) = of (x &&& x <<< n).toInt := by
  have hshift : (of x.toInt <<< n : S32) = of (x <<< n).toInt := by
    refine congrArg of ?_
    show Int.bmod (x.toInt * 2 ^ n) (2 ^ 32) = _
    rw [BitVec.toInt_shiftLeft, BitVec.toInt_eq_toNat_bmod, Int.bmod_mul_bmod, Nat.shiftLeft_eq]
    push_cast
    rfl
  rw [hshift]
  refine congrArg of ?_
  rw [bitwise, BitVec.ofInt_toInt, BitVec.ofInt_toInt]

/-- The bits of `x` and those below, gathered in the highest one. -/
def gather (x : BitVec 32) : BitVec 32 :=
  let x := x &&& x <<< 16
  let x := x &&& x <<< 8
  let x := x &&& x <<< 4
  let x := x &&& x <<< 2
  x &&& x <<< 1

theorem gather_msb (x : BitVec 32) : (gather x).msb = decide (x = BitVec.allOnes 32) := by
  by_cases h : x = BitVec.allOnes 32
  · rw [h]
    decide
  · rw [decide_eq_false h]
    by_contra hmsb
    refine h (BitVec.eq_of_getLsbD_eq fun i hi => ?_)
    rw [Bool.not_eq_false, BitVec.msb_eq_getLsbD_last] at hmsb
    simp [gather] at hmsb
    interval_cases i <;> simp_all

/-- `s32_eq`. -/
theorem s32Eq_eq {a b : Int} (ha : Fits 32 a) (hb : Fits 32 b) :
    s32Eq a b = of (if a = b then -1 else 0) := by
  have hbase : (~~~(of a ^^^ of b) : S32)
      = of (~~~(BitVec.ofInt 32 a ^^^ BitVec.ofInt 32 b)).toInt := by
    rw [xor_of, complement_of, bitwise, complement_toInt]
  have hequal : (~~~(BitVec.ofInt 32 a ^^^ BitVec.ofInt 32 b) = BitVec.allOnes 32) ↔ a = b := by
    have hxor : BitVec.ofInt 32 a ^^^ BitVec.ofInt 32 b = 0 ↔ BitVec.ofInt 32 a = BitVec.ofInt 32 b :=
      BitVec.xor_eq_zero_iff
    have hinj : BitVec.ofInt 32 a = BitVec.ofInt 32 b ↔ a = b := by
      refine ⟨fun heq => ?_, fun heq => by rw [heq]⟩
      have htoInt := congrArg BitVec.toInt heq
      rw [BitVec.toInt_ofInt_eq_self (by decide) ha.1 ha.2,
        BitVec.toInt_ofInt_eq_self (by decide) hb.1 hb.2] at htoInt
      exact htoInt
    rw [← hinj, ← hxor]
    constructor
    · intro hones
      rw [← BitVec.not_not (b := BitVec.ofInt 32 a ^^^ BitVec.ofInt 32 b), hones]
      decide
    · intro hzero
      rw [hzero]
      decide
  rw [s32Eq, hbase, and_shiftLeft_toInt, and_shiftLeft_toInt, and_shiftLeft_toInt, and_shiftLeft_toInt,
    and_shiftLeft_toInt, shiftRight_of]
  refine congrArg of ?_
  have hmsb := gather_msb (~~~(BitVec.ofInt 32 a ^^^ BitVec.ofInt 32 b))
  rw [BitVec.msb_eq_toInt] at hmsb
  have hlow := BitVec.le_toInt (gather (~~~(BitVec.ofInt 32 a ^^^ BitVec.ofInt 32 b)))
  have hhigh := @BitVec.toInt_lt 32 (gather (~~~(BitVec.ofInt 32 a ^^^ BitVec.ofInt 32 b)))
  have hsign : (gather (~~~(BitVec.ofInt 32 a ^^^ BitVec.ofInt 32 b))).toInt < 0 ↔ a = b := by
    rw [← hequal]
    exact decide_eq_decide.mp hmsb
  rw [gather] at hlow hhigh hsign
  by_cases heq : a = b
  · rw [if_pos heq]
    have hneg := hsign.mpr heq
    omega
  · rw [if_neg heq]
    have hnonneg := mt hsign.mp heq
    omega

/-- `s32_gte`. -/
theorem s32Gte_eq {a b : Int} (ha : 0 ≤ a ∧ a < 2 ^ 26) (hb : 0 ≤ b ∧ b < 2 ^ 26) :
    s32Gte a b = of (if b ≤ a then -1 else 0) := by
  rw [s32Gte, sub_of (fits_of_le (by omega) (by omega)), shiftRight_of, complement_of]
  refine congrArg of ?_
  split_ifs <;> omega

theorem Digits.le {x : Limbs} (h : Digits x) {i : Nat} (hi : i < 10) : 0 ≤ x i ∧ x i < 2 ^ 26 := by
  obtain ⟨hlow, hhigh⟩ := h i hi
  refine ⟨hlow, lt_of_lt_of_le hhigh ?_⟩
  rcases limbBits_cases i with hbits | hbits <;> rw [hbits]
  norm_num

theorem limbMask_le (i : Nat) : 0 ≤ limbMask i ∧ limbMask i < 2 ^ 26 := by
  rw [limbMask]
  split_ifs <;> norm_num

/-- The masks of the single limbs together. -/
theorem foldlM_mask {x : Limbs} (l : List Nat) (hl : ∀ i ∈ l, Fits 32 (x i)) (p : Prop)
    [Decidable p] :
    l.foldlM (fun mask i => (of mask &&& s32Eq (x i) (limbMask i) : S32).toOption)
        (if p then -1 else 0)
      = some (if p ∧ ∀ i ∈ l, x i = limbMask i then -1 else 0) := by
  induction l generalizing p with
  | nil => simp
  | cons i l ih =>
      obtain ⟨hlow, hhigh⟩ := limbMask_le i
      have hstep : (of (if p then -1 else 0) &&& s32Eq (x i) (limbMask i) : S32).toOption
          = some (if p ∧ x i = limbMask i then -1 else 0) := by
        rw [s32Eq_eq (hl i List.mem_cons_self) (fits_of_le (by omega) (by omega))]
        by_cases hx : x i = limbMask i
        · rw [if_pos hx, and_minus_one_of (by decide) (by split_ifs <;> decide)]
          simp only [hx, and_true]
          rfl
        · rw [if_neg hx, and_zero_of, if_neg fun h => hx h.2]
          rfl
      rw [List.foldlM_cons, some_bind hstep, ih fun j hj => hl j (List.mem_cons_of_mem i hj)]
      simp only [List.forall_mem_cons, and_assoc]

/-- The limbs of the modulus. -/
def modulusLimb (i : Nat) : Int := if i = 0 then 0x3ffffed else limbMask i

theorem integer_modulusLimb : integer modulusLimb = prime := by
  rw [integer, value_ten, value_nine]
  norm_num [modulusLimb, limbMask, prime]

theorem Digits.modulus_le_iff {x : Limbs} (h : Digits x) :
    ((0x3ffffed ≤ x 0) ∧ ∀ i ∈ List.range' 1 9, x i = limbMask i) ↔ (prime : Int) ≤ integer x := by
  have h₀ := h 0 (by omega)
  have h₁ := h 1 (by omega)
  have h₂ := h 2 (by omega)
  have h₃ := h 3 (by omega)
  have h₄ := h 4 (by omega)
  have h₅ := h 5 (by omega)
  have h₆ := h 6 (by omega)
  have h₇ := h 7 (by omega)
  have h₈ := h 8 (by omega)
  have h₉ := h 9 (by omega)
  rw [integer, value_ten, value_nine]
  norm_num [limbBits] at h₀ h₁ h₂ h₃ h₄ h₅ h₆ h₇ h₈ h₉
  norm_num [prime]
  constructor
  · rintro ⟨hfirst, hothers⟩
    have g₁ : x 1 = 0x1ffffff := hothers 1 (by omega) (by omega)
    have g₂ : x 2 = 0x3ffffff := hothers 2 (by omega) (by omega)
    have g₃ : x 3 = 0x1ffffff := hothers 3 (by omega) (by omega)
    have g₄ : x 4 = 0x3ffffff := hothers 4 (by omega) (by omega)
    have g₅ : x 5 = 0x1ffffff := hothers 5 (by omega) (by omega)
    have g₆ : x 6 = 0x3ffffff := hothers 6 (by omega) (by omega)
    have g₇ : x 7 = 0x1ffffff := hothers 7 (by omega) (by omega)
    have g₈ : x 8 = 0x3ffffff := hothers 8 (by omega) (by omega)
    have g₉ : x 9 = 0x1ffffff := hothers 9 (by omega) (by omega)
    omega
  · intro hle
    refine ⟨by omega, fun i hlow hhigh => ?_⟩
    interval_cases i <;> simp only [limbMask] <;> norm_num <;> omega

theorem modulusMask_eq {x : Limbs} (h : Digits x) :
    modulusMask x = some (if (prime : Int) ≤ integer x then -1 else 0) := by
  have hfirst : (s32Gte (x 0) 0x3ffffed).toOption = some (if 0x3ffffed ≤ x 0 then -1 else 0) := by
    rw [s32Gte_eq (h.le (by omega)) (by norm_num)]
    rfl
  have hfits : ∀ i ∈ List.range' 1 9, Fits 32 (x i) := by
    intro i hi
    obtain ⟨hlow, hhigh⟩ := h.le (i := i) (by
      rw [List.mem_range'_1] at hi
      omega)
    exact fits_of_le (by omega) (by omega)
  rw [modulusMask, some_bind hfirst, foldlM_mask _ hfits]
  simp only [h.modulus_le_iff]

instance : NeZero prime := ⟨by
  rw [prime]
  norm_num⟩

/-- **THE NUMBER** of the element is left. -/
theorem subtract_spec {x : Limbs} (h : Digits x) :
    ∃ y, defined 10 (fun i => (of (x i) - (of (if (prime : Int) ≤ integer x then -1 else 0)
        &&& of (if i = 0 then 0x3ffffed else limbMask i)) : S32)) = some y ∧
      Digits y ∧ integer y = (element x).val := by
  have hmodulus : ∀ i, 0 ≤ modulusLimb i ∧ modulusLimb i < 2 ^ 26 := by
    intro i
    rw [modulusLimb]
    split_ifs
    · norm_num
    · exact limbMask_le i
  have hbelow : integer x < 2 ^ 255 ∧ 0 ≤ integer x := by
    obtain ⟨hlow, hhigh⟩ := value_lt (n := 10) rfl weight_succ weight_pos h
    rw [weight_ten] at hhigh
    exact ⟨hhigh, hlow⟩
  obtain ⟨y, hy, hvalue⟩ := defined_eq (n := 10)
    (x := fun i => (of (x i) - (of (if (prime : Int) ≤ integer x then -1 else 0)
        &&& of (modulusLimb i)) : S32))
    (v := fun i => x i - if (prime : Int) ≤ integer x then modulusLimb i else 0) (by
      intro i hi
      obtain ⟨hlow, hhigh⟩ := h.le hi
      obtain ⟨hmlow, hmhigh⟩ := hmodulus i
      rw [and_comm_of]
      split_ifs
      · rw [and_minus_one_of (by decide) (fits_of_le (by omega) (by omega)),
          sub_of (fits_of_le (by omega) (by omega))]
      · rw [and_zero_of, sub_of (fits_of_le (by omega) (by omega))])
  refine ⟨y, hy, ?_, ?_⟩
  · intro i hi
    obtain ⟨hlow, hhigh⟩ := h i hi
    rw [hvalue i hi]
    split_ifs with hle
    · obtain ⟨hfirst, hothers⟩ := h.modulus_le_iff.mpr hle
      rw [modulusLimb]
      split_ifs with hzero
      · subst hzero
        exact ⟨by omega, by omega⟩
      · rw [hothers i (by rw [List.mem_range'_1]; omega), sub_self]
        exact ⟨le_refl _, by positivity⟩
    · rw [sub_zero]
      exact ⟨hlow, hhigh⟩
  · have hsub : integer y = integer x - if (prime : Int) ≤ integer x then (prime : Int) else 0 := by
      rw [integer, value_congr hvalue]
      split_ifs
      · rw [value_sub, ← integer_modulusLimb]
        rfl
      · simp only [sub_zero]
        rfl
    rw [hsub, element, ZMod.val_intCast]
    have hprime : (prime : Int) = 2 ^ 255 - 19 := by
      rw [prime]
      norm_num
    split_ifs with hle
    · rw [← Int.sub_emod_right, Int.emod_eq_of_lt (by omega) (by omega)]
    · rw [sub_zero, Int.emod_eq_of_lt (by omega) (by omega)]

end OlmCurve25519
