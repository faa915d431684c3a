import SelfOlm.Lib.MontgomeryLadder

/-! # Multiples of points on Montgomery curves

    On `y² = x³ + A x² + x` the ladder has the coordinates of the multiples of a point: of
    a double there is a formula in the coordinate alone, and of a sum one in the
    coordinates of both and of their difference. -/

namespace MontgomeryLadder

open WeierstrassCurve.Affine

variable {K : Type*} [Field K]

/-! ## The curve -/

/-- `y² = x³ + A x² + x`. -/
def curve (A : K) : WeierstrassCurve.Affine K := ⟨0, A, 0, 1, 0⟩

variable {A : K}

theorem equation_iff {x y : K} : (curve A).Equation x y ↔ y ^ 2 = x ^ 3 + A * x ^ 2 + x := by
  rw [WeierstrassCurve.Affine.equation_iff]
  simp [curve]

theorem negY_eq (x y : K) : (curve A).negY x y = -y := by simp [curve, negY]

/-- The coordinate of a point; zero for the one at infinity. -/
def coordinate : (curve A).Point → K
  | .zero => 0
  | .some x _ _ => x

/-- The point has the coordinate `x / z`, and is the one at infinity where this is none. -/
inductive At : (curve A).Point → K → K → Prop
  | infinity {x : K} (hx : x ≠ 0) : At .zero x 0
  | affine {u y : K} (h : (curve A).Nonsingular u y) {z : K} (hz : z ≠ 0) :
      At (.some u y h) (u * z) z

theorem At.coordinate {P : (curve A).Point} {x z : K} (h : At P x z) :
    x / z = MontgomeryLadder.coordinate P := by
  cases h with
  | infinity hx => exact div_zero x
  | affine h hz => exact mul_div_cancel_right₀ _ hz

theorem At.of_infinity {x z : K} (hx : x ≠ 0) (hz : z = 0) : At (0 : (curve A).Point) x z := by
  subst hz
  exact .infinity hx

theorem At.of_affine {u y x z : K} (h : (curve A).Nonsingular u y) (hz : z ≠ 0) (hx : x = u * z) :
    At (.some u y h) x z := by
  subst hx
  exact .affine h hz

theorem At.neg {P : (curve A).Point} {x z : K} (h : At P x z) : At (-P) x z := by
  cases h with
  | infinity hx => exact .infinity hx
  | affine h hz => exact .affine _ hz

/-! ## Doubles and sums -/

variable [DecidableEq K] {a24 : K}

omit [DecidableEq K] in
/-- The coordinate of the double. -/
theorem double_coordinate (htwo : (2 : K) ≠ 0) {u y ℓ : K} (hy : y ≠ 0)
    (heq : y ^ 2 = u ^ 3 + A * u ^ 2 + u) (hℓ : ℓ = (3 * u ^ 2 + 2 * A * u + 1) / (2 * y)) :
    (u ^ 2 - 1) ^ 2 = (ℓ ^ 2 - A - u - u) * (4 * y ^ 2) := by
  have hslope : ℓ * (2 * y) = 3 * u ^ 2 + 2 * A * u + 1 := by
    rw [hℓ, div_mul_cancel₀ _ (mul_ne_zero htwo hy)]
  linear_combination (-(ℓ * (2 * y)) - (3 * u ^ 2 + 2 * A * u + 1)) * hslope
    + 4 * (A + 2 * u) * heq

omit [DecidableEq K] in
/-- The coordinates of the sum and the difference. -/
theorem sum_coordinate {u y u' y' ℓ k : K} (hne : u ≠ u') (heq : y ^ 2 = u ^ 3 + A * u ^ 2 + u)
    (heq' : y' ^ 2 = u' ^ 3 + A * u' ^ 2 + u') (hℓ : ℓ = (y - y') / (u - u'))
    (hk : k = (y + y') / (u - u')) :
    (u * u' - 1) ^ 2 = (ℓ ^ 2 - A - u - u') * (k ^ 2 - A - u - u') * (u - u') ^ 2 := by
  have hsub : u - u' ≠ 0 := sub_ne_zero.mpr hne
  have hslope : ℓ * (u - u') = y - y' := by rw [hℓ, div_mul_cancel₀ _ hsub]
  have hslope' : k * (u - u') = y + y' := by rw [hk, div_mul_cancel₀ _ hsub]
  have hscaled : (ℓ ^ 2 - A - u - u') * (k ^ 2 - A - u - u') * (u - u') ^ 2 * (u - u') ^ 2
      = ((ℓ * (u - u')) ^ 2 - (A + u + u') * (u - u') ^ 2)
        * ((k * (u - u')) ^ 2 - (A + u + u') * (u - u') ^ 2) := by ring
  have hproduct : ((y - y') ^ 2 - (A + u + u') * (u - u') ^ 2)
        * ((y + y') ^ 2 - (A + u + u') * (u - u') ^ 2)
      = (y ^ 2 - y' ^ 2) ^ 2 - 2 * (A + u + u') * (u - u') ^ 2 * (y ^ 2 + y' ^ 2)
        + (A + u + u') ^ 2 * (u - u') ^ 4 := by ring
  refine mul_right_cancel₀ (pow_ne_zero 2 hsub) ?_
  rw [hscaled, hslope, hslope', hproduct, heq, heq']
  ring

/-- **DOUBLING**. -/
theorem At.double (htwo : (2 : K) ≠ 0) (hA : A ^ 2 ≠ 4) (ha24 : 4 * a24 = A - 2)
    {P : (curve A).Point} {x z : K} (h : At P x z) :
    At (P + P) (((x + z) * (x - z)) ^ 2) (4 * x * z * ((x + z) ^ 2 + a24 * (4 * x * z))) := by
  cases h with
  | infinity hx =>
      refine At.of_infinity ?_ (by ring)
      rw [add_zero, sub_zero]
      exact pow_ne_zero 2 (mul_ne_zero hx hx)
  | @affine u y h z hz =>
      have heq := equation_iff.mp h.1
      have hzcoord : 4 * (u * z) * z * ((u * z + z) ^ 2 + a24 * (4 * (u * z) * z))
          = 4 * y ^ 2 * z ^ 4 := by
        linear_combination 4 * u ^ 2 * z ^ 4 * ha24 - 4 * z ^ 4 * heq
      have hxcoord : ((u * z + z) * (u * z - z)) ^ 2 = (u ^ 2 - 1) ^ 2 * z ^ 4 := by ring
      rw [hzcoord, hxcoord]
      by_cases hy : y = 0
      · rw [Point.add_self_of_Y_eq (by rw [negY_eq, hy, neg_zero])]
        refine At.of_infinity (mul_ne_zero (pow_ne_zero 2 ?_) (pow_ne_zero 4 hz)) ?_
        · -- otherwise the curve has a node
          intro hone
          have hu : u ^ 2 = 1 := sub_eq_zero.mp hone
          have hzero : u * (u ^ 2 + A * u + 1) = 0 := by
            rw [hy] at heq
            linear_combination -heq
          rcases mul_eq_zero.mp hzero with hu' | hfactor
          · rw [hu', zero_pow two_ne_zero] at hu
            exact zero_ne_one hu
          · refine hA ?_
            linear_combination (A * u - u ^ 2 - 1) * hfactor + (u ^ 2 + 3 - A ^ 2) * hu
        · rw [hy]
          ring
      · have hne : y ≠ (curve A).negY u y := by
          rw [negY_eq]
          intro hneg
          have hsum : 2 * y = 0 := by linear_combination hneg
          exact (mul_ne_zero htwo hy) hsum
        rw [Point.add_self_of_Y_ne hne]
        have hfour : (4 : K) ≠ 0 := by
          have hmul : (4 : K) = 2 * 2 := by norm_num
          rw [hmul]
          exact mul_ne_zero htwo htwo
        refine At.of_affine _
          (mul_ne_zero (mul_ne_zero hfour (pow_ne_zero 2 hy)) (pow_ne_zero 4 hz)) ?_
        have hslope : (curve A).slope u u y y = (3 * u ^ 2 + 2 * A * u + 1) / (2 * y) := by
          rw [slope_of_Y_ne rfl hne, negY_eq]
          simp only [curve]
          congr 1 <;> ring
        have hdouble := double_coordinate htwo hy heq hslope
        have haddX : (curve A).addX u u ((curve A).slope u u y y)
            = (curve A).slope u u y y ^ 2 - A - u - u := by
          simp only [addX, curve]
          ring
        rw [haddX, hdouble]
        ring

omit [DecidableEq K] in
theorem addX_eq (u u' ℓ : K) : (curve A).addX u u' ℓ = ℓ ^ 2 - A - u - u' := by
  simp only [addX, curve]
  ring

/-- **ADDING** where the coordinate of the difference is known. -/
theorem At.sum (htwo : (2 : K) ≠ 0) (hA : A ^ 2 ≠ 4) (ha24 : 4 * a24 = A - 2)
    {P P' Q : (curve A).Point} (hQ : Q = -P + P') (hq : MontgomeryLadder.coordinate Q ≠ 0)
    {x z x' z' : K} (h : At P x z) (h' : At P' x' z') :
    At (P + P') ((2 * (x * x' - z * z')) ^ 2)
      ((2 * (x * z' - z * x')) ^ 2 * MontgomeryLadder.coordinate Q) := by
  cases h with
  | @infinity x hx =>
      have hP' : P' = Q := by
        rw [hQ]
        exact (zero_add P').symm
      subst hP'
      cases h' with
      | infinity hx' => exact absurd rfl hq
      | @affine u' y' h' z' hz' =>
          refine At.of_affine h' (mul_ne_zero (pow_ne_zero 2 (mul_ne_zero htwo ?_)) hq) ?_
          · rw [zero_mul, sub_zero]
            exact mul_ne_zero hx hz'
          · simp only [MontgomeryLadder.coordinate]
            ring
  | @affine u y h z hz =>
      cases h' with
      | @infinity x' hx' =>
          have hsum : (Point.some u y h : (curve A).Point) + .zero = .some u y h := add_zero _
          have hcoord : MontgomeryLadder.coordinate Q = u := by
            rw [hQ]
            rfl
          rw [hcoord] at hq ⊢
          rw [hsum]
          refine At.of_affine h (mul_ne_zero (pow_ne_zero 2 (mul_ne_zero htwo ?_)) hq) ?_
          · rw [mul_zero, zero_sub, neg_ne_zero]
            exact mul_ne_zero hz hx'
          · ring
      | @affine u' y' h' z' hz' =>
          by_cases hu : u = u'
          · subst hu
            rcases Y_eq_of_X_eq h.1 h'.1 rfl with hy | hy
            · -- the same point twice has no difference
              subst hy
              refine absurd ?_ hq
              rw [hQ, neg_add_cancel]
              rfl
            · rw [Point.add_of_Y_eq rfl hy]
              refine At.of_infinity (pow_ne_zero 2 (mul_ne_zero htwo ?_)) (by ring)
              -- the difference is the double of the point
              intro hzero
              have hone : u ^ 2 = 1 := by
                have hfactor : z * z' * (u ^ 2 - 1) = 0 := by linear_combination hzero
                rcases mul_eq_zero.mp hfactor with hzz | hsub
                · exact absurd hzz (mul_ne_zero hz hz')
                · exact sub_eq_zero.mp hsub
              have hnegP : (Point.some u y' h' : (curve A).Point) = -Point.some u y h := by
                rw [Point.neg_some]
                congr 1
                rw [hy, negY_negY]
              have hdouble := (At.double htwo hA ha24 (At.affine h one_ne_zero)).neg.coordinate
              rw [neg_add, ← hnegP] at hdouble
              refine hq ?_
              rw [hQ, ← hnegP, ← hdouble]
              have hnumerator : (u * 1 + 1) * (u * 1 - 1) = 0 := by linear_combination hone
              rw [hnumerator, zero_pow two_ne_zero, zero_div]
          · have hsum : (Point.some u y h : (curve A).Point) + Point.some u' y' h'
                = Point.some _ _ (nonsingular_add h h' fun hxy => hu hxy.left) :=
              Point.add_of_X_ne hu
            have hcoord : MontgomeryLadder.coordinate Q
                = ((y + y') / (u - u')) ^ 2 - A - u - u' := by
              have hneg := (nonsingular_neg u y).mpr h
              have hdiff : (-Point.some u y h : (curve A).Point) + Point.some u' y' h'
                  = Point.some _ _ (nonsingular_add hneg h' fun hxy => hu hxy.left) :=
                Point.add_of_X_ne hu
              rw [hQ, hdiff]
              show (curve A).addX u u' ((curve A).slope u u' ((curve A).negY u y) y') = _
              rw [addX_eq, slope_of_X_ne hu, negY_eq]
              ring
            have hproduct := sum_coordinate hu (equation_iff.mp h.1) (equation_iff.mp h'.1) rfl rfl
            rw [hcoord] at hq
            rw [hsum, hcoord]
            refine At.of_affine _ (mul_ne_zero (pow_ne_zero 2 (mul_ne_zero htwo ?_)) hq) ?_
            · have hfactor : u * z * z' - z * (u' * z') = z * z' * (u - u') := by ring
              rw [hfactor]
              exact mul_ne_zero (mul_ne_zero hz hz') (sub_ne_zero.mpr hu)
            · rw [addX_eq, slope_of_X_ne hu]
              linear_combination 4 * z ^ 2 * z' ^ 2 * hproduct

/-! ## The ladder -/

/-- A multiple of a point, and the next one. -/
structure Multiples (Q : (curve A).Point) (n : Nat) (s : Pair K) : Prop where
  point : At (n • Q) s.x s.z
  next : At ((n + 1) • Q) s.xprime s.zprime

/-- One bit. -/
theorem Multiples.bit (htwo : (2 : K) ≠ 0) (hA : A ^ 2 ≠ 4) (ha24 : 4 * a24 = A - 2)
    {Q : (curve A).Point} (hq : MontgomeryLadder.coordinate Q ≠ 0) {n : Nat} {s : Pair K}
    (h : Multiples Q n s) (bit : Bool) :
    Multiples Q (2 * n + bit.toNat) (s.bit a24 (MontgomeryLadder.coordinate Q) bit) := by
  have hQ : Q = -(n • Q) + (n + 1) • Q := by
    rw [succ_nsmul, neg_add_cancel_left]
  have hsum := At.sum htwo hA ha24 hQ hq h.point h.next
  have hodd : n • Q + (n + 1) • Q = (2 * n + 1) • Q := by
    rw [← add_nsmul]
    congr 1
    ring
  rw [hodd] at hsum
  cases bit with
  | false =>
      refine ⟨?_, hsum⟩
      have hdouble := At.double htwo hA ha24 h.point
      rw [← two_nsmul, ← mul_nsmul'] at hdouble
      exact hdouble
  | true =>
      refine ⟨?_, ?_⟩
      · have hx : (2 * (s.xprime * s.x - s.zprime * s.z)) ^ 2
            = (2 * (s.x * s.xprime - s.z * s.zprime)) ^ 2 := by ring
        have hz : (2 * (s.xprime * s.z - s.zprime * s.x)) ^ 2 * MontgomeryLadder.coordinate Q
            = (2 * (s.x * s.zprime - s.z * s.xprime)) ^ 2 * MontgomeryLadder.coordinate Q := by ring
        show At _ ((2 * (s.xprime * s.x - s.zprime * s.z)) ^ 2)
          ((2 * (s.xprime * s.z - s.zprime * s.x)) ^ 2 * MontgomeryLadder.coordinate Q)
        rw [hx, hz]
        exact hsum
      · have hdouble := At.double htwo hA ha24 h.next
        rw [← two_nsmul, ← mul_nsmul'] at hdouble
        exact hdouble

/-- **THE LADDER** has the coordinate of the multiple of the point. -/
theorem ladder_multiples (htwo : (2 : K) ≠ 0) (hA : A ^ 2 ≠ 4) (ha24 : 4 * a24 = A - 2)
    {Q : (curve A).Point} (hq : MontgomeryLadder.coordinate Q ≠ 0) (bits : List Bool) :
    Multiples Q (number bits) (ladder a24 (MontgomeryLadder.coordinate Q) bits) := by
  have hstart : Multiples Q 0 (Pair.start (MontgomeryLadder.coordinate Q)) := by
    refine ⟨?_, ?_⟩
    · rw [zero_nsmul]
      exact At.of_infinity one_ne_zero rfl
    · rw [zero_add, one_nsmul]
      cases Q with
      | zero => exact absurd rfl hq
      | some u y h => exact At.of_affine h one_ne_zero (mul_one _).symm
  rw [number, ladder]
  generalize Pair.start (MontgomeryLadder.coordinate Q) = s at hstart
  generalize 0 = n at hstart
  induction bits generalizing n s with
  | nil => exact hstart
  | cons bit bits ih => exact ih _ _ (hstart.bit htwo hA ha24 hq bit)

/-- No point and no next one, or both with the coordinate zero. -/
def Pair.Degenerate (s : Pair K) : Prop := s.x * s.z = 0 ∧ s.xprime * s.zprime = 0

omit [DecidableEq K] in
theorem Pair.Degenerate.bit {s : Pair K} (h : s.Degenerate) (bit : Bool) :
    (s.bit a24 0 bit).Degenerate := by
  have hstep : ∀ s : Pair K, s.x * s.z = 0 → (s.step a24 0).Degenerate := by
    intro s h
    refine ⟨?_, ?_⟩
    · simp only [Pair.step]
      linear_combination ((s.x + s.z) * (s.x - s.z)) ^ 2 * 4
        * ((s.x + s.z) ^ 2 + a24 * (4 * s.x * s.z)) * h
    · simp only [Pair.step, mul_zero]
  cases bit with
  | false => exact hstep s h.1
  | true =>
      obtain ⟨hpoint, hnext⟩ := hstep s.swap h.2
      exact ⟨hnext, hpoint⟩

omit [DecidableEq K] in
theorem ladder_zero (a24 : K) (bits : List Bool) : (ladder a24 (0 : K) bits).Degenerate := by
  have hstart : (Pair.start (0 : K)).Degenerate := ⟨mul_zero _, zero_mul _⟩
  rw [ladder]
  generalize Pair.start (0 : K) = s at hstart
  induction bits generalizing s with
  | nil => exact hstart
  | cons bit bits ih => exact ih _ (hstart.bit bit)

/-- The point at zero is its own inverse. -/
theorem coordinate_nsmul_zero {Q : (curve A).Point} (hq : MontgomeryLadder.coordinate Q = 0)
    (n : Nat) : MontgomeryLadder.coordinate (n • Q) = 0 := by
  have hdouble : Q + Q = 0 := by
    cases Q with
    | zero => exact add_zero _
    | some u y h =>
        have hu : u = 0 := hq
        have hy : y = 0 := by
          have heq := equation_iff.mp h.1
          rw [hu] at heq
          exact pow_eq_zero_iff two_ne_zero |>.mp (by linear_combination heq)
        exact Point.add_self_of_Y_eq (by rw [negY_eq, hy, neg_zero])
  obtain ⟨k, rfl | rfl⟩ := Nat.even_or_odd' n
  · rw [mul_comm, mul_nsmul', two_nsmul, hdouble, nsmul_zero]
    rfl
  · rw [succ_nsmul, mul_comm, mul_nsmul', two_nsmul, hdouble, nsmul_zero, zero_add]
    exact hq

/-- **THE QUOTIENT** of the ladder, for every point and every number. -/
theorem ladder_coordinate (htwo : (2 : K) ≠ 0) (hA : A ^ 2 ≠ 4) (ha24 : 4 * a24 = A - 2)
    (Q : (curve A).Point) (bits : List Bool) :
    (ladder a24 (MontgomeryLadder.coordinate Q) bits).x
        / (ladder a24 (MontgomeryLadder.coordinate Q) bits).z
      = MontgomeryLadder.coordinate (number bits • Q) := by
  by_cases hq : MontgomeryLadder.coordinate Q = 0
  · rw [coordinate_nsmul_zero hq, hq]
    rcases mul_eq_zero.mp (ladder_zero a24 bits).1 with hx | hz
    · rw [hx, zero_div]
    · rw [hz, div_zero]
  · exact (ladder_multiples htwo hA ha24 hq bits).point.coordinate

omit [DecidableEq K] in
/-- Every coordinate is one of a point, over a field with all square roots. -/
theorem exists_point [IsAlgClosed K] (htwo : (2 : K) ≠ 0) (hA : A ^ 2 ≠ 4) (u : K) :
    ∃ Q : (curve A).Point, MontgomeryLadder.coordinate Q = u := by
  obtain ⟨y, hy⟩ := IsAlgClosed.exists_pow_nat_eq (u ^ 3 + A * u ^ 2 + u) two_pos
  have hdiscriminant : (curve A).Δ = 2 ^ 4 * (A ^ 2 - 4) := by
    simp only [WeierstrassCurve.Δ, WeierstrassCurve.b₂, WeierstrassCurve.b₄,
      WeierstrassCurve.b₆, WeierstrassCurve.b₈, curve]
    ring
  have hne : (curve A).Δ ≠ 0 := by
    rw [hdiscriminant]
    exact mul_ne_zero (pow_ne_zero 4 htwo) (sub_ne_zero.mpr hA)
  exact ⟨.some u y ((equation_iff_nonsingular_of_Δ_ne_zero hne).mp (equation_iff.mpr hy)), rfl⟩

end MontgomeryLadder
