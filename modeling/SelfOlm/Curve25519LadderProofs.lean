import SelfOlm.Curve25519FieldProofs
import SelfOlm.Lib.MontgomeryLadder

/-! # The ladder on limbs

    `cmult` is the Montgomery ladder over the field behind the limbs, and `crecip` the
    power that inverts.  All limbs stay within the sizes at which no sum and no product
    overflows, for every secret and every point. -/

namespace OlmCurve25519

open CheckedArith Checked MixedRadix MontgomeryLadder

/-- Reduced limbs of an element. -/
structure Stands (x : Limbs) (v : ZMod prime) : Prop where
  reduced : Reduced x
  value : element x = v

/-! ## Products -/

/-- The coefficients of a product are reduced in two steps. -/
theorem reduce_product {t : Limbs} (ht : Bounded 19 t (14 * 2 ^ 54)) :
    ∃ u r, freduceDegree t = some u ∧ freduceCoefficients u = some r ∧
      Stands r (MixedRadix.value weight 19 t : Int) := by
  obtain ⟨u, hu, hbounded, hvalue⟩ := freduceDegree_spec ht
  obtain ⟨r, hr, hreduced, helement⟩ := freduceCoefficients_spec hbounded
  exact ⟨u, r, hu, hr, hreduced, helement.trans hvalue⟩

theorem product_spec {a b : Limbs} (ha : Wide a) (hb : Wide b) :
    ∃ t u r, fproduct a b = some t ∧ freduceDegree t = some u ∧ freduceCoefficients u = some r ∧
      Stands r (element a * element b) := by
  obtain ⟨t, ht, hbounded, hvalue⟩ := fproduct_spec ha hb
  obtain ⟨u, r, hu, hr, hstands⟩ := reduce_product hbounded
  refine ⟨t, u, r, ht, hu, hr, ?_⟩
  rw [hvalue, Int.cast_mul] at hstands
  exact hstands

/-- `fmul`. -/
theorem fmul_spec {a b : Limbs} (ha : Wide a) (hb : Wide b) :
    ∃ r, fmul a b = some r ∧ Stands r (element a * element b) := by
  obtain ⟨t, u, r, ht, hu, hr, hstands⟩ := product_spec ha hb
  refine ⟨r, ?_, hstands⟩
  rw [fmul, some_bind ht, some_bind hu]
  exact hr

/-- `fsquare`. -/
theorem fsquare_spec {a : Limbs} (ha : Wide a) :
    ∃ r, fsquare a = some r ∧ Stands r (element a * element a) := by
  obtain ⟨t, ht, hbounded, hvalue⟩ := fsquareInner_spec ha
  obtain ⟨u, r, hu, hr, hstands⟩ := reduce_product hbounded
  refine ⟨r, ?_, ?_⟩
  · rw [fsquare, some_bind ht, some_bind hu]
    exact hr
  · rw [hvalue, Int.cast_mul] at hstands
    exact hstands

/-! ## The inverse -/

/-- The limbs of a power of `z`. -/
def Power (z t : Limbs) (k : Nat) : Prop := Stands t (element z ^ k)

section Power

variable {z s t : Limbs} {k l m : Nat}

theorem Power.fsquare (h : Power z t k) (hm : 2 * k = m) :
    ∃ r, OlmCurve25519.fsquare t = some r ∧ Power z r m := by
  obtain ⟨r, hr, hstands⟩ := fsquare_spec h.reduced.wide
  refine ⟨r, hr, ?_⟩
  rw [h.value, ← pow_add, ← two_mul, hm] at hstands
  exact hstands

theorem Power.fmul (h : Power z t k) (h' : Power z s l) (hm : k + l = m) :
    ∃ r, OlmCurve25519.fmul t s = some r ∧ Power z r m := by
  obtain ⟨r, hr, hstands⟩ := fmul_spec h.reduced.wide h'.reduced.wide
  refine ⟨r, hr, ?_⟩
  rw [h.value, h'.value, ← pow_add, hm] at hstands
  exact hstands

theorem Power.squareTimes {n : Nat} (h : Power z t k) (hm : 2 ^ n * k = m) :
    ∃ r, OlmCurve25519.squareTimes n t = some r ∧ Power z r m := by
  induction n generalizing t k with
  | zero =>
      rw [Nat.pow_zero, Nat.one_mul] at hm
      exact ⟨t, rfl, hm ▸ h⟩
  | succ n ih =>
      obtain ⟨s, hs, hpower⟩ := h.fsquare rfl
      obtain ⟨r, hr, hresult⟩ := ih hpower (by rw [← Nat.mul_assoc, ← Nat.pow_succ, hm])
      refine ⟨r, ?_, hresult⟩
      rw [OlmCurve25519.squareTimes, some_bind hs]
      exact hr

end Power

/-- **THE POWER** of `crecip` is the one that inverts, with all its 254 squarings. -/
theorem crecip_spec {z : Limbs} (hz : Reduced z) :
    ∃ r, crecip z = some r ∧ Stands r (element z ^ (prime - 2)) := by
  have h₁ : Power z z 1 := ⟨hz, (pow_one _).symm⟩
  obtain ⟨z₂, c₂, h₂⟩ := h₁.fsquare (m := 2) rfl
  obtain ⟨z₈, c₈, h₈⟩ := h₂.squareTimes (n := 2) (m := 8) rfl
  obtain ⟨z₉, c₉, h₉⟩ := h₈.fmul h₁ (m := 9) rfl
  obtain ⟨z₁₁, c₁₁, h₁₁⟩ := h₉.fmul h₂ (m := 11) rfl
  obtain ⟨z₂₂, c₂₂, h₂₂⟩ := h₁₁.fsquare (m := 22) rfl
  obtain ⟨x₅, c₅, h₅⟩ := h₂₂.fmul h₉ (m := 2 ^ 5 - 1) rfl
  obtain ⟨y₁₀, d₁₀, k₁₀⟩ := h₅.squareTimes (n := 5) (m := 2 ^ 10 - 2 ^ 5) rfl
  obtain ⟨x₁₀, c₁₀, h₁₀⟩ := k₁₀.fmul h₅ (m := 2 ^ 10 - 1) rfl
  obtain ⟨y₂₀, d₂₀, k₂₀⟩ := h₁₀.squareTimes (n := 10) (m := 2 ^ 20 - 2 ^ 10) rfl
  obtain ⟨x₂₀, c₂₀, h₂₀⟩ := k₂₀.fmul h₁₀ (m := 2 ^ 20 - 1) rfl
  obtain ⟨y₄₀, d₄₀, k₄₀⟩ := h₂₀.squareTimes (n := 20) (m := 2 ^ 40 - 2 ^ 20) (by norm_num)
  obtain ⟨x₄₀, c₄₀, h₄₀⟩ := k₄₀.fmul h₂₀ (m := 2 ^ 40 - 1) (by norm_num)
  obtain ⟨y₅₀, d₅₀, k₅₀⟩ := h₄₀.squareTimes (n := 10) (m := 2 ^ 50 - 2 ^ 10) (by norm_num)
  obtain ⟨x₅₀, c₅₀, h₅₀⟩ := k₅₀.fmul h₁₀ (m := 2 ^ 50 - 1) (by norm_num)
  obtain ⟨y₁₀₀, d₁₀₀, k₁₀₀⟩ := h₅₀.squareTimes (n := 50) (m := 2 ^ 100 - 2 ^ 50) (by norm_num)
  obtain ⟨x₁₀₀, c₁₀₀, h₁₀₀⟩ := k₁₀₀.fmul h₅₀ (m := 2 ^ 100 - 1) (by norm_num)
  obtain ⟨y₂₀₀, d₂₀₀, k₂₀₀⟩ := h₁₀₀.squareTimes (n := 100) (m := 2 ^ 200 - 2 ^ 100) (by norm_num)
  obtain ⟨x₂₀₀, c₂₀₀, h₂₀₀⟩ := k₂₀₀.fmul h₁₀₀ (m := 2 ^ 200 - 1) (by norm_num)
  obtain ⟨y₂₅₀, d₂₅₀, k₂₅₀⟩ := h₂₀₀.squareTimes (n := 50) (m := 2 ^ 250 - 2 ^ 50) (by norm_num)
  obtain ⟨x₂₅₀, c₂₅₀, h₂₅₀⟩ := k₂₅₀.fmul h₅₀ (m := 2 ^ 250 - 1) (by norm_num)
  obtain ⟨y₂₅₅, d₂₅₅, k₂₅₅⟩ := h₂₅₀.squareTimes (n := 5) (m := 2 ^ 255 - 2 ^ 5) (by norm_num)
  obtain ⟨r, c, h⟩ := k₂₅₅.fmul h₁₁ (m := prime - 2) (by norm_num [prime])
  refine ⟨r, ?_, h⟩
  rw [crecip, some_bind c₂, some_bind c₈, some_bind c₉, some_bind c₁₁, some_bind c₂₂,
    some_bind c₅, some_bind d₁₀, some_bind c₁₀, some_bind d₂₀, some_bind c₂₀, some_bind d₄₀,
    some_bind c₄₀, some_bind d₅₀, some_bind c₅₀, some_bind d₁₀₀, some_bind c₁₀₀, some_bind d₂₀₀,
    some_bind c₂₀₀, some_bind d₂₅₀, some_bind c₂₅₀, some_bind d₂₅₅]
  exact c

/-! ## One step of the ladder -/

/-- The limbs of two points. -/
structure LadderStands (s : Ladder) (v : Pair (ZMod prime)) : Prop where
  x : Stands s.x v.x
  z : Stands s.z v.z
  xprime : Stands s.xprime v.xprime
  zprime : Stands s.zprime v.zprime

/-- `fmonty` is the step of the ladder over the field. -/
theorem fmonty_spec {s : Ladder} {q : Limbs} {v : Pair (ZMod prime)} {w : ZMod prime}
    (hs : LadderStands s v) (hq : Stands q w) :
    ∃ r, fmonty s q = some r ∧ LadderStands r (v.step 121665 w) := by
  -- the sums and differences of the coordinates
  obtain ⟨x, hx, wx, ex⟩ := fsum_spec hs.x.reduced hs.z.reduced
  obtain ⟨z, hz, wz, ez⟩ := fdifference_spec hs.z.reduced hs.x.reduced
  obtain ⟨x', hx', wx', ex'⟩ := fsum_spec hs.xprime.reduced hs.zprime.reduced
  obtain ⟨z', hz', wz', ez'⟩ := fdifference_spec hs.zprime.reduced hs.xprime.reduced
  rw [hs.x.value, hs.z.value] at ex ez
  rw [hs.xprime.value, hs.zprime.value] at ex' ez'
  -- the sum of the points
  obtain ⟨xx₁, xx₂, xx', hxx₁, hxx₂, hxx', sxx'⟩ := product_spec wx' wz
  obtain ⟨zz₁, zz₂, zz', hzz₁, hzz₂, hzz', szz'⟩ := product_spec wx wz'
  obtain ⟨sum, hsum, wsum, esum⟩ := fsum_spec sxx'.reduced szz'.reduced
  obtain ⟨diff, hdiff, wdiff, ediff⟩ := fdifference_spec szz'.reduced sxx'.reduced
  rw [sxx'.value, szz'.value, ex, ez, ex', ez'] at esum ediff
  obtain ⟨x₃, hx₃, sx₃⟩ := fsquare_spec wsum
  obtain ⟨zzz', hzzz', szzz'⟩ := fsquare_spec wdiff
  obtain ⟨z₃₁, z₃₂, z₃, hz₃₁, hz₃₂, hz₃, sz₃⟩ := product_spec szzz'.reduced.wide hq.reduced.wide
  rw [esum] at sx₃
  rw [szzz'.value, ediff, hq.value] at sz₃
  -- the double
  obtain ⟨xx, hxx, sxx⟩ := fsquare_spec wx
  obtain ⟨zz, hzz, szz⟩ := fsquare_spec wz
  obtain ⟨x₂₁, x₂₂, x₂, hx₂₁, hx₂₂, hx₂, sx₂⟩ := product_spec sxx.reduced.wide szz.reduced.wide
  obtain ⟨e, he, we, ee⟩ := fdifference_spec szz.reduced sxx.reduced
  obtain ⟨multiple, hmultiple, bmultiple, emultiple⟩ := fscalarProduct_spec we
  obtain ⟨zzz, hzzz, rzzz, ezzz⟩ := freduceCoefficients_spec (bmultiple.mono (le_refl _) (by norm_num))
  obtain ⟨last, hlast, wlast, elast⟩ := fsum_spec rzzz sxx.reduced
  obtain ⟨z₂₁, z₂₂, z₂, hz₂₁, hz₂₂, hz₂, sz₂⟩ := product_spec we wlast
  rw [sxx.value, szz.value, ex, ez] at sx₂
  rw [elast, ezzz, emultiple, ee, sxx.value, szz.value, ex, ez] at sz₂
  refine ⟨⟨x₂, z₂, x₃, z₃⟩, ?_, ⟨?_, ?_, ?_, ?_⟩⟩
  · rw [fmonty]
    dsimp only
    rw [some_bind hx, some_bind hz, some_bind hx', some_bind hz', some_bind hxx₁, some_bind hzz₁,
      some_bind hxx₂, some_bind hxx', some_bind hzz₂, some_bind hzz', some_bind hsum,
      some_bind hdiff, some_bind hx₃, some_bind hzzz', some_bind hz₃₁, some_bind hz₃₂,
      some_bind hz₃, some_bind hxx, some_bind hzz, some_bind hx₂₁, some_bind hx₂₂, some_bind hx₂,
      some_bind he, some_bind hmultiple, some_bind hzzz, some_bind hlast, some_bind hz₂₁,
      some_bind hz₂₂, some_bind hz₂]
    rfl
  · refine ⟨sx₂.reduced, sx₂.value.trans ?_⟩
    rw [Pair.step]
    ring
  · refine ⟨sz₂.reduced, sz₂.value.trans ?_⟩
    rw [Pair.step]
    ring
  · refine ⟨sx₃.reduced, sx₃.value.trans ?_⟩
    rw [Pair.step]
    ring
  · refine ⟨sz₃.reduced, sz₃.value.trans ?_⟩
    rw [Pair.step]
    ring

theorem Reduced.fits {x : Limbs} (h : Reduced x) {i : Nat} (hi : i < 10) : Fits 32 (x i) :=
  fits_of_abs (h i hi) (by norm_num)

theorem Stands.congr {x y : Limbs} {v : ZMod prime} (h : Stands x v) (heq : ∀ i < 10, y i = x i) :
    Stands y v := by
  refine ⟨fun i hi => ?_, (element_congr heq).trans h.value⟩
  rw [heq i hi]
  exact h.reduced i hi

/-- `swap_conditional`. -/
theorem swapConditional_spec {a b : Limbs} {v w : ZMod prime} (ha : Stands a v) (hb : Stands b w)
    (bit : Bool) :
    ∃ a' b', swapConditional a b bit.toNat = some (a', b') ∧
      Stands a' (if bit then w else v) ∧ Stands b' (if bit then v else w) := by
  have hcast : ∀ i < 10, castTo 32 (a i) = a i ∧ castTo 32 (b i) = b i := fun i hi =>
    ⟨castTo_fits (by decide) (ha.reduced.fits hi), castTo_fits (by decide) (hb.reduced.fits hi)⟩
  have hmask : ∀ i < 10, (of (castTo 32 (-(bit.toNat : Int))) &&&
      (of (castTo 32 (a i)) ^^^ of (castTo 32 (b i))) : S32)
      = if bit then of (a i) ^^^ of (b i) else of 0 := by
    intro i hi
    have hswap : castTo 32 (-(bit.toNat : Int)) = if bit then -1 else 0 := by
      cases bit <;> decide +kernel
    obtain ⟨hai, hbi⟩ := hcast i hi
    rw [hai, hbi, hswap, xor_of, and_comm_of]
    cases bit with
    | false => exact and_zero_of _
    | true => exact and_minus_one_of (by decide) (bitwise_fits _ _ _)
  have ha' : ∀ i < 10, (of (castTo 32 (a i)) ^^^ (of (castTo 32 (-(bit.toNat : Int))) &&&
      (of (castTo 32 (a i)) ^^^ of (castTo 32 (b i)))) : S32) = of (if bit then b i else a i) := by
    intro i hi
    rw [hmask i hi, (hcast i hi).1]
    cases bit with
    | false => exact xor_zero_of (by decide) (ha.reduced.fits hi)
    | true => exact xor_xor_of _ (by decide) (hb.reduced.fits hi)
  have hb' : ∀ i < 10, (of (castTo 32 (b i)) ^^^ (of (castTo 32 (-(bit.toNat : Int))) &&&
      (of (castTo 32 (a i)) ^^^ of (castTo 32 (b i)))) : S32) = of (if bit then a i else b i) := by
    intro i hi
    rw [hmask i hi, (hcast i hi).2]
    cases bit with
    | false => exact xor_zero_of (by decide) (hb.reduced.fits hi)
    | true =>
        rw [if_pos rfl, xor_comm_of (a i)]
        exact xor_xor_of _ (by decide) (ha.reduced.fits hi)
  obtain ⟨a', hdefined, hvalue⟩ := defined_eq ha'
  obtain ⟨b', hdefined', hvalue'⟩ := defined_eq hb'
  refine ⟨a', b', ?_, ?_, ?_⟩
  · rw [swapConditional]
    dsimp only
    rw [some_bind hdefined, some_bind hdefined']
    rfl
  · cases bit with
    | false => exact ha.congr hvalue
    | true => exact hb.congr hvalue
  · cases bit with
    | false => exact hb.congr hvalue'
    | true => exact ha.congr hvalue'

theorem swapPoints_spec {s : Ladder} {v : Pair (ZMod prime)} (hs : LadderStands s v) (bit : Bool) :
    ∃ r, swapPoints s bit.toNat = some r ∧ LadderStands r (v.swapIf bit) := by
  obtain ⟨x, x', hx, sx, sx'⟩ := swapConditional_spec hs.x hs.xprime bit
  obtain ⟨z, z', hz, sz, sz'⟩ := swapConditional_spec hs.z hs.zprime bit
  refine ⟨⟨x, z, x', z'⟩, ?_, ?_⟩
  · rw [swapPoints, some_bind hx]
    dsimp only
    rw [some_bind hz]
    rfl
  · cases bit with
    | false => exact ⟨sx, sz, sx', sz'⟩
    | true => exact ⟨sx, sz, sx', sz'⟩

/-! ## All bits -/

/-- The highest bit of a byte. -/
def topBit (byte : UInt8) : Bool := decide (128 ≤ byte.toNat)

/-- The highest `n` bits of a byte. -/
def byteBits : Nat → UInt8 → List Bool
  | 0, _ => []
  | n + 1, byte => topBit byte :: byteBits n (byte <<< 1)

/-- The bits of a secret, the highest first. -/
def secretBits (n : Vector UInt8 32) : List Bool := n.toList.reverse.flatMap (byteBits 8)

theorem topBit_toNat (byte : UInt8) : ((byte >>> 7).toNat : Int) = ((topBit byte).toNat : Nat) := by
  have hshift : (byte >>> 7).toNat = byte.toNat / 128 := by
    rw [UInt8.toNat_shiftRight]
    exact Nat.shiftRight_eq_div_pow _ _
  have hlt := byte.toNat_lt
  rw [hshift, topBit]
  by_cases h : 128 ≤ byte.toNat
  · rw [decide_eq_true h]
    have hone : byte.toNat / 128 = 1 := by omega
    rw [hone]
    rfl
  · rw [decide_eq_false h]
    have hzero : byte.toNat / 128 = 0 := by omega
    rw [hzero]
    rfl

theorem multByte_spec {q : Limbs} {w : ZMod prime} (hq : Stands q w) (n : Nat) (byte : UInt8)
    {s : Ladder} {v : Pair (ZMod prime)} (hs : LadderStands s v) :
    ∃ r, multByte q n byte s = some r ∧
      LadderStands r ((byteBits n byte).foldl (Pair.bit 121665 w) v) := by
  induction n generalizing byte s v with
  | zero => exact ⟨s, rfl, hs⟩
  | succ n ih =>
      obtain ⟨s₁, h₁, hs₁⟩ := swapPoints_spec hs (topBit byte)
      obtain ⟨s₂, h₂, hs₂⟩ := fmonty_spec hs₁ hq
      obtain ⟨s₃, h₃, hs₃⟩ := swapPoints_spec hs₂ (topBit byte)
      obtain ⟨r, hr, hresult⟩ := ih (byte <<< 1) hs₃
      refine ⟨r, ?_, hresult⟩
      rw [← topBit_toNat] at h₁ h₃
      rw [multByte, some_bind h₁, some_bind h₂, some_bind h₃]
      exact hr

/-- The bytes of a secret one after the other. -/
theorem multBytes_spec {q : Limbs} {w : ZMod prime} (hq : Stands q w) (bytes : List UInt8)
    {s : Ladder} {v : Pair (ZMod prime)} (hs : LadderStands s v) :
    ∃ r, bytes.foldlM (fun s byte => multByte q 8 byte s) s = some r ∧
      LadderStands r ((bytes.flatMap (byteBits 8)).foldl (Pair.bit 121665 w) v) := by
  induction bytes generalizing s v with
  | nil => exact ⟨s, rfl, hs⟩
  | cons byte bytes ih =>
      obtain ⟨t, ht, hstands⟩ := multByte_spec hq 8 byte hs
      obtain ⟨r, hr, hresult⟩ := ih hstands
      refine ⟨r, ?_, ?_⟩
      · rw [List.foldlM_cons, some_bind ht]
        exact hr
      · rw [List.flatMap_cons, List.foldl_append]
        exact hresult

theorem stands_const {c : Int} (hc : |c| ≤ 2 ^ 26 - 1) :
    Stands (fun i => if i = 0 then c else 0) (c : ZMod prime) := by
  refine ⟨fun i _ => ?_, ?_⟩
  · by_cases hi : i = 0
    · rw [if_pos hi]
      exact hc
    · rw [if_neg hi]
      norm_num
  · have hinteger : integer (fun i => if i = 0 then c else 0) = c := by
      rw [integer, value_ten, value_nine]
      norm_num
    rw [element, hinteger]

/-- **THE LADDER**: for every secret and every point, `cmult` does not overflow, and its
    quotient is the one of the ladder over the field. -/
theorem cmult_spec (n : Vector UInt8 32) {q : Limbs} {w : ZMod prime} (hq : Stands q w) :
    ∃ x z, cmult n q = some (x, z) ∧ Stands x (ladder 121665 w (secretBits n)).x ∧
      Stands z (ladder 121665 w (secretBits n)).z := by
  have hzero : Stands (fun _ => 0) 0 := by
    have h := stands_const (c := 0) (by norm_num)
    rw [Int.cast_zero] at h
    exact h.congr fun i _ => (ite_self 0).symm
  have hone : Stands (fun i => if i = 0 then 1 else 0) 1 := by
    have h := stands_const (c := 1) (by norm_num)
    rw [Int.cast_one] at h
    exact h
  have hstart : LadderStands ⟨fun i => if i = 0 then 1 else 0, fun _ => 0, q,
      fun i => if i = 0 then 1 else 0⟩ (Pair.start w) := ⟨hone, hzero, hq, hone⟩
  obtain ⟨s, hs, hstands⟩ := multBytes_spec hq n.toList.reverse hstart
  refine ⟨s.x, s.z, ?_, hstands.x, hstands.z⟩
  rw [cmult, some_bind hs]
  rfl

end OlmCurve25519
