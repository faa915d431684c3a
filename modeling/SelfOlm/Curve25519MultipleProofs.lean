import SelfOlm.Curve25519OutputProofs
import SelfOlm.Lib.MontgomeryCurve
import SelfOlm.Lib.PrimeGenerator

/-! # Multiples of points

    The modulus is a prime, and `curve25519_donna` returns the coordinate of a multiple of
    a point on `y² = x³ + 486662 x² + x`, over whatever field the point has its other
    coordinate in.  So two parties that exchange such multiples agree. -/

namespace OlmCurve25519

open MontgomeryLadder PrimeGenerator LittleEndian

/-! ## The modulus -/

/-- The largest factor of the modulus less one. -/
def largestFactor : Nat := 74058212732561358302231226437062788676166966415465897661863160754340907

/-- Each number is a prime if the factors are, as it has this generator. -/
theorem generators :
    generates 2773320623 5 [2, 2437, 569003] = true ∧
    generates 72106336199 7 [2, 13, 2773320623] = true ∧
    generates 1919519569386763 2 [2, 3, 7, 19, 47, 47, 127, 8574133] = true ∧
    generates 31757755568855353 10 [2, 2, 2, 3, 31, 107, 223, 4153, 430751] = true ∧
    generates 75445702479781427272750846543864801 7
      [2, 2, 2, 2, 2, 3, 3, 5, 5, 75707, 72106336199, 1919519569386763] = true ∧
    generates largestFactor 2 [2, 3, 353, 57467, 132049, 1923133, 31757755568855353,
      75445702479781427272750846543864801] = true ∧
    generates prime 2 [2, 2, 3, 65147, largestFactor] = true := by
  decide +kernel

theorem prime_2773320623 : Nat.Prime 2773320623 := by
  have hfactors : ∀ q ∈ [2, 2437, 569003], Nat.Prime q := by
    simp only [List.forall_mem_cons, List.not_mem_nil, IsEmpty.forall_iff, implies_true, and_true]
    exact ⟨by norm_num, by norm_num, by norm_num⟩
  exact prime_of_generates (a := 5) (by norm_num) hfactors (by norm_num) generators.1

theorem prime_72106336199 : Nat.Prime 72106336199 := by
  have hfactors : ∀ q ∈ [2, 13, 2773320623], Nat.Prime q := by
    simp only [List.forall_mem_cons, List.not_mem_nil, IsEmpty.forall_iff, implies_true, and_true]
    exact ⟨by norm_num, by norm_num, prime_2773320623⟩
  exact prime_of_generates (a := 7) (by norm_num) hfactors (by norm_num) generators.2.1

theorem prime_1919519569386763 : Nat.Prime 1919519569386763 := by
  have hfactors : ∀ q ∈ [2, 3, 7, 19, 47, 47, 127, 8574133], Nat.Prime q := by
    simp only [List.forall_mem_cons, List.not_mem_nil, IsEmpty.forall_iff, implies_true, and_true]
    exact ⟨by norm_num, by norm_num, by norm_num, by norm_num, by norm_num, by norm_num,
      by norm_num, by norm_num⟩
  exact prime_of_generates (a := 2) (by norm_num) hfactors (by norm_num) generators.2.2.1

theorem prime_31757755568855353 : Nat.Prime 31757755568855353 := by
  have hfactors : ∀ q ∈ [2, 2, 2, 3, 31, 107, 223, 4153, 430751], Nat.Prime q := by
    simp only [List.forall_mem_cons, List.not_mem_nil, IsEmpty.forall_iff, implies_true, and_true]
    exact ⟨by norm_num, by norm_num, by norm_num, by norm_num, by norm_num, by norm_num,
      by norm_num, by norm_num, by norm_num⟩
  exact prime_of_generates (a := 10) (by norm_num) hfactors (by norm_num) generators.2.2.2.1

theorem prime_75445702479781427272750846543864801 :
    Nat.Prime 75445702479781427272750846543864801 := by
  have hfactors : ∀ q ∈ [2, 2, 2, 2, 2, 3, 3, 5, 5, 75707, 72106336199, 1919519569386763],
      Nat.Prime q := by
    simp only [List.forall_mem_cons, List.not_mem_nil, IsEmpty.forall_iff, implies_true, and_true]
    exact ⟨by norm_num, by norm_num, by norm_num, by norm_num, by norm_num, by norm_num,
      by norm_num, by norm_num, by norm_num, by norm_num, prime_72106336199,
      prime_1919519569386763⟩
  exact prime_of_generates (a := 7) (by norm_num) hfactors (by norm_num) generators.2.2.2.2.1

theorem prime_largestFactor : Nat.Prime largestFactor := by
  have hfactors : ∀ q ∈ [2, 3, 353, 57467, 132049, 1923133, 31757755568855353,
      75445702479781427272750846543864801], Nat.Prime q := by
    simp only [List.forall_mem_cons, List.not_mem_nil, IsEmpty.forall_iff, implies_true, and_true]
    exact ⟨by norm_num, by norm_num, by norm_num, by norm_num, by norm_num, by norm_num,
      prime_31757755568855353, prime_75445702479781427272750846543864801⟩
  exact prime_of_generates (a := 2) (by norm_num [largestFactor]) hfactors
    (by norm_num [largestFactor]) generators.2.2.2.2.2.1

/-- **THE MODULUS** is a prime. -/
theorem prime_prime : Nat.Prime prime := by
  have hfactors : ∀ q ∈ [2, 2, 3, 65147, largestFactor], Nat.Prime q := by
    simp only [List.forall_mem_cons, List.not_mem_nil, IsEmpty.forall_iff, implies_true, and_true]
    exact ⟨by norm_num, by norm_num, by norm_num, by norm_num, prime_largestFactor⟩
  exact prime_of_generates (a := 2) (by norm_num [prime]) hfactors
    (by norm_num [prime, largestFactor]) generators.2.2.2.2.2.2

instance : Fact prime.Prime := ⟨prime_prime⟩

/-! ## The curve -/

section Curve

variable {K : Type} [Field K]

/-- The curve of the library, over a field of this characteristic. -/
abbrev curve25519 (K : Type) [Field K] : WeierstrassCurve.Affine K := curve (486662 : K)

/-- A number that the modulus does not divide. -/
theorem cast_ne_zero (f : ZMod prime →+* K) {n : Nat} (hn : ¬prime ∣ n) : (n : K) ≠ 0 := by
  rw [← map_natCast f, map_ne_zero]
  exact fun hzero => hn ((ZMod.natCast_eq_zero_iff n prime).mp hzero)

theorem two_ne (f : ZMod prime →+* K) : (2 : K) ≠ 0 := by
  have h := cast_ne_zero f (n := 2) (by norm_num [prime])
  exact_mod_cast h

theorem node_ne (f : ZMod prime →+* K) : (486662 : K) ^ 2 ≠ 4 := by
  intro heq
  have h := cast_ne_zero f (n := 486662 ^ 2 - 4) (by norm_num [prime])
  have hcast : ((486662 ^ 2 - 4 : Nat) : K) = 486662 ^ 2 - 4 := by norm_num
  exact h (by rw [hcast, heq, sub_self])

/-- The power of `crecip` divides. -/
theorem mul_pow_prime (x z : ZMod prime) : x * z ^ (prime - 2) = x / z := by
  have hle : 2 ≤ prime := prime_prime.two_le
  rw [div_eq_mul_inv]
  refine congrArg (x * ·) ?_
  by_cases hz : z = 0
  · have hne : prime - 2 ≠ 0 := by
      rw [prime]
      norm_num
    rw [hz, zero_pow hne, inv_zero]
  · refine eq_inv_of_mul_eq_one_left ?_
    have hexponent : prime - 2 + 1 = prime - 1 := by omega
    rw [← pow_succ, hexponent]
    exact ZMod.pow_card_sub_one_eq_one hz

variable [DecidableEq K]

/-- The ladder over the field with the modulus, for a point over another field. -/
theorem ladder_multiple (f : ZMod prime →+* K) {w : ZMod prime} {Q : (curve25519 K).Point}
    (hQ : coordinate Q = f w) (bits : List Bool) :
    f ((ladder 121665 w bits).x * (ladder 121665 w bits).z ^ (prime - 2))
      = coordinate (number bits • Q) := by
  have hmap : (ladder 121665 w bits).map f = ladder 121665 (coordinate Q) bits := by
    rw [map_ladder, hQ, show f 121665 = 121665 from map_ofNat f 121665]
  have ha24 : 4 * (121665 : K) = 486662 - 2 := by norm_num
  rw [mul_pow_prime, map_div₀, ← ladder_coordinate (two_ne f) (node_ne f) ha24 Q bits, ← hmap]
  rfl

end Curve

/-! ## The whole function -/

/-- The number of a result is below the modulus. -/
theorem result_lt {secret basepoint result : Vector UInt8 32}
    (h : toNat result.toList = (quotient secret basepoint).val) : toNat result.toList < prime := by
  rw [h]
  exact ZMod.val_lt _

/-- What a result reads as, when it is used as a point. -/
theorem coordinateOf_result {secret basepoint result : Vector UInt8 32}
    (h : toNat result.toList = (quotient secret basepoint).val) :
    coordinateOf result = quotient secret basepoint := by
  have hlt : toNat result.toList < 2 ^ 255 := by
    refine (result_lt h).trans ?_
    rw [prime]
    norm_num
  rw [coordinateOf, Nat.mod_eq_of_lt hlt, h, ZMod.natCast_val, ZMod.cast_id]

section Quotient

variable {K : Type} [Field K] [DecidableEq K] (f : ZMod prime →+* K)

/-- The quotient is the coordinate of the multiple of the point by the clamped secret. -/
theorem quotient_multiple (secret : Vector UInt8 32) {basepoint : Vector UInt8 32}
    {Q : (curve25519 K).Point} (hQ : coordinate Q = f (coordinateOf basepoint)) :
    f (quotient secret basepoint) = coordinate (toNat (clampSecret secret).toList • Q) := by
  rw [← number_secretBits (clampSecret secret), ← ladder_multiple f hQ]
  rfl

end Quotient

/-- **THE SCALAR MULTIPLICATION**: for every secret and every point, nothing overflows, and the
    result is the coordinate of the multiple of the point by the clamped secret, wherever
    the point has its other coordinate. -/
theorem curve25519Donna_multiple (secret basepoint : Vector UInt8 32) :
    ∃ result : Vector UInt8 32,
      (∀ mypublic, curve25519Donna mypublic secret basepoint = some result) ∧
      toNat result.toList < prime ∧
      (∀ (K : Type) [Field K] [DecidableEq K] (f : ZMod prime →+* K) (Q : (curve25519 K).Point),
        coordinate Q = f (coordinateOf basepoint) →
          (toNat result.toList : K) = coordinate (toNat (clampSecret secret).toList • Q)) ∧
      ∃ Q : (curve25519 (AlgebraicClosure (ZMod prime))).Point,
        coordinate Q = algebraMap _ _ (coordinateOf basepoint) := by
  obtain ⟨result, hresult, hvalue⟩ := curve25519Donna_spec secret basepoint
  refine ⟨result, hresult, result_lt hvalue, ?_, ?_⟩
  · intro K _ _ f Q hQ
    rw [← quotient_multiple f secret hQ, hvalue, ← map_natCast f, ZMod.natCast_val, ZMod.cast_id]
  · have f := algebraMap (ZMod prime) (AlgebraicClosure (ZMod prime))
    exact exists_point (two_ne f) (node_ne f) _

/-- The results of two parties from each other's. -/
theorem quotient_comm {a b point publicA publicB : Vector UInt8 32}
    (hA : toNat publicA.toList = (quotient a point).val)
    (hB : toNat publicB.toList = (quotient b point).val) :
    quotient a publicB = quotient b publicA := by
  classical
  -- the point may have its other coordinate in a larger field
  obtain ⟨f, hf⟩ : ∃ f : ZMod prime →+* AlgebraicClosure (ZMod prime), f = algebraMap _ _ :=
    ⟨_, rfl⟩
  obtain ⟨Q, hQ⟩ := exists_point (two_ne f) (node_ne f) (f (coordinateOf point))
  have hreadA : coordinate (toNat (clampSecret a).toList • Q) = f (coordinateOf publicA) := by
    rw [coordinateOf_result hA, quotient_multiple f a hQ]
  have hreadB : coordinate (toNat (clampSecret b).toList • Q) = f (coordinateOf publicB) := by
    rw [coordinateOf_result hB, quotient_multiple f b hQ]
  refine f.injective ?_
  rw [quotient_multiple f a hreadB, quotient_multiple f b hreadA, smul_comm]

/-- **THE EXCHANGE**: two parties with any secrets and any point get the same result from each
    other's. -/
theorem curve25519Donna_exchange (a b point : Vector UInt8 32) :
    ∃ publicA publicB shared : Vector UInt8 32,
      (∀ mypublic, curve25519Donna mypublic a point = some publicA) ∧
      (∀ mypublic, curve25519Donna mypublic b point = some publicB) ∧
      (∀ mypublic, curve25519Donna mypublic a publicB = some shared) ∧
      ∀ mypublic, curve25519Donna mypublic b publicA = some shared := by
  obtain ⟨publicA, hA, valueA⟩ := curve25519Donna_spec a point
  obtain ⟨publicB, hB, valueB⟩ := curve25519Donna_spec b point
  obtain ⟨sharedA, hsharedA, hvalueA⟩ := curve25519Donna_spec a publicB
  obtain ⟨sharedB, hsharedB, hvalueB⟩ := curve25519Donna_spec b publicA
  have hshared : sharedB = sharedA := by
    refine result_inj ?_
    rw [hvalueA, hvalueB, quotient_comm valueA valueB]
  refine ⟨publicA, publicB, sharedA, hA, hB, hsharedA, ?_⟩
  rw [← hshared]
  exact hsharedB

/-- `curve25519_donna` as one of the primitives. -/
def libCurve25519 (secret basepoint : Vector UInt8 32) : Vector UInt8 32 :=
  (curve25519Donna (fun _ => 0) secret basepoint).getD (Vector.replicate 32 0)

theorem toNat_libCurve25519 (secret basepoint : Vector UInt8 32) :
    toNat (libCurve25519 secret basepoint).toList = (quotient secret basepoint).val := by
  obtain ⟨result, hresult, hvalue⟩ := curve25519Donna_spec secret basepoint
  rw [libCurve25519, hresult]
  exact hvalue

/-- With the scalar multiplication of the library the two sides of an exchange agree, whatever
    the other primitives are. -/
theorem libCurve25519_dhCommutes (prim : OlmCrypto.Primitives) :
    ({ prim with curve25519 := libCurve25519 } : OlmCrypto.Primitives).DhCommutes := by
  intro a b
  refine result_inj ?_
  have hcomm := quotient_comm (toNat_libCurve25519 a OlmCrypto.curve25519Basepoint)
    (toNat_libCurve25519 b OlmCrypto.curve25519Basepoint)
  exact (toNat_libCurve25519 a _).trans
    ((congrArg ZMod.val hcomm).trans (toNat_libCurve25519 b _).symm)

end OlmCurve25519
