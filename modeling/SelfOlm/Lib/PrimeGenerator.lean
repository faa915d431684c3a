import Mathlib

/-! # Primes by their generators

    A number is a prime where some `a` generates as many units as there could be, which
    shows at the powers for the prime factors of `p - 1`.  The powers are computed by
    squaring. -/

namespace PrimeGenerator

/-- The power `a ^ n` modulo `p`, for an exponent of at most `bits` bits. -/
def powerMod (p : Nat) : Nat → Nat → Nat → Nat
  | 0, _, _ => 1
  | bits + 1, a, n =>
      let rest := powerMod p bits (a * a % p) (n / 2)
      if n % 2 = 1 then a * rest % p else rest

theorem cast_powerMod {p bits a n : Nat} (h : n < 2 ^ bits) :
    (powerMod p bits a n : ZMod p) = (a : ZMod p) ^ n := by
  induction bits generalizing a n with
  | zero =>
      obtain rfl : n = 0 := by omega
      rw [powerMod, pow_zero, Nat.cast_one]
  | succ bits ih =>
      have hhalf : n / 2 < 2 ^ bits := by
        rw [pow_succ] at h
        omega
      have hsquare : ((a * a % p : Nat) : ZMod p) = (a : ZMod p) ^ 2 := by
        rw [ZMod.natCast_mod, Nat.cast_mul, sq]
      rw [powerMod]
      split_ifs with hodd
      · rw [ZMod.natCast_mod, Nat.cast_mul, ih hhalf, hsquare, ← pow_mul, ← pow_succ']
        congr 1
        omega
      · rw [ih hhalf, hsquare, ← pow_mul]
        congr 1
        omega

/-- `a` has the order `p - 1`, as far as it shows at these factors. -/
def generates (p a : Nat) (factors : List Nat) : Bool :=
  powerMod p 256 a (p - 1) % p == 1 % p
    && factors.all fun q => powerMod p 256 a ((p - 1) / q) % p != 1 % p

/-- **A GENERATOR** shows that a number is a prime. -/
theorem prime_of_generates {p a : Nat} {factors : List Nat} (hsize : p < 2 ^ 256)
    (hfactors : ∀ q ∈ factors, q.Prime) (hproduct : factors.prod = p - 1)
    (h : generates p a factors = true) : p.Prime := by
  rw [generates, Bool.and_eq_true, beq_iff_eq, List.all_eq_true] at h
  obtain ⟨hall, hparts⟩ := h
  refine lucas_primality p a ?_ ?_
  · have hone := (ZMod.natCast_eq_natCast_iff' (powerMod p 256 a (p - 1)) 1 p).mpr hall
    rw [cast_powerMod (show p - 1 < 2 ^ 256 by omega), Nat.cast_one] at hone
    exact hone
  · intro q hq hdvd hone
    rw [← hproduct] at hdvd
    obtain ⟨r, hr, hdvd⟩ := (Prime.dvd_prod_iff hq.prime).mp hdvd
    obtain rfl := (Nat.prime_dvd_prime_iff_eq hq (hfactors r hr)).mp hdvd
    have hpart := hparts q hr
    rw [bne_iff_ne] at hpart
    refine hpart ((ZMod.natCast_eq_natCast_iff' _ _ _).mp ?_)
    have hlt : (p - 1) / q < 2 ^ 256 := lt_of_le_of_lt (Nat.div_le_self _ _) (by omega)
    rw [cast_powerMod hlt, hone, Nat.cast_one]

end PrimeGenerator
