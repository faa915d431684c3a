import Mathlib

/-! # The Montgomery ladder

    Multiples of a point on `y² = x³ + A x² + x`, of which only the coordinate `x` is
    known, as a quotient.  The ladder walks over the bits of a number and has a multiple
    of the point and the next one, so that their difference is always the point. -/

namespace MontgomeryLadder

/-! ## The ladder -/

section Ladder

variable {R : Type*} [CommRing R]

/-- A point and the next one, each as a quotient. -/
@[ext] structure Pair (R : Type*) where
  x : R
  z : R
  xprime : R
  zprime : R

/-- The double of the point, and the sum of the two, whose difference is at `q`. -/
def Pair.step (a24 q : R) (s : Pair R) : Pair R where
  x := ((s.x + s.z) * (s.x - s.z)) ^ 2
  z := 4 * s.x * s.z * ((s.x + s.z) ^ 2 + a24 * (4 * s.x * s.z))
  xprime := (2 * (s.x * s.xprime - s.z * s.zprime)) ^ 2
  zprime := (2 * (s.x * s.zprime - s.z * s.xprime)) ^ 2 * q

def Pair.swap (s : Pair R) : Pair R := ⟨s.xprime, s.zprime, s.x, s.z⟩

def Pair.swapIf (bit : Bool) (s : Pair R) : Pair R := if bit then s.swap else s

/-- One bit: the point is doubled for 0, and the next one for 1. -/
def Pair.bit (a24 q : R) (s : Pair R) (bit : Bool) : Pair R :=
  ((s.swapIf bit).step a24 q).swapIf bit

/-- Zero times the point, and the point. -/
def Pair.start (q : R) : Pair R := ⟨1, 0, q, 1⟩

/-- All bits, the highest first. -/
def ladder (a24 q : R) (bits : List Bool) : Pair R := bits.foldl (Pair.bit a24 q) (Pair.start q)

/-- The number with these bits, the highest first. -/
def number (bits : List Bool) : Nat := bits.foldl (fun n bit => 2 * n + bit.toNat) 0

/-- The images under a homomorphism. -/
def Pair.map {S : Type*} [CommRing S] (f : R →+* S) (s : Pair R) : Pair S :=
  ⟨f s.x, f s.z, f s.xprime, f s.zprime⟩

variable {S : Type*} [CommRing S] (f : R →+* S)

theorem Pair.map_step (a24 q : R) (s : Pair R) :
    (s.step a24 q).map f = (s.map f).step (f a24) (f q) := by
  have htwo : f 2 = 2 := map_ofNat f 2
  have hfour : f 4 = 4 := map_ofNat f 4
  ext <;> simp [map, step, htwo, hfour]

theorem Pair.map_swapIf (bit : Bool) (s : Pair R) :
    (s.swapIf bit).map f = (s.map f).swapIf bit := by
  cases bit <;> rfl

theorem map_ladder (a24 q : R) (bits : List Bool) :
    (ladder a24 q bits).map f = ladder (f a24) (f q) bits := by
  have hstart : (Pair.start q).map f = Pair.start (f q) := by
    ext <;> simp [Pair.map, Pair.start]
  rw [ladder, ladder, ← hstart]
  generalize Pair.start q = s
  induction bits generalizing s with
  | nil => rfl
  | cons bit bits ih =>
      rw [List.foldl_cons, ih, List.foldl_cons, Pair.bit, Pair.bit, Pair.map_swapIf,
        Pair.map_step, Pair.map_swapIf]

end Ladder

end MontgomeryLadder
