import Mathlib

/-! # Signed arithmetic with checks

    Numbers of a fixed width with a sign.  Sums, differences and products are checked: an
    overflow leaves no number behind.  Shifts, casts and the bitwise operations are those
    of two's complement and always defined. -/

namespace CheckedArith

variable {bits : Nat}

/-- The numbers of `bits` bits. -/
def Fits (bits : Nat) (v : Int) : Prop := -2 ^ (bits - 1) ≤ v ∧ v < 2 ^ (bits - 1)

instance (bits : Nat) (v : Int) : Decidable (Fits bits v) := instDecidableAnd

/-- A number that was computed, or `none` behind an overflow. -/
def Checked (_bits : Nat) : Type := Option Int

namespace Checked

/-- The number in a variable. -/
def of (v : Int) : Checked bits := some v

def check (bits : Nat) (v : Int) : Checked bits := if Fits bits v then some v else none

def lift (f : Int → Int) (a : Checked bits) : Checked bits := Option.map f a

def lift₂ (f : Int → Int → Int) (a b : Checked bits) : Checked bits :=
  Option.bind a fun x => Option.map (f x) b

def checked₂ (f : Int → Int → Int) (a b : Checked bits) : Checked bits :=
  Option.bind (lift₂ f a b) (check bits)

/-- A bitwise operation. -/
def bitwise (bits : Nat) (f : BitVec bits → BitVec bits → BitVec bits) (x y : Int) : Int :=
  (f (BitVec.ofInt bits x) (BitVec.ofInt bits y)).toInt

@[irreducible] def add : Checked bits → Checked bits → Checked bits := checked₂ (· + ·)

@[irreducible] def sub : Checked bits → Checked bits → Checked bits := checked₂ (· - ·)

@[irreducible] def mul : Checked bits → Checked bits → Checked bits := checked₂ (· * ·)

instance : Add (Checked bits) := ⟨add⟩
instance : Sub (Checked bits) := ⟨sub⟩
instance : Mul (Checked bits) := ⟨mul⟩
instance : Neg (Checked bits) := ⟨fun a => sub (of 0) a⟩
instance (n : Nat) : OfNat (Checked bits) n := ⟨of n⟩
instance : HShiftLeft (Checked bits) Nat (Checked bits) :=
  ⟨fun a n => lift (fun v => Int.bmod (v * 2 ^ n) (2 ^ bits)) a⟩
instance : HShiftRight (Checked bits) Nat (Checked bits) := ⟨fun a n => lift (· / 2 ^ n) a⟩
instance : AndOp (Checked bits) := ⟨lift₂ (bitwise bits (· &&& ·))⟩
instance : OrOp (Checked bits) := ⟨lift₂ (bitwise bits (· ||| ·))⟩
instance : XorOp (Checked bits) := ⟨lift₂ (bitwise bits (· ^^^ ·))⟩
instance : Complement (Checked bits) := ⟨lift (fun v => -1 - v)⟩

/-- The cast from another width. -/
def castTo (bits : Nat) (v : Int) : Int := Int.bmod v (2 ^ bits)

end Checked

open Checked

/-- The number itself, where there is one. -/
def Checked.toOption (a : Checked bits) : Option Int := a

/-- The numbers of an array of which the first `n` are computed. -/
def defined (n : Nat) (x : Nat → Checked bits) : Option (Nat → Int) :=
  if ∀ i < n, (x i).isSome then some fun i => (x i).getD 0 else none

/-! ## Values -/

theorem fits_of_abs {v b : Int} (h : |v| ≤ b) (hb : b < 2 ^ (bits - 1)) : Fits bits v := by
  obtain ⟨hlow, hhigh⟩ := abs_le.mp h
  exact ⟨by linarith, by linarith⟩

theorem check_fits {v : Int} (h : Fits bits v) : check bits v = of v := if_pos h

theorem add_of {v w : Int} (h : Fits bits (v + w)) :
    (of v + of w : Checked bits) = of (v + w) := by
  show add (of v) (of w) = _
  rw [add]
  exact check_fits h

theorem sub_of {v w : Int} (h : Fits bits (v - w)) :
    (of v - of w : Checked bits) = of (v - w) := by
  show sub (of v) (of w) = _
  rw [sub]
  exact check_fits h

theorem mul_of {v w : Int} (h : Fits bits (v * w)) :
    (of v * of w : Checked bits) = of (v * w) := by
  show mul (of v) (of w) = _
  rw [mul]
  exact check_fits h

theorem neg_of {v : Int} (h : Fits bits (-v)) : (-of v : Checked bits) = of (-v) := by
  have hsub : (-of v : Checked bits) = of 0 - of v := rfl
  rw [hsub, sub_of (by rw [zero_sub]; exact h), zero_sub]

theorem shiftRight_of (v : Int) (n : Nat) : (of v >>> n : Checked bits) = of (v / 2 ^ n) := rfl

theorem complement_of (v : Int) : (~~~of v : Checked bits) = of (-1 - v) := rfl

/-- A cast to a width that is wide enough. -/
theorem castTo_fits {v : Int} (hbits : 0 < bits) (h : Fits bits v) : castTo bits v = v := by
  rw [castTo, ← BitVec.toInt_ofInt]
  exact BitVec.toInt_ofInt_eq_self hbits h.1 h.2

theorem shiftLeft_of {v : Int} {n : Nat} (hbits : 0 < bits) (h : Fits bits (v * 2 ^ n)) :
    (of v <<< n : Checked bits) = of (v * 2 ^ n) :=
  congrArg of (castTo_fits hbits h)

theorem ofInt_zero : BitVec.ofInt bits 0 = BitVec.ofNat bits 0 := BitVec.ofInt_ofNat bits 0

theorem and_zero_of (v : Int) : (of v &&& of 0 : Checked bits) = of 0 := by
  refine congrArg of ?_
  rw [bitwise, ofInt_zero, BitVec.and_zero, BitVec.toInt_zero]

theorem and_minus_one_of {v : Int} (hbits : 0 < bits) (h : Fits bits v) :
    (of v &&& of (-1) : Checked bits) = of v := by
  refine congrArg of ?_
  have hones : BitVec.ofInt bits (-1) = BitVec.allOnes bits := by
    have hone : BitVec.ofInt bits 1 = BitVec.ofNat bits 1 := BitVec.ofInt_ofNat bits 1
    rw [BitVec.ofInt_neg, hone, BitVec.neg_one_eq_allOnes]
  rw [bitwise, hones, BitVec.and_allOnes, BitVec.toInt_ofInt]
  exact castTo_fits hbits h

/-! ## Bitwise operations -/

theorem bitwise_fits (f : BitVec bits → BitVec bits → BitVec bits) (v w : Int) :
    Fits bits (bitwise bits f v w) :=
  ⟨BitVec.le_toInt _, BitVec.toInt_lt⟩

theorem and_comm_of (v w : Int) : (of v &&& of w : Checked bits) = of w &&& of v :=
  congrArg of (congrArg BitVec.toInt (BitVec.and_comm _ _))

theorem xor_of (v w : Int) :
    (of v ^^^ of w : Checked bits) = of (bitwise bits (· ^^^ ·) v w) := rfl

theorem xor_comm_of (v w : Int) : (of v ^^^ of w : Checked bits) = of w ^^^ of v :=
  congrArg of (congrArg BitVec.toInt (BitVec.xor_comm _ _))

theorem xor_zero_of {v : Int} (hbits : 0 < bits) (h : Fits bits v) :
    (of v ^^^ of 0 : Checked bits) = of v := by
  refine congrArg of ?_
  rw [bitwise, ofInt_zero, BitVec.xor_zero, BitVec.toInt_ofInt]
  exact castTo_fits hbits h

/-- What is combined twice falls out. -/
theorem xor_xor_of (v : Int) {w : Int} (hbits : 0 < bits) (h : Fits bits w) :
    (of v ^^^ (of v ^^^ of w) : Checked bits) = of w := by
  refine congrArg of ?_
  have hinner : BitVec.ofInt bits (bitwise bits (· ^^^ ·) v w)
      = BitVec.ofInt bits v ^^^ BitVec.ofInt bits w := BitVec.ofInt_toInt
  rw [bitwise, hinner, ← BitVec.xor_assoc, BitVec.xor_self, BitVec.zero_xor, BitVec.toInt_ofInt]
  exact castTo_fits hbits h

/-- A number under a mask of ones. -/
theorem and_mask_of {k : Nat} (hk : k < bits) (v : Int) :
    (of v &&& of (2 ^ k - 1) : Checked bits) = of (v % 2 ^ k) := by
  refine congrArg of ?_
  have hpow : (2 ^ k : Nat) < 2 ^ bits := Nat.pow_lt_pow_right (by decide) hk
  have hmask : BitVec.ofInt bits (2 ^ k - 1) = BitVec.ofNat bits (2 ^ k - 1) := by
    rw [← BitVec.ofInt_natCast, Nat.cast_sub Nat.one_le_two_pow]
    push_cast
    rfl
  have hnat : (BitVec.ofInt bits v &&& BitVec.ofNat bits (2 ^ k - 1)).toNat = (v % 2 ^ k).toNat := by
    rw [BitVec.toNat_and, BitVec.toNat_ofInt, BitVec.toNat_ofNat,
      Nat.mod_eq_of_lt (lt_of_le_of_lt (Nat.sub_le _ _) hpow), Nat.and_two_pow_sub_one_eq_mod]
    have hnonneg : 0 ≤ v % (2 ^ bits : Int) := Int.emod_nonneg _ (by positivity)
    have hmod : 0 ≤ v % (2 ^ k : Int) := Int.emod_nonneg _ (by positivity)
    have hdvd : (2 ^ k : Int) ∣ 2 ^ bits := pow_dvd_pow 2 hk.le
    zify
    rw [Int.toNat_of_nonneg hnonneg, Int.toNat_of_nonneg hmod]
    exact Int.emod_emod_of_dvd v hdvd
  have hlt : (v % 2 ^ k).toNat < 2 ^ k := by
    have hmod := Int.emod_lt_of_pos v (show (0 : Int) < 2 ^ k by positivity)
    zify
    rw [Int.toNat_of_nonneg (Int.emod_nonneg _ (by positivity))]
    exact hmod
  rw [bitwise, hmask, BitVec.toInt_eq_toNat_of_lt, hnat]
  · exact Int.toNat_of_nonneg (Int.emod_nonneg _ (by positivity))
  · rw [hnat]
    calc 2 * (v % 2 ^ k).toNat < 2 * 2 ^ k := by omega
      _ = 2 ^ (k + 1) := by rw [pow_succ]; ring
      _ ≤ 2 ^ bits := Nat.pow_le_pow_right (by decide) hk

/-- Bits over those of `m`. -/
theorem or_shiftLeft_of {m n k : Nat} (hbits : 0 < bits) (hm : m < 2 ^ k)
    (hfits : m + n * 2 ^ k < 2 ^ (bits - 1)) :
    (of m ||| of n <<< k : Checked bits) = of ((m + n * 2 ^ k : Nat) : Int) := by
  have hpow : (2 : Nat) ^ bits = 2 * 2 ^ (bits - 1) := by
    rw [← Nat.pow_succ', Nat.succ_eq_add_one, Nat.sub_add_cancel hbits]
  have hshift : (of n <<< k : Checked bits) = of ((n * 2 ^ k : Nat) : Int) := by
    have hn : (n : Int) * 2 ^ k < 2 ^ (bits - 1) := by
      exact_mod_cast (by omega : n * 2 ^ k < 2 ^ (bits - 1))
    have hnonneg : (0 : Int) ≤ n * 2 ^ k := by positivity
    have hlow : (0 : Int) ≤ 2 ^ (bits - 1) := by positivity
    rw [shiftLeft_of hbits ⟨by linarith, hn⟩]
    push_cast
    rfl
  have hor : m ||| n * 2 ^ k = m + n * 2 ^ k := by
    rw [Nat.or_comm, Nat.mul_comm, ← Nat.two_pow_add_eq_or_of_lt hm, Nat.add_comm]
  have hnat : (BitVec.ofNat bits m ||| BitVec.ofNat bits (n * 2 ^ k)).toNat = m + n * 2 ^ k := by
    rw [BitVec.toNat_or, BitVec.toNat_ofNat, BitVec.toNat_ofNat, Nat.mod_eq_of_lt (by omega),
      Nat.mod_eq_of_lt (by omega), hor]
  rw [hshift]
  refine congrArg of ?_
  rw [bitwise, BitVec.ofInt_natCast, BitVec.ofInt_natCast, BitVec.toInt_eq_toNat_of_lt, hnat]
  rw [hnat, hpow]
  omega

/-! ## Arrays -/

theorem defined_eq {n : Nat} {x : Nat → Checked bits} {v : Nat → Int}
    (h : ∀ i < n, x i = of (v i)) : ∃ t, defined n x = some t ∧ ∀ i < n, t i = v i := by
  refine ⟨fun i => (x i).getD 0, ?_, ?_⟩
  · rw [defined, if_pos]
    intro i hi
    rw [h i hi]
    rfl
  · intro i hi
    show (x i).getD 0 = v i
    rw [h i hi]
    rfl

/-! ## Sizes -/

/-- `a` was computed to be `v`, which is at most `b` in size. -/
structure Is (a : Checked bits) (v b : Int) : Prop where
  eq : a = of v
  le : |v| ≤ b

theorem Is.of {v b : Int} (h : |v| ≤ b) : Is (Checked.of v : Checked bits) v b := ⟨rfl, h⟩

theorem Is.ofNat (n : Nat) : Is (OfNat.ofNat n : Checked bits) n n := by
  refine ⟨rfl, ?_⟩
  rw [abs_of_nonneg (Int.natCast_nonneg n)]

theorem Is.mono {a : Checked bits} {v b c : Int} (h : Is a v b) (hle : b ≤ c) : Is a v c :=
  ⟨h.eq, h.le.trans hle⟩

theorem Is.add {a a' : Checked bits} {v v' b b' : Int} (h : Is a v b) (h' : Is a' v' b')
    (hfits : b + b' < 2 ^ (bits - 1)) : Is (a + a') (v + v') (b + b') := by
  have hle : |v + v'| ≤ b + b' := (abs_add_le v v').trans (add_le_add h.le h'.le)
  refine ⟨?_, hle⟩
  rw [h.eq, h'.eq]
  exact add_of (fits_of_abs hle hfits)

theorem Is.sub {a a' : Checked bits} {v v' b b' : Int} (h : Is a v b) (h' : Is a' v' b')
    (hfits : b + b' < 2 ^ (bits - 1)) : Is (a - a') (v - v') (b + b') := by
  have hle : |v - v'| ≤ b + b' := (abs_sub v v').trans (add_le_add h.le h'.le)
  refine ⟨?_, hle⟩
  rw [h.eq, h'.eq]
  exact sub_of (fits_of_abs hle hfits)

theorem Is.mul {a a' : Checked bits} {v v' b b' : Int} (h : Is a v b) (h' : Is a' v' b')
    (hfits : b * b' < 2 ^ (bits - 1)) : Is (a * a') (v * v') (b * b') := by
  have hle : |v * v'| ≤ b * b' := by
    rw [abs_mul]
    exact mul_le_mul h.le h'.le (abs_nonneg v') ((abs_nonneg v).trans h.le)
  refine ⟨?_, hle⟩
  rw [h.eq, h'.eq]
  exact mul_of (fits_of_abs hle hfits)

theorem Is.shiftLeft {a : Checked bits} {v b : Int} {n : Nat} (hbits : 0 < bits) (h : Is a v b)
    (hfits : b * 2 ^ n < 2 ^ (bits - 1)) : Is (a <<< n) (v * 2 ^ n) (b * 2 ^ n) := by
  have hle : |v * 2 ^ n| ≤ b * 2 ^ n := by
    rw [abs_mul, abs_of_pos (show (0 : Int) < 2 ^ n by positivity)]
    exact mul_le_mul_of_nonneg_right h.le (by positivity)
  refine ⟨?_, hle⟩
  rw [h.eq]
  exact shiftLeft_of hbits (fits_of_abs hle hfits)

/-- All of an array. -/
theorem defined_is {n : Nat} {x : Nat → Checked bits} {v : Nat → Int} {b : Int}
    (h : ∀ i < n, Is (x i) (v i) b) :
    ∃ t, defined n x = some t ∧ ∀ i < n, t i = v i ∧ |t i| ≤ b := by
  obtain ⟨t, ht, hv⟩ := defined_eq fun i hi => (h i hi).eq
  refine ⟨t, ht, fun i hi => ⟨hv i hi, ?_⟩⟩
  rw [hv i hi]
  exact (h i hi).le

/-- A call that does not fail goes on with its result. -/
theorem some_bind {α β : Type} {call : Option α} {a : α} (h : call = some a) (f : α → Option β) :
    (call >>= f) = f a := by
  rw [h]
  rfl

/-! ## Expressions -/

/-- A sum of products as a tree. -/
inductive Expr (V : Type) where
  | var (v : V)
  | lit (n : Nat)
  | add (e e' : Expr V)
  | mul (e e' : Expr V)

namespace Expr

variable {V : Type}

instance : Add (Expr V) := ⟨add⟩
instance : Mul (Expr V) := ⟨mul⟩
instance (n : Nat) : OfNat (Expr V) n := ⟨lit n⟩

section Eval

variable {R : Type} [Add R] [Mul R] [∀ n, OfNat R n]

def eval (x : V → R) : Expr V → R
  | var v => x v
  | lit n => OfNat.ofNat n
  | add e e' => e.eval x + e'.eval x
  | mul e e' => e.eval x * e'.eval x

end Eval

/-- The largest value where all variables are at most `size`. -/
def bound (size : Nat) (e : Expr V) : Nat := e.eval fun _ => size

/-- No part of the expression gets to `limit`, and its variables are among those of `p`. -/
def within (p : V → Bool) (size limit : Nat) : Expr V → Bool
  | var v => p v
  | lit _ => true
  | add e e' => e.within p size limit && e'.within p size limit
      && decide ((add e e').bound size < limit)
  | mul e e' => e.within p size limit && e'.within p size limit
      && decide ((mul e e').bound size < limit)

/-- **NO OVERFLOW**: the expression is computed where its bounds are within the width. -/
theorem is_eval {p : V → Bool} {size : Nat} {x : V → Checked bits} {v : V → Int}
    (hx : ∀ i, p i = true → Is (x i) (v i) size) :
    ∀ {e : Expr V}, e.within p size (2 ^ (bits - 1)) = true →
      Is (e.eval x) (e.eval v) (e.bound size : Nat) := by
  intro e
  induction e with
  | var i => exact fun h => hx i h
  | lit n => exact fun _ => Is.ofNat n
  | add e e' ih ih' =>
      intro h
      rw [within, Bool.and_eq_true, Bool.and_eq_true, decide_eq_true_iff] at h
      have hsum := (ih h.1.1).add (ih' h.1.2) (by exact_mod_cast h.2)
      exact hsum.mono (by exact_mod_cast le_refl _)
  | mul e e' ih ih' =>
      intro h
      rw [within, Bool.and_eq_true, Bool.and_eq_true, decide_eq_true_iff] at h
      have hproduct := (ih h.1.1).mul (ih' h.1.2) (by exact_mod_cast h.2)
      exact hproduct.mono (by exact_mod_cast le_refl _)

end Expr

end CheckedArith
