import Mathlib

/-! # Numbers as strings of bytes, least significant byte first -/

namespace LittleEndian

/-- The number that the bytes stand for. -/
def toNat (bs : List UInt8) : Nat := Nat.ofDigits 256 (bs.map UInt8.toNat)

/-- The lowest `k` bytes of a number. -/
def ofNat : Nat → Nat → List UInt8
  | 0, _ => []
  | k + 1, n => UInt8.ofNat n :: ofNat k (n / 256)

theorem toNat_cons (b : UInt8) (bs : List UInt8) :
    toNat (b :: bs) = b.toNat + 256 * toNat bs := by
  rw [toNat, List.map_cons, Nat.ofDigits_cons]
  rfl

theorem toNat_append (a b : List UInt8) :
    toNat (a ++ b) = toNat a + 256 ^ a.length * toNat b := by
  rw [toNat, List.map_append, Nat.ofDigits_append, List.length_map]
  rfl

theorem toNat_lt (bs : List UInt8) : toNat bs < 256 ^ bs.length := by
  have h := Nat.ofDigits_lt_base_pow_length (b := 256) (l := bs.map UInt8.toNat) (by decide)
    (by
      intro x hx
      obtain ⟨b, -, rfl⟩ := List.mem_map.mp hx
      exact b.toNat_lt)
  rwa [List.length_map] at h

/-- Strings of one length with the same number. -/
theorem toNat_inj {a b : List UInt8} (hlength : a.length = b.length) (h : toNat a = toNat b) :
    a = b := by
  induction a generalizing b with
  | nil => exact (List.length_eq_zero_iff.mp hlength.symm).symm
  | cons x a ih =>
      cases b with
      | nil => exact absurd hlength (Nat.succ_ne_zero _)
      | cons y b =>
          have hx := x.toNat_lt
          have hy := y.toNat_lt
          rw [toNat_cons, toNat_cons] at h
          have hhead : x = y := UInt8.toNat_inj.mp (by omega)
          rw [hhead, ih (Nat.succ.inj hlength) (by omega)]

/-- A single byte of the number. -/
theorem getD_eq (bs : List UInt8) (i : Nat) : (bs.getD i 0).toNat = toNat bs / 256 ^ i % 256 := by
  induction bs generalizing i with
  | nil =>
      rw [show toNat [] = 0 from rfl, Nat.zero_div]
      rfl
  | cons b bs ih =>
      have hb := b.toNat_lt
      cases i with
      | zero =>
          rw [List.getD_cons_zero, toNat_cons, Nat.pow_zero, Nat.div_one]
          omega
      | succ i =>
          have hrest : (b.toNat + 256 * toNat bs) / 256 = toNat bs := by omega
          rw [List.getD_cons_succ, ih, toNat_cons, Nat.pow_succ', ← Nat.div_div_eq_div_mul, hrest]

@[simp] theorem length_ofNat (k n : Nat) : (ofNat k n).length = k := by
  induction k generalizing n with
  | zero => rfl
  | succ k ih => rw [ofNat, List.length_cons, ih]

/-- Reading back the bytes of a number. -/
theorem toNat_ofNat {k n : Nat} (h : n < 256 ^ k) : toNat (ofNat k n) = n := by
  induction k generalizing n with
  | zero =>
      rw [Nat.lt_one_iff.mp h]
      rfl
  | succ k ih =>
      have hdiv : n / 256 < 256 ^ k := by
        rw [Nat.div_lt_iff_lt_mul (by decide), ← Nat.pow_succ]
        exact h
      rw [ofNat, toNat_cons, ih hdiv, UInt8.toNat_ofNat']
      omega

theorem getElem?_ofNat {k i : Nat} (n : Nat) (h : i < k) :
    (ofNat k n)[i]? = some (UInt8.ofNat (n / 256 ^ i)) := by
  induction k generalizing n i with
  | zero => exact absurd h (Nat.not_lt_zero i)
  | succ k ih =>
      cases i with
      | zero => rw [ofNat, List.getElem?_cons_zero, Nat.pow_zero, Nat.div_one]
      | succ i =>
          rw [ofNat, List.getElem?_cons_succ, ih _ (by omega), Nat.div_div_eq_div_mul,
            Nat.pow_succ, Nat.mul_comm 256]

end LittleEndian
