import Mathlib

/-! # Variable-length integers

    An unsigned number in groups of seven bits, least significant group first;
    the high bit of a byte says that another group follows.  `decode w` is the
    value that a reader with a `w`-bit accumulator computes, from the last byte
    to the first. -/

namespace Varint

/-- The groups of `n`, least significant first. -/
def encode (n : Nat) : List UInt8 :=
  if n < 128 then [UInt8.ofNat n]
  else UInt8.ofNat (n % 128 + 128) :: encode (n / 128)
termination_by n
decreasing_by omega

/-- One step of the reader: shift the accumulator and put in a group. -/
def pushGroup (w : Nat) (b : UInt8) (value : Nat) : Nat :=
  ((value <<< 7) % 2 ^ w) ||| (0x7F &&& b.toNat)

/-- The value of the groups in `bs` in `w` bits. -/
def decode (w : Nat) (bs : List UInt8) : Nat :=
  bs.foldr (pushGroup w) 0

theorem encode_of_lt {n : Nat} (h : n < 128) : encode n = [UInt8.ofNat n] := by
  rw [encode, if_pos h]

theorem encode_of_ge {n : Nat} (h : 128 ≤ n) :
    encode n = UInt8.ofNat (n % 128 + 128) :: encode (n / 128) := by
  rw [encode, if_neg (by omega)]

/-- Seven bits more for every group. -/
theorem length_encode_le {k n : Nat} (h : n < 128 ^ (k + 1)) : (encode n).length ≤ k + 1 := by
  induction k generalizing n with
  | zero =>
      rw [encode_of_lt (by omega)]
      exact Nat.le_refl 1
  | succ k ih =>
      by_cases hn : n < 128
      · rw [encode_of_lt hn]
        exact Nat.succ_le_succ (Nat.zero_le _)
      · rw [encode_of_ge (by omega), List.length_cons]
        have := ih (n := n / 128) (Nat.div_lt_of_lt_mul (by rw [Nat.pow_succ'] at h; exact h))
        omega

theorem pushGroup_of_lt {w value : Nat} {b : UInt8} (h : value * 128 < 2 ^ w) :
    pushGroup w b value = value * 128 + b.toNat % 128 := by
  rw [pushGroup, Nat.shiftLeft_eq, show (2 : Nat) ^ 7 = 128 by rfl, Nat.mod_eq_of_lt h,
    Nat.and_comm, show (0x7F : Nat) = 2 ^ 7 - 1 by rfl, Nat.and_two_pow_sub_one_eq_mod,
    Nat.mul_comm, show (128 : Nat) = 2 ^ 7 by rfl]
  exact (Nat.two_pow_add_eq_or_of_lt (Nat.mod_lt _ (by decide)) value).symm

/-- **ROUND TRIP** for every value that fits the accumulator. -/
theorem decode_encode {w n : Nat} (h : n < 2 ^ w) : decode w (encode n) = n := by
  induction n using Nat.strongRecOn with
  | ind n ih =>
      by_cases hn : n < 128
      · rw [encode_of_lt hn, decode, List.foldr_cons, List.foldr_nil,
          pushGroup_of_lt (by rw [Nat.zero_mul]; exact Nat.two_pow_pos w), UInt8.toNat_ofNat']
        omega
      · have hrec : decode w (encode (n / 128)) = n / 128 := ih _ (by omega) (by omega)
        rw [encode_of_ge (by omega), decode, List.foldr_cons,
          show List.foldr (pushGroup w) 0 (encode (n / 128)) = n / 128 from hrec,
          pushGroup_of_lt (by omega), UInt8.toNat_ofNat']
        omega

/-! ## The continuation bit -/

/-- Does another group follow? -/
def more (b : UInt8) : Bool := b &&& 0x80 != 0

theorem more_ofNat {n : Nat} (h : n < 256) : more (UInt8.ofNat n) = decide (128 ≤ n) := by
  have hall : ∀ i : Fin 256, more (UInt8.ofNat i.val) = decide (128 ≤ i.val) := by
    decide +kernel
  exact hall ⟨n, h⟩

/-- A scan over the bytes that stops behind the first group without
    continuation bit: how many bytes it takes. -/
def scan : List UInt8 → Nat
  | [] => 0
  | b :: bs => if more b then scan bs + 1 else 1

/-- **SELF-DELIMITING**: the scan takes just the groups of the number. -/
theorem scan_encode (n : Nat) (rest : List UInt8) :
    scan (encode n ++ rest) = (encode n).length := by
  induction n using Nat.strongRecOn with
  | ind n ih =>
      by_cases hn : n < 128
      · rw [encode_of_lt hn, List.singleton_append, scan, more_ofNat (by omega),
          if_neg (by rw [decide_eq_true_eq]; omega)]
        rfl
      · rw [encode_of_ge (by omega), List.cons_append, scan, more_ofNat (by omega),
          if_pos (by rw [decide_eq_true_eq]; omega), ih _ (by omega), List.length_cons]

/-! ## Any groups -/

/-- The number that the groups stand for, in any number of bits. -/
def value (bs : List UInt8) : Nat :=
  bs.foldr (fun b rest => rest * 128 + b.toNat % 128) 0

@[simp] theorem value_nil : value [] = 0 := rfl

@[simp] theorem value_cons (b : UInt8) (bs : List UInt8) :
    value (b :: bs) = value bs * 128 + b.toNat % 128 := rfl

/-- A group more, with the high bits shifted out. -/
theorem pushGroup_mod {w : Nat} (hw : 7 ≤ w) (b : UInt8) (v : Nat) :
    pushGroup w b (v % 2 ^ w) = (v * 128 + b.toNat % 128) % 2 ^ w := by
  obtain ⟨k, rfl⟩ := Nat.exists_eq_add_of_le hw
  have hpow : 2 ^ (7 + k) = 128 * 2 ^ k := by rw [Nat.pow_add]
  have hlow : b.toNat % 128 < 128 := Nat.mod_lt _ (by decide)
  -- what is shifted out is above the remaining bits
  have hshift : v % 2 ^ (7 + k) * 128 % 2 ^ (7 + k) = 128 * (v % 2 ^ k) := by
    rw [Nat.mod_mul_mod, hpow, Nat.mul_comm v 128, Nat.mul_mod_mul_left]
  have hsum : (v * 128 + b.toNat % 128) % 2 ^ (7 + k) = 128 * (v % 2 ^ k) + b.toNat % 128 := by
    rw [hpow, Nat.mod_mul, Nat.mul_add_mod_self_right, Nat.mod_eq_of_lt hlow,
      show (v * 128 + b.toNat % 128) / 128 = v by omega, Nat.add_comm]
  rw [pushGroup, Nat.shiftLeft_eq, show (2 : Nat) ^ 7 = 128 by rfl, hshift, hsum, Nat.and_comm,
    show (0x7F : Nat) = 2 ^ 7 - 1 by rfl, Nat.and_two_pow_sub_one_eq_mod]
  exact (Nat.two_pow_add_eq_or_of_lt (show b.toNat % 128 < 2 ^ 7 from hlow) _).symm

/-- **THE READER** computes the number modulo the size of its accumulator. -/
theorem decode_eq_value {w : Nat} (hw : 7 ≤ w) (bs : List UInt8) :
    decode w bs = value bs % 2 ^ w := by
  induction bs with
  | nil =>
      rw [decode, List.foldr_nil, value_nil, Nat.zero_mod]
  | cons b bs ih =>
      rw [decode] at ih
      rw [decode, List.foldr_cons, ih, value_cons, pushGroup_mod hw]

/-- Every group but the last has a continuation bit, and the last has none. -/
def Terminated : List UInt8 → Prop
  | [] => False
  | b :: bs => if more b then Terminated bs else bs = []

instance decidableTerminated : ∀ bs : List UInt8, Decidable (Terminated bs)
  | [] => isFalse id
  | b :: bs =>
      have := decidableTerminated bs
      inferInstanceAs (Decidable (if more b then Terminated bs else bs = []))

/-- The scan stops behind terminated groups. -/
theorem scan_terminated {bs : List UInt8} (h : Terminated bs) (rest : List UInt8) :
    scan (bs ++ rest) = bs.length := by
  induction bs with
  | nil => exact absurd h id
  | cons b bs ih =>
      rw [Terminated] at h
      rw [List.cons_append, scan]
      by_cases hb : more b = true
      · rw [if_pos hb] at h
        rw [if_pos hb, ih h, List.length_cons]
      · rw [if_neg hb] at h
        rw [if_neg hb, h]
        rfl

/-- Terminated groups are what a scan takes of a string that starts with them. -/
theorem Terminated.eq_take_scan {bs groups : List UInt8} (h : Terminated groups)
    (hhead : groups <+: bs) : bs.take (scan bs) = groups := by
  obtain ⟨rest, rfl⟩ := hhead
  rw [scan_terminated h, List.take_left]

end Varint
