import Mathlib

/-! # HMAC and HKDF

    The constructions over any hash function with a block length: the keyed hash of two
    nested hashes, and the derivation of a string of any length in an extract and an
    expand step.  The expanded string is cut out of numbered blocks, each of them the
    keyed hash of the one before; the rules at the end unfold it block by block. -/

namespace KeyDerivation

/-- A hash function and the length of the blocks that it works on. -/
structure HashFunction where
  blockLength : Nat
  hashLength : Nat
  hash : List UInt8 → Vector UInt8 hashLength

namespace HashFunction

variable (H : HashFunction)

/-- Keys above a block are hashed. -/
def shortKey (key : List UInt8) : List UInt8 :=
  if key.length > H.blockLength then (H.hash key).toList else key

/-- A key, filled up with zeros to a block. -/
def keyBlock (key : List UInt8) : List UInt8 :=
  H.shortKey key ++ List.replicate (H.blockLength - (H.shortKey key).length) 0

/-- A block with every byte xored with the same byte. -/
def xorPad (block : List UInt8) (b : UInt8) : List UInt8 :=
  List.zipWith (· ^^^ ·) block (List.replicate block.length b)

/-- HMAC: the hash of the outer key block and of the hash of the inner one and the text. -/
def hmac (key text : List UInt8) : Vector UInt8 H.hashLength :=
  H.hash (xorPad (H.keyBlock key) 0x5C
    ++ (H.hash (xorPad (H.keyBlock key) 0x36 ++ text)).toList)

/-- The extract step; a missing salt is a string of zeros. -/
def extract (salt : Option (List UInt8)) (input : List UInt8) : Vector UInt8 H.hashLength :=
  H.hmac (salt.getD (List.replicate H.hashLength 0)) input

/-- `T(i)`, the block with number `i`. -/
def block (key info : List UInt8) : Nat → List UInt8
  | 0 => []
  | i + 1 => (H.hmac key (block key info i ++ info ++ [UInt8.ofNat (i + 1)])).toList

/-- The number of blocks for a length. -/
def blockCount (n : Nat) : Nat := (n + H.hashLength - 1) / H.hashLength

/-- The first `n` bytes of the blocks from number `i` on. -/
def expandFrom (key info : List UInt8) (i n : Nat) : List UInt8 :=
  ((List.range' i (H.blockCount n)).flatMap (H.block key info)).take n

/-- The expand step. -/
def expand (key info : List UInt8) (n : Nat) : List UInt8 := H.expandFrom key info 1 n

/-- HKDF. -/
def hkdf (input : List UInt8) (salt : Option (List UInt8)) (info : List UInt8) (n : Nat) :
    List UInt8 :=
  H.expand (H.extract salt input).toList info n

variable {H}

@[simp] theorem length_block_succ (key info : List UInt8) (i : Nat) :
    (H.block key info (i + 1)).length = H.hashLength := by
  rw [block, Vector.length_toList]

theorem xorPad_eq_map (bs : List UInt8) (b : UInt8) : xorPad bs b = bs.map (· ^^^ b) := by
  rw [xorPad]
  induction bs with
  | nil => rfl
  | cons a bs ih =>
      rw [List.length_cons, List.replicate_succ, List.zipWith_cons_cons, ih, List.map_cons]

/-- A whole block and what comes behind it. -/
theorem expandFrom_next (hpos : 0 < H.hashLength) (key info : List UInt8) (i : Nat) {n : Nat}
    (h : H.hashLength < n) :
    H.expandFrom key info (i + 1) n
      = H.block key info (i + 1) ++ H.expandFrom key info (i + 2) (n - H.hashLength) := by
  have hcount : H.blockCount n = H.blockCount (n - H.hashLength) + 1 := by
    rw [blockCount, blockCount,
      show n + H.hashLength - 1 = n - H.hashLength + H.hashLength - 1 + H.hashLength by omega,
      Nat.add_div_right _ hpos]
  rw [expandFrom, expandFrom, hcount, List.range'_succ, List.flatMap_cons, List.take_append,
    length_block_succ, List.take_of_length_le (by rw [length_block_succ]; omega)]

/-- The start of a block is the end. -/
theorem expandFrom_last (hpos : 0 < H.hashLength) (key info : List UInt8) (i : Nat) {n : Nat}
    (h : n ≤ H.hashLength) :
    H.expandFrom key info (i + 1) n = (H.block key info (i + 1)).take n := by
  rw [expandFrom]
  by_cases hn : n = 0
  · rw [hn, List.take_zero, List.take_zero]
  · have hcount : H.blockCount n = 1 := by
      rw [blockCount, show n + H.hashLength - 1 = n - 1 + H.hashLength by omega,
        Nat.add_div_right _ hpos, Nat.div_eq_of_lt (by omega)]
    rw [hcount, List.range'_one, List.flatMap_cons, List.flatMap_nil, List.append_nil]

end HashFunction

end KeyDerivation
