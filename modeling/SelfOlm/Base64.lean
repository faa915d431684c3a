import SelfOlm.Crypto
import SelfOlm.Lib.SextetCodec

/-! # Base64

    `base64.cpp`: encoding and decoding on memory.  The callers encode a buffer
    in place, with the bytes at the end of it, and decode in place from the
    start; the lemmas say when no byte is overwritten before it is read. -/

namespace OlmBase64

open ByteMemory OlmCrypto

/-- `ENCODE_BASE64`. -/
def encodeTable : List UInt8 :=
  [0x41, 0x42, 0x43, 0x44, 0x45, 0x46, 0x47, 0x48,
   0x49, 0x4A, 0x4B, 0x4C, 0x4D, 0x4E, 0x4F, 0x50,
   0x51, 0x52, 0x53, 0x54, 0x55, 0x56, 0x57, 0x58,
   0x59, 0x5A, 0x61, 0x62, 0x63, 0x64, 0x65, 0x66,
   0x67, 0x68, 0x69, 0x6A, 0x6B, 0x6C, 0x6D, 0x6E,
   0x6F, 0x70, 0x71, 0x72, 0x73, 0x74, 0x75, 0x76,
   0x77, 0x78, 0x79, 0x7A, 0x30, 0x31, 0x32, 0x33,
   0x34, 0x35, 0x36, 0x37, 0x38, 0x39, 0x2B, 0x2F]

/-- `E`, no character of the alphabet. -/
def E : UInt8 := 0xFF

/-- `DECODE_BASE64`. -/
def decodeTable : List UInt8 :=
  [ E,  E,  E,  E,  E,  E,  E,  E,  E,  E,  E,  E,  E,  E,  E,  E,
    E,  E,  E,  E,  E,  E,  E,  E,  E,  E,  E,  E,  E,  E,  E,  E,
    E,  E,  E,  E,  E,  E,  E,  E,  E,  E,  E, 62,  E,  E,  E, 63,
   52, 53, 54, 55, 56, 57, 58, 59, 60, 61,  E,  E,  E,  E,  E,  E,
    E,  0,  1,  2,  3,  4,  5,  6,  7,  8,  9, 10, 11, 12, 13, 14,
   15, 16, 17, 18, 19, 20, 21, 22, 23, 24, 25,  E,  E,  E,  E,  E,
    E, 26, 27, 28, 29, 30, 31, 32, 33, 34, 35, 36, 37, 38, 39, 40,
   41, 42, 43, 44, 45, 46, 47, 48, 49, 50, 51,  E,  E,  E,  E,  E]

/-- The two tables as an alphabet. -/
def base64 : SextetCodec where
  char := fun v => encodeTable.getD v 0
  digit := fun c => (decodeTable.getD (c &&& 0x7F).toNat 0).toNat
  digit_char := by decide

/-- `encode_base64_length`. -/
def encodeBase64Length (inputLength : Nat) : Nat :=
  4 * ((inputLength + 2) / 3) + (inputLength + 2) % 3 - 2

/-- The `while` loop of `encode_base64` over `n` groups. -/
def encodeBase64Loop : Nat → Mem → Nat → Nat → Mem
  | 0, m, _, _ => m
  | n + 1, m, pos, output =>
      let value := (m pos).toNat
      let value := value <<< 8 ||| (m (pos + 1)).toNat
      let value := value <<< 8 ||| (m (pos + 2)).toNat
      encodeBase64Loop n (write m output (base64.encodeGroup value)) (pos + 3) (output + 4)

/-- `encode_base64`; the position returned is `output` plus the length. -/
def encodeBase64 (m : Mem) (input inputLength output : Nat) : Mem :=
  let m := encodeBase64Loop (inputLength / 3) m input output
  let pos := input + inputLength / 3 * 3
  let output := output + inputLength / 3 * 4
  let remainder := input + inputLength - pos
  if remainder ≠ 0 then
    let value := (m pos).toNat
    if remainder = 2 then
      let value := value <<< 8 ||| (m (pos + 1)).toNat
      let value := value <<< 2
      write m output [base64.char (value >>> 6 >>> 6), base64.char (value >>> 6 &&& 0x3F),
        base64.char (value &&& 0x3F)]
    else
      let value := value <<< 4
      write m output [base64.char (value >>> 6), base64.char (value &&& 0x3F)]
  else m

/-- `decode_base64_length`. -/
def decodeBase64Length (inputLength : Nat) : Option Nat :=
  if inputLength % 4 = 1 then none
  else some (3 * ((inputLength + 2) / 4) + (inputLength + 2) % 4 - 2)

/-- The `while` loop of `decode_base64` over `n` groups. -/
def decodeBase64Loop : Nat → Mem → Nat → Nat → Mem
  | 0, m, _, _ => m
  | n + 1, m, pos, output =>
      let value := base64.digit (m pos)
      let value := value <<< 6 ||| base64.digit (m (pos + 1))
      let value := value <<< 6 ||| base64.digit (m (pos + 2))
      let value := value <<< 6 ||| base64.digit (m (pos + 3))
      decodeBase64Loop n (write m output (SextetCodec.decodeGroup value)) (pos + 4) (output + 3)

/-- `decode_base64`.  A single last character is decoded with the byte that
    follows the input. -/
def decodeBase64 (m : Mem) (input inputLength output : Nat) : Mem :=
  let m := decodeBase64Loop (inputLength / 4) m input output
  let pos := input + inputLength / 4 * 4
  let output := output + inputLength / 4 * 3
  let remainder := input + inputLength - pos
  if remainder ≠ 0 then
    let value := base64.digit (m pos)
    let value := value <<< 6 ||| base64.digit (m (pos + 1))
    if remainder = 3 then
      let value := value <<< 6 ||| base64.digit (m (pos + 2))
      let value := value >>> 2
      write m output [UInt8.ofNat (value >>> 8), UInt8.ofNat value]
    else write m output [UInt8.ofNat (value >>> 4)]
  else m

/-! ## What it computes -/

theorem encodeBase64Length_eq (n : Nat) :
    encodeBase64Length n = SextetCodec.encodedLength n := rfl

theorem le_encodeBase64Length (n : Nat) : n ≤ encodeBase64Length n := by
  have hlength := SextetCodec.add_div_le_encodedLength n
  rw [encodeBase64Length_eq]
  omega

theorem decodeBase64Length_encode (n : Nat) :
    decodeBase64Length (encodeBase64Length n) = some n := by
  rw [decodeBase64Length, encodeBase64Length_eq, if_neg (SextetCodec.encodedLength_mod n)]
  exact congrArg some (SextetCodec.decodedLength_encodedLength n)

/-- Buffers that `encode_base64` may be called with. -/
def EncodeSafe (input inputLength output : Nat) : Prop :=
  output + inputLength / 3 ≤ input ∨ input + inputLength ≤ output

/-- Buffers that `decode_base64` may be called with. -/
def DecodeSafe (input inputLength output : Nat) : Prop :=
  output ≤ input ∨ input + inputLength ≤ output

/-- Bytes at the end of the output buffer may be encoded in place. -/
theorem encodeSafe_tail (output n : Nat) :
    EncodeSafe (output + encodeBase64Length n - n) n output := by
  have := SextetCodec.add_div_le_encodedLength n
  rw [encodeBase64Length_eq]
  left
  omega

theorem read_three (m : Mem) (p n : Nat) :
    read m p (n + 3) = m p :: m (p + 1) :: m (p + 2) :: read m (p + 3) n := by
  rw [read_succ, read_succ, read_succ]

theorem read_four (m : Mem) (p n : Nat) :
    read m p (n + 4) = m p :: m (p + 1) :: m (p + 2) :: m (p + 3) :: read m (p + 4) n := by
  rw [read_succ, read_succ, read_succ, read_succ]

/-- One group is encoded and the rest of the input is not touched. -/
theorem encodeBase64_step (m : Mem) {input n output : Nat}
    (hs : EncodeSafe input (n + 3) output) :
    read (write m output (base64.encodeGroup (SextetCodec.pack (m input) (m (input + 1))
        (m (input + 2))))) (input + 3) n = read m (input + 3) n := by
  by_cases hn : n = 0
  · rw [hn, read_zero, read_zero]
  · refine read_write_disjoint m ?_
    rcases hs with hs | hs
    · left
      show output + 4 ≤ input + 3
      omega
    · right
      show input + 3 + n ≤ output
      omega

theorem encodeBase64_succ (m : Mem) (input n output : Nat) :
    encodeBase64 m input (n + 3) output
      = encodeBase64 (write m output (base64.encodeGroup (SextetCodec.pack (m input)
          (m (input + 1)) (m (input + 2))))) (input + 3) n (output + 4) := by
  rw [encodeBase64, encodeBase64, show (n + 3) / 3 = n / 3 + 1 by omega, encodeBase64Loop]
  simp only [show input + (n / 3 + 1) * 3 = input + 3 + n / 3 * 3 by omega,
    show output + (n / 3 + 1) * 4 = output + 4 + n / 3 * 4 by omega,
    show input + (n + 3) = input + 3 + n by omega]
  rfl

/-- **ENCODING**, in place or not. -/
theorem encodeBase64_eq :
    ∀ (n : Nat) (m : Mem) (input output : Nat), EncodeSafe input n output →
      encodeBase64 m input n output = write m output (base64.encode (read m input n)) := by
  intro n
  induction n using Nat.strongRecOn with
  | ind n ih =>
      intro m input output hs
      match n, ih, hs with
      | 0, _, _ =>
          rw [encodeBase64]
          simp only [show input + 0 - (input + 0 / 3 * 3) = 0 by omega]
          rw [if_neg (not_not_intro rfl), read_zero, SextetCodec.encode, write_nil]
          rfl
      | 1, _, _ =>
          rw [encodeBase64]
          simp only [show input + 1 - (input + 1 / 3 * 3) = 1 by omega]
          rw [if_pos (by decide), if_neg (by decide)]
          rfl
      | 2, _, _ =>
          rw [encodeBase64]
          simp only [show input + 2 - (input + 2 / 3 * 3) = 2 by omega]
          rw [if_pos (by decide), if_pos trivial]
          rfl
      | n + 3, ih, hs =>
          have hs' : EncodeSafe (input + 3) n (output + 4) := by
            rcases hs with hs | hs
            · left; omega
            · right; omega
          rw [encodeBase64_succ, ih n (by omega) _ _ _ hs', encodeBase64_step m hs, read_three,
            SextetCodec.encode, write_append]
          rfl

/-- One group is decoded and the rest of the input is not touched. -/
theorem decodeBase64_step (m : Mem) {input n output : Nat}
    (hs : DecodeSafe input (n + 4) output) (value : Nat) :
    read (write m output (SextetCodec.decodeGroup value)) (input + 4) n
      = read m (input + 4) n := by
  refine read_write_disjoint m ?_
  rcases hs with hs | hs
  · left
    show output + 3 ≤ input + 4
    omega
  · right
    show input + 4 + n ≤ output
    omega

theorem decodeBase64_succ (m : Mem) (input n output : Nat) :
    decodeBase64 m input (n + 4) output
      = decodeBase64 (write m output (SextetCodec.decodeGroup (base64.unpack (m input)
          (m (input + 1)) (m (input + 2)) (m (input + 3))))) (input + 4) n (output + 3) := by
  rw [decodeBase64, decodeBase64, show (n + 4) / 4 = n / 4 + 1 by omega, decodeBase64Loop]
  simp only [show input + (n / 4 + 1) * 4 = input + 4 + n / 4 * 4 by omega,
    show output + (n / 4 + 1) * 3 = output + 3 + n / 4 * 3 by omega,
    show input + (n + 4) = input + 4 + n by omega]
  rfl

/-- **DECODING**, in place or not. -/
theorem decodeBase64_eq :
    ∀ (n : Nat) (m : Mem) (input output : Nat), n % 4 ≠ 1 → DecodeSafe input n output →
      decodeBase64 m input n output = write m output (base64.decode (read m input n)) := by
  intro n
  induction n using Nat.strongRecOn with
  | ind n ih =>
      intro m input output hn hs
      match n, ih, hn, hs with
      | 0, _, _, _ =>
          rw [decodeBase64]
          simp only [show input + 0 - (input + 0 / 4 * 4) = 0 by omega]
          rw [if_neg (not_not_intro rfl), read_zero, SextetCodec.decode, write_nil]
          · rfl
          all_goals intros; contradiction
      | 1, _, hn, _ => exact absurd rfl hn
      | 2, _, _, _ =>
          rw [decodeBase64]
          simp only [show input + 2 - (input + 2 / 4 * 4) = 2 by omega]
          rw [if_pos (by decide), if_neg (by decide)]
          rfl
      | 3, _, _, _ =>
          rw [decodeBase64]
          simp only [show input + 3 - (input + 3 / 4 * 4) = 3 by omega]
          rw [if_pos (by decide), if_pos trivial]
          rfl
      | n + 4, ih, hn, hs =>
          have hs' : DecodeSafe (input + 4) n (output + 3) := by
            rcases hs with hs | hs
            · left; omega
            · right; omega
          rw [decodeBase64_succ, ih n (by omega) _ _ _ (by omega) hs', decodeBase64_step m hs,
            read_four, SextetCodec.decode, write_append]
          rfl

/-- **ROUND TRIP**: decoding what was encoded stores the bytes again. -/
theorem decodeBase64_encode {m : Mem} {input output : Nat} {bs : Bytes}
    (h : read m input (encodeBase64Length bs.length) = base64.encode bs)
    (hs : DecodeSafe input (encodeBase64Length bs.length) output) :
    decodeBase64 m input (encodeBase64Length bs.length) output = write m output bs := by
  have hmod : encodeBase64Length bs.length % 4 ≠ 1 := SextetCodec.encodedLength_mod _
  rw [decodeBase64_eq _ m input output hmod hs, h, SextetCodec.decode_encode]

theorem length_base64_encode (bs : Bytes) :
    (base64.encode bs).length = encodeBase64Length bs.length :=
  base64.length_encode bs

/-- A string that was built at the end of the buffer is encoded in place. -/
theorem encodeBase64_tail (m : Mem) (output : Nat) (raw : Bytes) :
    encodeBase64 (write m (output + encodeBase64Length raw.length - raw.length) raw)
        (output + encodeBase64Length raw.length - raw.length) raw.length output
      = write m output (base64.encode raw) := by
  have hle : raw.length ≤ encodeBase64Length raw.length := by
    have := SextetCodec.add_div_le_encodedLength raw.length
    rw [encodeBase64Length_eq]
    omega
  rw [encodeBase64_eq _ _ _ _ (encodeSafe_tail output raw.length), read_write_self]
  -- the raw string lies inside the encoded one
  funext a
  by_cases ha : a < output ∨ output + (base64.encode raw).length ≤ a
  · rw [write_outside _ ha, write_outside _ ha, write_outside]
    rw [length_base64_encode] at ha
    omega
  · obtain ⟨i, rfl⟩ := Nat.exists_eq_add_of_le (show output ≤ a by omega)
    rw [write_inside _ _ _ (by omega), write_inside _ _ _ (by omega)]

end OlmBase64
