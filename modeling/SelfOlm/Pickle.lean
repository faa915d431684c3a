import SelfOlm.Cipher
import SelfOlm.Base64
import SelfOlm.BoundedList

/-! # Pickling

    `pickle.hh`, `pickle.cpp` and `pickle_encoding.c`.  The overloaded functions
    `pickle_length`, `pickle` and `unpickle` are a class.  Pickling stores bytes
    one behind the other, so `pickle` is the string that is stored; `unpickle`
    reads between a position and an end, and a read that does not fit returns the
    end.  The raw string is encrypted and put into base64 in one buffer. -/

namespace OlmPickle

open ByteMemory OlmCrypto OlmBase64 OlmList

/-- Keys of 32 bytes are not empty. -/
instance neZero_key : NeZero 32 := ⟨Nat.succ_ne_zero 31⟩

/-- Keys of 64 bytes are not empty. -/
instance neZero_longKey : NeZero 64 := ⟨Nat.succ_ne_zero 63⟩

/-- The overloads for one type. -/
class Pickle (T : Type) where
  /-- An object in memory that was set to zero. -/
  zero : T
  pickleLength : T → Nat
  pickle : T → Bytes
  /-- Memory, position, end and the old value; the new value and position. -/
  unpickle : Mem → Nat → Nat → T → T × Nat

export Pickle (pickleLength pickle unpickle)

/-! ## Numbers, flags and byte arrays -/

/-- `for (unsigned i = 4; i--;) { *(--pos) = value; value >>= 8; }` with the
    bytes behind the position. -/
def pickleLoop : Nat → UInt32 → Bytes → Bytes
  | 0, _, behind => behind
  | i + 1, value, behind => pickleLoop i (value >>> 8) (value.toUInt8 :: behind)

/-- `for (unsigned i = 4; i--;) { value <<= 8; value |= *(pos++); }` -/
def unpickleLoop (bs : Bytes) : UInt32 :=
  bs.foldl (fun value b => (value <<< 8) ||| b.toUInt32) 0

instance : Pickle UInt32 where
  zero := 0
  pickleLength := fun _ => 4
  pickle := fun value => pickleLoop 4 value []
  unpickle := fun m pos fin _ =>
    if fin < pos + 4 then (0, fin) else (unpickleLoop (read m pos 4), pos + 4)

instance : Pickle Bool where
  zero := false
  pickleLength := fun _ => 1
  pickle := fun value => [if value then 1 else 0]
  unpickle := fun m pos fin value => if pos = fin then (value, fin) else (m pos != 0, pos + 1)

/-- `pickle_bytes` and `unpickle_bytes` on an array. -/
instance {n : Nat} : Pickle (Vector UInt8 n) where
  zero := Vector.replicate n 0
  pickleLength := fun _ => n
  pickle := fun value => value.toList
  unpickle := fun m pos fin value =>
    if fin < pos + n then (value, fin) else (load n m pos, pos + n)

/-! ## Key pairs -/

instance : Pickle Curve25519KeyPair where
  zero := { publicKey := Pickle.zero, privateKey := Pickle.zero }
  pickleLength := fun value => pickleLength value.publicKey + pickleLength value.privateKey
  pickle := fun value => pickle value.publicKey ++ pickle value.privateKey
  unpickle := fun m pos fin value =>
    let (publicKey, pos) := unpickle m pos fin value.publicKey
    let (privateKey, pos) := unpickle m pos fin value.privateKey
    ({ publicKey, privateKey }, pos)

instance : Pickle Ed25519KeyPair where
  zero := { publicKey := Pickle.zero, privateKey := Pickle.zero }
  pickleLength := fun value => pickleLength value.publicKey + pickleLength value.privateKey
  pickle := fun value => pickle value.publicKey ++ pickle value.privateKey
  unpickle := fun m pos fin value =>
    let (publicKey, pos) := unpickle m pos fin value.publicKey
    let (privateKey, pos) := unpickle m pos fin value.privateKey
    ({ publicKey, privateKey }, pos)

/-! ## Lists -/

section Lists

variable {T : Type} [Pickle T] {maxSize : Nat}

/-- `while (size-- && pos != end)` of `unpickle` for lists.  An item is read over
    what its place holds; behind the end of the list that is taken to be zero,
    and it only shows where the pickle ends inside the item. -/
def unpickleItems (m : Mem) (fin : Nat) :
    Nat → Nat → BoundedList T maxSize → BoundedList T maxSize × Nat
  | 0, pos, list => (list, pos)
  | size + 1, pos, list =>
      if pos = fin then (list, pos)
      else
        let (value, pos) := unpickle m pos fin (list.endPlace Pickle.zero)
        unpickleItems m fin size pos (list.insertEnd value)

instance : Pickle (BoundedList T maxSize) where
  zero := .empty
  pickleLength := fun list =>
    pickleLength (UInt32.ofNat list.toList.length) + (list.toList.map pickleLength).sum
  pickle := fun list =>
    pickle (UInt32.ofNat list.toList.length) ++ list.toList.flatMap pickle
  unpickle := fun m pos fin list =>
    let (size, pos) := unpickle m pos fin (0 : UInt32)
    unpickleItems m fin size.toNat pos list

end Lists

/-! ## The encrypted encoding -/

section Encoding

variable (prim : Primitives)

/-- The string of `PICKLE_CIPHER`. -/
def pickleKdfInfo : Bytes := ascii "Pickle"

/-- `PICKLE_CIPHER`. -/
def pickleCipher : Cipher Bytes := aesSha256Cipher prim pickleKdfInfo

/-- `_olm_enc_output_length`. -/
def encOutputLength (rawLength : Nat) : Nat :=
  encodeBase64Length
    ((pickleCipher prim).encryptCiphertextLength rawLength + (pickleCipher prim).macLength)

/-- `_olm_enc_output_pos`. -/
def encOutputPos (output rawLength : Nat) : Nat :=
  let length :=
    (pickleCipher prim).encryptCiphertextLength rawLength + (pickleCipher prim).macLength
  output + encodeBase64Length length - length

/-- `_olm_enc_output`. -/
def encOutput (m : Mem) (key keyLength output rawLength : Nat) : Mem × Nat :=
  let ciphertextLength := (pickleCipher prim).encryptCiphertextLength rawLength
  let length := ciphertextLength + (pickleCipher prim).macLength
  let base64Length := encodeBase64Length length
  let rawOutput := output + base64Length - length
  let (m, _) := (pickleCipher prim).encrypt (read m key keyLength) m rawOutput rawLength
    rawOutput ciphertextLength rawOutput length
  (encodeBase64 m rawOutput length output, base64Length)

/-- `_olm_enc_input`: the raw length, or what is stored to `*last_error`.  The
    cipher refuses an input that is shorter than a MAC before it looks at the
    other lengths. -/
def encInput (m : Mem) (key keyLength input b64Length : Nat) :
    Mem × Except OlmErrorCode Nat :=
  match decodeBase64Length b64Length with
  | none => (m, .error .invalidBase64)
  | some encLength =>
      let m := decodeBase64 m input b64Length input
      let rawLength := encLength - (pickleCipher prim).macLength
      match (pickleCipher prim).decrypt (read m key keyLength) m input encLength input rawLength
        input rawLength with
      | (m, none) => (m, .error .badAccountKey)
      | (m, some result) => (m, .ok result)

end Encoding

/-! ## Pickling an object through the C interface -/

section Objects

variable (prim : Primitives) {X : Type}

/-- `olm_pickle_X` for an object with the given raw pickle; `withError` stores
    the last error. -/
def olmPickle (pickleLength : X → Nat) (pickle : X → Bytes) (withError : OlmErrorCode → X → X)
    (object : X) (m : Mem) (key keyLength pickled pickledLength : Nat) : Mem × X × Option Nat :=
  let rawLength := pickleLength object
  if pickledLength < encOutputLength prim rawLength then
    (m, withError .outputBufferTooSmall object, none)
  else
    let m := write m (encOutputPos prim pickled rawLength) (pickle object)
    let (m, length) := encOutput prim m key keyLength pickled rawLength
    (m, object, some length)

/-- `olm_unpickle_X` of `olm.cpp` and `pk.cpp`.  `unpickle` is given the address
    behind the end of the buffer, so that running out of bytes never ends at the
    end of the pickle. -/
def olmUnpickle (unpickle : Mem → Nat → Nat → X → X × Nat) (lastError : X → OlmErrorCode)
    (withError : OlmErrorCode → X → X) (object : X) (m : Mem)
    (key keyLength pickled pickledLength : Nat) : Mem × X × Option Nat :=
  match encInput prim m key keyLength pickled pickledLength with
  | (m, .error e) => (m, withError e object, none)
  | (m, .ok rawLength) =>
      let fin := pickled + rawLength
      let (object, pos) := unpickle m pickled (fin + 1) object
      if fin ≠ pos then
        (m, if lastError object = .success then withError .corruptedPickle object else object, none)
      else (m, object, some pickledLength)

end Objects

end OlmPickle
