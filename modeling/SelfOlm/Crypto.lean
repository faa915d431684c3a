import SelfOlm.Lib.ByteMemory

/-! # Keys, error codes and hash functions

    `crypto.h`, `error.h` and the hash part of `crypto.cpp`.  What the bundled
    libraries under `lib/` compute (SHA-256, AES-256 on one block, Curve25519
    and Ed25519) is a parameter, gathered in `Primitives`; HMAC and HKDF are
    built from SHA-256 as the C code builds them.

    Return values: a function that returns `size_t(-1)` on failure returns
    `none` here, and the error code that it leaves in `last_error` is a field
    of the object it belongs to. -/

namespace OlmCrypto

open ByteMemory

abbrev Bytes := List UInt8

/-- The bytes of an ASCII string, without the final zero. -/
def ascii (s : String) : Bytes := s.toList.map (fun c => UInt8.ofNat c.toNat)

/-- `OlmErrorCode`. -/
inductive OlmErrorCode where
  | success
  | notEnoughRandom
  | outputBufferTooSmall
  | badMessageVersion
  | badMessageFormat
  | badMessageMac
  | badMessageKeyId
  | invalidBase64
  | badAccountKey
  | unknownPickleVersion
  | corruptedPickle
  | badSessionKey
  | unknownMessageIndex
  | badLegacyAccountPickle
  | badSignature
  | inputBufferTooSmall
  deriving DecidableEq, Repr

abbrev Curve25519PublicKey := Vector UInt8 32

/-- `_olm_curve25519_key_pair`. -/
structure Curve25519KeyPair where
  publicKey : Curve25519PublicKey
  privateKey : Vector UInt8 32
  deriving DecidableEq

/-- `_olm_ed25519_key_pair`. -/
structure Ed25519KeyPair where
  publicKey : Vector UInt8 32
  privateKey : Vector UInt8 64
  deriving DecidableEq

def curve25519KeyLength : Nat := 32
def ed25519SignatureLength : Nat := 64
def sha256BlockLength : Nat := 64

/-- What the libraries under `lib/` compute. -/
structure Primitives where
  /-- `sha256_init`, `sha256_update`, `sha256_final` on the whole input. -/
  sha256 : Bytes → Vector UInt8 32
  /-- `aes_key_setup` and `aes_encrypt` on one block. -/
  aesEncrypt : Vector UInt8 32 → Vector UInt8 16 → Vector UInt8 16
  /-- `aes_key_setup` and `aes_decrypt` on one block. -/
  aesDecrypt : Vector UInt8 32 → Vector UInt8 16 → Vector UInt8 16
  /-- `curve25519_donna(_, secret, basepoint)`. -/
  curve25519 : Vector UInt8 32 → Vector UInt8 32 → Vector UInt8 32
  /-- `ed25519_create_keypair` from a seed. -/
  ed25519CreateKeypair : Vector UInt8 32 → Ed25519KeyPair
  /-- `ed25519_sign(message, public_key, private_key)`. -/
  ed25519Sign : Bytes → Vector UInt8 32 → Vector UInt8 64 → Vector UInt8 64
  /-- `ed25519_verify(signature, message, public_key)`. -/
  ed25519Verify : Vector UInt8 64 → Bytes → Vector UInt8 32 → Bool

variable (prim : Primitives)

/-- AES decryption of a block inverts encryption, for every key. -/
def Primitives.AesInverts : Prop :=
  ∀ key block, prim.aesDecrypt key (prim.aesEncrypt key block) = block

/-- `CURVE25519_BASEPOINT`. -/
def curve25519Basepoint : Vector UInt8 32 :=
  Vector.ofFn (fun i => if i.val = 0 then 9 else 0)

/-- The two sides of a Diffie-Hellman exchange agree. -/
def Primitives.DhCommutes : Prop :=
  ∀ a b, prim.curve25519 a (prim.curve25519 b curve25519Basepoint)
    = prim.curve25519 b (prim.curve25519 a curve25519Basepoint)

/-- `_olm_crypto_curve25519_generate_key`. -/
def cryptoCurve25519GenerateKey (random32Bytes : Vector UInt8 32) : Curve25519KeyPair where
  publicKey := prim.curve25519 random32Bytes curve25519Basepoint
  privateKey := random32Bytes

/-- `_olm_crypto_curve25519_shared_secret`. -/
def cryptoCurve25519SharedSecret (ourKey : Curve25519KeyPair) (theirKey : Curve25519PublicKey) :
    Vector UInt8 32 :=
  prim.curve25519 ourKey.privateKey theirKey

/-- `_olm_crypto_ed25519_generate_key`. -/
def cryptoEd25519GenerateKey (random32Bytes : Vector UInt8 32) : Ed25519KeyPair :=
  prim.ed25519CreateKeypair random32Bytes

/-- `_olm_crypto_ed25519_sign`. -/
def cryptoEd25519Sign (ourKey : Ed25519KeyPair) (message : Bytes) : Vector UInt8 64 :=
  prim.ed25519Sign message ourKey.publicKey ourKey.privateKey

/-- `_olm_crypto_ed25519_verify`. -/
def cryptoEd25519Verify (theirKey : Vector UInt8 32) (message : Bytes)
    (signature : Vector UInt8 64) : Bool :=
  prim.ed25519Verify signature message theirKey

/-- A signature made with a generated key pair verifies under its public key. -/
def Primitives.SignVerifies : Prop :=
  ∀ seed message,
    cryptoEd25519Verify prim (cryptoEd25519GenerateKey prim seed).publicKey message
      (cryptoEd25519Sign prim (cryptoEd25519GenerateKey prim seed) message) = true

/-- A key pair whose public key belongs to its private key. -/
def Curve25519KeyPair.Matches (k : Curve25519KeyPair) : Prop :=
  k.publicKey = prim.curve25519 k.privateKey curve25519Basepoint

theorem cryptoCurve25519GenerateKey_matches (random32Bytes : Vector UInt8 32) :
    (cryptoCurve25519GenerateKey prim random32Bytes).Matches prim := rfl

/-- Both sides of an exchange between matching key pairs get the same secret. -/
theorem sharedSecret_comm (hdh : prim.DhCommutes) {a b : Curve25519KeyPair}
    (ha : a.Matches prim) (hb : b.Matches prim) :
    cryptoCurve25519SharedSecret prim a b.publicKey
      = cryptoCurve25519SharedSecret prim b a.publicKey := by
  show prim.curve25519 a.privateKey b.publicKey = prim.curve25519 b.privateKey a.publicKey
  rw [show a.publicKey = _ from ha, show b.publicKey = _ from hb]
  exact hdh _ _

/-! ## HMAC and HKDF -/

/-- `_olm_crypto_sha256`. -/
def cryptoSha256 (input : Bytes) : Vector UInt8 32 := prim.sha256 input

/-- `hmac_sha256_key`: keys above a block are hashed, the rest is zero. -/
def hmacSha256Key (inputKey : Bytes) : Bytes :=
  let key := if inputKey.length > sha256BlockLength then (prim.sha256 inputKey).toList
    else inputKey
  key ++ List.replicate (sha256BlockLength - key.length) 0

/-- `hmac_sha256_init`, the updates with `input`, and `hmac_sha256_final`. -/
def hmacSha256Run (hmacKey input : Bytes) : Vector UInt8 32 :=
  let iPad := hmacKey.map (· ^^^ 0x36)
  let oPad := hmacKey.map (· ^^^ 0x5C)
  prim.sha256 (oPad ++ (prim.sha256 (iPad ++ input)).toList)

/-- `_olm_crypto_hmac_sha256`. -/
def cryptoHmacSha256 (key input : Bytes) : Vector UInt8 32 :=
  hmacSha256Run prim (hmacSha256Key prim key) input

/-- The `while` loop of `_olm_crypto_hkdf_sha256` and the copy after it: the
    bytes stored at `output`.  The first argument bounds the iterations; the
    caller gives it `output_length`, more than the loop can take. -/
def hkdfExpand (hmacKey info : Bytes) :
    Nat → Vector UInt8 32 → UInt8 → Nat → Bytes
  | 0, stepResult, _, bytesRemaining => stepResult.toList.take bytesRemaining
  | fuel + 1, stepResult, iteration, bytesRemaining =>
      if bytesRemaining > 32 then
        let iteration := iteration + 1
        stepResult.toList
          ++ hkdfExpand hmacKey info fuel
              (hmacSha256Run prim hmacKey (stepResult.toList ++ info ++ [iteration]))
              iteration (bytesRemaining - 32)
      else stepResult.toList.take bytesRemaining

/-- `_olm_crypto_hkdf_sha256`; `none` is the null salt. -/
def cryptoHkdfSha256 (input : Bytes) (salt : Option Bytes) (info : Bytes) (outputLength : Nat) :
    Bytes :=
  let salt := salt.getD (List.replicate 32 0)
  let prk := hmacSha256Run prim (hmacSha256Key prim salt) input
  let hmacKey := hmacSha256Key prim prk.toList
  hkdfExpand prim hmacKey info outputLength
    (hmacSha256Run prim hmacKey (info ++ [1])) 1 outputLength

theorem length_hkdfExpand (hmacKey info : Bytes) :
    ∀ (fuel : Nat) (stepResult : Vector UInt8 32) (iteration : UInt8) (bytesRemaining : Nat),
      bytesRemaining ≤ 32 * (fuel + 1) →
      (hkdfExpand prim hmacKey info fuel stepResult iteration bytesRemaining).length
        = bytesRemaining := by
  intro fuel
  induction fuel with
  | zero =>
      intro s i n hn
      rw [hkdfExpand, List.length_take, Vector.length_toList]
      omega
  | succ fuel ih =>
      intro s i n hn
      rw [hkdfExpand]
      by_cases h : n > 32
      · rw [if_pos h, List.length_append, Vector.length_toList, ih _ _ _ (by omega)]
        omega
      · rw [if_neg h, List.length_take, Vector.length_toList]
        omega

/-- HKDF stores exactly `output_length` bytes. -/
@[simp] theorem length_cryptoHkdfSha256 (input : Bytes) (salt : Option Bytes) (info : Bytes)
    (outputLength : Nat) :
    (cryptoHkdfSha256 prim input salt info outputLength).length = outputLength :=
  length_hkdfExpand prim _ _ _ _ _ _ (by omega)

/-! ## An instance

    Primitives for concrete examples: exclusive or with the key instead of
    AES, sums instead of points, and folding instead of hashing.  They have the
    laws that are stated above. -/

/-- Byte `i` of the sum of all blocks of 32 bytes, and the length. -/
def foldBytes (input : Bytes) : Vector UInt8 32 :=
  Vector.ofFn (fun i =>
    (input.zipIdx.filter (fun b => b.2 % 32 = i.val)).foldl (fun sum b => 3 * sum + b.1)
      (UInt8.ofNat input.length))

def demoPrimitives : Primitives where
  sha256 := foldBytes
  aesEncrypt := fun key block => Vector.ofFn (fun i => block[i] ^^^ key[i.val])
  aesDecrypt := fun key block => Vector.ofFn (fun i => block[i] ^^^ key[i.val])
  curve25519 := fun secret point => Vector.zipWith (· + ·) secret point
  ed25519CreateKeypair := fun seed => { publicKey := seed, privateKey := seed ++ seed }
  ed25519Sign := fun message publicKey _ =>
    foldBytes (publicKey.toList ++ message) ++ foldBytes (message ++ publicKey.toList)
  ed25519Verify := fun signature message publicKey =>
    decide (signature
      = foldBytes (publicKey.toList ++ message) ++ foldBytes (message ++ publicKey.toList))

theorem demoPrimitives_aesInverts : demoPrimitives.AesInverts := by
  intro key block
  apply Vector.ext
  intro i hi
  simp only [demoPrimitives, Vector.getElem_ofFn, Fin.getElem_fin]
  rw [UInt8.xor_assoc, UInt8.xor_self, UInt8.xor_zero]

theorem demoPrimitives_dhCommutes : demoPrimitives.DhCommutes := by
  intro a b
  apply Vector.ext
  intro i hi
  simp only [demoPrimitives, Vector.getElem_zipWith]
  rw [← UInt8.add_assoc, ← UInt8.add_assoc, UInt8.add_comm a[i]]

theorem demoPrimitives_signVerifies : demoPrimitives.SignVerifies := by
  intro seed message
  simp only [cryptoEd25519Verify, cryptoEd25519Sign, cryptoEd25519GenerateKey, demoPrimitives,
    decide_true]

end OlmCrypto
