import SelfOlm.Cbc

/-! # The AES-256 / HMAC-SHA-256 cipher

    `cipher.cpp`.  A cipher is a table of operations, as `_olm_cipher_ops` is;
    the type of its keys is a parameter, since the ratchets hand keys through
    without looking at them.  Encryption stores the ciphertext and the MAC of
    the whole output before it; decryption checks the MAC first. -/

namespace OlmCrypto

open ByteMemory

/-- `_olm_cipher_ops` for one cipher.  A result `none` is `size_t(-1)`. -/
structure Cipher (K : Type) where
  macLength : Nat
  encryptCiphertextLength : Nat → Nat
  /-- key, memory, plaintext and its length, ciphertext and its length, output
      and its length. -/
  encrypt : K → Mem → Nat → Nat → Nat → Nat → Nat → Nat → Mem × Option Nat
  decryptMaxPlaintextLength : Nat → Nat
  /-- key, memory, input and its length, ciphertext and its length, plaintext
      and its maximal length. -/
  decrypt : K → Mem → Nat → Nat → Nat → Nat → Nat → Nat → Mem × Option Nat

/-- The same cipher for keys that are given in another way. -/
def Cipher.onKeys {K L : Type} (f : L → K) (c : Cipher K) : Cipher L :=
  { c with
    encrypt := fun key => c.encrypt (f key)
    decrypt := fun key => c.decrypt (f key) }

/-- Decryption only stores into the plaintext buffer and the rest of its last
    block. -/
def Cipher.Framed {K : Type} (c : Cipher K) : Prop :=
  ∀ key m input inputLength ciphertext ciphertextLength plaintext maxPlaintextLength,
    SameOutside plaintext (maxPlaintextLength + 15) m
      (c.decrypt key m input inputLength ciphertext ciphertextLength plaintext
        maxPlaintextLength).1

theorem Cipher.Framed.onKeys {K L : Type} {c : Cipher K} (h : c.Framed) (f : L → K) :
    (c.onKeys f).Framed :=
  fun key => h (f key)

variable (prim : Primitives)

/-- `DerivedKeys`. -/
structure DerivedKeys where
  aesKey : Vector UInt8 32
  macKey : Vector UInt8 32
  aesIv : Block

/-- `derive_keys`. -/
def deriveKeys (kdfInfo key : Bytes) : DerivedKeys :=
  let derivedSecrets := cryptoHkdfSha256 prim key none kdfInfo 80
  { aesKey := ofBytes 32 derivedSecrets
    macKey := ofBytes 32 (derivedSecrets.drop 32)
    aesIv := ofBytes 16 (derivedSecrets.drop 64) }

/-- `MAC_LENGTH`. -/
def cipherMacLength : Nat := 8

/-- `aes_sha_256_cipher_encrypt`. -/
def aesSha256CipherEncrypt (kdfInfo key : Bytes) (m : Mem)
    (plaintext plaintextLength ciphertext ciphertextLength output outputLength : Nat) :
    Mem × Option Nat :=
  if ciphertextLength < cryptoAesEncryptCbcLength plaintextLength
      ∨ outputLength < cipherMacLength then (m, none)
  else
    let keys := deriveKeys prim kdfInfo key
    let m := cryptoAesEncryptCbc prim keys.aesKey keys.aesIv m plaintext plaintextLength ciphertext
    let mac := cryptoHmacSha256 prim keys.macKey.toList
      (read m output (outputLength - cipherMacLength))
    (write m (output + outputLength - cipherMacLength) (mac.toList.take cipherMacLength),
      some outputLength)

/-- `aes_sha_256_cipher_decrypt`. -/
def aesSha256CipherDecrypt (kdfInfo key : Bytes) (m : Mem)
    (input inputLength ciphertext ciphertextLength plaintext maxPlaintextLength : Nat) :
    Mem × Option Nat :=
  if maxPlaintextLength < ciphertextLength ∨ inputLength < cipherMacLength then (m, none)
  else
    let keys := deriveKeys prim kdfInfo key
    let mac := cryptoHmacSha256 prim keys.macKey.toList
      (read m input (inputLength - cipherMacLength))
    let inputMac := input + inputLength - cipherMacLength
    if read m inputMac cipherMacLength ≠ mac.toList.take cipherMacLength then (m, none)
    else
      cryptoAesDecryptCbc prim keys.aesKey keys.aesIv m ciphertext ciphertextLength plaintext

/-- `_olm_cipher_aes_sha_256_ops` with a `kdf_info`. -/
def aesSha256Cipher (kdfInfo : Bytes) : Cipher Bytes where
  macLength := cipherMacLength
  encryptCiphertextLength := cryptoAesEncryptCbcLength
  encrypt := aesSha256CipherEncrypt prim kdfInfo
  decryptMaxPlaintextLength := fun ciphertextLength => ciphertextLength
  decrypt := aesSha256CipherDecrypt prim kdfInfo

/-! ## What it computes -/

/-- The ciphertext of a plaintext. -/
def cipherText (kdfInfo key plaintext : Bytes) : Bytes :=
  let keys := deriveKeys prim kdfInfo key
  cbcEncrypt (prim.aesEncrypt keys.aesKey) keys.aesIv plaintext

/-- The MAC of what stands before it. -/
def cipherMac (kdfInfo key body : Bytes) : Bytes :=
  (cryptoHmacSha256 prim (deriveKeys prim kdfInfo key).macKey.toList body).toList.take
    cipherMacLength

@[simp] theorem length_cipherText (kdfInfo key plaintext : Bytes) :
    (cipherText prim kdfInfo key plaintext).length
      = cryptoAesEncryptCbcLength plaintext.length :=
  length_cbcEncrypt _ _ _

@[simp] theorem length_cipherMac (kdfInfo key body : Bytes) :
    (cipherMac prim kdfInfo key body).length = cipherMacLength := by
  rw [cipherMac, List.length_take, Vector.length_toList, cipherMacLength]
  rfl

/-- **ENCRYPTION**: the ciphertext, and behind the output its MAC. -/
theorem aesSha256CipherEncrypt_eq (kdfInfo key : Bytes) (m : Mem)
    {plaintext plaintextLength ciphertext ciphertextLength output outputLength : Nat}
    (hct : cryptoAesEncryptCbcLength plaintextLength ≤ ciphertextLength)
    (hout : cipherMacLength ≤ outputLength)
    (hs : Streamable plaintext plaintextLength ciphertext) :
    aesSha256CipherEncrypt prim kdfInfo key m plaintext plaintextLength ciphertext
        ciphertextLength output outputLength
      = (let m := write m ciphertext
            (cipherText prim kdfInfo key (read m plaintext plaintextLength))
         (write m (output + (outputLength - cipherMacLength))
            (cipherMac prim kdfInfo key (read m output (outputLength - cipherMacLength))),
          some outputLength)) := by
  rw [aesSha256CipherEncrypt, if_neg (by omega)]
  simp only
  rw [cryptoAesEncryptCbc_eq prim _ _ m hs, Nat.add_sub_assoc hout]
  rfl

/-- **DECRYPTION** of what was encrypted under the same key. -/
theorem aesSha256CipherDecrypt_eq (hinv : prim.AesInverts) {kdfInfo key : Bytes} {m : Mem}
    {input inputLength ciphertext ciphertextLength plaintext maxPlaintextLength : Nat}
    {body bs : Bytes}
    (hmax : ciphertextLength ≤ maxPlaintextLength)
    (hinput : read m input inputLength = body ++ cipherMac prim kdfInfo key body)
    (hct : read m ciphertext ciphertextLength = cipherText prim kdfInfo key bs)
    (hs : Streamable ciphertext ciphertextLength plaintext) :
    aesSha256CipherDecrypt prim kdfInfo key m input inputLength ciphertext ciphertextLength
        plaintext maxPlaintextLength
      = (write m plaintext (bs ++ cbcPadding bs.length), some bs.length) := by
  have hlen : inputLength = body.length + cipherMacLength := by
    rw [← length_read m input inputLength, hinput, List.length_append, length_cipherMac]
  have hctlen : ciphertextLength = cryptoAesEncryptCbcLength bs.length := by
    rw [← length_read m ciphertext ciphertextLength, hct, length_cipherText]
  have hbody : read m input (inputLength - cipherMacLength) = body := by
    rw [hlen, Nat.add_sub_cancel]
    exact read_prefix hinput
  have hmac : read m (input + inputLength - cipherMacLength) cipherMacLength
      = cipherMac prim kdfInfo key body := by
    rw [hlen, ← Nat.add_assoc, Nat.add_sub_cancel, ← length_cipherMac prim kdfInfo key body]
    exact read_middle (c := []) (by rw [List.append_nil]; exact hinput)
  rw [aesSha256CipherDecrypt, if_neg (by omega)]
  simp only
  rw [hbody, hmac, if_neg (by exact not_not_intro rfl)]
  subst hctlen
  exact cryptoAesDecryptCbc_encrypt prim hinv _ _ hct hs

/-- The cipher keeps to the plaintext buffer. -/
theorem aesSha256Cipher_framed (kdfInfo : Bytes) : (aesSha256Cipher prim kdfInfo).Framed := by
  intro key m input inputLength ciphertext ciphertextLength plaintext maxPlaintextLength
  show SameOutside _ _ m (aesSha256CipherDecrypt prim kdfInfo key m input inputLength ciphertext
    ciphertextLength plaintext maxPlaintextLength).1
  rw [aesSha256CipherDecrypt]
  by_cases h1 : maxPlaintextLength < ciphertextLength ∨ inputLength < cipherMacLength
  · rw [if_pos h1]
    exact SameOutside.refl _ _ m
  · rw [if_neg h1]
    simp only
    split
    · exact SameOutside.refl _ _ m
    · refine (cryptoAesDecryptCbc_frame prim _ _ m _ _ _).mono (Nat.le_refl _) ?_
      omega

end OlmCrypto
