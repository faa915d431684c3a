import SelfOlm.Pickles

/-! # Encryption to a public key

    `pk.cpp`.  The sender makes an ephemeral key pair and a secret with the
    recipient's key; ephemeral key, ciphertext and MAC are stored in base64, each
    in a buffer of its own.  `raw_mac` is a local array; its address is the first
    argument of the two functions that have one. -/

namespace OlmPk

open ByteMemory OlmCrypto OlmBase64 OlmPickle

variable (prim : Primitives)

/-- `OlmPkEncryption`. -/
structure PkEncryption where
  lastError : OlmErrorCode
  recipientKey : Curve25519PublicKey
  deriving DecidableEq

/-- `olm_pk_encryption`: memory that was set to zero. -/
def newPkEncryption : PkEncryption where
  lastError := .success
  recipientKey := Vector.replicate 32 0

/-- `olm_pk_encryption_set_recipient_key`. -/
def olmPkEncryptionSetRecipientKey (encryption : PkEncryption) (m : Mem) (key keyLength : Nat) :
    PkEncryption × Option Nat :=
  if keyLength < olmPkKeyLength then ({ encryption with lastError := .inputBufferTooSmall }, none)
  else
    ({ encryption with recipientKey := ofBytes 32 (base64.decode (read m key olmPkKeyLength)) },
      some 0)

/-- `olm_pk_cipher`. -/
def olmPkCipher : Cipher Bytes := aesSha256Cipher prim (ascii "")

/-- `MAC_LENGTH`. -/
def pkMacLength : Nat := 8

/-- `olm_pk_ciphertext_length`. -/
def olmPkCiphertextLength (plaintextLength : Nat) : Nat :=
  encodeBase64Length ((olmPkCipher prim).encryptCiphertextLength plaintextLength)

/-- `olm_pk_mac_length`. -/
def olmPkMacLength : Nat := encodeBase64Length (olmPkCipher prim).macLength

/-- `olm_pk_encrypt_random_length`. -/
def olmPkEncryptRandomLength : Nat := curve25519KeyLength

/-- `olm_pk_encrypt`.  The size of `mac` is compared with that of the MAC before it is
    put into base64. -/
def olmPkEncrypt (rawMac : Nat) (encryption : PkEncryption) (m : Mem)
    (plaintext plaintextLength ciphertext ciphertextLength mac macLength
      ephemeralKey ephemeralKeySize random randomLength : Nat) :
    Mem × PkEncryption × Option Nat :=
  if ciphertextLength < olmPkCiphertextLength prim plaintextLength
      ∨ macLength < (olmPkCipher prim).macLength ∨ ephemeralKeySize < olmPkKeyLength then
    (m, { encryption with lastError := .outputBufferTooSmall }, none)
  else if randomLength < olmPkEncryptRandomLength then
    (m, { encryption with lastError := .notEnoughRandom }, none)
  else
    let ephemeralKeypair := cryptoCurve25519GenerateKey prim (load 32 m random)
    let m := write m ephemeralKey (base64.encode ephemeralKeypair.publicKey.toList)
    let secret := cryptoCurve25519SharedSecret prim ephemeralKeypair encryption.recipientKey
    let rawCiphertextLength := (olmPkCipher prim).encryptCiphertextLength plaintextLength
    let ciphertextPos := ciphertext + ciphertextLength - rawCiphertextLength
    match (olmPkCipher prim).encrypt secret.toList m plaintext plaintextLength ciphertextPos
      rawCiphertextLength rawMac pkMacLength with
    | (m, none) => (m, encryption, none)
    | (m, some result) =>
        let m := encodeBase64 m rawMac pkMacLength mac
        let m := encodeBase64 m ciphertextPos rawCiphertextLength ciphertext
        (m, encryption, some result)

/-- `olm_pk_key_from_private` and `olm_pk_generate_key`. -/
def olmPkKeyFromPrivate (decryption : PkDecryption) (m : Mem)
    (pubkey pubkeyLength privkey privkeyLength : Nat) : Mem × PkDecryption × Option Nat :=
  if pubkeyLength < olmPkKeyLength then
    (m, { decryption with lastError := .outputBufferTooSmall }, none)
  else if privkeyLength < curve25519KeyLength then
    (m, { decryption with lastError := .inputBufferTooSmall }, none)
  else
    let keyPair := cryptoCurve25519GenerateKey prim (load 32 m privkey)
    (write m pubkey (base64.encode keyPair.publicKey.toList), { decryption with keyPair }, some 0)

/-- `olm_pk_max_plaintext_length`; `none` is `size_t(-1)`. -/
def olmPkMaxPlaintextLength (ciphertextLength : Nat) : Option Nat :=
  (decodeBase64Length ciphertextLength).map (olmPkCipher prim).decryptMaxPlaintextLength

/-- `olm_pk_decrypt`.  No buffer is as long as `size_t(-1)`. -/
def olmPkDecrypt (rawMac : Nat) (decryption : PkDecryption) (m : Mem)
    (ephemeralKey ephemeralKeyLength mac ciphertext ciphertextLength
      plaintext maxPlaintextLength : Nat) : Mem × PkDecryption × Option Nat :=
  match olmPkMaxPlaintextLength prim ciphertextLength with
  | none => (m, { decryption with lastError := .outputBufferTooSmall }, none)
  | some maxLength =>
      if maxPlaintextLength < maxLength then
        (m, { decryption with lastError := .outputBufferTooSmall }, none)
      else
        let ephemeral := ofBytes 32 (base64.decode (read m ephemeralKey ephemeralKeyLength))
        let secret := cryptoCurve25519SharedSecret prim decryption.keyPair ephemeral
        let m := decodeBase64 m mac (encodeBase64Length pkMacLength) rawMac
        let rawCiphertextLength := (decodeBase64Length ciphertextLength).getD 0
        let m := decodeBase64 m ciphertext ciphertextLength ciphertext
        match (olmPkCipher prim).decrypt secret.toList m rawMac pkMacLength ciphertext
          rawCiphertextLength plaintext maxPlaintextLength with
        | (m, none) => (m, { decryption with lastError := .badMessageMac }, none)
        | (m, some result) => (m, decryption, some result)

end OlmPk
