import SelfOlm.PublicKeyProofs

/-! # Encryption to a public key, and back

    A recipient makes a key pair from a private key and hands the public key out; a
    sender encrypts to it; the recipient decrypts what was sent.  The buffers of the two
    may be anywhere, and the memory of one need not be that of the other: what has to be
    the same are the strings that are sent. -/

namespace OlmPk

open ByteMemory OlmCrypto OlmBase64 OlmPickle

variable (prim : Primitives)

/-! ## The steps succeed -/

theorem olmPkKeyFromPrivate_succeeds (decryption : PkDecryption) (m : Mem)
    (pubkey privkey : Nat) {pubkeyLength privkeyLength : Nat}
    (hpubkey : olmPkKeyLength ≤ pubkeyLength) (hprivkey : curve25519KeyLength ≤ privkeyLength) :
    (olmPkKeyFromPrivate prim decryption m pubkey pubkeyLength privkey privkeyLength).2.2
      = some 0 := by
  rw [olmPkKeyFromPrivate, if_neg (Nat.not_lt.mpr hpubkey), if_neg (Nat.not_lt.mpr hprivkey)]

theorem olmPkEncryptionSetRecipientKey_succeeds (encryption : PkEncryption) (m : Mem) (key : Nat)
    {keyLength : Nat} (hkey : olmPkKeyLength ≤ keyLength) :
    olmPkEncryptionSetRecipientKey encryption m key keyLength
      = ({ encryption with
          recipientKey := ofBytes 32 (base64.decode (read m key olmPkKeyLength)) }, some 0) := by
  rw [olmPkEncryptionSetRecipientKey, if_neg (Nat.not_lt.mpr hkey)]

/-- A buffer for the MAC string passes the check for the raw MAC. -/
theorem olmPkEncrypt_succeeds (rawMac : Nat) (encryption : PkEncryption) (m : Mem)
    (plaintext ciphertext mac ephemeralKey random : Nat) {plaintextLength ciphertextLength
      macLength ephemeralKeySize randomLength : Nat}
    (hciphertext : olmPkCiphertextLength prim plaintextLength ≤ ciphertextLength)
    (hmac : olmPkMacLength prim ≤ macLength) (hkey : olmPkKeyLength ≤ ephemeralKeySize)
    (hrandom : olmPkEncryptRandomLength ≤ randomLength) :
    ∃ m', olmPkEncrypt prim rawMac encryption m plaintext plaintextLength ciphertext
      ciphertextLength mac macLength ephemeralKey ephemeralKeySize random randomLength
      = (m', encryption, some pkMacLength) := by
  have hlength := olmPkMacLength_eq prim
  have hraw : (olmPkCipher prim).macLength = 8 := rfl
  rw [olmPkEncrypt, if_neg (by omega), if_neg (by omega)]
  simp only
  generalize ciphertext + ciphertextLength - (olmPkCipher prim).encryptCiphertextLength
    plaintextLength = ciphertextPos
  have hencrypted : ∀ (secret : Bytes) (m : Mem), ((olmPkCipher prim).encrypt secret m plaintext
      plaintextLength ciphertextPos ((olmPkCipher prim).encryptCiphertextLength plaintextLength)
      rawMac pkMacLength).2 = some pkMacLength := by
    intro secret m
    show (aesSha256CipherEncrypt prim (ascii "") secret m plaintext plaintextLength ciphertextPos
      (cryptoAesEncryptCbcLength plaintextLength) rawMac pkMacLength).2 = _
    rw [aesSha256CipherEncrypt, if_neg]
    rintro (h | h)
    · exact absurd h (Nat.lt_irrefl _)
    · exact absurd h (Nat.lt_irrefl _)
  have hsome := hencrypted (cryptoCurve25519SharedSecret prim (cryptoCurve25519GenerateKey prim
      (load 32 m random)) encryption.recipientKey).toList
    (write m ephemeralKey (base64.encode (cryptoCurve25519GenerateKey prim
      (load 32 m random)).publicKey.toList))
  generalize (olmPkCipher prim).encrypt _ _ plaintext plaintextLength ciphertextPos
    ((olmPkCipher prim).encryptCiphertextLength plaintextLength) rawMac pkMacLength = encrypted
    at hsome ⊢
  obtain ⟨m₁, result⟩ := encrypted
  rw [show result = some pkMacLength from hsome]
  exact ⟨_, rfl⟩

/-- **ROUND TRIP** of a whole exchange. -/
theorem olmPk_roundTrip (hdh : prim.DhCommutes) (hinv : prim.AesInverts)
    -- the recipient's key pair
    (decryption : PkDecryption) (m₀ : Mem) (pubkey privkey : Nat)
    {pubkeyLength privkeyLength : Nat} (hpubkey : olmPkKeyLength ≤ pubkeyLength)
    (hprivkey : curve25519KeyLength ≤ privkeyLength)
    -- the sender sets the recipient's key
    (encryption : PkEncryption) {m₁ : Mem} {key keyLength : Nat}
    (hkeyLength : olmPkKeyLength ≤ keyLength)
    (hkey : read m₁ key olmPkKeyLength
      = read (olmPkKeyFromPrivate prim decryption m₀ pubkey pubkeyLength privkey privkeyLength).1
          pubkey olmPkKeyLength)
    -- and encrypts
    {m₂ : Mem} {rawMac plaintext plaintextLength ciphertext ciphertextLength mac macLength
      ephemeralKey ephemeralKeySize random randomLength : Nat}
    (hciphertext : olmPkCiphertextLength prim plaintextLength ≤ ciphertextLength)
    (hmac : olmPkMacLength prim ≤ macLength) (hephemeral : olmPkKeyLength ≤ ephemeralKeySize)
    (hrandom : olmPkEncryptRandomLength ≤ randomLength)
    (hbuffers : EncryptBuffers prim rawMac plaintext plaintextLength ciphertext ciphertextLength
      mac ephemeralKey) :
    (olmPkKeyFromPrivate prim decryption m₀ pubkey pubkeyLength privkey privkeyLength).2.2
        = some 0 ∧
      (olmPkEncryptionSetRecipientKey encryption m₁ key keyLength).2 = some 0 ∧
      ∃ m₃, olmPkEncrypt prim rawMac (olmPkEncryptionSetRecipientKey encryption m₁ key keyLength).1
          m₂ plaintext plaintextLength ciphertext ciphertextLength mac macLength ephemeralKey
          ephemeralKeySize random randomLength
          = (m₃, (olmPkEncryptionSetRecipientKey encryption m₁ key keyLength).1,
              some pkMacLength) ∧
        -- the recipient decrypts what was sent
        ∀ {m₄ : Mem} {rawMac' ephemeralKey' mac' ciphertext' plaintext' maxPlaintextLength : Nat},
          read m₄ ephemeralKey' olmPkKeyLength = read m₃ ephemeralKey olmPkKeyLength →
          read m₄ mac' (olmPkMacLength prim) = read m₃ mac (olmPkMacLength prim) →
          read m₄ ciphertext' (olmPkCiphertextLength prim plaintextLength)
            = read m₃ ciphertext (olmPkCiphertextLength prim plaintextLength) →
          cryptoAesEncryptCbcLength plaintextLength ≤ maxPlaintextLength →
          DecryptBuffers prim rawMac' mac' ciphertext' (olmPkCiphertextLength prim plaintextLength)
            plaintext' (cryptoAesEncryptCbcLength plaintextLength) →
          ∃ m₅, olmPkDecrypt prim rawMac' (olmPkKeyFromPrivate prim decryption m₀ pubkey
              pubkeyLength privkey privkeyLength).2.1 m₄ ephemeralKey' olmPkKeyLength mac'
              ciphertext' (olmPkCiphertextLength prim plaintextLength) plaintext'
              maxPlaintextLength
              = (m₅, (olmPkKeyFromPrivate prim decryption m₀ pubkey pubkeyLength privkey
                  privkeyLength).2.1, some plaintextLength) ∧
            read m₅ plaintext' plaintextLength = read m₂ plaintext plaintextLength := by
  have hmade := olmPkKeyFromPrivate_succeeds prim decryption m₀ pubkey privkey hpubkey hprivkey
  have hset := olmPkEncryptionSetRecipientKey_succeeds encryption m₁ key hkeyLength
  generalize hkeys : olmPkKeyFromPrivate prim decryption m₀ pubkey pubkeyLength privkey
    privkeyLength = made at hmade hkey ⊢
  generalize hrecipient : olmPkEncryptionSetRecipientKey encryption m₁ key keyLength = recipient
    at hset ⊢
  obtain ⟨m₀', decryption', result⟩ := made
  obtain rfl : result = some 0 := hmade
  -- the recipient's key is the one that was handed out
  obtain ⟨hmatches, hhanded⟩ := olmPkKeyFromPrivate_some prim hkeys encryption
  have hrecipientKey : recipient.1.recipientKey = decryption'.keyPair.publicKey := by
    rw [olmPkEncryptionSetRecipientKey, if_neg (Nat.lt_irrefl _)] at hhanded
    rw [hset]
    show ofBytes 32 (base64.decode (read m₁ key olmPkKeyLength)) = _
    rw [hkey]
    exact hhanded
  obtain ⟨m₃, hencrypt⟩ := olmPkEncrypt_succeeds prim rawMac recipient.1 m₂ plaintext ciphertext mac
    ephemeralKey random hciphertext hmac hephemeral hrandom
  refine ⟨rfl, by rw [hset], m₃, hencrypt, ?_⟩
  intro m₄ rawMac' ephemeralKey' mac' ciphertext' plaintext' maxPlaintextLength hsentKey hsentMac
    hsentText hmax hbuffers'
  obtain ⟨hkeyText, hmacText, htext⟩ := olmPkEncrypt_sent prim hbuffers hencrypt
  rw [hrecipientKey] at hmacText htext
  have hdecoded : decodeBase64Length (olmPkCiphertextLength prim plaintextLength)
      = some (cryptoAesEncryptCbcLength plaintextLength) := decodeBase64Length_encode _
  have hdecrypt := olmPkDecrypt_sent prim hinv (pkSecret_comm prim hdh hmatches (load 32 m₂ random))
    (hsentKey.trans hkeyText) (hsentMac.trans hmacText) (hsentText.trans htext) hdecoded hmax
    hbuffers'
  rwa [length_read] at hdecrypt

/-- Sixteen zeros, encrypted to the key of a private key of zeros and decrypted again. -/
theorem olmPk_roundTrip_demo :
    ∃ m₃ m₅,
      olmPkEncrypt demoPrimitives 4000 (olmPkEncryptionSetRecipientKey newPkEncryption
          (olmPkKeyFromPrivate demoPrimitives demoDecryption (fun _ => 0) 6000 43 7000 32).1 6000
          43).1 (fun _ => 0) 0 16 1000 43 2000 11 3000 43 100 32
        = (m₃, (olmPkEncryptionSetRecipientKey newPkEncryption (olmPkKeyFromPrivate demoPrimitives
            demoDecryption (fun _ => 0) 6000 43 7000 32).1 6000 43).1, some 8) ∧
      olmPkDecrypt demoPrimitives 4000 (olmPkKeyFromPrivate demoPrimitives demoDecryption
          (fun _ => 0) 6000 43 7000 32).2.1 m₃ 3000 olmPkKeyLength 2000 1000
          (olmPkCiphertextLength demoPrimitives 16) 5000 32
        = (m₅, (olmPkKeyFromPrivate demoPrimitives demoDecryption (fun _ => 0) 6000 43 7000
            32).2.1, some 16) ∧
      read m₅ 5000 16 = List.replicate 16 0 := by
  have hkey : ∀ {m : Mem}, read m 6000 olmPkKeyLength = read m 6000 olmPkKeyLength := rfl
  obtain ⟨-, -, m₃, hencrypt, hdecrypt⟩ := olmPk_roundTrip demoPrimitives demoPrimitives_dhCommutes
    demoPrimitives_aesInverts demoDecryption (fun _ => 0) 6000 7000
    (show olmPkKeyLength ≤ 43 by decide) (show curve25519KeyLength ≤ 32 by decide) newPkEncryption
    (show olmPkKeyLength ≤ 43 by decide) hkey
    (show olmPkCiphertextLength demoPrimitives 16 ≤ 43 by decide)
    (show olmPkMacLength demoPrimitives ≤ 11 by decide) (show olmPkKeyLength ≤ 43 by decide)
    (show olmPkEncryptRandomLength ≤ 32 by decide) demo_encryptBuffers
  obtain ⟨m₅, hresult, hplaintext⟩ := hdecrypt rfl rfl rfl
    (show cryptoAesEncryptCbcLength 16 ≤ 32 by decide) demo_decryptBuffers
  exact ⟨m₃, m₅, hencrypt, hresult, hplaintext⟩

end OlmPk
