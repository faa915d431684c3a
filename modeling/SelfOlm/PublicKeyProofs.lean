import SelfOlm.PublicKey
import SelfOlm.PickleProofs

/-! # What the MAC of a public key message covers

    The cipher takes the MAC of its output without the last eight bytes.  The
    callers with one buffer have the ciphertext there; `pk.cpp` passes a buffer
    that is just the MAC, so the MAC is one of no bytes.  It still checks the
    secret, and what is left of the authentication is the check of the padding. -/

namespace OlmPk

open ByteMemory OlmCrypto OlmBase64 OlmPickle

variable (prim : Primitives)

/-! ## Encryption -/

/-- The secret of an ephemeral key and a recipient. -/
def pkSecret (random : Vector UInt8 32) (recipientKey : Curve25519PublicKey) : Bytes :=
  (cryptoCurve25519SharedSecret prim (cryptoCurve25519GenerateKey prim random) recipientKey).toList

/-- Buffers of the caller, and the local array, that are apart. -/
structure EncryptBuffers (rawMac plaintext plaintextLength ciphertext ciphertextLength mac
    ephemeralKey : Nat) : Prop where
  plaintext_ephemeral : Disjoint plaintext plaintextLength ephemeralKey olmPkKeyLength
  plaintext_ciphertext : Disjoint plaintext plaintextLength ciphertext ciphertextLength
  ephemeral_ciphertext : Disjoint ephemeralKey olmPkKeyLength ciphertext ciphertextLength
  ephemeral_mac : Disjoint ephemeralKey olmPkKeyLength mac (olmPkMacLength prim)
  ephemeral_rawMac : Disjoint ephemeralKey olmPkKeyLength rawMac pkMacLength
  mac_ciphertext : Disjoint mac (olmPkMacLength prim) ciphertext ciphertextLength
  rawMac_mac : Disjoint rawMac pkMacLength mac (olmPkMacLength prim)
  rawMac_ciphertext : Disjoint rawMac pkMacLength ciphertext ciphertextLength

theorem olmPkMacLength_eq : olmPkMacLength prim = 11 := by
  show encodeBase64Length 8 = 11
  decide

theorem length_encodedKey (key : Vector UInt8 32) :
    (base64.encode key.toList).length = olmPkKeyLength := by
  rw [length_base64_encode, Vector.length_toList]
  rfl

/-- The raw ciphertext at the end of its buffer. -/
theorem ciphertextPos_bounds {plaintextLength ciphertextLength : Nat} (ciphertext : Nat)
    (h : olmPkCiphertextLength prim plaintextLength ≤ ciphertextLength) :
    ciphertext ≤ ciphertext + ciphertextLength - cryptoAesEncryptCbcLength plaintextLength ∧
      ciphertext + ciphertextLength - cryptoAesEncryptCbcLength plaintextLength
          + cryptoAesEncryptCbcLength plaintextLength = ciphertext + ciphertextLength ∧
      EncodeSafe (ciphertext + ciphertextLength - cryptoAesEncryptCbcLength plaintextLength)
        (cryptoAesEncryptCbcLength plaintextLength) ciphertext := by
  have hroom := SextetCodec.add_div_le_encodedLength (cryptoAesEncryptCbcLength plaintextLength)
  have hlength : SextetCodec.encodedLength (cryptoAesEncryptCbcLength plaintextLength)
      ≤ ciphertextLength := h
  refine ⟨?_, ?_, Or.inl ?_⟩
  · omega
  · omega
  · omega

/-- The memory that `olm_pk_encrypt` leaves. -/
theorem olmPkEncrypt_memory {rawMac : Nat} {m : Mem} {key c t : Bytes}
    {ciphertextPos ciphertext mac ephemeralKey rawLength : Nat}
    (hc : c.length = rawLength) (ht : t.length = pkMacLength)
    (hrawMac : Disjoint rawMac pkMacLength mac (olmPkMacLength prim))
    (hrawMacPos : Disjoint rawMac pkMacLength ciphertextPos rawLength)
    (hmacPos : Disjoint mac (olmPkMacLength prim) ciphertextPos rawLength)
    (hsafe : EncodeSafe ciphertextPos rawLength ciphertext) :
    encodeBase64 (encodeBase64 (write (write (write m ephemeralKey key) ciphertextPos c) rawMac t)
        rawMac pkMacLength mac) ciphertextPos rawLength ciphertext
      = write (write (write (write (write m ephemeralKey key) ciphertextPos c) rawMac t)
          mac (base64.encode t)) ciphertext (base64.encode c) := by
  have hmacSafe : EncodeSafe rawMac pkMacLength mac := by
    rcases hrawMac with h | h
    · exact Or.inr h
    · have hlength := olmPkMacLength_eq prim
      have hgroups : pkMacLength / 3 = 2 := rfl
      left
      omega
  have htLength : (base64.encode t).length = olmPkMacLength prim := by
    rw [length_base64_encode, ht]
    rfl
  have hread : read (write (write (write (write m ephemeralKey key) ciphertextPos c) rawMac t) mac
      (base64.encode t)) ciphertextPos rawLength = c := by
    rw [read_write_disjoint _ (by rw [htLength]; exact hmacPos),
      read_write_disjoint _ (by rw [ht]; exact hrawMacPos), ← hc, read_write_self]
  rw [encodeBase64_eq _ _ _ _ hmacSafe, read_write_of_length _ _ ht, encodeBase64_eq _ _ _ _ hsafe,
    hread]

/-- **WHAT IS SENT**: the MAC is that of the empty string. -/
theorem olmPkEncrypt_sent {rawMac : Nat} {encryption encryption' : PkEncryption} {m m₁ : Mem}
    {plaintext plaintextLength ciphertext ciphertextLength mac macLength ephemeralKey
      ephemeralKeySize random randomLength result : Nat}
    (hbuffers : EncryptBuffers prim rawMac plaintext plaintextLength ciphertext ciphertextLength mac
      ephemeralKey)
    (h : olmPkEncrypt prim rawMac encryption m plaintext plaintextLength ciphertext ciphertextLength
      mac macLength ephemeralKey ephemeralKeySize random randomLength
      = (m₁, encryption', some result)) :
    read m₁ ephemeralKey olmPkKeyLength
        = base64.encode (cryptoCurve25519GenerateKey prim (load 32 m random)).publicKey.toList ∧
      read m₁ mac (olmPkMacLength prim)
        = base64.encode (cipherMac prim (ascii "")
            (pkSecret prim (load 32 m random) encryption.recipientKey) []) ∧
      read m₁ ciphertext (olmPkCiphertextLength prim plaintextLength)
        = base64.encode (cipherText prim (ascii "")
            (pkSecret prim (load 32 m random) encryption.recipientKey)
            (read m plaintext plaintextLength)) := by
  rw [olmPkEncrypt] at h
  by_cases hsmall : ciphertextLength < olmPkCiphertextLength prim plaintextLength
      ∨ macLength < (olmPkCipher prim).macLength ∨ ephemeralKeySize < olmPkKeyLength
  · rw [if_pos hsmall] at h
    cases (Prod.mk.inj (Prod.mk.inj h).2).2
  rw [if_neg hsmall] at h
  by_cases hrandom : randomLength < olmPkEncryptRandomLength
  · rw [if_pos hrandom] at h
    cases (Prod.mk.inj (Prod.mk.inj h).2).2
  rw [if_neg hrandom] at h
  simp only at h
  have hlength : (olmPkCipher prim).encryptCiphertextLength plaintextLength
      = cryptoAesEncryptCbcLength plaintextLength := rfl
  have hroom : olmPkCiphertextLength prim plaintextLength ≤ ciphertextLength := by omega
  obtain ⟨hstart, hstop, hsafe⟩ := ciphertextPos_bounds prim ciphertext hroom
  rw [hlength] at h
  generalize ciphertext + ciphertextLength - cryptoAesEncryptCbcLength plaintextLength
    = ciphertextPos at hstart hstop hsafe h
  have hkey := length_encodedKey (cryptoCurve25519GenerateKey prim (load 32 m random)).publicKey
  generalize base64.encode (cryptoCurve25519GenerateKey prim (load 32 m random)).publicKey.toList
    = key at hkey h ⊢
  rw [← pkSecret] at h
  generalize pkSecret prim (load 32 m random) encryption.recipientKey = secret at h ⊢
  have hplaintext : read (write m ephemeralKey key) plaintext plaintextLength
      = read m plaintext plaintextLength :=
    read_write_disjoint m (by rw [hkey]; exact hbuffers.plaintext_ephemeral.symm)
  have hstream : Streamable plaintext plaintextLength ciphertextPos := by
    rcases hbuffers.plaintext_ciphertext with hbefore | hbehind
    · right
      omega
    · left
      omega
  have hencrypt : (olmPkCipher prim).encrypt secret (write m ephemeralKey key) plaintext
      plaintextLength ciphertextPos (cryptoAesEncryptCbcLength plaintextLength) rawMac pkMacLength
      = (write (write (write m ephemeralKey key) ciphertextPos
            (cipherText prim (ascii "") secret (read m plaintext plaintextLength))) rawMac
          (cipherMac prim (ascii "") secret []), some pkMacLength) := by
    refine (aesSha256CipherEncrypt_eq prim (ascii "") secret _ (Nat.le_refl _) (Nat.le_refl _)
      hstream).trans ?_
    rw [hplaintext]
    rfl
  rw [hencrypt] at h
  simp only at h
  have hc : (cipherText prim (ascii "") secret (read m plaintext plaintextLength)).length
      = cryptoAesEncryptCbcLength plaintextLength := by
    rw [length_cipherText, length_read]
  have ht : (cipherMac prim (ascii "") secret []).length = pkMacLength :=
    length_cipherMac prim (ascii "") secret []
  generalize cipherText prim (ascii "") secret (read m plaintext plaintextLength) = c at hc h ⊢
  generalize cipherMac prim (ascii "") secret [] = t at ht h ⊢
  have hrawMacPos : Disjoint rawMac pkMacLength ciphertextPos
      (cryptoAesEncryptCbcLength plaintextLength) :=
    Disjoint.part hbuffers.rawMac_ciphertext hstart (by omega)
  have hmacPos : Disjoint mac (olmPkMacLength prim) ciphertextPos
      (cryptoAesEncryptCbcLength plaintextLength) :=
    Disjoint.part hbuffers.mac_ciphertext hstart (by omega)
  rw [olmPkEncrypt_memory prim hc ht hbuffers.rawMac_mac hrawMacPos hmacPos hsafe] at h
  obtain ⟨rfl, -⟩ := Prod.mk.inj h
  have hencodedC : (base64.encode c).length = olmPkCiphertextLength prim plaintextLength := by
    rw [length_base64_encode, hc]
    rfl
  have hencodedT : (base64.encode t).length = olmPkMacLength prim := by
    rw [length_base64_encode, ht]
    rfl
  have hciphertext : ∀ {p n : Nat}, Disjoint p n ciphertext ciphertextLength →
      Disjoint ciphertext (base64.encode c).length p n := by
    intro p n hapart
    rw [hencodedC]
    exact (Disjoint.part hapart (Nat.le_refl _) (by omega)).symm
  refine ⟨?_, ?_, read_write_of_length _ _ hencodedC⟩
  · have hposKey : Disjoint ciphertextPos c.length ephemeralKey olmPkKeyLength := by
      rw [hc]
      exact (Disjoint.part hbuffers.ephemeral_ciphertext hstart (by omega)).symm
    rw [read_write_disjoint _ (hciphertext hbuffers.ephemeral_ciphertext),
      read_write_disjoint _ (by rw [hencodedT]; exact hbuffers.ephemeral_mac.symm),
      read_write_disjoint _ (by rw [ht]; exact hbuffers.ephemeral_rawMac.symm),
      read_write_disjoint _ hposKey, read_write_of_length _ _ hkey]
  · rw [read_write_disjoint _ (hciphertext hbuffers.mac_ciphertext),
      read_write_of_length _ _ hencodedT]

/-! ## Decryption -/

/-- The byte that is taken for the padding: the last decrypted one, and the byte before
    the plaintext buffer where nothing is decrypted. -/
def paddingByte (secret : Bytes) (m : Mem) (ciphertext ciphertextLength plaintext : Nat) : UInt8 :=
  let keys := deriveKeys prim (ascii "") secret
  let blocks := (ciphertextLength + 15) / 16
  if ciphertextLength = 0 then m (plaintext - 1)
  else
    (cbcDecryptBlocks (prim.aesDecrypt keys.aesKey) blocks keys.aesIv
      (read m ciphertext (16 * blocks))).getD (ciphertextLength - 1) 0

/-- Memory when the cipher is called: the MAC and the ciphertext are decoded. -/
def decodedInputs (rawMac mac ciphertext ciphertextLength : Nat) (m : Mem) : Mem :=
  decodeBase64 (decodeBase64 m mac (encodeBase64Length pkMacLength) rawMac) ciphertext
    ciphertextLength ciphertext

/-- **PADDING** is all that CBC decryption checks. -/
theorem cryptoAesDecryptCbc_none_iff (secret : Bytes) (m : Mem)
    {ciphertext ciphertextLength plaintext : Nat}
    (hstream : Streamable ciphertext (16 * ((ciphertextLength + 15) / 16)) plaintext) :
    (cryptoAesDecryptCbc prim (deriveKeys prim (ascii "") secret).aesKey
        (deriveKeys prim (ascii "") secret).aesIv m ciphertext ciphertextLength plaintext).2 = none
      ↔ ciphertextLength < (paddingByte prim secret m ciphertext ciphertextLength plaintext).toNat := by
  rw [cryptoAesDecryptCbc, cbcDecryptLoop_eq prim _ _ m _ _ _ hstream]
  simp only
  have hpadding : write m plaintext (cbcDecryptBlocks
        (prim.aesDecrypt (deriveKeys prim (ascii "") secret).aesKey) ((ciphertextLength + 15) / 16)
        (deriveKeys prim (ascii "") secret).aesIv
        (read m ciphertext (16 * ((ciphertextLength + 15) / 16))))
        (plaintext + ciphertextLength - 1)
      = paddingByte prim secret m ciphertext ciphertextLength plaintext := by
    rw [paddingByte]
    by_cases hzero : ciphertextLength = 0
    · subst hzero
      rw [if_pos rfl]
      show write m plaintext [] (plaintext + 0 - 1) = _
      rw [write_nil]
      rfl
    · rw [if_neg hzero, Nat.add_sub_assoc (by omega)]
      have hlt : ciphertextLength - 1 < (cbcDecryptBlocks
          (prim.aesDecrypt (deriveKeys prim (ascii "") secret).aesKey) ((ciphertextLength + 15) / 16)
          (deriveKeys prim (ascii "") secret).aesIv
          (read m ciphertext (16 * ((ciphertextLength + 15) / 16)))).length := by
        rw [length_cbcDecryptBlocks]
        omega
      rw [write_inside _ _ _ hlt, List.getD_eq_getElem _ _ hlt]
  rw [hpadding]
  by_cases hbad : (paddingByte prim secret m ciphertext ciphertextLength plaintext).toNat
      > ciphertextLength
  · rw [if_pos hbad]
    exact ⟨fun _ => hbad, fun _ => rfl⟩
  · rw [if_neg hbad]
    constructor
    · intro h
      cases h
    · intro h
      exact absurd h hbad

/-- Where the MAC is that of the empty string, only the padding is checked. -/
theorem olmPkCipher_decrypt_none_iff {secret : Bytes} {m : Mem}
    {rawMac ciphertext ciphertextLength plaintext maxPlaintextLength : Nat}
    (hmac : read m rawMac pkMacLength = cipherMac prim (ascii "") secret [])
    (hmax : ciphertextLength ≤ maxPlaintextLength)
    (hstream : Streamable ciphertext (16 * ((ciphertextLength + 15) / 16)) plaintext) :
    ((olmPkCipher prim).decrypt secret m rawMac pkMacLength ciphertext ciphertextLength plaintext
        maxPlaintextLength).2 = none
      ↔ ciphertextLength < (paddingByte prim secret m ciphertext ciphertextLength plaintext).toNat := by
  rw [← cryptoAesDecryptCbc_none_iff prim secret m hstream]
  show (aesSha256CipherDecrypt prim (ascii "") secret m rawMac pkMacLength ciphertext
    ciphertextLength plaintext maxPlaintextLength).2 = none ↔ _
  have hempty : read m rawMac (pkMacLength - cipherMacLength) = [] := rfl
  have hstored : read m (rawMac + pkMacLength - cipherMacLength) cipherMacLength
      = cipherMac prim (ascii "") secret [] := hmac
  rw [aesSha256CipherDecrypt, if_neg (by
    rintro (h | h)
    · omega
    · exact absurd h (by decide))]
  simp only
  rw [hstored, hempty, if_neg (by exact not_not_intro rfl)]

/-- Buffers of the caller, and the local array, that are apart. -/
structure DecryptBuffers (rawMac mac ciphertext ciphertextLength plaintext rawLength : Nat) :
    Prop where
  rawMac_mac : Disjoint rawMac pkMacLength mac (olmPkMacLength prim)
  rawMac_ciphertext : Disjoint rawMac pkMacLength ciphertext ciphertextLength
  blocks : Streamable ciphertext (16 * ((rawLength + 15) / 16)) plaintext

/-- The inputs are decoded one after the other. -/
theorem decodedInputs_eq {rawMac mac ciphertext ciphertextLength plaintext rawLength : Nat} {m : Mem}
    (hbuffers : DecryptBuffers prim rawMac mac ciphertext ciphertextLength plaintext rawLength)
    (hlength : decodeBase64Length ciphertextLength = some rawLength) :
    decodedInputs rawMac mac ciphertext ciphertextLength m
        = write (write m rawMac (base64.decode (read m mac (olmPkMacLength prim)))) ciphertext
            (base64.decode (read m ciphertext ciphertextLength)) ∧
      (base64.decode (read m mac (olmPkMacLength prim))).length = pkMacLength ∧
      (base64.decode (read m ciphertext ciphertextLength)).length = rawLength ∧
      rawLength ≤ ciphertextLength := by
  have hmod : ciphertextLength % 4 ≠ 1 := by
    intro hmod
    rw [decodeBase64Length, if_pos hmod] at hlength
    cases hlength
  have hraw : SextetCodec.decodedLength ciphertextLength = rawLength := by
    rw [decodeBase64Length, if_neg hmod, Option.some.injEq] at hlength
    exact hlength
  have hmacLength : (base64.decode (read m mac (olmPkMacLength prim))).length = pkMacLength := by
    have hlen : (read m mac (olmPkMacLength prim)).length = 11 := by
      rw [length_read, olmPkMacLength_eq]
    rw [base64.length_decode _ (by rw [hlen]; decide), hlen]
    decide
  have hsafe : DecodeSafe mac (encodeBase64Length pkMacLength) rawMac := by
    rcases hbuffers.rawMac_mac with h | h
    · left
      omega
    · exact Or.inr h
  have htext : read (write m rawMac (base64.decode (read m mac (olmPkMacLength prim)))) ciphertext
      ciphertextLength = read m ciphertext ciphertextLength :=
    read_write_disjoint m (by rw [hmacLength]; exact hbuffers.rawMac_ciphertext)
  refine ⟨?_, hmacLength, ?_, ?_⟩
  · rw [decodedInputs, decodeBase64_eq _ m mac rawMac (by decide) hsafe,
      decodeBase64_eq _ _ _ _ hmod (Or.inl (Nat.le_refl _))]
    exact congrArg (fun text => write _ ciphertext (base64.decode text)) htext
  · rw [base64.length_decode _ (by rw [length_read]; exact hmod), length_read, hraw]
  · rw [← hraw, SextetCodec.decodedLength]
    omega

/-- The decoded MAC is in the local array when the cipher is called. -/
theorem read_decodedInputs {rawMac mac ciphertext ciphertextLength plaintext rawLength : Nat}
    {m : Mem} {t : Bytes} (ht : t.length = pkMacLength)
    (hbuffers : DecryptBuffers prim rawMac mac ciphertext ciphertextLength plaintext rawLength)
    (hmac : read m mac (olmPkMacLength prim) = base64.encode t)
    (hlength : decodeBase64Length ciphertextLength = some rawLength) :
    read (decodedInputs rawMac mac ciphertext ciphertextLength m) rawMac pkMacLength = t := by
  obtain ⟨hdecoded, -, hraw, hle⟩ := decodedInputs_eq prim (m := m) hbuffers hlength
  have hapart : Disjoint ciphertext (base64.decode (read m ciphertext ciphertextLength)).length
      rawMac pkMacLength := by
    rw [hraw]
    exact (Disjoint.part hbuffers.rawMac_ciphertext (Nat.le_refl _) (by omega)).symm
  rw [hdecoded, read_write_disjoint _ hapart, hmac, SextetCodec.decode_encode, ← ht,
    read_write_self]

/-- With the MAC of the empty string, `olm_pk_decrypt` refuses bad padding and nothing
    else. -/
theorem olmPkDecrypt_checked {decryption : PkDecryption} {publicKey : Curve25519PublicKey}
    {secret : Bytes} {m : Mem}
    {rawMac mac ephemeralKey ciphertext ciphertextLength plaintext maxPlaintextLength
      rawLength : Nat}
    (hsecret : (cryptoCurve25519SharedSecret prim decryption.keyPair publicKey).toList = secret)
    (hephemeral : read m ephemeralKey olmPkKeyLength = base64.encode publicKey.toList)
    (hmac : read m mac (olmPkMacLength prim)
      = base64.encode (cipherMac prim (ascii "") secret []))
    (hlength : decodeBase64Length ciphertextLength = some rawLength)
    (hmax : rawLength ≤ maxPlaintextLength)
    (hbuffers : DecryptBuffers prim rawMac mac ciphertext ciphertextLength plaintext rawLength) :
    ((olmPkDecrypt prim rawMac decryption m ephemeralKey olmPkKeyLength mac ciphertext
        ciphertextLength plaintext maxPlaintextLength).2.2 = none
      ↔ rawLength < (paddingByte prim secret (decodedInputs rawMac mac ciphertext ciphertextLength m)
          ciphertext rawLength plaintext).toNat) ∧
    ((olmPkDecrypt prim rawMac decryption m ephemeralKey olmPkKeyLength mac ciphertext
        ciphertextLength plaintext maxPlaintextLength).2.2 = none →
      (olmPkDecrypt prim rawMac decryption m ephemeralKey olmPkKeyLength mac ciphertext
        ciphertextLength plaintext maxPlaintextLength).2.1.lastError = .badMessageMac) := by
  have hkey : ofBytes 32 (base64.decode (read m ephemeralKey olmPkKeyLength)) = publicKey := by
    rw [hephemeral, SextetCodec.decode_encode, ofBytes_toList]
  have hrawMac := read_decodedInputs prim (length_cipherMac prim (ascii "") secret []) hbuffers
    hmac hlength
  have hchecked := olmPkCipher_decrypt_none_iff prim hrawMac hmax hbuffers.blocks
  have hroom : olmPkMaxPlaintextLength prim ciphertextLength = some rawLength := by
    rw [olmPkMaxPlaintextLength, hlength]
    rfl
  rw [olmPkDecrypt, hroom]
  simp only
  rw [if_neg (Nat.not_lt.mpr hmax), hkey, hsecret, hlength, Option.getD_some, ← decodedInputs,
    ← hchecked]
  rcases (olmPkCipher prim).decrypt secret (decodedInputs rawMac mac ciphertext ciphertextLength m)
    rawMac pkMacLength ciphertext rawLength plaintext maxPlaintextLength with ⟨m', _ | n⟩
  · exact ⟨⟨fun _ => rfl, fun _ => rfl⟩, fun _ => rfl⟩
  · refine ⟨⟨?_, ?_⟩, ?_⟩
    all_goals
      intro hnone
      cases hnone

/-- The recipient finds the sender's secret. -/
theorem pkSecret_comm (hdh : prim.DhCommutes) {keyPair : Curve25519KeyPair}
    (hkeys : keyPair.Matches prim) (random : Vector UInt8 32) :
    (cryptoCurve25519SharedSecret prim keyPair
        (cryptoCurve25519GenerateKey prim random).publicKey).toList
      = pkSecret prim random keyPair.publicKey := by
  rw [pkSecret, sharedSecret_comm prim hdh hkeys (cryptoCurve25519GenerateKey_matches prim _)]

/-- **ROUND TRIP**: what was sent is decrypted. -/
theorem olmPkDecrypt_sent (hinv : prim.AesInverts) {decryption : PkDecryption}
    {publicKey : Curve25519PublicKey} {secret bs : Bytes} {m : Mem}
    {rawMac mac ephemeralKey ciphertext ciphertextLength plaintext maxPlaintextLength
      rawLength : Nat}
    (hsecret : (cryptoCurve25519SharedSecret prim decryption.keyPair publicKey).toList = secret)
    (hephemeral : read m ephemeralKey olmPkKeyLength = base64.encode publicKey.toList)
    (hmac : read m mac (olmPkMacLength prim)
      = base64.encode (cipherMac prim (ascii "") secret []))
    (htext : read m ciphertext ciphertextLength
      = base64.encode (cipherText prim (ascii "") secret bs))
    (hlength : decodeBase64Length ciphertextLength = some rawLength)
    (hmax : rawLength ≤ maxPlaintextLength)
    (hbuffers : DecryptBuffers prim rawMac mac ciphertext ciphertextLength plaintext rawLength) :
    ∃ m', olmPkDecrypt prim rawMac decryption m ephemeralKey olmPkKeyLength mac ciphertext
        ciphertextLength plaintext maxPlaintextLength = (m', decryption, some bs.length) ∧
      read m' plaintext bs.length = bs := by
  have hkey : ofBytes 32 (base64.decode (read m ephemeralKey olmPkKeyLength)) = publicKey := by
    rw [hephemeral, SextetCodec.decode_encode, ofBytes_toList]
  have hrawMac := read_decodedInputs prim (length_cipherMac prim (ascii "") secret []) hbuffers
    hmac hlength
  obtain ⟨hdecoded, -, hraw, -⟩ := decodedInputs_eq prim (m := m) hbuffers hlength
  rw [htext, SextetCodec.decode_encode] at hdecoded hraw
  have hct : read (decodedInputs rawMac mac ciphertext ciphertextLength m) ciphertext rawLength
      = cipherText prim (ascii "") secret bs := by
    rw [hdecoded, read_write_of_length _ _ hraw]
  have hblocks : 16 * ((rawLength + 15) / 16) = rawLength := by
    rw [← hraw, length_cipherText, cryptoAesEncryptCbcLength]
    omega
  have hstream := hbuffers.blocks
  rw [hblocks] at hstream
  have hinput : read (decodedInputs rawMac mac ciphertext ciphertextLength m) rawMac pkMacLength
      = [] ++ cipherMac prim (ascii "") secret [] := hrawMac
  have hdecrypt : (olmPkCipher prim).decrypt secret
      (decodedInputs rawMac mac ciphertext ciphertextLength m) rawMac pkMacLength ciphertext
      rawLength plaintext maxPlaintextLength = _ :=
    aesSha256CipherDecrypt_eq prim hinv hmax hinput hct hstream
  have hroom : olmPkMaxPlaintextLength prim ciphertextLength = some rawLength := by
    rw [olmPkMaxPlaintextLength, hlength]
    rfl
  refine ⟨write (decodedInputs rawMac mac ciphertext ciphertextLength m) plaintext
    (bs ++ cbcPadding bs.length), ?_, read_prefix (read_write_self _ _ _)⟩
  rw [olmPkDecrypt, hroom]
  simp only
  rw [if_neg (Nat.not_lt.mpr hmax), hkey, hsecret, hlength, Option.getD_some, ← decodedInputs,
    hdecrypt]

/-- A recipient's key pair matches, and the sender gets its public key from the text. -/
theorem olmPkKeyFromPrivate_some {decryption decryption' : PkDecryption} {m m' : Mem}
    {pubkey pubkeyLength privkey privkeyLength result : Nat}
    (h : olmPkKeyFromPrivate prim decryption m pubkey pubkeyLength privkey privkeyLength
      = (m', decryption', some result)) (encryption : PkEncryption) :
    decryption'.keyPair.Matches prim ∧
      (olmPkEncryptionSetRecipientKey encryption m' pubkey olmPkKeyLength).1.recipientKey
        = decryption'.keyPair.publicKey := by
  rw [olmPkKeyFromPrivate] at h
  by_cases hpubkey : pubkeyLength < olmPkKeyLength
  · rw [if_pos hpubkey] at h
    cases (Prod.mk.inj (Prod.mk.inj h).2).2
  rw [if_neg hpubkey] at h
  by_cases hprivkey : privkeyLength < curve25519KeyLength
  · rw [if_pos hprivkey] at h
    cases (Prod.mk.inj (Prod.mk.inj h).2).2
  rw [if_neg hprivkey] at h
  obtain ⟨rfl, hrest⟩ := Prod.mk.inj h
  obtain ⟨rfl, -⟩ := Prod.mk.inj hrest
  refine ⟨cryptoCurve25519GenerateKey_matches prim _, ?_⟩
  rw [olmPkEncryptionSetRecipientKey, if_neg (Nat.lt_irrefl _)]
  simp only
  rw [read_write_of_length _ _ (length_encodedKey _), SextetCodec.decode_encode, ofBytes_toList]

/-- **WHAT THE MAC COVERS**: of the ciphertexts that come with a sent ephemeral key and
    MAC, those with bad padding are refused, and no others. -/
theorem olmPkDecrypt_badMac_iff (hdh : prim.DhCommutes) {rawMac : Nat}
    {encryption encryption' : PkEncryption} {decryption : PkDecryption}
    (hkeys : decryption.keyPair.Matches prim)
    (hrecipient : encryption.recipientKey = decryption.keyPair.publicKey) {m m₁ : Mem}
    {plaintext plaintextLength ciphertext ciphertextLength mac macLength ephemeralKey
      ephemeralKeySize random randomLength result : Nat}
    (hbuffers : EncryptBuffers prim rawMac plaintext plaintextLength ciphertext ciphertextLength mac
      ephemeralKey)
    (hencrypt : olmPkEncrypt prim rawMac encryption m plaintext plaintextLength ciphertext
      ciphertextLength mac macLength ephemeralKey ephemeralKeySize random randomLength
      = (m₁, encryption', some result))
    {m₂ : Mem} {rawMac' mac' ephemeralKey' ciphertext' ciphertextLength' plaintext'
      maxPlaintextLength rawLength : Nat}
    (hephemeral : read m₂ ephemeralKey' olmPkKeyLength = read m₁ ephemeralKey olmPkKeyLength)
    (hmac : read m₂ mac' (olmPkMacLength prim) = read m₁ mac (olmPkMacLength prim))
    (hlength : decodeBase64Length ciphertextLength' = some rawLength)
    (hmax : rawLength ≤ maxPlaintextLength)
    (hbuffers' : DecryptBuffers prim rawMac' mac' ciphertext' ciphertextLength' plaintext'
      rawLength) :
    ((olmPkDecrypt prim rawMac' decryption m₂ ephemeralKey' olmPkKeyLength mac' ciphertext'
        ciphertextLength' plaintext' maxPlaintextLength).2.2 = none ∧
      (olmPkDecrypt prim rawMac' decryption m₂ ephemeralKey' olmPkKeyLength mac' ciphertext'
        ciphertextLength' plaintext' maxPlaintextLength).2.1.lastError = .badMessageMac)
      ↔ rawLength < (paddingByte prim (pkSecret prim (load 32 m random) encryption.recipientKey)
          (decodedInputs rawMac' mac' ciphertext' ciphertextLength' m₂) ciphertext' rawLength
          plaintext').toNat := by
  obtain ⟨hsentKey, hsentMac, -⟩ := olmPkEncrypt_sent prim hbuffers hencrypt
  rw [hrecipient] at hsentMac ⊢
  obtain ⟨hrefused, herror⟩ := olmPkDecrypt_checked prim
    (pkSecret_comm prim hdh hkeys (load 32 m random)) (hephemeral.trans hsentKey)
    (hmac.trans hsentMac) hlength hmax hbuffers'
  rw [← hrefused]
  exact ⟨fun h => h.1, fun h => ⟨h, herror h⟩⟩

/-- Of whole blocks, the padding byte is the last byte of their CBC decryption. -/
theorem paddingByte_blocks {secret : Bytes} {m : Mem}
    {rawMac mac ciphertext ciphertextLength plaintext blocks : Nat} (hblocks : 0 < blocks)
    (hlength : decodeBase64Length ciphertextLength = some (16 * blocks))
    (hbuffers : DecryptBuffers prim rawMac mac ciphertext ciphertextLength plaintext (16 * blocks)) :
    paddingByte prim secret (decodedInputs rawMac mac ciphertext ciphertextLength m) ciphertext
        (16 * blocks) plaintext
      = (cbcDecryptBlocks (prim.aesDecrypt (deriveKeys prim (ascii "") secret).aesKey) blocks
          (deriveKeys prim (ascii "") secret).aesIv
          (base64.decode (read m ciphertext ciphertextLength))).getD (16 * blocks - 1) 0 := by
  obtain ⟨hdecoded, -, hraw, -⟩ := decodedInputs_eq prim (m := m) hbuffers hlength
  have hcount : (16 * blocks + 15) / 16 = blocks := by omega
  rw [paddingByte, if_neg (by omega), hcount, hdecoded, read_write_of_length _ _ hraw]

/-! ## A changed ciphertext -/

/-- A key pair of a recipient. -/
def demoKeyPair : Curve25519KeyPair :=
  cryptoCurve25519GenerateKey demoPrimitives (Vector.replicate 32 3)

def demoEncryption : PkEncryption where
  lastError := .success
  recipientKey := demoKeyPair.publicKey

def demoDecryption : PkDecryption where
  lastError := .success
  keyPair := demoKeyPair

/-- Memory after sixteen zeros are encrypted. -/
def demoSent : Mem :=
  (olmPkEncrypt demoPrimitives 4000 demoEncryption (fun _ => 0) 0 16 1000 43 2000 11 3000 43 100
    32).1

theorem demoSent_eq :
    olmPkEncrypt demoPrimitives 4000 demoEncryption (fun _ => 0) 0 16 1000 43 2000 11 3000 43 100 32
      = (demoSent, demoEncryption, some 8) :=
  Prod.ext rfl rfl

theorem demo_encryptBuffers : EncryptBuffers demoPrimitives 4000 0 16 1000 43 2000 3000 where
  plaintext_ephemeral := Or.inl (by decide)
  plaintext_ciphertext := Or.inl (by decide)
  ephemeral_ciphertext := Or.inr (by decide)
  ephemeral_mac := Or.inr (by decide)
  ephemeral_rawMac := Or.inl (by decide)
  mac_ciphertext := Or.inr (by decide)
  rawMac_mac := Or.inr (by decide)
  rawMac_ciphertext := Or.inr (by decide)

theorem demo_decryptBuffers : DecryptBuffers demoPrimitives 4000 2000 1000 43 5000 32 where
  rawMac_mac := Or.inr (by decide)
  rawMac_ciphertext := Or.inr (by decide)
  blocks := Or.inr (by decide)

/-- The ciphertext of sixteen zeros. -/
def demoCiphertext : Bytes :=
  cipherText demoPrimitives (ascii "") (pkSecret demoPrimitives (Vector.replicate 32 0)
    demoKeyPair.publicKey) (List.replicate 16 0)

/-- The sent memory with another first byte in the ciphertext. -/
def demoChanged : Mem := write demoSent 1000 (base64.encode (demoCiphertext.set 0 0))

theorem length_demoChanged : (base64.encode (demoCiphertext.set 0 0)).length = 43 := by
  rw [length_base64_encode, List.length_set, demoCiphertext, length_cipherText]
  decide

/-- The padding is that of a whole block. -/
theorem demoPadding : (cbcDecryptBlocks (demoPrimitives.aesDecrypt (deriveKeys demoPrimitives (ascii "")
    (pkSecret demoPrimitives (Vector.replicate 32 0) demoKeyPair.publicKey)).aesKey) 2
    (deriveKeys demoPrimitives (ascii "")
      (pkSecret demoPrimitives (Vector.replicate 32 0) demoKeyPair.publicKey)).aesIv
    (demoCiphertext.set 0 0)).getD 31 0 = 16 := by
  decide +kernel

theorem olmPkDecrypt_badMac_iff_demo :
    ((olmPkDecrypt demoPrimitives 4000 demoDecryption demoChanged 3000 olmPkKeyLength 2000 1000 43
        5000 32).2.2 = none ∧
      (olmPkDecrypt demoPrimitives 4000 demoDecryption demoChanged 3000 olmPkKeyLength 2000 1000 43
        5000 32).2.1.lastError = .badMessageMac)
      ↔ 32 < (paddingByte demoPrimitives (pkSecret demoPrimitives (load 32 (fun _ => 0) 100)
          demoEncryption.recipientKey) (decodedInputs 4000 2000 1000 43 demoChanged) 1000 32
          5000).toNat := by
  refine olmPkDecrypt_badMac_iff demoPrimitives demoPrimitives_dhCommutes
    (cryptoCurve25519GenerateKey_matches demoPrimitives _) rfl demo_encryptBuffers demoSent_eq
    ?_ ?_ (by decide) (Nat.le_refl 32) demo_decryptBuffers
  · exact read_write_disjoint _ (Or.inl (by rw [length_demoChanged]; decide))
  · exact read_write_disjoint _ (Or.inl (by rw [length_demoChanged]; decide))

/-- A changed ciphertext is accepted with the ephemeral key and the MAC of the sent one. -/
theorem olmPkDecrypt_changed :
    olmPkEncrypt demoPrimitives 4000 demoEncryption (fun _ => 0) 0 16 1000 43 2000 11 3000 43 100 32
        = (demoSent, demoEncryption, some 8) ∧
      read demoChanged 3000 43 = read demoSent 3000 43 ∧
      read demoChanged 2000 11 = read demoSent 2000 11 ∧
      base64.decode (read demoChanged 1000 43) ≠ base64.decode (read demoSent 1000 43) ∧
      ∃ n, (olmPkDecrypt demoPrimitives 4000 demoDecryption demoChanged 3000 43 2000 1000 43 5000
        32).2.2 = some n := by
  have hrandom : load 32 (fun _ => 0) 100 = Vector.replicate 32 0 := rfl
  obtain ⟨hsentKey, hsentMac, hsentText⟩ :=
    olmPkEncrypt_sent demoPrimitives demo_encryptBuffers demoSent_eq
  rw [hrandom] at hsentKey hsentMac hsentText
  have hkey : read demoChanged 3000 43 = read demoSent 3000 43 :=
    read_write_disjoint _ (Or.inl (by rw [length_demoChanged]; decide))
  have hmac : read demoChanged 2000 11 = read demoSent 2000 11 :=
    read_write_disjoint _ (Or.inl (by rw [length_demoChanged]; decide))
  have htext : base64.decode (read demoChanged 1000 43) = demoCiphertext.set 0 0 := by
    rw [demoChanged, read_write_of_length _ _ length_demoChanged, SextetCodec.decode_encode]
  have hsent : base64.decode (read demoSent 1000 43) = demoCiphertext := by
    have htext : read demoSent 1000 43 = base64.encode demoCiphertext := hsentText
    rw [htext, SextetCodec.decode_encode]
  refine ⟨demoSent_eq, hkey, hmac, ?_, ?_⟩
  · rw [htext, hsent]
    decide +kernel
  · have hsecret : (cryptoCurve25519SharedSecret demoPrimitives demoDecryption.keyPair
        (cryptoCurve25519GenerateKey demoPrimitives (Vector.replicate 32 0)).publicKey).toList
        = pkSecret demoPrimitives (Vector.replicate 32 0) demoKeyPair.publicKey :=
      pkSecret_comm demoPrimitives demoPrimitives_dhCommutes
        (cryptoCurve25519GenerateKey_matches demoPrimitives _) (Vector.replicate 32 0)
    have hrefused : (olmPkDecrypt demoPrimitives 4000 demoDecryption demoChanged 3000 olmPkKeyLength
        2000 1000 43 5000 32).2.2 = none
          ↔ 32 < (paddingByte demoPrimitives (pkSecret demoPrimitives (Vector.replicate 32 0)
              demoKeyPair.publicKey) (decodedInputs 4000 2000 1000 43 demoChanged) 1000 32
              5000).toNat :=
      (olmPkDecrypt_checked demoPrimitives hsecret (hkey.trans hsentKey) (hmac.trans hsentMac)
        (by decide) (Nat.le_refl 32) demo_decryptBuffers).1
    have hpadding : paddingByte demoPrimitives (pkSecret demoPrimitives (Vector.replicate 32 0)
        demoKeyPair.publicKey) (decodedInputs 4000 2000 1000 43 demoChanged) 1000 32 5000
        = (cbcDecryptBlocks (demoPrimitives.aesDecrypt (deriveKeys demoPrimitives (ascii "")
              (pkSecret demoPrimitives (Vector.replicate 32 0) demoKeyPair.publicKey)).aesKey) 2
            (deriveKeys demoPrimitives (ascii "")
              (pkSecret demoPrimitives (Vector.replicate 32 0) demoKeyPair.publicKey)).aesIv
            (base64.decode (read demoChanged 1000 43))).getD 31 0 :=
      paddingByte_blocks demoPrimitives (show 0 < 2 by decide)
        (show decodeBase64Length 43 = some (16 * 2) by decide) demo_decryptBuffers
    rw [show olmPkKeyLength = 43 by decide] at hrefused
    rw [htext] at hpadding
    refine Option.ne_none_iff_exists'.mp (fun hnone => ?_)
    have hbad := hrefused.mp hnone
    rw [hpadding.trans demoPadding] at hbad
    exact absurd hbad (by decide)

end OlmPk
