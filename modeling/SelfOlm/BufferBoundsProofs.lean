import SelfOlm.LoggedBase64
import SelfOlm.LoggedCipher
import SelfOlm.PublicKeyProofs
import SelfOlm.Signature

/-! # Where buffers end

    `olm_pk_decrypt`, `olm_pk_encrypt` and `olm_account_sign` as programs that log
    their accesses.  Each buffer of the caller is an object as long as the length passed
    for it, each local array an object of its own size.  The lengths that the functions
    compare with each other are not always those that they use. -/

namespace OlmPk

open ByteMemory OlmCrypto OlmBase64 OlmPickle AccessLog Logged

variable (prim : Primitives) {B : Type}

/-! ## Decryption -/

/-- `olm_pk_decrypt` before it calls the cipher: the secret.  `ephemeral` and `rawMac` are
    local arrays. -/
def loggedDecryptInputs (decryption : PkDecryption) (ephemeralKey : Pointer B)
    (ephemeralKeyLength : Nat) (mac ciphertext : Pointer B)
    (ciphertextLength maxPlaintextLength : Nat) (ephemeral rawMac : Pointer B) :
    Logged B (Option (Vector UInt8 32)) :=
  match olmPkMaxPlaintextLength prim ciphertextLength with
  | none => pure none
  | some maxLength =>
      if maxPlaintextLength < maxLength then pure none
      else do
        loggedDecode ephemeralKey ephemeralKeyLength ephemeral
        let key ← loadArray 32 ephemeral
        let secret := cryptoCurve25519SharedSecret prim decryption.keyPair key
        loggedDecode mac (encodeBase64Length pkMacLength) rawMac
        loggedDecode ciphertext ciphertextLength ciphertext
        pure (some secret)

/-- The size of the plaintext buffer passes the check. -/
def RoomForPlaintext (ciphertextLength maxPlaintextLength : Nat) : Prop :=
  ∃ maxLength, olmPkMaxPlaintextLength prim ciphertextLength = some maxLength ∧
    maxLength ≤ maxPlaintextLength

variable {prim}

theorem loggedDecryptInputs_refused {decryption : PkDecryption} {ephemeralKey : Pointer B}
    {ephemeralKeyLength : Nat} {mac ciphertext : Pointer B}
    {ciphertextLength maxPlaintextLength : Nat} {ephemeral rawMac : Pointer B}
    (hroom : ¬RoomForPlaintext prim ciphertextLength maxPlaintextLength) :
    loggedDecryptInputs prim decryption ephemeralKey ephemeralKeyLength mac ciphertext
      ciphertextLength maxPlaintextLength ephemeral rawMac = pure none := by
  rw [loggedDecryptInputs]
  cases hmax : olmPkMaxPlaintextLength prim ciphertextLength with
  | none => rfl
  | some maxLength =>
      simp only
      rw [if_pos (Nat.lt_of_not_le (fun hle => hroom ⟨maxLength, hmax, hle⟩))]

theorem loggedDecryptInputs_checked {decryption : PkDecryption} {ephemeralKey : Pointer B}
    {ephemeralKeyLength : Nat} {mac ciphertext : Pointer B}
    {ciphertextLength maxPlaintextLength : Nat} {ephemeral rawMac : Pointer B}
    (hroom : RoomForPlaintext prim ciphertextLength maxPlaintextLength) :
    loggedDecryptInputs prim decryption ephemeralKey ephemeralKeyLength mac ciphertext
      ciphertextLength maxPlaintextLength ephemeral rawMac
      = (do
          loggedDecode ephemeralKey ephemeralKeyLength ephemeral
          let key ← loadArray 32 ephemeral
          let secret := cryptoCurve25519SharedSecret prim decryption.keyPair key
          loggedDecode mac (encodeBase64Length pkMacLength) rawMac
          loggedDecode ciphertext ciphertextLength ciphertext
          pure (some secret)) := by
  obtain ⟨maxLength, hmax, hle⟩ := hroom
  rw [loggedDecryptInputs, hmax]
  simp only
  rw [if_neg (Nat.not_lt.mpr hle)]

/-- Memory and secret, when the cipher is called. -/
theorem loggedDecryptInputs_eq (decryption : PkDecryption) (m : Mem) (ephemeralKey : Pointer B)
    (ephemeralKeyLength : Nat) (mac ciphertext : Pointer B)
    {ciphertextLength maxPlaintextLength : Nat} (ephemeral rawMac : Pointer B)
    (hroom : RoomForPlaintext prim ciphertextLength maxPlaintextLength) :
    memory (loggedDecryptInputs prim decryption ephemeralKey ephemeralKeyLength mac ciphertext
        ciphertextLength maxPlaintextLength ephemeral rawMac) m
        = decodedInputs rawMac.address mac.address ciphertext.address ciphertextLength
            (decodeBase64 m ephemeralKey.address ephemeralKeyLength ephemeral.address) ∧
      result (loggedDecryptInputs prim decryption ephemeralKey ephemeralKeyLength mac ciphertext
        ciphertextLength maxPlaintextLength ephemeral rawMac) m
        = some (cryptoCurve25519SharedSecret prim decryption.keyPair
            (load 32 (decodeBase64 m ephemeralKey.address ephemeralKeyLength ephemeral.address)
              ephemeral.address)) := by
  rw [loggedDecryptInputs_checked hroom]
  simp only [memory_bind, result_bind, memory_loggedDecode, memory_loadArray, result_loadArray]
  exact ⟨rfl, rfl⟩

/-! ## Bounds of decryption -/

/-- The objects of `olm_pk_decrypt`. -/
inductive DecryptObject where
  | ephemeralKey | mac | ciphertext | ephemeral | rawMac

/-- The strings are as long as the caller says, the local arrays have 32 and 8 bytes. -/
def decryptLayout (start : DecryptObject → Nat) (ephemeralKeyLength macLength
    ciphertextLength : Nat) : Layout DecryptObject where
  start := start
  size
    | .ephemeralKey => ephemeralKeyLength
    | .mac => macLength
    | .ciphertext => ciphertextLength
    | .ephemeral => curve25519KeyLength
    | .rawMac => pkMacLength

variable (prim)

/-- `olm_pk_decrypt` before the cipher, on the objects of a layout. -/
def loggedDecryptCall (decryption : PkDecryption) (layout : Layout DecryptObject)
    (maxPlaintextLength : Nat) : Logged DecryptObject (Option (Vector UInt8 32)) :=
  loggedDecryptInputs prim decryption (layout.pointer .ephemeralKey) (layout.size .ephemeralKey)
    (layout.pointer .mac) (layout.pointer .ciphertext) (layout.size .ciphertext)
    maxPlaintextLength (layout.pointer .ephemeral) (layout.pointer .rawMac)

/-- Decoding in place stays in the string. -/
theorem decode_inPlace {n : Nat} (h : n % 4 ≠ 1) : decodeLoads n ≤ n ∧ decodeStores n ≤ n := by
  rw [decodeLoads, decodeStores, if_neg h]
  omega

/-- A string of base64 for which 32 bytes are enough. -/
theorem decode_key_iff {n : Nat} :
    decodeLoads n ≤ n ∧ decodeStores n ≤ curve25519KeyLength ↔ n ≤ olmPkKeyLength ∧ n % 4 ≠ 1 := by
  have hkey : olmPkKeyLength = 43 := by decide
  rw [decodeLoads, decodeStores, curve25519KeyLength, hkey]
  by_cases hmod : n % 4 = 1
  · rw [if_pos hmod]
    omega
  · rw [if_neg hmod]
    omega

theorem loggedDecryptCall_inBounds (decryption : PkDecryption) (m : Mem)
    (start : DecryptObject → Nat)
    (ephemeralKeyLength macLength ciphertextLength maxPlaintextLength : Nat) :
    All (Access.InBounds (decryptLayout start ephemeralKeyLength macLength ciphertextLength))
        (loggedDecryptCall prim decryption
          (decryptLayout start ephemeralKeyLength macLength ciphertextLength)
          maxPlaintextLength) m
      ↔ (RoomForPlaintext prim ciphertextLength maxPlaintextLength →
          (ephemeralKeyLength ≤ olmPkKeyLength ∧ ephemeralKeyLength % 4 ≠ 1) ∧
            olmPkMacLength prim ≤ macLength) := by
  rw [loggedDecryptCall]
  show All _ (loggedDecryptInputs prim decryption _ ephemeralKeyLength _ _ ciphertextLength
    maxPlaintextLength _ _) m ↔ _
  by_cases hroom : RoomForPlaintext prim ciphertextLength maxPlaintextLength
  · have hciphertext : ciphertextLength % 4 ≠ 1 := by
      intro hmod
      obtain ⟨maxLength, hmax, -⟩ := hroom
      rw [olmPkMaxPlaintextLength, decodeBase64Length, if_pos hmod] at hmax
      cases hmax
    have hinPlace := decode_inPlace hciphertext
    rw [loggedDecryptInputs_checked hroom]
    simp only [all_bind, all_loadArray, loggedDecode_inBounds_iff]
    rw [iff_true_intro hroom, true_imp_iff, ← decode_key_iff]
    constructor
    · rintro ⟨hkey, -, ⟨hmac, -⟩, -, -⟩
      exact ⟨hkey, hmac⟩
    · rintro ⟨hkey, hmac⟩
      refine ⟨hkey, Layout.holds_start_iff.mpr (Nat.le_refl 32), ⟨hmac, ?_⟩, hinPlace,
        all_pure _ _⟩
      show decodeStores 11 ≤ 8
      decide
  · rw [loggedDecryptInputs_refused hroom]
    exact iff_of_true (all_pure _ m) (fun h => absurd h hroom)

/-- A key of the right length that is not in the way of the local array is the one that
    `olmPkDecrypt` decodes. -/
theorem load_decodedKey {m : Mem} {ephemeralKey ephemeral : Nat}
    (hsafe : DecodeSafe ephemeralKey olmPkKeyLength ephemeral) :
    load 32 (decodeBase64 m ephemeralKey olmPkKeyLength ephemeral) ephemeral
      = ofBytes 32 (base64.decode (read m ephemeralKey olmPkKeyLength)) := by
  have hvalid : olmPkKeyLength % 4 ≠ 1 := by decide
  have hlength : (base64.decode (read m ephemeralKey olmPkKeyLength)).length = 32 := by
    rw [base64.length_decode _ (by rwa [length_read]), length_read]
    decide
  refine load_eq_of_read ?_
  rw [decodeBase64_eq _ m _ _ hvalid hsafe, toList_ofBytes hlength]
  have hread := read_write_self m ephemeral (base64.decode (read m ephemeralKey olmPkKeyLength))
  rwa [hlength] at hread

/-- **BOUNDS** of `olm_pk_decrypt`: it reads past the MAC string unless there is room for
    a whole MAC, and past the ephemeral key or over the end of its local array unless the
    ephemeral key is a base64 string of at most 32 bytes.  What the logged program hands to
    the cipher is the memory and the secret of `olmPkDecrypt`, with the key in its array. -/
theorem olmPkDecrypt_inBounds_iff (decryption : PkDecryption) (m : Mem)
    (start : DecryptObject → Nat)
    (ephemeralKeyLength macLength ciphertextLength maxPlaintextLength : Nat) :
    let layout := decryptLayout start ephemeralKeyLength macLength ciphertextLength
    let call := loggedDecryptCall prim decryption layout maxPlaintextLength
    let withKey := decodeBase64 m (start .ephemeralKey) ephemeralKeyLength (start .ephemeral)
    (RoomForPlaintext prim ciphertextLength maxPlaintextLength →
      memory call m = decodedInputs (start .rawMac) (start .mac) (start .ciphertext)
        ciphertextLength withKey ∧
      result call m = some (cryptoCurve25519SharedSecret prim decryption.keyPair
        (load 32 withKey (start .ephemeral)))) ∧
    (ephemeralKeyLength = olmPkKeyLength →
      DecodeSafe (start .ephemeralKey) ephemeralKeyLength (start .ephemeral) →
      load 32 withKey (start .ephemeral)
        = ofBytes 32 (base64.decode (read m (start .ephemeralKey) ephemeralKeyLength))) ∧
    ((RoomForPlaintext prim ciphertextLength maxPlaintextLength →
        All (Access.InBounds layout) call m)
      ↔ (RoomForPlaintext prim ciphertextLength maxPlaintextLength →
          (ephemeralKeyLength ≤ olmPkKeyLength ∧ ephemeralKeyLength % 4 ≠ 1) ∧
            olmPkMacLength prim ≤ macLength)) := by
  refine ⟨?_, ?_, ?_⟩
  · exact loggedDecryptInputs_eq decryption m _ ephemeralKeyLength _ _ _ _
  · rintro rfl hsafe
    exact load_decodedKey hsafe
  · rw [loggedDecryptCall_inBounds]
    exact ⟨fun h hroom => h hroom hroom, fun h _ => h⟩

/-- Objects that are apart. -/
def demoDecryptStart : DecryptObject → Nat
  | .ephemeralKey => 0
  | .mac => 100
  | .ciphertext => 200
  | .ephemeral => 300
  | .rawMac => 400

/-- An ephemeral key of 44 characters overflows the local array. -/
theorem olmPkDecrypt_overflows :
    RoomForPlaintext demoPrimitives 43 32 ∧
      ¬All (Access.InBounds (decryptLayout demoDecryptStart 44 11 43))
        (loggedDecryptCall demoPrimitives demoDecryption (decryptLayout demoDecryptStart 44 11 43)
          32) (fun _ => 0) := by
  have hroom : RoomForPlaintext demoPrimitives 43 32 := ⟨32, by decide, Nat.le_refl 32⟩
  refine ⟨hroom, ?_⟩
  rw [loggedDecryptCall_inBounds]
  intro h
  obtain ⟨⟨hlong, -⟩, -⟩ := h hroom
  exact absurd hlong (by decide)

/-! ## Encryption -/

/-- `olm_pk_encrypt`. -/
def loggedPkEncrypt (rawMac : Pointer B) (encryption : PkEncryption) (plaintext : Pointer B)
    (plaintextLength : Nat) (ciphertext : Pointer B) (ciphertextLength : Nat) (mac : Pointer B)
    (macLength : Nat) (ephemeralKey : Pointer B) (ephemeralKeySize : Nat) (random : Pointer B)
    (randomLength : Nat) : Logged B (PkEncryption × Option Nat) :=
  if ciphertextLength < olmPkCiphertextLength prim plaintextLength
      ∨ macLength < (olmPkCipher prim).macLength ∨ ephemeralKeySize < olmPkKeyLength then
    pure ({ encryption with lastError := .outputBufferTooSmall }, none)
  else if randomLength < olmPkEncryptRandomLength then
    pure ({ encryption with lastError := .notEnoughRandom }, none)
  else do
    let randomBytes ← loadArray 32 random
    let ephemeralKeypair := cryptoCurve25519GenerateKey prim randomBytes
    store ephemeralKey (base64.encode ephemeralKeypair.publicKey.toList)
    let secret := cryptoCurve25519SharedSecret prim ephemeralKeypair encryption.recipientKey
    let rawCiphertextLength := (olmPkCipher prim).encryptCiphertextLength plaintextLength
    let ciphertextPos := ciphertext.add (ciphertextLength - rawCiphertextLength)
    let result ← loggedCipherEncrypt prim (ascii "") secret.toList plaintext plaintextLength
      ciphertextPos rawCiphertextLength rawMac pkMacLength
    match result with
    | none => pure (encryption, none)
    | some result => do
        loggedEncode rawMac pkMacLength mac
        loggedEncode ciphertextPos rawCiphertextLength ciphertext
        pure (encryption, some result)

/-- The logged program is `olm_pk_encrypt`. -/
theorem loggedPkEncrypt_eq (rawMac : Pointer B) (encryption : PkEncryption) (m : Mem)
    (plaintext : Pointer B) (plaintextLength : Nat) (ciphertext : Pointer B)
    (ciphertextLength : Nat) (mac : Pointer B) (macLength : Nat) (ephemeralKey : Pointer B)
    (ephemeralKeySize : Nat) (random : Pointer B) (randomLength : Nat) :
    (memory (loggedPkEncrypt prim rawMac encryption plaintext plaintextLength ciphertext
        ciphertextLength mac macLength ephemeralKey ephemeralKeySize random randomLength) m,
      result (loggedPkEncrypt prim rawMac encryption plaintext plaintextLength ciphertext
        ciphertextLength mac macLength ephemeralKey ephemeralKeySize random randomLength) m)
      = olmPkEncrypt prim rawMac.address encryption m plaintext.address plaintextLength
          ciphertext.address ciphertextLength mac.address macLength ephemeralKey.address
          ephemeralKeySize random.address randomLength := by
  rw [loggedPkEncrypt, olmPkEncrypt]
  by_cases hsmall : ciphertextLength < olmPkCiphertextLength prim plaintextLength
      ∨ macLength < (olmPkCipher prim).macLength ∨ ephemeralKeySize < olmPkKeyLength
  · rw [if_pos hsmall, if_pos hsmall]
    rfl
  rw [if_neg hsmall, if_neg hsmall]
  by_cases hrandom : randomLength < olmPkEncryptRandomLength
  · rw [if_pos hrandom, if_pos hrandom]
    rfl
  rw [if_neg hrandom, if_neg hrandom]
  have hroom : olmPkCiphertextLength prim plaintextLength ≤ ciphertextLength := by omega
  have hle : (olmPkCipher prim).encryptCiphertextLength plaintextLength ≤ ciphertextLength := by
    have hencoded := SextetCodec.add_div_le_encodedLength
      ((olmPkCipher prim).encryptCiphertextLength plaintextLength)
    rw [olmPkCiphertextLength, encodeBase64Length_eq] at hroom
    omega
  simp only [memory_bind, result_bind, result_loadArray, memory_loadArray, memory_store,
    Nat.add_sub_assoc hle]
  generalize (cryptoCurve25519SharedSecret prim (cryptoCurve25519GenerateKey prim
    (ByteMemory.load 32 m random.address)) encryption.recipientKey).toList = secret
  generalize write m ephemeralKey.address (base64.encode (cryptoCurve25519GenerateKey prim
    (ByteMemory.load 32 m random.address)).publicKey.toList) = m₁
  generalize hpos : ciphertextLength - (olmPkCipher prim).encryptCiphertextLength plaintextLength
    = offset
  generalize hraw : (olmPkCipher prim).encryptCiphertextLength plaintextLength = rawLength
  have hcipher : (memory (loggedCipherEncrypt prim (ascii "") secret plaintext plaintextLength
        (ciphertext.add offset) rawLength rawMac pkMacLength) m₁,
      result (loggedCipherEncrypt prim (ascii "") secret plaintext plaintextLength
        (ciphertext.add offset) rawLength rawMac pkMacLength) m₁)
      = (olmPkCipher prim).encrypt secret m₁ plaintext.address plaintextLength
          (ciphertext.address + offset) rawLength rawMac.address pkMacLength :=
    loggedCipherEncrypt_eq prim (ascii "") secret m₁ plaintext plaintextLength
      (ciphertext.add offset) rawLength rawMac pkMacLength
  generalize (olmPkCipher prim).encrypt secret m₁ plaintext.address plaintextLength
    (ciphertext.address + offset) rawLength rawMac.address pkMacLength = encrypted at hcipher ⊢
  rcases encrypted with ⟨m₂, _ | n⟩
  · obtain ⟨hmemory, hresult⟩ := Prod.mk.inj hcipher
    rw [hmemory, hresult]
    rfl
  · obtain ⟨hmemory, hresult⟩ := Prod.mk.inj hcipher
    rw [hmemory, hresult]
    simp only [memory_bind, result_bind, memory_loggedEncode]
    rfl

/-! ## Bounds of encryption -/

/-- The lengths pass the checks of `olm_pk_encrypt`. -/
structure EncryptChecked (plaintextLength ciphertextLength macLength ephemeralKeySize
    randomLength : Nat) : Prop where
  ciphertext : olmPkCiphertextLength prim plaintextLength ≤ ciphertextLength
  mac : (olmPkCipher prim).macLength ≤ macLength
  ephemeralKey : olmPkKeyLength ≤ ephemeralKeySize
  random : olmPkEncryptRandomLength ≤ randomLength

variable {prim}

theorem loggedPkEncrypt_unchecked {rawMac : Pointer B} {encryption : PkEncryption}
    {plaintext ciphertext mac ephemeralKey random : Pointer B} {plaintextLength ciphertextLength
      macLength ephemeralKeySize randomLength : Nat}
    (h : ¬EncryptChecked prim plaintextLength ciphertextLength macLength ephemeralKeySize
      randomLength) :
    ∃ error, loggedPkEncrypt prim rawMac encryption plaintext plaintextLength ciphertext
      ciphertextLength mac macLength ephemeralKey ephemeralKeySize random randomLength
      = pure ({ encryption with lastError := error }, none) := by
  rw [loggedPkEncrypt]
  by_cases hsmall : ciphertextLength < olmPkCiphertextLength prim plaintextLength
      ∨ macLength < (olmPkCipher prim).macLength ∨ ephemeralKeySize < olmPkKeyLength
  · rw [if_pos hsmall]
    exact ⟨_, rfl⟩
  rw [if_neg hsmall]
  by_cases hrandom : randomLength < olmPkEncryptRandomLength
  · rw [if_pos hrandom]
    exact ⟨_, rfl⟩
  · exact absurd ⟨by omega, by omega, by omega, by omega⟩ h

/-- With room for what was checked, only the MAC string is left to check. -/
theorem loggedPkEncrypt_stores_iff {rawMac : Pointer B} (encryption : PkEncryption) (m : Mem)
    (plaintext : Pointer B) {ciphertext : Pointer B} (mac : Pointer B) {ephemeralKey : Pointer B}
    (random : Pointer B) {plaintextLength ciphertextLength macLength ephemeralKeySize
      randomLength : Nat} {layout : Layout B}
    (hchecked : EncryptChecked prim plaintextLength ciphertextLength macLength ephemeralKeySize
      randomLength)
    (hkey : layout.Holds ephemeralKey.object ephemeralKey.address olmPkKeyLength)
    (hrawMac : layout.Holds rawMac.object rawMac.address pkMacLength)
    (htext : layout.Holds ciphertext.object ciphertext.address ciphertextLength) :
    All (Access.StoreInBounds layout) (loggedPkEncrypt prim rawMac encryption plaintext
        plaintextLength ciphertext ciphertextLength mac macLength ephemeralKey ephemeralKeySize
        random randomLength) m
      ↔ layout.Holds mac.object mac.address (olmPkMacLength prim) := by
  obtain ⟨hciphertext, hmac, hephemeral, hrandom⟩ := hchecked
  rw [loggedPkEncrypt, if_neg (by omega), if_neg (by omega)]
  have hlength : (olmPkCipher prim).encryptCiphertextLength plaintextLength
      = cryptoAesEncryptCbcLength plaintextLength := rfl
  have hpos : 0 < cryptoAesEncryptCbcLength plaintextLength := by
    rw [cryptoAesEncryptCbcLength]
    omega
  obtain ⟨hstart, hend⟩ := htext
  have hroom := SextetCodec.add_div_le_encodedLength (cryptoAesEncryptCbcLength plaintextLength)
  have hencoded : SextetCodec.encodedLength (cryptoAesEncryptCbcLength plaintextLength)
      ≤ ciphertextLength := hciphertext
  rw [hlength]
  -- the raw ciphertext is at the end of its buffer
  have hraw : layout.Holds ciphertext.object (ciphertext.add (ciphertextLength
      - cryptoAesEncryptCbcLength plaintextLength)).address
      (cryptoAesEncryptCbcLength plaintextLength) := by
    show layout.start ciphertext.object ≤ ciphertext.address + _ ∧
      ciphertext.address + _ + _ ≤ layout.start ciphertext.object + layout.size ciphertext.object
    omega
  have htext : layout.Holds ciphertext.object ciphertext.address
      (encodeBase64Length (cryptoAesEncryptCbcLength plaintextLength)) := by
    refine ⟨hstart, ?_⟩
    rw [encodeBase64Length_eq]
    omega
  simp only [all_bind, all_loadArray, all_store, result_loggedCipherEncrypt prim _ (Nat.le_refl _)
    (show cipherMacLength ≤ pkMacLength from Nat.le_refl _),
    loggedEncode_stores_iff (show 0 < pkMacLength by decide), loggedEncode_stores_iff hpos]
  constructor
  · rintro ⟨-, -, -, hencodedMac, -⟩
    exact hencodedMac
  · intro hencodedMac
    refine ⟨trivial, ?_, loggedCipherEncrypt_stores _ hraw hrawMac, hencodedMac, htext,
      all_pure _ _⟩
    show layout.Holds _ _ _
    rw [length_encodedKey]
    exact hkey

variable (prim)

/-- The objects of `olm_pk_encrypt`. -/
inductive EncryptObject where
  | plaintext | ciphertext | mac | ephemeralKey | random | rawMac

/-- The buffers are as long as the caller says, the local array has 8 bytes. -/
def encryptLayout (start : EncryptObject → Nat) (plaintextLength ciphertextLength macLength
    ephemeralKeySize randomLength : Nat) : Layout EncryptObject where
  start := start
  size
    | .plaintext => plaintextLength
    | .ciphertext => ciphertextLength
    | .mac => macLength
    | .ephemeralKey => ephemeralKeySize
    | .random => randomLength
    | .rawMac => pkMacLength

/-- `olm_pk_encrypt` on the objects of a layout. -/
def loggedEncryptCall (encryption : PkEncryption) (layout : Layout EncryptObject) :
    Logged EncryptObject (PkEncryption × Option Nat) :=
  loggedPkEncrypt prim (layout.pointer .rawMac) encryption
    (layout.pointer .plaintext) (layout.size .plaintext)
    (layout.pointer .ciphertext) (layout.size .ciphertext)
    (layout.pointer .mac) (layout.size .mac)
    (layout.pointer .ephemeralKey) (layout.size .ephemeralKey)
    (layout.pointer .random) (layout.size .random)

theorem loggedEncryptCall_stores_iff (encryption : PkEncryption) (m : Mem)
    (start : EncryptObject → Nat)
    (plaintextLength ciphertextLength macLength ephemeralKeySize randomLength : Nat) :
    All (Access.StoreInBounds (encryptLayout start plaintextLength ciphertextLength macLength
          ephemeralKeySize randomLength))
        (loggedEncryptCall prim encryption (encryptLayout start plaintextLength ciphertextLength
          macLength ephemeralKeySize randomLength)) m
      ↔ (EncryptChecked prim plaintextLength ciphertextLength macLength ephemeralKeySize
          randomLength → olmPkMacLength prim ≤ macLength) := by
  rw [loggedEncryptCall]
  by_cases hchecked : EncryptChecked prim plaintextLength ciphertextLength macLength
      ephemeralKeySize randomLength
  · rw [iff_true_intro hchecked, true_imp_iff]
    refine Iff.trans (loggedPkEncrypt_stores_iff encryption m _ _ _ hchecked ?_ ?_ ?_)
      Layout.holds_start_iff
    · exact Layout.holds_start_iff.mpr hchecked.ephemeralKey
    · exact Layout.holds_start_iff.mpr (Nat.le_refl pkMacLength)
    · exact Layout.holds_start_iff.mpr (Nat.le_refl ciphertextLength)
  · obtain ⟨error, hrefused⟩ := loggedPkEncrypt_unchecked hchecked
    refine iff_of_true ?_ (fun h => absurd h hchecked)
    exact Eq.mpr (congrArg (fun program => All _ program m) hrefused) (all_pure _ m)

/-- Past the checks, the call succeeds. -/
theorem result_loggedEncryptCall (encryption : PkEncryption) (m : Mem)
    (start : EncryptObject → Nat) {plaintextLength ciphertextLength macLength ephemeralKeySize
      randomLength : Nat}
    (hchecked : EncryptChecked prim plaintextLength ciphertextLength macLength ephemeralKeySize
      randomLength) :
    result (loggedEncryptCall prim encryption (encryptLayout start plaintextLength ciphertextLength
        macLength ephemeralKeySize randomLength)) m = (encryption, some pkMacLength) := by
  obtain ⟨hciphertext, hmac, hephemeral, hrandom⟩ := hchecked
  rw [loggedEncryptCall]
  show result (loggedPkEncrypt prim _ encryption _ plaintextLength _ ciphertextLength _ macLength _
    ephemeralKeySize _ randomLength) m = _
  rw [loggedPkEncrypt, if_neg (by omega), if_neg (by omega)]
  have hencrypted : ∀ m₁ secret plaintext ciphertext rawMac, result (loggedCipherEncrypt prim
      (ascii "") secret plaintext plaintextLength (ciphertext : Pointer EncryptObject)
      ((olmPkCipher prim).encryptCiphertextLength plaintextLength) rawMac pkMacLength) m₁
        = some pkMacLength :=
    fun m₁ _ _ _ _ => result_loggedCipherEncrypt prim m₁ (Nat.le_refl _) (Nat.le_refl _)
  simp only [result_bind, hencrypted]
  rfl

/-- **BOUNDS** of `olm_pk_encrypt`: where it does not refuse its buffers, it stores past the
    end of the MAC buffer unless there is room for the MAC string. -/
theorem olmPkEncrypt_inBounds_iff (encryption : PkEncryption) (m : Mem)
    (start : EncryptObject → Nat)
    (plaintextLength ciphertextLength macLength ephemeralKeySize randomLength : Nat) :
    let layout := encryptLayout start plaintextLength ciphertextLength macLength ephemeralKeySize
      randomLength
    let call := loggedEncryptCall prim encryption layout
    (memory call m, result call m)
        = olmPkEncrypt prim (start .rawMac) encryption m (start .plaintext) plaintextLength
            (start .ciphertext) ciphertextLength (start .mac) macLength (start .ephemeralKey)
            ephemeralKeySize (start .random) randomLength ∧
      ((result call m ≠ ({ encryption with lastError := .outputBufferTooSmall }, none) →
          All (Access.StoreInBounds layout) call m)
        ↔ (EncryptChecked prim plaintextLength ciphertextLength macLength ephemeralKeySize
            randomLength → olmPkMacLength prim ≤ macLength)) := by
  refine ⟨loggedPkEncrypt_eq prim _ encryption m _ plaintextLength _ ciphertextLength _ macLength _
    ephemeralKeySize _ randomLength, ?_⟩
  rw [loggedEncryptCall_stores_iff]
  constructor
  · intro h hchecked
    refine h ?_ hchecked
    rw [result_loggedEncryptCall prim encryption m start hchecked]
    intro hrefused
    cases (Prod.mk.inj hrefused).2
  · intro h _
    exact h

/-- Objects that are apart. -/
def demoEncryptStart : EncryptObject → Nat
  | .plaintext => 0
  | .ciphertext => 100
  | .mac => 200
  | .ephemeralKey => 300
  | .random => 400
  | .rawMac => 500

/-- A MAC buffer of eight bytes is accepted, and eleven are stored. -/
theorem olmPkEncrypt_overflows :
    result (loggedEncryptCall demoPrimitives demoEncryption
        (encryptLayout demoEncryptStart 16 43 8 43 32)) (fun _ => 0) = (demoEncryption, some 8) ∧
      ¬All (Access.StoreInBounds (encryptLayout demoEncryptStart 16 43 8 43 32))
        (loggedEncryptCall demoPrimitives demoEncryption
          (encryptLayout demoEncryptStart 16 43 8 43 32)) (fun _ => 0) := by
  have hchecked : EncryptChecked demoPrimitives 16 43 8 43 32 :=
    ⟨by decide, by decide, by decide, by decide⟩
  refine ⟨result_loggedEncryptCall demoPrimitives demoEncryption _ demoEncryptStart hchecked, ?_⟩
  rw [loggedEncryptCall_stores_iff]
  intro h
  exact absurd (h hchecked) (by decide)

end OlmPk

namespace OlmAccount

open ByteMemory OlmCrypto OlmBase64 AccessLog Logged
open OlmSession (b64OutputPos b64Output)

variable (sodium : Sodium) {B : Type}

/-! ## Signing -/

/-- `Account::sign` for a buffer of the length of a signature; `crypto_sign` stores at the
    position that it is given. -/
def loggedSign (a : Account) (message : Pointer B) (messageLength : Nat) (signature : Pointer B)
    (signatureLen : Nat) : Logged B (Account × Option Nat) :=
  if signatureLen < signatureLength then
    pure ({ a with lastError := .outputBufferTooSmall }, none)
  else do
    let bytes ← loadBytes messageLength message
    match sodium.sign bytes a.identityKeys.ed25519Key.privateKey with
    | none => pure ({ a with lastError := .outputBufferTooSmall }, none)
    | some signedMessage => do
        store signature signedMessage
        pure (a, some signatureLength)

/-- `olm_account_sign`. -/
def loggedAccountSign (a : Account) (message : Pointer B) (messageLength : Nat)
    (signature : Pointer B) (signatureLen : Nat) : Logged B (Account × Option Nat) :=
  if signatureLen < encodeBase64Length signatureLength then
    pure ({ a with lastError := .outputBufferTooSmall }, none)
  else do
    let rawOutput := signature.add (encodeBase64Length signatureLength - signatureLength)
    let (a, _) ← loggedSign sodium a message messageLength rawOutput signatureLength
    loggedEncode rawOutput signatureLength signature
    pure (a, some (encodeBase64Length signatureLength))

/-- The logged program is `Account::sign`. -/
theorem loggedSign_eq (a : Account) (m : Mem) (message : Pointer B) (messageLength : Nat)
    (signature : Pointer B) (signatureLen : Nat) :
    (memory (loggedSign sodium a message messageLength signature signatureLen) m,
      result (loggedSign sodium a message messageLength signature signatureLen) m)
      = sign sodium a m message.address messageLength signature.address signatureLen := by
  rw [loggedSign, sign]
  by_cases hsmall : signatureLen < signatureLength
  · rw [if_pos hsmall, if_pos hsmall]
    rfl
  rw [if_neg hsmall, if_neg hsmall, memory_bind, result_bind, memory_loadBytes, result_loadBytes]
  cases sodium.sign (read m message.address messageLength) a.identityKeys.ed25519Key.privateKey with
  | none => rfl
  | some signedMessage => rfl

/-- The logged program is `olm_account_sign`. -/
theorem loggedAccountSign_eq (a : Account) (m : Mem) (message : Pointer B) (messageLength : Nat)
    (signature : Pointer B) (signatureLen : Nat) :
    (memory (loggedAccountSign sodium a message messageLength signature signatureLen) m,
      result (loggedAccountSign sodium a message messageLength signature signatureLen) m)
      = olmAccountSign sodium a m message.address messageLength signature.address signatureLen := by
  rw [loggedAccountSign, olmAccountSign]
  by_cases hsmall : signatureLen < encodeBase64Length signatureLength
  · rw [if_pos hsmall, if_pos hsmall]
    rfl
  have hpos : signature.address + encodeBase64Length signatureLength - signatureLength
      = (signature.add (encodeBase64Length signatureLength - signatureLength)).address :=
    Nat.add_sub_assoc (by decide) _
  rw [if_neg hsmall, if_neg hsmall, b64OutputPos]
  simp only [b64Output, hpos]
  generalize signature.add (encodeBase64Length signatureLength - signatureLength) = rawOutput
  have hsign := loggedSign_eq sodium a m message messageLength rawOutput signatureLength
  rw [memory_bind, result_bind]
  generalize loggedSign sodium a message messageLength rawOutput signatureLength = program
    at hsign ⊢
  generalize sign sodium a m message.address messageLength rawOutput.address signatureLength
    = signed at hsign ⊢
  obtain ⟨m₁, a₁, n⟩ := signed
  obtain ⟨hmemory, hresult⟩ := Prod.mk.inj hsign
  rw [hmemory, hresult]
  simp only
  rw [memory_bind, result_bind, memory_loggedEncode, memory_pure, result_pure]

/-- `crypto_sign` in combined mode: the signature and the whole message behind it. -/
def CombinedMode : Prop :=
  ∀ message key, ∃ signature : Vector UInt8 64,
    sodium.sign message key = some (signature.toList ++ message)

/-- The objects of `olm_account_sign`. -/
inductive SignObject where
  | message | signature

/-- The buffers are as long as the caller says. -/
def signLayout (start : SignObject → Nat) (messageLength signatureLen : Nat) :
    Layout SignObject where
  start := start
  size
    | .message => messageLength
    | .signature => signatureLen

/-- `olm_account_sign` on the objects of a layout. -/
def loggedSignCall (a : Account) (layout : Layout SignObject) :
    Logged SignObject (Account × Option Nat) :=
  loggedAccountSign sodium a (layout.pointer .message) (layout.size .message)
    (layout.pointer .signature) (layout.size .signature)

variable {sodium}

/-- Through the log of `crypto_sign`. -/
theorem loggedSignCall_stores_iff (hcombined : CombinedMode sodium) (a : Account) (m : Mem)
    (start : SignObject → Nat) (messageLength : Nat) {signatureLen : Nat}
    (hlength : encodeBase64Length signatureLength ≤ signatureLen) :
    All (Access.StoreInBounds (signLayout start messageLength signatureLen))
        (loggedSignCall sodium a (signLayout start messageLength signatureLen)) m
      ↔ encodeBase64Length signatureLength + messageLength ≤ signatureLen := by
  rw [loggedSignCall]
  show All _ (loggedAccountSign sodium a _ messageLength _ signatureLen) m ↔ _
  rw [loggedAccountSign, if_neg (Nat.not_lt.mpr hlength)]
  obtain ⟨signature, hsign⟩ := hcombined
    (read m (start .message) messageLength) a.identityKeys.ed25519Key.privateKey
  have hresult : result (loadBytes messageLength
      ((signLayout start messageLength signatureLen).pointer .message)) m
        = read m (start .message) messageLength := rfl
  simp only [loggedSign, if_neg (Nat.lt_irrefl signatureLength), all_bind, all_loadBytes, hresult,
    memory_loadBytes, hsign, all_store]
  have hsize : encodeBase64Length signatureLength - signatureLength
      + (signature.toList ++ read m (start .message) messageLength).length
        = encodeBase64Length signatureLength + messageLength := by
    rw [List.length_append, Vector.length_toList, length_read]
    have hpos : encodeBase64Length signatureLength - signatureLength + 64
        = encodeBase64Length signatureLength := by decide
    omega
  have hstored : (signLayout start messageLength signatureLen).Holds .signature
      (start .signature + (encodeBase64Length signatureLength - signatureLength))
      (signature.toList ++ read m (start .message) messageLength).length
        ↔ encodeBase64Length signatureLength + messageLength ≤ signatureLen := by
    show start .signature ≤ _ ∧ _ ≤ start .signature + signatureLen ↔ _
    omega
  constructor
  · rintro ⟨⟨-, hstore, -⟩, -⟩
    exact hstored.mp hstore
  · intro h
    refine ⟨⟨trivial, hstored.mpr h, all_pure _ _⟩, ?_, all_pure _ _⟩
    refine (loggedEncode_stores_iff (show 0 < signatureLength by decide) _ _ _).mpr ?_
    exact Layout.holds_start_iff.mpr hlength

/-- **BOUNDS** of `olm_account_sign`: the message is stored behind the signature, so a buffer
    that only holds a signature is enough for the empty message alone. -/
theorem olmAccountSign_inBounds_iff (hcombined : CombinedMode sodium) (a : Account) (m : Mem)
    (start : SignObject → Nat) (messageLength signatureLen : Nat) :
    let layout := signLayout start messageLength signatureLen
    let call := loggedSignCall sodium a layout
    (memory call m, result call m)
        = olmAccountSign sodium a m (start .message) messageLength (start .signature)
            signatureLen ∧
      ((encodeBase64Length signatureLength ≤ signatureLen →
          All (Access.StoreInBounds layout) call m)
        ↔ (encodeBase64Length signatureLength ≤ signatureLen →
            encodeBase64Length signatureLength + messageLength ≤ signatureLen)) := by
  refine ⟨loggedAccountSign_eq sodium a m _ messageLength _ signatureLen, ?_⟩
  constructor
  · intro h hlength
    exact (loggedSignCall_stores_iff hcombined a m start messageLength hlength).mp (h hlength)
  · intro h hlength
    exact (loggedSignCall_stores_iff hcombined a m start messageLength hlength).mpr (h hlength)

/-- libsodium on the bundled library's curve. -/
def demoSignSodium : Sodium :=
  OlmEd25519.sodiumEd25519 OlmEd25519.libEd25519 (fun _ => none) some

theorem demoSignSodium_combinedMode : CombinedMode demoSignSodium := fun _ _ => ⟨_, rfl⟩

/-- Objects that are apart. -/
def demoSignStart : SignObject → Nat
  | .message => 0
  | .signature => 100

theorem olmAccountSign_inBounds_iff_demo :
    (encodeBase64Length signatureLength ≤ 98 →
        All (Access.StoreInBounds (signLayout demoSignStart 12 98))
          (loggedSignCall demoSignSodium newAccountObject (signLayout demoSignStart 12 98))
          (fun _ => 0))
      ↔ (encodeBase64Length signatureLength ≤ 98 → encodeBase64Length signatureLength + 12 ≤ 98) :=
  (olmAccountSign_inBounds_iff demoSignSodium_combinedMode newAccountObject (fun _ => 0)
    demoSignStart 12 98).2

/-- A message of one byte ends behind a signature buffer of the documented length. -/
theorem olmAccountSign_overflows :
    encodeBase64Length signatureLength ≤ 86 ∧
      ¬All (Access.StoreInBounds (signLayout demoSignStart 1 86))
        (loggedSignCall demoSignSodium newAccountObject (signLayout demoSignStart 1 86))
        (fun _ => 0) := by
  refine ⟨by decide, ?_⟩
  rw [loggedSignCall_stores_iff demoSignSodium_combinedMode _ _ _ _ (by decide)]
  decide

end OlmAccount
