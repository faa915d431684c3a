import SelfOlm.Ratchet

/-! # Translations of suites

    The ratchet hands its keys to the suite and never looks at them.  So a
    translation of keys that the suites agree on is a translation of every call:
    the same bytes are stored, the same result is returned, and the ratchets
    behind the calls correspond. -/

namespace OlmList.BoundedList

variable {T T' : Type} {maxSize : Nat}

/-- A function on every item. -/
def map (f : T → T') (l : BoundedList T maxSize) : BoundedList T' maxSize :=
  ⟨l.toList.map f, by rw [List.length_map]; exact l.length_le⟩

@[simp] theorem toList_map (f : T → T') (l : BoundedList T maxSize) :
    (l.map f).toList = l.toList.map f := rfl

theorem map_insert (f : T → T') (l : BoundedList T maxSize) (value : T) :
    (l.insert value).map f = (l.map f).insert (f value) := by
  apply ext'
  rw [toList_map, toList_insert, List.map_take]
  rfl

theorem map_erase (f : T → T') (l : BoundedList T maxSize) (pos : Nat) :
    (l.erase pos).map f = (l.map f).erase pos := by
  apply ext'
  rw [toList_map, toList_erase, toList_erase, toList_map, List.eraseIdx_map]

theorem map_set (f : T → T') (l : BoundedList T maxSize) (pos : Nat) (value : T) :
    (l.set pos value).map f = (l.map f).set pos (f value) := by
  apply ext'
  rw [toList_map, toList_set, List.map_set]
  rfl

end OlmList.BoundedList

namespace OlmRatchet

open ByteMemory OlmCrypto OlmMessage OlmList

variable {K K' I I' : Type}

/-! ## Translating what a ratchet holds -/

def ChainKey.map (f : K → K') (chainKey : ChainKey K) : ChainKey K' :=
  ⟨chainKey.index, f chainKey.key⟩

@[simp] theorem ChainKey.index_map (f : K → K') (chainKey : ChainKey K) :
    (chainKey.map f).index = chainKey.index := rfl

def MessageKey.map (f : K → K') (messageKey : MessageKey K) : MessageKey K' :=
  ⟨messageKey.index, f messageKey.key⟩

def SenderChain.map (f : K → K') (chain : SenderChain K) : SenderChain K' :=
  ⟨chain.ratchetKey, chain.chainKey.map f⟩

def ReceiverChain.map (f : K → K') (chain : ReceiverChain K) : ReceiverChain K' :=
  ⟨chain.ratchetKey, chain.chainKey.map f⟩

@[simp] theorem ReceiverChain.chainKey_map (f : K → K') (chain : ReceiverChain K) :
    (chain.map f).chainKey = chain.chainKey.map f := rfl

def SkippedMessageKey.map (f : K → K') (skipped : SkippedMessageKey K) : SkippedMessageKey K' :=
  ⟨skipped.ratchetKey, skipped.messageKey.map f⟩

def Ratchet.map (f : K → K') (r : Ratchet K) : Ratchet K' where
  lastError := r.lastError
  rootKey := f r.rootKey
  senderChain := r.senderChain.map (SenderChain.map f)
  receiverChains := r.receiverChains.map (ReceiverChain.map f)
  skippedMessageKeys := r.skippedMessageKeys.map (SkippedMessageKey.map f)

/-- What a call leaves behind, translated. -/
def mapCall (f : K → K') (call : Mem × Ratchet K × Option Nat) : Mem × Ratchet K' × Option Nat :=
  (call.1, call.2.1.map f, call.2.2)

/-- A translation of keys and secrets that the suites agree on. -/
structure SuiteHom (S : Suite K I) (S' : Suite K' I') where
  key : K → K'
  secret : I → I'
  generateKey : S'.generateKey = S.generateKey
  sharedSecret : ∀ ourKey theirKey,
    S'.sharedSecret ourKey theirKey = secret (S.sharedSecret ourKey theirKey)
  hkdf : ∀ i salt info,
    S'.hkdf (secret i) (salt.map key) info = Prod.map key key (S.hkdf i salt info)
  hmac : ∀ k seed, S'.hmac (key k) seed = key (S.hmac k seed)
  kdfInfo : S'.kdfInfo = S.kdfInfo
  ratchetCipher : S.ratchetCipher = S'.ratchetCipher.onKeys key

variable {S : Suite K I} {S' : Suite K' I'} (f : SuiteHom S S')

/-! ## Chains -/

theorem SuiteHom.createChainKey (rootKey : K) (ourKey : Curve25519KeyPair)
    (theirKey : Curve25519PublicKey) :
    createChainKey S' (f.key rootKey) ourKey theirKey
      = Prod.map f.key (ChainKey.map f.key) (createChainKey S rootKey ourKey theirKey) := by
  have hhkdf := f.hkdf (S.sharedSecret ourKey theirKey) (some rootKey) S.kdfInfo.ratchetInfo
  simp only [OlmRatchet.createChainKey, f.sharedSecret, f.kdfInfo]
  rw [Option.map_some] at hhkdf
  rw [hhkdf]
  rfl

theorem SuiteHom.advanceChainKey (chainKey : ChainKey K) :
    advanceChainKey S' (chainKey.map f.key) = (advanceChainKey S chainKey).map f.key :=
  congrArg (ChainKey.mk _) (f.hmac chainKey.key chainKeySeed)

theorem SuiteHom.createMessageKeys (chainKey : ChainKey K) :
    createMessageKeys S' (chainKey.map f.key) = (createMessageKeys S chainKey).map f.key :=
  congrArg (MessageKey.mk _) (f.hmac chainKey.key messageKeySeed)

theorem SuiteHom.advanceWhile (counter : UInt32) :
    ∀ (n : Nat) (chainKey : ChainKey K),
      advanceWhile S' counter n (chainKey.map f.key)
        = (advanceWhile S counter n chainKey).map f.key := by
  intro n
  induction n with
  | zero => intro chainKey; rfl
  | succ n ih =>
      intro chainKey
      rw [OlmRatchet.advanceWhile, OlmRatchet.advanceWhile, ChainKey.index_map]
      by_cases h : chainKey.index < counter
      · rw [if_pos h, if_pos h, f.advanceChainKey]
        exact ih _
      · rw [if_neg h, if_neg h]

theorem SuiteHom.skipKeys (counter : UInt32) :
    ∀ (n : Nat) (chain : ReceiverChain K)
      (skipped : BoundedList (SkippedMessageKey K) maxSkippedMessageKeys),
      skipKeys S' counter n (chain.map f.key) (skipped.map (SkippedMessageKey.map f.key))
        = Prod.map (ReceiverChain.map f.key) (BoundedList.map (SkippedMessageKey.map f.key))
            (skipKeys S counter n chain skipped) := by
  intro n
  induction n with
  | zero => intro chain skipped; rfl
  | succ n ih =>
      intro chain skipped
      rw [OlmRatchet.skipKeys, OlmRatchet.skipKeys, ReceiverChain.chainKey_map, ChainKey.index_map]
      by_cases h : chain.chainKey.index < counter
      · rw [if_pos h, if_pos h, ← ih, BoundedList.map_insert]
        rw [f.advanceChainKey, f.createMessageKeys]
        rfl
      · rw [if_neg h, if_neg h]
        rfl

/-! ## Encryption -/

theorem SuiteHom.initialiseAsAlice (r : Ratchet K) (sharedSecret : I)
    (ourRatchetKey : Curve25519KeyPair) :
    initialiseAsAlice S' (r.map f.key) (f.secret sharedSecret) ourRatchetKey
      = (initialiseAsAlice S r sharedSecret ourRatchetKey).map f.key := by
  have hhkdf := f.hkdf sharedSecret none S.kdfInfo.rootInfo
  rw [Option.map_none] at hhkdf
  simp only [OlmRatchet.initialiseAsAlice, f.kdfInfo, hhkdf, Ratchet.map, BoundedList.map_insert]
  rfl

theorem SuiteHom.initialiseAsBob (r : Ratchet K) (sharedSecret : I)
    (theirRatchetKey : Curve25519PublicKey) :
    initialiseAsBob S' (r.map f.key) (f.secret sharedSecret) theirRatchetKey
      = (initialiseAsBob S r sharedSecret theirRatchetKey).map f.key := by
  have hhkdf := f.hkdf sharedSecret none S.kdfInfo.rootInfo
  rw [Option.map_none] at hhkdf
  simp only [OlmRatchet.initialiseAsBob, f.kdfInfo, hhkdf, Ratchet.map, BoundedList.map_insert]
  rfl

theorem SuiteHom.encryptOutputLength (r : Ratchet K) (plaintextLength : Nat) :
    encryptOutputLength S' (r.map f.key) plaintextLength
      = encryptOutputLength S r plaintextLength := by
  have hsender : (r.map f.key).senderChain.toList
      = r.senderChain.toList.map (SenderChain.map f.key) := rfl
  rw [OlmRatchet.encryptOutputLength, OlmRatchet.encryptOutputLength, f.ratchetCipher, hsender]
  cases r.senderChain.toList with
  | nil => rfl
  | cons chain rest => rfl

theorem encryptRandomLength_map (g : K → K') (r : Ratchet K) :
    encryptRandomLength (r.map g) = encryptRandomLength r := by
  have hsender : (r.map g).senderChain.toList = r.senderChain.toList.map (SenderChain.map g) := rfl
  rw [encryptRandomLength, encryptRandomLength, hsender]
  cases r.senderChain.toList with
  | nil => rfl
  | cons chain rest => rfl

theorem SuiteHom.senderChainFor (r : Ratchet K) (random : Vector UInt8 32) :
    senderChainFor S' (r.map f.key) random
      = Prod.map f.key (SenderChain.map f.key) (senderChainFor S r random) := by
  unfold OlmRatchet.senderChainFor
  simp only [Ratchet.map, BoundedList.toList_map, f.generateKey]
  cases r.senderChain.toList with
  | cons chain rest => rfl
  | nil =>
      cases r.receiverChains.toList with
      | nil =>
          simp only [List.map_nil, f.createChainKey]
          rfl
      | cons chain rest =>
          simp only [List.map_nil, List.map_cons, ReceiverChain.map, f.createChainKey]
          rfl

/-- **ENCRYPTION** under the translated keys. -/
theorem SuiteHom.encrypt (r : Ratchet K) (m : Mem)
    (plaintext plaintextLength random randomLength output maxOutputLength : Nat) :
    encrypt S' (r.map f.key) m plaintext plaintextLength random randomLength output maxOutputLength
      = mapCall f.key (encrypt S r m plaintext plaintextLength random randomLength output
          maxOutputLength) := by
  simp only [OlmRatchet.encrypt, f.encryptOutputLength, encryptRandomLength_map]
  by_cases h1 : randomLength < encryptRandomLength r
  · rw [if_pos h1, if_pos h1]
    rfl
  rw [if_neg h1, if_neg h1]
  by_cases h2 : maxOutputLength < OlmRatchet.encryptOutputLength S r plaintextLength
  · rw [if_pos h2, if_pos h2]
    rfl
  rw [if_neg h2, if_neg h2, f.senderChainFor]
  generalize OlmRatchet.senderChainFor S r (load 32 m random) = sending
  obtain ⟨rootKey, chain⟩ := sending
  simp only [Prod.map, SenderChain.map, f.createMessageKeys, f.advanceChainKey]
  rw [mapCall, f.ratchetCipher]
  rfl

/-! ## Decryption -/

theorem SuiteHom.verifyMacAndDecrypt (messageKey : MessageKey K) (reader : MessageReader) (m : Mem)
    (plaintext maxPlaintextLength : Nat) :
    verifyMacAndDecrypt S' (messageKey.map f.key) reader m plaintext maxPlaintextLength
      = verifyMacAndDecrypt S messageKey reader m plaintext maxPlaintextLength := by
  rw [OlmRatchet.verifyMacAndDecrypt, OlmRatchet.verifyMacAndDecrypt, f.ratchetCipher]
  rfl

theorem SuiteHom.verifyMacAndDecryptForExistingChain (chainKey : ChainKey K)
    (reader : MessageReader) (m : Mem) (plaintext maxPlaintextLength : Nat) :
    verifyMacAndDecryptForExistingChain S' (chainKey.map f.key) reader m plaintext
        maxPlaintextLength
      = verifyMacAndDecryptForExistingChain S chainKey reader m plaintext maxPlaintextLength := by
  simp only [OlmRatchet.verifyMacAndDecryptForExistingChain, f.advanceWhile, f.createMessageKeys,
    f.verifyMacAndDecrypt]
  rfl

theorem SuiteHom.verifyMacAndDecryptForNewChain (r : Ratchet K) (reader : MessageReader) (m : Mem)
    (plaintext maxPlaintextLength : Nat) :
    verifyMacAndDecryptForNewChain S' (r.map f.key) reader m plaintext maxPlaintextLength
      = verifyMacAndDecryptForNewChain S r reader m plaintext maxPlaintextLength := by
  unfold OlmRatchet.verifyMacAndDecryptForNewChain
  simp only [Ratchet.map, BoundedList.toList_map]
  cases r.senderChain.toList with
  | nil => rfl
  | cons chain rest =>
      simp only [List.map_cons, SenderChain.map, f.createChainKey]
      rw [Prod.map, f.verifyMacAndDecryptForExistingChain]

theorem findChain_map (g : K → K') (r : Ratchet K) (m : Mem) (reader : MessageReader) :
    findChain (r.map g) m reader = findChain r m reader := by
  rw [findChain, Ratchet.map, BoundedList.toList_map, List.findIdx?_map]
  rfl

theorem SuiteHom.trySkippedKeys (reader : MessageReader) (plaintext maxPlaintextLength : Nat) :
    ∀ (keys : List (SkippedMessageKey K)) (pos : Nat) (m : Mem),
      trySkippedKeys S' reader plaintext maxPlaintextLength pos
          (keys.map (SkippedMessageKey.map f.key)) m
        = trySkippedKeys S reader plaintext maxPlaintextLength pos keys m := by
  intro keys
  induction keys with
  | nil => intro pos m; rfl
  | cons skipped keys ih =>
      intro pos m
      rw [List.map_cons, OlmRatchet.trySkippedKeys, OlmRatchet.trySkippedKeys]
      simp only [SkippedMessageKey.map, f.verifyMacAndDecrypt, ih]
      rfl

theorem SuiteHom.startReceiverChain (r : Ratchet K) (theirKey : Curve25519PublicKey) :
    startReceiverChain S' (r.map f.key) theirKey = (startReceiverChain S r theirKey).map f.key := by
  unfold OlmRatchet.startReceiverChain
  simp only [Ratchet.map, BoundedList.toList_map]
  cases r.senderChain.toList with
  | nil => rfl
  | cons chain rest =>
      simp only [List.map_cons, SenderChain.map, f.createChainKey, Prod.map]
      rw [BoundedList.map_insert, BoundedList.map_erase]
      rfl

theorem SuiteHom.advanceReceiverChain (r : Ratchet K) (pos : Nat) (counter : UInt32) :
    advanceReceiverChain S' (r.map f.key) pos counter
      = (advanceReceiverChain S r pos counter).map f.key := by
  unfold OlmRatchet.advanceReceiverChain
  simp only [Ratchet.map, BoundedList.toList_map, List.getElem?_map]
  cases r.receiverChains.toList[pos]? with
  | none => rfl
  | some chain =>
      simp only [Option.map_some, f.skipKeys]
      simp only [BoundedList.map_set, Prod.map, ReceiverChain.map, f.advanceChainKey]
      rfl

theorem SuiteHom.decryptChecked (r : Ratchet K) (m : Mem) (reader : MessageReader)
    (plaintext maxPlaintextLength : Nat) :
    decryptChecked S' (r.map f.key) m reader plaintext maxPlaintextLength
      = mapCall f.key (decryptChecked S r m reader plaintext maxPlaintextLength) := by
  unfold OlmRatchet.decryptChecked
  rw [findChain_map]
  cases findChain r m reader with
  | none =>
      simp only [f.verifyMacAndDecryptForNewChain]
      rcases OlmRatchet.verifyMacAndDecryptForNewChain S r reader m plaintext maxPlaintextLength
        with ⟨m₁, _ | result⟩
      · rfl
      · simp only [f.startReceiverChain, f.advanceReceiverChain]
        rfl
  | some pos =>
      have hget : (r.map f.key).receiverChains.toList[pos]?
          = (r.receiverChains.toList[pos]?).map (ReceiverChain.map f.key) := List.getElem?_map ..
      simp only [hget]
      cases r.receiverChains.toList[pos]? with
      | none => rfl
      | some chain =>
          simp only [Option.map_some]
          by_cases hindex : chain.chainKey.index > reader.counter
          · rw [if_pos hindex, ReceiverChain.chainKey_map, ChainKey.index_map, if_pos hindex]
            rw [show (r.map f.key).skippedMessageKeys.toList
                = r.skippedMessageKeys.toList.map (SkippedMessageKey.map f.key) from rfl,
              f.trySkippedKeys reader plaintext maxPlaintextLength]
            rcases OlmRatchet.trySkippedKeys S reader plaintext maxPlaintextLength 0
              r.skippedMessageKeys.toList m with ⟨m₁, _ | ⟨i, result⟩⟩
            · rfl
            · simp only [mapCall, Ratchet.map, BoundedList.map_erase]
          · rw [if_neg hindex, ReceiverChain.chainKey_map, ChainKey.index_map, if_neg hindex]
            have hverify := f.verifyMacAndDecryptForExistingChain chain.chainKey reader m plaintext
              maxPlaintextLength
            rw [hverify]
            rcases OlmRatchet.verifyMacAndDecryptForExistingChain S chain.chainKey reader m plaintext
              maxPlaintextLength with ⟨m₁, _ | result⟩
            · rfl
            · simp only [f.advanceReceiverChain]
              rfl

/-- **DECRYPTION** under the translated keys. -/
theorem SuiteHom.decrypt (r : Ratchet K) (stack : MessageReader) (m : Mem)
    (input inputLength plaintext maxPlaintextLength : Nat) :
    decrypt S' (r.map f.key) stack m input inputLength plaintext maxPlaintextLength
      = mapCall f.key (decrypt S r stack m input inputLength plaintext maxPlaintextLength) := by
  have hmac : S.ratchetCipher.macLength = S'.ratchetCipher.macLength := by rw [f.ratchetCipher]; rfl
  have hmax : S.ratchetCipher.decryptMaxPlaintextLength
      = S'.ratchetCipher.decryptMaxPlaintextLength := by rw [f.ratchetCipher]; rfl
  simp only [OlmRatchet.decrypt, hmac, hmax]
  generalize decodeMessage stack m input inputLength S'.ratchetCipher.macLength = reader
  by_cases h1 : reader.version ≠ protocolVersion
  · rw [if_pos h1, if_pos h1]
    rfl
  rw [if_neg h1, if_neg h1]
  by_cases h2 : reader.hasCounter = false ∨ reader.ratchetKey = none ∨ reader.ciphertext = none
  · rw [if_pos h2, if_pos h2]
    rfl
  rw [if_neg h2, if_neg h2]
  by_cases h3 : maxPlaintextLength
      < S'.ratchetCipher.decryptMaxPlaintextLength reader.ciphertextLength
  · rw [if_pos h3, if_pos h3]
    rfl
  rw [if_neg h3, if_neg h3]
  by_cases h4 : reader.ratchetKeyLength ≠ curve25519KeyLength
  · rw [if_pos h4, if_pos h4]
    rfl
  rw [if_neg h4, if_neg h4]
  exact f.decryptChecked r m reader plaintext maxPlaintextLength

end OlmRatchet
