import SelfOlm.Session

/-! # Failed session operations

    A call that returns `size_t(-1)` writes error codes and nothing else.  The
    trial root key, the trial chain and the up to 2000 chain steps of a
    decryption live in local variables; the ratchet is only written once the
    MAC of the message is known to be good. -/

namespace OlmRatchet

open ByteMemory OlmCrypto OlmMessage OlmList

variable {K I : Type} (S : Suite K I)

/-- The same ratchet up to the error code. -/
def SameExceptError (r r' : Ratchet K) : Prop := ∃ e, r' = { r with lastError := e }

theorem SameExceptError.refl (r : Ratchet K) : SameExceptError r r := ⟨r.lastError, rfl⟩

theorem encrypt_failed {r r' : Ratchet K} {m m' : Mem}
    {plaintext plaintextLength random randomLength output maxOutputLength : Nat}
    (h : encrypt S r m plaintext plaintextLength random randomLength output maxOutputLength
      = (m', r', none)) : SameExceptError r r' := by
  simp only [encrypt] at h
  by_cases h1 : randomLength < encryptRandomLength r
  · rw [if_pos h1] at h
    exact ⟨_, (Prod.mk.inj (Prod.mk.inj h).2).1.symm⟩
  · rw [if_neg h1] at h
    by_cases h2 : maxOutputLength < encryptOutputLength S r plaintextLength
    · rw [if_pos h2] at h
      exact ⟨_, (Prod.mk.inj (Prod.mk.inj h).2).1.symm⟩
    · rw [if_neg h2] at h
      exact absurd (Prod.mk.inj (Prod.mk.inj h).2).2 (by simp)

theorem decryptChecked_failed {r r' : Ratchet K} {m m' : Mem} {reader : MessageReader}
    {plaintext maxPlaintextLength : Nat}
    (h : decryptChecked S r m reader plaintext maxPlaintextLength = (m', r', none)) :
    SameExceptError r r' := by
  rw [decryptChecked] at h
  cases hc : findChain r m reader with
  | none =>
      rw [hc] at h
      rcases hv : verifyMacAndDecryptForNewChain S r reader m plaintext maxPlaintextLength
        with ⟨m₁, _ | result⟩
      · rw [hv] at h
        exact ⟨_, (Prod.mk.inj (Prod.mk.inj h).2).1.symm⟩
      · rw [hv] at h
        exact absurd (Prod.mk.inj (Prod.mk.inj h).2).2 (by simp)
  | some pos =>
      rw [hc] at h
      simp only at h
      cases hp : r.receiverChains.toList[pos]? with
      | none =>
          rw [hp] at h
          exact (Prod.mk.inj (Prod.mk.inj h).2).1 ▸ SameExceptError.refl r
      | some chain =>
          rw [hp] at h
          simp only at h
          by_cases hi : chain.chainKey.index > reader.counter
          · rw [if_pos hi] at h
            rcases hv : trySkippedKeys S reader plaintext maxPlaintextLength 0
              r.skippedMessageKeys.toList m with ⟨m₁, _ | ⟨i, result⟩⟩
            · rw [hv] at h
              exact ⟨_, (Prod.mk.inj (Prod.mk.inj h).2).1.symm⟩
            · rw [hv] at h
              exact absurd (Prod.mk.inj (Prod.mk.inj h).2).2 (by simp)
          · rw [if_neg hi] at h
            rcases hv : verifyMacAndDecryptForExistingChain S chain.chainKey reader m plaintext
              maxPlaintextLength with ⟨m₁, _ | result⟩
            · rw [hv] at h
              exact ⟨_, (Prod.mk.inj (Prod.mk.inj h).2).1.symm⟩
            · rw [hv] at h
              exact absurd (Prod.mk.inj (Prod.mk.inj h).2).2 (by simp)

theorem decrypt_failed {r r' : Ratchet K} {stack : MessageReader} {m m' : Mem}
    {input inputLength plaintext maxPlaintextLength : Nat}
    (h : decrypt S r stack m input inputLength plaintext maxPlaintextLength = (m', r', none)) :
    SameExceptError r r' := by
  simp only [decrypt] at h
  generalize decodeMessage stack m input inputLength S.ratchetCipher.macLength = reader at h
  by_cases h1 : reader.version ≠ protocolVersion
  · rw [if_pos h1] at h
    exact ⟨_, (Prod.mk.inj (Prod.mk.inj h).2).1.symm⟩
  rw [if_neg h1] at h
  by_cases h2 : reader.hasCounter = false ∨ reader.ratchetKey = none ∨ reader.ciphertext = none
  · rw [if_pos h2] at h
    exact ⟨_, (Prod.mk.inj (Prod.mk.inj h).2).1.symm⟩
  rw [if_neg h2] at h
  by_cases h3 : maxPlaintextLength
      < S.ratchetCipher.decryptMaxPlaintextLength reader.ciphertextLength
  · rw [if_pos h3] at h
    exact ⟨_, (Prod.mk.inj (Prod.mk.inj h).2).1.symm⟩
  rw [if_neg h3] at h
  by_cases h4 : reader.ratchetKeyLength ≠ curve25519KeyLength
  · rw [if_pos h4] at h
    exact ⟨_, (Prod.mk.inj (Prod.mk.inj h).2).1.symm⟩
  rw [if_neg h4] at h
  exact decryptChecked_failed S h

end OlmRatchet

namespace OlmSession

open ByteMemory OlmCrypto OlmMessage OlmRatchet

variable (prim : Primitives)

/-- A session without its two error codes. -/
def Session.withoutErrors (s : Session) : Session :=
  { s with lastError := .success, ratchet := { s.ratchet with lastError := .success } }

theorem withoutErrors_lastError (s : Session) (e : OlmErrorCode) :
    { s with lastError := e }.withoutErrors = s.withoutErrors := rfl

/-- What a call that fails in the ratchet leaves behind. -/
theorem withoutErrors_ratchet (s : Session) {r : Ratchet SharedKey} (e e' : OlmErrorCode)
    (h : SameExceptError s.ratchet r) :
    { s with lastError := e, ratchet := { r with lastError := e' } }.withoutErrors
      = s.withoutErrors := by
  obtain ⟨e'', rfl⟩ := h
  rfl

theorem encrypt_failed {s s' : Session} {m m' : Mem}
    {plaintext plaintextLength random randomLength message messageLength : Nat}
    (h : encrypt prim s m plaintext plaintextLength random randomLength message messageLength
      = (m', s', none)) : s'.withoutErrors = s.withoutErrors := by
  simp only [encrypt] at h
  by_cases h1 : messageLength < encryptMessageLength prim s plaintextLength
  · rw [if_pos h1] at h
    rw [← (Prod.mk.inj (Prod.mk.inj h).2).1, withoutErrors_lastError]
  · rw [if_neg h1] at h
    rcases hr : OlmRatchet.encrypt (olmSuite prim) s.ratchet
        (if s.receivedMessage then (m, message)
          else encodePreKeyFrame s m
            (encryptOutputLength (olmSuite prim) s.ratchet plaintextLength) message).1
        plaintext plaintextLength random randomLength
        (if s.receivedMessage then (m, message)
          else encodePreKeyFrame s m
            (encryptOutputLength (olmSuite prim) s.ratchet plaintextLength) message).2
        (encryptOutputLength (olmSuite prim) s.ratchet plaintextLength)
      with ⟨m₁, r, _ | result⟩
    · rw [hr] at h
      rw [← (Prod.mk.inj (Prod.mk.inj h).2).1]
      exact withoutErrors_ratchet s _ _ (OlmRatchet.encrypt_failed _ hr)
    · rw [hr] at h
      exact absurd (Prod.mk.inj (Prod.mk.inj h).2).2 (by simp)

theorem decrypt_failed {s s' : Session} {stack : MessageReader} {messageType : MessageType}
    {m m' : Mem} {message messageLength plaintext maxPlaintextLength : Nat}
    (h : decrypt prim s stack messageType m message messageLength plaintext maxPlaintextLength
      = (m', s', none)) : s'.withoutErrors = s.withoutErrors := by
  rw [decrypt] at h
  cases hb : messageBody messageType m message messageLength with
  | none =>
      rw [hb] at h
      rw [← (Prod.mk.inj (Prod.mk.inj h).2).1, withoutErrors_lastError]
  | some body =>
      rw [hb] at h
      simp only at h
      rcases hr : OlmRatchet.decrypt (olmSuite prim) s.ratchet stack m body.1 body.2 plaintext
        maxPlaintextLength with ⟨m₁, r, _ | result⟩
      · rw [hr] at h
        rw [← (Prod.mk.inj (Prod.mk.inj h).2).1]
        exact withoutErrors_ratchet s _ _ (OlmRatchet.decrypt_failed _ hr)
      · rw [hr] at h
        exact absurd (Prod.mk.inj (Prod.mk.inj h).2).2 (by simp)

theorem olmEncrypt_failed {s s' : Session} {m m' : Mem}
    {plaintext plaintextLength random randomLength message messageLength : Nat}
    (h : olmEncrypt prim s m plaintext plaintextLength random randomLength message messageLength
      = (m', s', none)) : s'.withoutErrors = s.withoutErrors := by
  simp only [olmEncrypt] at h
  by_cases h1 : messageLength
      < OlmBase64.encodeBase64Length (encryptMessageLength prim s plaintextLength)
  · rw [if_pos h1] at h
    rw [← (Prod.mk.inj (Prod.mk.inj h).2).1, withoutErrors_lastError]
  · rw [if_neg h1] at h
    rcases he : encrypt prim s m plaintext plaintextLength random randomLength
        (b64OutputPos message (encryptMessageLength prim s plaintextLength))
        (encryptMessageLength prim s plaintextLength) with ⟨m₁, s₁, _ | result⟩
    · rw [he] at h
      rw [← (Prod.mk.inj (Prod.mk.inj h).2).1]
      exact encrypt_failed prim he
    · rw [he] at h
      exact absurd (Prod.mk.inj (Prod.mk.inj h).2).2 (by simp)

theorem olmDecrypt_failed {s s' : Session} {stack : MessageReader} {messageType : Nat}
    {m m' : Mem} {message messageLength plaintext maxPlaintextLength : Nat}
    (h : olmDecrypt prim s stack messageType m message messageLength plaintext
      maxPlaintextLength = (m', s', none)) : s'.withoutErrors = s.withoutErrors := by
  rw [olmDecrypt] at h
  rcases hb : b64Input m message messageLength with ⟨m₁, _ | rawLength⟩
  · rw [hb] at h
    rw [← (Prod.mk.inj (Prod.mk.inj h).2).1, withoutErrors_lastError]
  · rw [hb] at h
    exact decrypt_failed prim h

/-- **FAILED OPERATIONS CHANGE NOTHING** but the error codes, whatever the
    session, the buffers and the bytes in them are. -/
theorem failed_unchanged (s : Session) (m : Mem) :
    (∀ plaintext plaintextLength random randomLength message messageLength m' s',
      encrypt prim s m plaintext plaintextLength random randomLength message messageLength
        = (m', s', none) → s'.withoutErrors = s.withoutErrors) ∧
    (∀ stack messageType message messageLength plaintext maxPlaintextLength m' s',
      decrypt prim s stack messageType m message messageLength plaintext maxPlaintextLength
        = (m', s', none) → s'.withoutErrors = s.withoutErrors) ∧
    (∀ plaintext plaintextLength random randomLength message messageLength m' s',
      olmEncrypt prim s m plaintext plaintextLength random randomLength message messageLength
        = (m', s', none) → s'.withoutErrors = s.withoutErrors) ∧
    (∀ stack messageType message messageLength plaintext maxPlaintextLength m' s',
      olmDecrypt prim s stack messageType m message messageLength plaintext maxPlaintextLength
        = (m', s', none) → s'.withoutErrors = s.withoutErrors) :=
  ⟨fun _ _ _ _ _ _ _ _ h => encrypt_failed prim h, fun _ _ _ _ _ _ _ _ h => decrypt_failed prim h,
    fun _ _ _ _ _ _ _ _ h => olmEncrypt_failed prim h,
    fun _ _ _ _ _ _ _ _ h => olmDecrypt_failed prim h⟩

/-- The receiving side of a session that has received messages. -/
def demoEstablished : Session :=
  { newSession with
    receivedMessage := true
    ratchet := initialiseAsBob (olmSuite demoPrimitives) newSession.ratchet [1]
      (Vector.replicate 32 7) }

/-- A message with counter 2 on its chain, with a MAC of zeros. -/
def demoForged : Bytes :=
  [3, 10, 32] ++ List.replicate 32 7 ++ [16, 2, 34, 16] ++ List.replicate 16 5
    ++ List.replicate 8 0

/-- The message and its text; where nothing is stored there are random bytes. -/
def demoForgedMemory : Mem :=
  write (write (fun _ => 9) 300 demoForged) 500 (OlmBase64.base64.encode demoForged)

/-- Without enough random bytes for a new ratchet key, and with a forged MAC. -/
theorem demoEstablished_fails :
    let sent := encrypt demoPrimitives demoEstablished demoForgedMemory 0 5 100 31 200 63
    let received :=
      decrypt demoPrimitives demoEstablished messageReader .message demoForgedMemory 300 63 700 16
    let olmSent := olmEncrypt demoPrimitives demoEstablished demoForgedMemory 0 5 100 31 200 84
    let olmReceived :=
      olmDecrypt demoPrimitives demoEstablished messageReader 1 demoForgedMemory 500 84 700 16
    (sent.2.2 = none ∧ sent.2.1.lastError = .notEnoughRandom) ∧
      (received.2.2 = none ∧ received.2.1.lastError = .badMessageMac) ∧
      (olmSent.2.2 = none ∧ olmSent.2.1.lastError = .notEnoughRandom) ∧
      olmReceived.2.2 = none ∧ olmReceived.2.1.lastError = .badMessageMac := by
  decide +kernel

/-- The four calls leave the established session as it was. -/
theorem failed_unchanged_forged :
    (encrypt demoPrimitives demoEstablished demoForgedMemory 0 5 100 31 200 63).2.1.withoutErrors
        = demoEstablished.withoutErrors ∧
    (decrypt demoPrimitives demoEstablished messageReader .message demoForgedMemory 300 63 700
        16).2.1.withoutErrors = demoEstablished.withoutErrors ∧
    (olmEncrypt demoPrimitives demoEstablished demoForgedMemory 0 5 100 31 200
        84).2.1.withoutErrors = demoEstablished.withoutErrors ∧
    (olmDecrypt demoPrimitives demoEstablished messageReader 1 demoForgedMemory 500 84 700
        16).2.1.withoutErrors = demoEstablished.withoutErrors := by
  obtain ⟨⟨hsent, -⟩, ⟨hreceived, -⟩, ⟨holmSent, -⟩, holmReceived, -⟩ := demoEstablished_fails
  obtain ⟨hencrypt, hdecrypt, holmEncrypt, holmDecrypt⟩ :=
    failed_unchanged demoPrimitives demoEstablished demoForgedMemory
  have hcall : ∀ {call : Mem × Session × Option Nat}, call.2.2 = none →
      call = (call.1, call.2.1, none) := fun h => Prod.ext rfl (Prod.ext rfl h)
  exact ⟨hencrypt 0 5 100 31 200 63 _ _ (hcall hsent),
    hdecrypt messageReader .message 300 63 700 16 _ _ (hcall hreceived),
    holmEncrypt 0 5 100 31 200 84 _ _ (hcall holmSent),
    holmDecrypt messageReader 1 500 84 700 16 _ _ (hcall holmReceived)⟩

end OlmSession
