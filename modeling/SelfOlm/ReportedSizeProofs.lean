import SelfOlm.SessionAgreementProofs
import SelfOlm.GroupMessagingProofs

/-! # Reported sizes

    The length that a caller asks for before it encrypts is the length of the message,
    whether the session makes a sender chain in the call or not, and whether the message
    has a frame or not.  The message is built at the end of the buffer and encoded in
    place; nothing is said here about where the plaintext and the random bytes are. -/

namespace OlmBase64

open ByteMemory OlmCrypto

/-- A buffer was filled: it holds one text in base64, and outside of it the memory is `m`. -/
structure Filled (m m' : Mem) (message : Nat) (raw : Bytes) : Prop where
  filled : read m' message (encodeBase64Length raw.length) = base64.encode raw
  outside : SameOutside message (encodeBase64Length raw.length) m m'

/-- A string at the end of the buffer lies inside it. -/
theorem tail_sameOutside (m : Mem) (message : Nat) (raw : Bytes) :
    SameOutside message (encodeBase64Length raw.length) m
      (write m (message + encodeBase64Length raw.length - raw.length) raw) := by
  have hle := le_encodeBase64Length raw.length
  exact SameOutside.write_within m (by omega) (by omega)

/-- What stands at the end of a buffer is encoded into the whole of it. -/
theorem encodeBase64_filled (m : Mem) (n message : Nat) :
    Filled m (encodeBase64 m (message + encodeBase64Length n - n) n message) message
      (read m (message + encodeBase64Length n - n) n) := by
  rw [encodeBase64_eq n m _ _ (encodeSafe_tail message n)]
  generalize hraw : read m (message + encodeBase64Length n - n) n = raw
  have hlength : (base64.encode raw).length = encodeBase64Length raw.length :=
    length_base64_encode raw
  refine ⟨read_write_of_length m message hlength, ?_⟩
  rw [← hlength]
  exact SameOutside.write m message _

/-- The frame of an earlier memory that differs inside the buffer only. -/
theorem Filled.frame {m₀ m m' : Mem} {message : Nat} {raw : Bytes} (h : Filled m m' message raw)
    (hframe : SameOutside message (encodeBase64Length raw.length) m₀ m) :
    Filled m₀ m' message raw :=
  ⟨h.filled, hframe.trans h.outside⟩

end OlmBase64

namespace OlmRatchet

open ByteMemory OlmCrypto OlmMessage OlmList
open OlmSession (SharedKey olmSuite)

variable (prim : Primitives)

/-- The strings that a ratchet sends. -/
def SentBody (body : Bytes) : Prop :=
  ∃ (counter : UInt32) (ratchetKey : Curve25519PublicKey) (ct mac : Bytes),
    mac.length = cipherMacLength ∧
      body = messageBytes protocolVersion counter ratchetKey.toList ct ++ mac

/-- With the lengths that are asked for, a ratchet sends. -/
theorem encrypt_sent (r : Ratchet SharedKey) (m : Mem) (plaintext plaintextLength random output : Nat) :
    ∃ (r' : Ratchet SharedKey) (body : Bytes), SentBody body ∧
      body.length = encryptOutputLength (olmSuite prim) r plaintextLength ∧
      encrypt (olmSuite prim) r m plaintext plaintextLength random (encryptRandomLength r) output
          (encryptOutputLength (olmSuite prim) r plaintextLength)
        = (write m output body, r', some body.length) := by
  generalize hcall : encrypt (olmSuite prim) r m plaintext plaintextLength random
    (encryptRandomLength r) output (encryptOutputLength (olmSuite prim) r plaintextLength) = call
  obtain ⟨m', r', _ | n⟩ := call
  · rw [encrypt] at hcall
    simp only [if_neg (Nat.lt_irrefl _)] at hcall
    cases (Prod.mk.inj (Prod.mk.inj hcall).2).2
  · obtain ⟨counter, ct, mac, hmac, hn, hlength, hwritten⟩ := encrypt_written prim hcall
    refine ⟨r', _, ⟨counter, _, ct, mac, hmac, rfl⟩, hlength.symm.trans hn, ?_⟩
    rw [hwritten, ← hlength]

end OlmRatchet

namespace OlmSession

open ByteMemory OlmCrypto OlmMessage OlmList OlmRatchet OlmAccount OlmBase64

variable (prim : Primitives)

/-- `olm_encrypt_random_length`. -/
def olmEncryptRandomLength (s : Session) : Nat := encryptRandomLength s.ratchet

/-- The strings that a session sends: a string of the ratchet, in a frame until the session has
    received a message. -/
def SentMessage (s : Session) (raw : Bytes) : Prop :=
  ∃ body, SentBody body ∧
    raw = if s.receivedMessage then body else sessionPreKeyBytes s body

/-- A frame that is filled. -/
theorem write_frame (s : Session) (m : Mem) (message : Nat) (body : Bytes) :
    write (encodePreKeyFrame s m body.length message).1
        (encodePreKeyFrame s m body.length message).2 body
      = write m message (sessionPreKeyBytes s body) := by
  obtain ⟨gap, hgap, hframe⟩ := encodePreKeyFrame_eq s m body.length message
  have hlist := write_preKeyMessage m protocolVersion s.bobOneTimeKey.toList
    s.aliceBaseKey.toList s.aliceIdentityKey.toList body hgap message
  simp only [Vector.length_toList] at hlist
  rw [hframe]
  exact hlist

theorem length_sessionPreKeyBytes (s : Session) (body : Bytes) :
    (sessionPreKeyBytes s body).length
      = encodeOneTimeKeyMessageLength curve25519KeyLength curve25519KeyLength curve25519KeyLength
          body.length := by
  have hlength := encodeOneTimeKeyMessageLength_eq protocolVersion s.bobOneTimeKey.toList
    s.aliceBaseKey.toList s.aliceIdentityKey.toList body
  simp only [Vector.length_toList] at hlength
  exact hlength.symm

/-- With the lengths that are asked for, a session sends, and the string has the length that
    was predicted. -/
theorem encrypt_sent (s : Session) (m : Mem) (plaintext plaintextLength random message : Nat) :
    ∃ (s' : Session) (raw : Bytes) (n : Nat), SentMessage s raw ∧
      raw.length = encryptMessageLength prim s plaintextLength ∧
      encrypt prim s m plaintext plaintextLength random (olmEncryptRandomLength s) message
          (encryptMessageLength prim s plaintextLength)
        = (write m message raw, s', some n) := by
  rw [encrypt, if_neg (Nat.lt_irrefl _)]
  by_cases hkind : s.receivedMessage = true
  · obtain ⟨r', body, hbody, hlength, hcall⟩ := OlmRatchet.encrypt_sent prim s.ratchet m plaintext
      plaintextLength random message
    refine ⟨{ s with ratchet := r' }, body, body.length, ⟨body, hbody, (if_pos hkind).symm⟩, ?_, ?_⟩
    · rw [encryptMessageLength, if_pos hkind, hlength]
    · simp only [if_pos hkind, olmEncryptRandomLength, hcall]
  · obtain ⟨r', body, hbody, hlength, hcall⟩ := OlmRatchet.encrypt_sent prim s.ratchet
      (encodePreKeyFrame s m (encryptOutputLength (olmSuite prim) s.ratchet plaintextLength)
        message).1 plaintext plaintextLength random
      (encodePreKeyFrame s m (encryptOutputLength (olmSuite prim) s.ratchet plaintextLength)
        message).2
    refine ⟨{ s with ratchet := r' }, sessionPreKeyBytes s body, body.length,
      ⟨body, hbody, (if_neg hkind).symm⟩, ?_, ?_⟩
    · rw [encryptMessageLength, if_neg hkind, length_sessionPreKeyBytes, hlength]
    · simp only [if_neg hkind, olmEncryptRandomLength, hcall]
      rw [← hlength, write_frame]

/-- Clearing a buffer keeps a frame. -/
theorem unset_sameOutside {p n : Nat} {m m' : Mem} (h : SameOutside p n m m')
    (buffer bufferLength : Nat) :
    SameOutside p n (unset m buffer bufferLength) (unset m' buffer bufferLength) := by
  intro a ha
  rw [unset, unset, write, write, h a ha]

/-- A call of `olm_encrypt` with the lengths that are asked for returns the length of the
    buffer and fills it.  Where the random bytes are not in the buffer, what is encoded is the
    message; they are cleared before. -/
def FillsBuffer (s : Session) (m : Mem) (plaintext plaintextLength random message : Nat) : Prop :=
  ∃ (m' : Mem) (s' : Session) (raw : Bytes),
    olmEncrypt prim s m plaintext plaintextLength random (olmEncryptRandomLength s) message
        (olmEncryptMessageLength prim s plaintextLength)
      = (m', s', some (olmEncryptMessageLength prim s plaintextLength)) ∧
    raw.length = encryptMessageLength prim s plaintextLength ∧
    Filled (unset m random (olmEncryptRandomLength s)) m' message raw ∧
    (Disjoint random (olmEncryptRandomLength s) message
      (olmEncryptMessageLength prim s plaintextLength) → SentMessage s raw)

/-- A smaller buffer is refused, with any number of random bytes. -/
def RefusesSmaller (s : Session) (m : Mem) (plaintext plaintextLength random message : Nat) :
    Prop :=
  ∀ randomLength messageLength, messageLength < olmEncryptMessageLength prim s plaintextLength →
    olmEncrypt prim s m plaintext plaintextLength random randomLength message messageLength
      = (m, { s with lastError := .outputBufferTooSmall }, none)

theorem olmEncrypt_fillsBuffer (s : Session) (m : Mem)
    (plaintext plaintextLength random message : Nat) :
    FillsBuffer prim s m plaintext plaintextLength random message := by
  rw [FillsBuffer]
  have hcheck : ¬olmEncryptMessageLength prim s plaintextLength
      < encodeBase64Length (encryptMessageLength prim s plaintextLength) := Nat.lt_irrefl _
  obtain ⟨s', raw, n, hsent, hlength, hcall⟩ := encrypt_sent prim s m plaintext plaintextLength
    random (b64OutputPos message (encryptMessageLength prim s plaintextLength))
  rw [olmEncryptMessageLength] at hcheck ⊢
  rw [olmEncrypt]
  simp only [if_neg hcheck, hcall]
  rw [← hlength, b64OutputPos]
  have hframe := tail_sameOutside m message raw
  have hraw := read_write_self m (message + encodeBase64Length raw.length - raw.length) raw
  generalize write m (message + encodeBase64Length raw.length - raw.length) raw = m₁ at hframe hraw ⊢
  -- the buffer as it is when it is encoded
  have hfilled := encodeBase64_filled (unset m₁ random (olmEncryptRandomLength s)) raw.length message
  refine ⟨_, s', _, rfl, length_read _ _ _, hfilled.frame ?_, fun hdisjoint => ?_⟩
  · rw [length_read]
    exact unset_sameOutside hframe random (olmEncryptRandomLength s)
  · have hle := le_encodeBase64Length raw.length
    rw [unset, read_write_disjoint, hraw]
    · exact hsent
    · rw [List.length_replicate]
      rcases hdisjoint with hbefore | hbehind
      · exact Or.inl (by omega)
      · exact Or.inr (by omega)

end OlmSession

namespace OlmGroupSession

open OlmSession (Session)
open ByteMemory OlmCrypto OlmMessage OlmBase64 CarryRatchet OlmMegolm

variable (prim : Primitives)

/-- The strings that a group session sends. -/
def SentMessage (session : OutboundGroupSession) (raw : Bytes) : Prop :=
  ∃ (ct mac : Bytes) (signature : Vector UInt8 64), mac.length = cipherMacLength ∧
    raw = groupMessageBytes olmProtocolVersion session.ratchet.counter ct ++ mac
      ++ signature.toList

/-- Every call of `_encrypt` sends, and the string has the length that was predicted. -/
theorem encrypt_sent (session : OutboundGroupSession) (m : Mem)
    (plaintext plaintextLength buffer : Nat) :
    ∃ (session' : OutboundGroupSession) (raw : Bytes) (n : Nat), SentMessage session raw ∧
      raw.length = rawMessageLength prim session plaintextLength ∧
      encrypt prim session m plaintext plaintextLength buffer
        = (write m buffer raw, session', some n) := by
  obtain ⟨gap, hgap, henc⟩ := encodeGroupMessage_eq m olmProtocolVersion session.ratchet.counter
    (cryptoAesEncryptCbcLength plaintextLength) buffer
  obtain ⟨ct, mac, hct, hmac, hcipher⟩ := aesSha256CipherEncrypt_written prim megolmKdfInfo
    (megolmGetData session.ratchet)
    (write m buffer (groupMessageBytes olmProtocolVersion session.ratchet.counter gap)) plaintext
    plaintextLength
    (buffer + groupCiphertextOffset session.ratchet.counter
      (cryptoAesEncryptCbcLength plaintextLength))
    (cryptoAesEncryptCbcLength plaintextLength) buffer
    (groupCiphertextOffset session.ratchet.counter (cryptoAesEncryptCbcLength plaintextLength)
      + cryptoAesEncryptCbcLength plaintextLength + 8) (Nat.le_refl _) (Nat.le_add_left _ _)
  have hstore := encodeGroupMessage_store m olmProtocolVersion session.ratchet.counter ct buffer
  rw [hct, henc] at hstore
  have hbody := length_groupMessageBytes olmProtocolVersion session.ratchet.counter ct
  have hlength := encodeGroupMessageLength_eq olmProtocolVersion session.ratchet.counter ct
    cipherMacLength ed25519SignatureLength
  rw [hct] at hbody hlength
  rw [← hbody] at henc hcipher
  have hsent : SentMessage session (groupMessageBytes olmProtocolVersion session.ratchet.counter ct
      ++ mac ++ (cryptoEd25519Sign prim session.signingKey
        (groupMessageBytes olmProtocolVersion session.ratchet.counter ct ++ mac)).toList) :=
    ⟨ct, mac, _, hmac, rfl⟩
  generalize groupMessageBytes olmProtocolVersion session.ratchet.counter ct = body
    at hstore hlength henc hcipher hsent
  have hsigned : (body ++ mac).length = body.length + 8 := by
    rw [List.length_append, hmac]
    rfl
  refine ⟨{ session with ratchet := megolmAdvance (megolmHmac prim) session.ratchet }, _,
    body.length + 8, hsent, ?_, ?_⟩
  · rw [List.length_append, hsigned, Vector.length_toList]
    exact hlength.symm
  · rw [encrypt]
    simp only [megolmCipher_encrypt, show (megolmCipher prim).macLength = 8 from rfl,
      show (megolmCipher prim).encryptCiphertextLength plaintextLength
        = cryptoAesEncryptCbcLength plaintextLength from rfl, henc]
    rw [hcipher]
    simp only
    rw [hstore, show cipherMacLength = 8 from rfl, ← Nat.add_assoc, Nat.add_sub_cancel,
      ← write_append, Nat.add_assoc buffer, ← hsigned, read_write_self, store, ← write_append]

/-- A call of `olm_group_encrypt` with the length that is asked for returns the length of the
    buffer and fills it with the message. -/
def FillsBuffer (session : OutboundGroupSession) (m : Mem)
    (plaintext plaintextLength message : Nat) : Prop :=
  ∃ (m' : Mem) (session' : OutboundGroupSession) (raw : Bytes),
    groupEncrypt prim session m plaintext plaintextLength message
        (groupEncryptMessageLength prim session plaintextLength)
      = (m', session', some (groupEncryptMessageLength prim session plaintextLength)) ∧
    raw.length = rawMessageLength prim session plaintextLength ∧
    Filled m m' message raw ∧ SentMessage session raw

/-- A smaller buffer is refused. -/
def RefusesSmaller (session : OutboundGroupSession) (m : Mem)
    (plaintext plaintextLength message : Nat) : Prop :=
  ∀ messageLength, messageLength < groupEncryptMessageLength prim session plaintextLength →
    groupEncrypt prim session m plaintext plaintextLength message messageLength
      = (m, { session with lastError := .outputBufferTooSmall }, none)

theorem groupEncrypt_fillsBuffer (session : OutboundGroupSession) (m : Mem)
    (plaintext plaintextLength message : Nat) :
    FillsBuffer prim session m plaintext plaintextLength message := by
  rw [FillsBuffer]
  have hcheck : ¬groupEncryptMessageLength prim session plaintextLength
      < encodeBase64Length (rawMessageLength prim session plaintextLength) := Nat.lt_irrefl _
  obtain ⟨session', raw, n, hsent, hlength, hcall⟩ := encrypt_sent prim session m plaintext
    plaintextLength (message + encodeBase64Length (rawMessageLength prim session plaintextLength)
      - rawMessageLength prim session plaintextLength)
  rw [groupEncryptMessageLength] at hcheck ⊢
  rw [groupEncrypt]
  simp only [if_neg hcheck, hcall]
  rw [← hlength]
  have hframe := tail_sameOutside m message raw
  have hraw := read_write_self m (message + encodeBase64Length raw.length - raw.length) raw
  generalize write m (message + encodeBase64Length raw.length - raw.length) raw = m₁ at hframe hraw ⊢
  have hfilled := encodeBase64_filled m₁ raw.length message
  rw [hraw] at hfilled
  exact ⟨_, session', raw, rfl, rfl, hfilled.frame hframe, hsent⟩

/-- **REPORTED SIZES** are exact: a buffer of the length that was asked for is filled, and any
    smaller one is refused before anything is stored. -/
theorem reportedSizes_exact :
    (∀ (s : Session) (m : Mem) (plaintext plaintextLength random message : Nat),
      OlmSession.FillsBuffer prim s m plaintext plaintextLength random message ∧
      OlmSession.RefusesSmaller prim s m plaintext plaintextLength random message) ∧
    ∀ (session : OutboundGroupSession) (m : Mem) (plaintext plaintextLength message : Nat),
      FillsBuffer prim session m plaintext plaintextLength message ∧
      RefusesSmaller prim session m plaintext plaintextLength message := by
  refine ⟨fun s m plaintext plaintextLength random message => ⟨?_, ?_⟩,
    fun session m plaintext plaintextLength message => ⟨?_, ?_⟩⟩
  · exact OlmSession.olmEncrypt_fillsBuffer prim s m plaintext plaintextLength random message
  · intro randomLength messageLength hsmall
    exact if_pos hsmall
  · exact groupEncrypt_fillsBuffer prim session m plaintext plaintextLength message
  · intro messageLength hsmall
    exact if_pos hsmall

end OlmGroupSession
