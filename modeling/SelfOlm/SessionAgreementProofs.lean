import SelfOlm.InboundSessionProofs
import SelfOlm.RatchetMessageProofs
import SelfOlm.OneTimeKeyProofs
import SelfOlm.SessionFailureProofs

/-! # Both sides of a new session agree

    What the creator of a session sends before it has decrypted anything are
    pre-key messages, and all of them carry the same three keys around a ratchet
    message with the same ratchet key.  A run has the list of these messages; the
    receiver can open the session on any one of them, computes the secret of the
    sender from the other halves of the keys, and recognises all the others. -/

namespace OlmCrypto

open ByteMemory

variable (prim : Primitives)

/-! ## What the cipher writes -/

theorem cbcEncryptLoop_frame (key : Vector UInt8 32) :
    ∀ (k : Nat) (m : Mem) (inputBlock : Block) (input inputLength output : Nat),
      SameOutside output (16 * (k + 1)) m
        (cbcEncryptLoop prim key k m inputBlock input inputLength output) := by
  intro k
  induction k with
  | zero =>
      intro m inputBlock input inputLength output
      refine SameOutside.write_within m (Nat.le_refl _) ?_
      rw [Vector.length_toList]
  | succ k ih =>
      intro m inputBlock input inputLength output
      refine SameOutside.trans (SameOutside.write_within m (Nat.le_refl _) ?_)
        ((ih _ _ _ _ _).mono (Nat.le_add_right _ _) ?_)
      · rw [Vector.length_toList]
        omega
      · omega

/-- The encryption stores the blocks of the ciphertext and nothing else. -/
theorem cryptoAesEncryptCbc_written (key : Vector UInt8 32) (iv : Block) (m : Mem)
    (input inputLength output : Nat) :
    ∃ ct : Bytes, ct.length = cryptoAesEncryptCbcLength inputLength ∧
      cryptoAesEncryptCbc prim key iv m input inputLength output = write m output ct := by
  have hframe := cbcEncryptLoop_frame prim key (inputLength / 16) m iv input inputLength output
  refine ⟨_, ?_, hframe.eq_write⟩
  rw [length_read, cryptoAesEncryptCbcLength]
  omega

/-- Ciphertext and MAC, wherever the plaintext is. -/
theorem aesSha256CipherEncrypt_written (kdfInfo key : Bytes) (m : Mem)
    (plaintext plaintextLength ciphertext ciphertextLength output outputLength : Nat)
    (hroom : cryptoAesEncryptCbcLength plaintextLength ≤ ciphertextLength)
    (hmac : cipherMacLength ≤ outputLength) :
    ∃ ct mac : Bytes, ct.length = cryptoAesEncryptCbcLength plaintextLength ∧
      mac.length = cipherMacLength ∧
      aesSha256CipherEncrypt prim kdfInfo key m plaintext plaintextLength ciphertext
          ciphertextLength output outputLength
        = (write (write m ciphertext ct) (output + outputLength - cipherMacLength) mac,
            some outputLength) := by
  obtain ⟨ct, hct, hwritten⟩ := cryptoAesEncryptCbc_written prim
    (deriveKeys prim kdfInfo key).aesKey (deriveKeys prim kdfInfo key).aesIv m plaintext
    plaintextLength ciphertext
  refine ⟨ct, (cryptoHmacSha256 prim (deriveKeys prim kdfInfo key).macKey.toList
    (read (write m ciphertext ct) output (outputLength - cipherMacLength))).toList.take
      cipherMacLength, hct, ?_, ?_⟩
  · rw [List.length_take, Vector.length_toList]
    rfl
  · rw [aesSha256CipherEncrypt, if_neg (by omega)]
    simp only
    rw [hwritten]

end OlmCrypto

namespace OlmRatchet

open ByteMemory OlmCrypto OlmMessage OlmList
open OlmSession (SharedKey olmSuite)

variable (prim : Primitives)

/-- A chain that is there is used, whatever is random. -/
theorem senderChainFor_some {K I : Type} (S : Suite K I) {r : Ratchet K} {chain : SenderChain K}
    {rest : List (SenderChain K)} (h : r.senderChain.toList = chain :: rest)
    (random : Vector UInt8 32) : senderChainFor S r random = (r.rootKey, chain) := by
  rw [senderChainFor, h]

/-- **A MESSAGE THAT IS SENT** is well formed, also where the plaintext is in the output. -/
theorem encrypt_written {r r' : Ratchet SharedKey} {m m' : Mem}
    {plaintext plaintextLength random randomLength output maxOutputLength n : Nat}
    (h : encrypt (olmSuite prim) r m plaintext plaintextLength random randomLength output
      maxOutputLength = (m', r', some n)) :
    ∃ (counter : UInt32) (ct mac : Bytes), mac.length = cipherMacLength ∧
      n = encryptOutputLength (olmSuite prim) r plaintextLength ∧
      n = (messageBytes protocolVersion counter (senderChainFor (olmSuite prim) r
        (load 32 m random)).2.ratchetKey.publicKey.toList ct ++ mac).length ∧
      m' = write m output (messageBytes protocolVersion counter (senderChainFor (olmSuite prim) r
        (load 32 m random)).2.ratchetKey.publicKey.toList ct ++ mac) := by
  obtain ⟨rfl, -, hm⟩ := encrypt_stored (olmSuite prim) h
  simp only [afterStoring] at hm
  have hlength := encryptOutputLength_eq prim r (load 32 m random)
    (senderChainFor (olmSuite prim) r (load 32 m random)).2.ratchetKey.publicKey
    (List.replicate plaintextLength 0)
  rw [List.length_replicate, length_ratchetMessage, length_ratchetBody, List.length_replicate,
    sendingKey] at hlength
  generalize (senderChainFor (olmSuite prim) r (load 32 m random)).2 = chain at *
  generalize createMessageKeys (olmSuite prim) chain.chainKey = key at *
  obtain ⟨gap₁, gap₂, hgap₁, hgap₂, henc⟩ := encodeMessage_eq m protocolVersion key.index 32
    (cryptoAesEncryptCbcLength plaintextLength) output
  obtain ⟨ct, mac, hct, hmac, hcipher⟩ := aesSha256CipherEncrypt_written prim olmCipherInfo
    key.key.toList (store (encodeMessage m protocolVersion key.index 32
      (cryptoAesEncryptCbcLength plaintextLength) output).1 (output + ratchetKeyOffset 32)
      chain.ratchetKey.publicKey) plaintext plaintextLength
    (output + ciphertextOffset key.index 32 (cryptoAesEncryptCbcLength plaintextLength))
    (cryptoAesEncryptCbcLength plaintextLength) output
    (encryptOutputLength (olmSuite prim) r plaintextLength) (Nat.le_refl _) (by show 8 ≤ _; omega)
  have hbody := length_messageBytes protocolVersion key.index chain.ratchetKey.publicKey.toList ct
  rw [Vector.length_toList, hct] at hbody
  refine ⟨key.index, ct, mac, hmac, rfl, ?_, ?_⟩
  · rw [List.length_append, hbody, hlength, hmac]
    rfl
  · have hstore := encodeMessage_store m protocolVersion key.index
      chain.ratchetKey.publicKey.toList ct output
    rw [Vector.length_toList, hct] at hstore
    have hciphertext : (olmSuite prim).ratchetCipher.encryptCiphertextLength plaintextLength
        = cryptoAesEncryptCbcLength plaintextLength := rfl
    rw [hm]
    simp only [olmSuite_encrypt]
    rw [show curve25519KeyLength = 32 from rfl, hciphertext]
    rw [henc] at hcipher hstore ⊢
    simp only at hcipher ⊢
    rw [hcipher, store, hstore, hlength, show cipherMacLength = 8 from rfl, ← Nat.add_assoc,
      Nat.add_sub_cancel, ← hbody, ← write_append]

end OlmRatchet

namespace OlmAccount

open ByteMemory OlmCrypto OlmList

variable {prim : Primitives}

/-! ## Accounts -/

/-- The public keys of an account belong to its private keys. -/
structure KeysMatch (prim : Primitives) (a : Account) : Prop where
  identityKey : a.identityKeys.curve25519Key.Matches prim
  oneTimeKeys : ∀ key ∈ a.oneTimeKeys.toList, key.key.Matches prim

theorem newAccount_keysMatch {a : Account} {m : Mem} {random randomLength n : Nat}
    (h : newAccount prim newAccountObject m random randomLength = (a, some n)) :
    KeysMatch prim a := by
  rw [newAccount] at h
  by_cases hrandom : randomLength < newAccountRandomLength
  · rw [if_pos hrandom] at h
    cases (Prod.mk.inj h).2
  · rw [if_neg hrandom] at h
    obtain rfl := (Prod.mk.inj h).1
    refine ⟨rfl, fun key hkey => ?_⟩
    cases hkey

/-- No call stores a key pair that does not match. -/
theorem StoreStep.keysMatch (hinv : prim.AesInverts) {a a' : Account} {new : List OneTimeKey}
    (hstep : StoreStep prim a new a') (h : KeysMatch prim a) : KeysMatch prim a' := by
  cases hstep with
  | @generated n randomLength m random hrandom =>
      obtain ⟨hkeys, -, -⟩ := generateOneTimeKeys_toList prim a m random hrandom
      refine ⟨?_, fun key hkey => ?_⟩
      · rw [generateOneTimeKeys, if_neg (Nat.not_lt.mpr hrandom), generateOneTimeKeysLoop_eq]
        exact h.identityKey
      · -- the new keys stand in front, and the oldest make way where there is no room
        rw [hkeys] at hkey
        rcases List.mem_append.mp (List.mem_of_mem_take hkey) with hnew | hold
        · obtain ⟨i, -, rfl⟩ := List.mem_map.mp (List.mem_reverse.mp hnew)
          exact cryptoCurve25519GenerateKey_matches prim _
        · exact h.oneTimeKeys key hold
  | @refused n randomLength m random hrandom =>
      rw [generateOneTimeKeys, if_pos hrandom]
      exact ⟨h.identityKey, h.oneTimeKeys⟩
  | marked =>
      refine ⟨h.identityKey, fun key hkey => ?_⟩
      obtain ⟨old, hold, rfl⟩ := List.mem_map.mp hkey
      exact h.oneTimeKeys old hold
  | removed publicKey =>
      rw [removeKey]
      cases a.oneTimeKeys.toList.findIdx? (fun key => key.key.publicKey = publicKey) with
      | none => exact h
      | some i =>
          exact ⟨h.identityKey, fun key hkey => h.oneTimeKeys key (BoundedList.mem_erase hkey)⟩
  | reloaded hreload =>
      rw [hreload.eq hinv]
      exact ⟨h.identityKey, h.oneTimeKeys⟩

/-- Accounts that come from `new_account` and any calls behind it. -/
inductive AccountRun (prim : Primitives) : Account → Prop where
  | created {a : Account} {m : Mem} {random randomLength n : Nat}
      (h : newAccount prim newAccountObject m random randomLength = (a, some n)) :
      AccountRun prim a
  | step {a a' : Account} {new : List OneTimeKey} (hrun : AccountRun prim a)
      (hstep : StoreStep prim a new a') : AccountRun prim a'

/-- **ACCOUNTS**: the public keys of every account belong to its private keys. -/
theorem AccountRun.keysMatch (hinv : prim.AesInverts) {a : Account} (hrun : AccountRun prim a) :
    KeysMatch prim a := by
  induction hrun with
  | created h => exact newAccount_keysMatch h
  | step hrun hstep ih => exact hstep.keysMatch hinv ih

end OlmAccount

namespace OlmSession

open ByteMemory OlmCrypto OlmMessage OlmList OlmRatchet OlmAccount

variable (prim : Primitives)

/-! ## Pre-key messages -/

/-- The string of a pre-key message of a session. -/
def sessionPreKeyBytes (s : Session) (body : Bytes) : Bytes :=
  preKeyMessageBytes protocolVersion s.bobOneTimeKey.toList s.aliceBaseKey.toList
    s.aliceIdentityKey.toList body

/-- The frame with the three keys, and the place for the body. -/
theorem encodePreKeyFrame_eq (s : Session) (m : Mem) (messageBodyLength message : Nat) :
    ∃ gap : Bytes, gap.length = messageBodyLength ∧
      encodePreKeyFrame s m messageBodyLength message
        = (write m message (sessionPreKeyBytes s gap),
            message + messageOffset 32 32 32 messageBodyLength) := by
  obtain ⟨gap, hgap, hkeys⟩ := encodeOneTimeKeyMessage_storeKeys m protocolVersion
    s.bobOneTimeKey.toList s.aliceBaseKey.toList s.aliceIdentityKey.toList messageBodyLength message
  obtain ⟨g₁, g₂, g₃, g₄, -, -, -, -, hwriter⟩ := encodeOneTimeKeyMessage_eq m protocolVersion
    32 32 32 messageBodyLength message
  simp only [Vector.length_toList] at hkeys
  rw [hwriter] at hkeys
  refine ⟨gap, hgap, ?_⟩
  rw [encodePreKeyFrame, show curve25519KeyLength = 32 from rfl, hwriter, sessionPreKeyBytes, ← hkeys]
  rfl

/-- Where the body of the next message goes, in the memory with the frame. -/
def bodyPlace (s : Session) (m : Mem) (plaintextLength message : Nat) : Mem × Nat :=
  if s.receivedMessage then (m, message)
  else encodePreKeyFrame s m (encryptOutputLength (olmSuite prim) s.ratchet plaintextLength) message

/-- The call of a session that sends a message is one of its ratchet. -/
theorem encrypt_body {s s' : Session} {m m' : Mem}
    {plaintext plaintextLength random randomLength message messageLength n : Nat}
    (h : encrypt prim s m plaintext plaintextLength random randomLength message messageLength
      = (m', s', some n)) :
    encryptMessageLength prim s plaintextLength ≤ messageLength ∧
      s' = { s with ratchet := s'.ratchet } ∧
      OlmRatchet.encrypt (olmSuite prim) s.ratchet (bodyPlace prim s m plaintextLength message).1
        plaintext plaintextLength random randomLength
        (bodyPlace prim s m plaintextLength message).2
        (encryptOutputLength (olmSuite prim) s.ratchet plaintextLength)
        = (m', s'.ratchet, some n) := by
  rw [encrypt] at h
  by_cases hroom : messageLength < encryptMessageLength prim s plaintextLength
  · rw [if_pos hroom] at h
    cases (Prod.mk.inj (Prod.mk.inj h).2).2
  rw [if_neg hroom] at h
  simp only at h
  rw [← bodyPlace] at h
  generalize bodyPlace prim s m plaintextLength message = place at h ⊢
  generalize hcall : OlmRatchet.encrypt (olmSuite prim) s.ratchet place.1 plaintext plaintextLength
    random randomLength place.2 (encryptOutputLength (olmSuite prim) s.ratchet plaintextLength)
    = call at h ⊢
  obtain ⟨m₁, r₁, _ | result⟩ := call
  · cases (Prod.mk.inj (Prod.mk.inj h).2).2
  obtain ⟨hm, hcalled⟩ := Prod.mk.inj h
  obtain ⟨hs, hn⟩ := Prod.mk.inj hcalled
  subst hm hs
  exact ⟨Nat.not_lt.mp hroom, rfl, by rw [hn]⟩

/-- **A PRE-KEY MESSAGE THAT IS SENT** carries the keys of the session around a message of the
    ratchet; the sender chain keeps its ratchet key. -/
theorem encrypt_preKey {s s' : Session} {m m' : Mem}
    {plaintext plaintextLength random randomLength message messageLength n : Nat}
    (h : encrypt prim s m plaintext plaintextLength random randomLength message messageLength
      = (m', s', some n)) (hkind : s.receivedMessage = false) {chain : SenderChain SharedKey}
    (hchain : s.ratchet.senderChain.toList = [chain]) :
    (∃ (counter : UInt32) (ct mac : Bytes), mac.length = cipherMacLength ∧
      read m' message (encryptMessageLength prim s plaintextLength) = sessionPreKeyBytes s
        (messageBytes protocolVersion counter chain.ratchetKey.publicKey.toList ct ++ mac)) ∧
      s' = { s with ratchet := { s.ratchet with
        senderChain := BoundedList.empty.insert { chain with
          chainKey := advanceChainKey (olmSuite prim) chain.chainKey } } } ∧
      encryptMessageLength prim s plaintextLength ≤ messageLength := by
  obtain ⟨hroom, hs, hcall⟩ := encrypt_body prim h
  obtain ⟨gap, hgap, hframe⟩ := encodePreKeyFrame_eq s m
    (encryptOutputLength (olmSuite prim) s.ratchet plaintextLength) message
  have hframed : ¬s.receivedMessage = true := by
    rw [hkind]
    exact Bool.false_ne_true
  rw [bodyPlace, if_neg hframed, hframe] at hcall
  have hratchet := encrypt_some (olmSuite prim) hcall
  obtain ⟨counter, ct, mac, hmac, hn, hlength, hwritten⟩ := encrypt_written prim hcall
  rw [afterSending] at hratchet
  rw [senderChainFor_some (olmSuite prim) hchain] at hratchet hlength hwritten
  simp only at hratchet hlength hwritten
  refine ⟨⟨counter, ct, mac, hmac, ?_⟩, ?_, hroom⟩
  · generalize messageBytes protocolVersion counter chain.ratchetKey.publicKey.toList ct ++ mac
      = body at hlength hwritten ⊢
    rw [← hn, hlength] at hgap hwritten
    have hlist := write_preKeyMessage m protocolVersion s.bobOneTimeKey.toList
      s.aliceBaseKey.toList s.aliceIdentityKey.toList body hgap message
    have hlen := encodeOneTimeKeyMessageLength_eq protocolVersion s.bobOneTimeKey.toList
      s.aliceBaseKey.toList s.aliceIdentityKey.toList body
    simp only [Vector.length_toList] at hlist hlen
    rw [encryptMessageLength, if_neg hframed, ← hn, hlength]
    rw [show curve25519KeyLength = 32 from rfl, hlen, hwritten, sessionPreKeyBytes, hlist]
    exact read_write_self _ _ _
  · rw [hs, hratchet]

/-! ## Runs -/

/-- The calls of the creator of a session before it decrypts anything, with the messages that
    it has sent, the last one first. -/
inductive OutboundRun (start : Session) : List Bytes → Session → Prop where
  | start : OutboundRun start [] start
  | sent {messages : List Bytes} {s s' : Session} {m m' : Mem}
      {plaintext plaintextLength random randomLength message messageLength n : Nat}
      (hrun : OutboundRun start messages s) (hsize : messageLength < 2 ^ 64)
      (hcall : encrypt prim s m plaintext plaintextLength random randomLength message
        messageLength = (m', s', some n)) :
      OutboundRun start
        (read m' message (encryptMessageLength prim s plaintextLength) :: messages) s'
  | notSent {messages : List Bytes} {s s' : Session} {m m' : Mem}
      {plaintext plaintextLength random randomLength message messageLength : Nat}
      (hrun : OutboundRun start messages s)
      (hcall : encrypt prim s m plaintext plaintextLength random randomLength message
        messageLength = (m', s', none)) :
      OutboundRun start messages s'
  | notDecrypted {messages : List Bytes} {s s' : Session} {stack : MessageReader}
      {messageType : MessageType} {m m' : Mem}
      {message messageLength plaintext maxPlaintextLength : Nat}
      (hrun : OutboundRun start messages s)
      (hcall : decrypt prim s stack messageType m message messageLength plaintext
        maxPlaintextLength = (m', s', none)) :
      OutboundRun start messages s'

/-- What the calls do not change: all but the key and the index of the sender chain. -/
structure Outbound (start : Session) (ratchetKey : Curve25519KeyPair) (s : Session) : Prop where
  receivedMessage : s.receivedMessage = false
  aliceIdentityKey : s.aliceIdentityKey = start.aliceIdentityKey
  aliceBaseKey : s.aliceBaseKey = start.aliceBaseKey
  bobOneTimeKey : s.bobOneTimeKey = start.bobOneTimeKey
  rootKey : s.ratchet.rootKey = start.ratchet.rootKey
  senderChain : ∃ chainKey, s.ratchet.senderChain.toList = [{ ratchetKey, chainKey }]

/-- A message with the keys of the session around a message with the ratchet key. -/
def PreKeyMessageOf (start : Session) (ratchetKey : Curve25519PublicKey) (bytes : Bytes) : Prop :=
  bytes.length < 2 ^ 64 ∧ ∃ (counter : UInt32) (ct mac : Bytes), mac.length = cipherMacLength ∧
    bytes = sessionPreKeyBytes start
      (messageBytes protocolVersion counter ratchetKey.toList ct ++ mac)

variable {prim} {start : Session} {ratchetKey : Curve25519KeyPair}

/-- The keys that decide about the bytes of a pre-key message. -/
theorem Outbound.sessionPreKeyBytes {s : Session} (h : Outbound start ratchetKey s)
    (body : Bytes) : sessionPreKeyBytes s body = OlmSession.sessionPreKeyBytes start body := by
  rw [OlmSession.sessionPreKeyBytes, OlmSession.sessionPreKeyBytes, h.bobOneTimeKey,
    h.aliceBaseKey, h.aliceIdentityKey]

/-- A call that fails. -/
theorem Outbound.failed {s s' : Session} (h : Outbound start ratchetKey s)
    (hsame : s'.withoutErrors = s.withoutErrors) : Outbound start ratchetKey s' where
  receivedMessage := (congrArg Session.receivedMessage hsame).trans h.receivedMessage
  aliceIdentityKey := (congrArg Session.aliceIdentityKey hsame).trans h.aliceIdentityKey
  aliceBaseKey := (congrArg Session.aliceBaseKey hsame).trans h.aliceBaseKey
  bobOneTimeKey := (congrArg Session.bobOneTimeKey hsame).trans h.bobOneTimeKey
  rootKey := (congrArg (fun s => s.ratchet.rootKey) hsame).trans h.rootKey
  senderChain := by
    obtain ⟨chainKey, hchain⟩ := h.senderChain
    exact ⟨chainKey, (congrArg (fun s => s.ratchet.senderChain.toList) hsame).trans hchain⟩

/-- A call that sends a message. -/
theorem Outbound.sent {s s' : Session} (h : Outbound start ratchetKey s) {m m' : Mem}
    {plaintext plaintextLength random randomLength message messageLength n : Nat}
    (hsize : messageLength < 2 ^ 64)
    (hcall : encrypt prim s m plaintext plaintextLength random randomLength message messageLength
      = (m', s', some n)) :
    Outbound start ratchetKey s' ∧ PreKeyMessageOf start ratchetKey.publicKey
      (read m' message (encryptMessageLength prim s plaintextLength)) := by
  obtain ⟨chainKey, hchain⟩ := h.senderChain
  obtain ⟨⟨counter, ct, mac, hmac, hbytes⟩, rfl, hroom⟩ :=
    encrypt_preKey prim hcall h.receivedMessage hchain
  refine ⟨⟨h.receivedMessage, h.aliceIdentityKey, h.aliceBaseKey, h.bobOneTimeKey, h.rootKey,
    advanceChainKey (olmSuite prim) chainKey, rfl⟩, ?_, counter, ct, mac, hmac, ?_⟩
  · rw [length_read]
    omega
  · rw [hbytes, h.sessionPreKeyBytes]

/-- **EVERY RUN** sends pre-key messages of the session. -/
theorem OutboundRun.outbound {messages : List Bytes} {s : Session}
    (hstart : Outbound start ratchetKey start) (hrun : OutboundRun prim start messages s) :
    Outbound start ratchetKey s ∧
      ∀ bytes ∈ messages, PreKeyMessageOf start ratchetKey.publicKey bytes := by
  induction hrun with
  | start =>
      refine ⟨hstart, fun bytes hmem => ?_⟩
      cases hmem
  | sent hrun hsize hcall ih =>
      obtain ⟨hnext, hbytes⟩ := ih.1.sent hsize hcall
      refine ⟨hnext, fun bytes hmem => ?_⟩
      rcases List.mem_cons.mp hmem with rfl | hmem
      · exact hbytes
      · exact ih.2 bytes hmem
  | notSent hrun hcall ih => exact ⟨ih.1.failed (encrypt_failed prim hcall), ih.2⟩
  | notDecrypted hrun hcall ih => exact ⟨ih.1.failed (decrypt_failed prim hcall), ih.2⟩

/-! ## Agreement -/

/-- The secret of the creator, from the other halves of the keys. -/
theorem inboundSecret_eq (hdh : prim.DhCommutes) {alice bob : Account} {oneTimeKey : OneTimeKey}
    {baseKey : Curve25519KeyPair} (halice : alice.identityKeys.curve25519Key.Matches prim)
    (hbob : bob.identityKeys.curve25519Key.Matches prim) (hkey : oneTimeKey.key.Matches prim)
    (hbase : baseKey.Matches prim) :
    inboundSecret prim bob oneTimeKey alice.identityKeys.curve25519Key.publicKey baseKey.publicKey
      = (cryptoCurve25519SharedSecret prim alice.identityKeys.curve25519Key
            oneTimeKey.key.publicKey).toList
          ++ (cryptoCurve25519SharedSecret prim baseKey
            bob.identityKeys.curve25519Key.publicKey).toList
          ++ (cryptoCurve25519SharedSecret prim baseKey oneTimeKey.key.publicKey).toList := by
  rw [inboundSecret, sharedSecret_comm prim hdh hkey halice, sharedSecret_comm prim hdh hbob hbase,
    sharedSecret_comm prim hdh hkey hbase]

/-- A message with these keys matches a session with these keys. -/
theorem matchesInboundSession_iff {s : Session} {theirIdentityKey : Option Curve25519PublicKey}
    {m : Mem} {message messageLength : Nat} {oneTimeKey baseKey identityKey : Curve25519PublicKey}
    {body : Bytes}
    (h : Carries (outerReader m message messageLength) m oneTimeKey baseKey identityKey body) :
    matchesInboundSession s theirIdentityKey m message messageLength = true
      ↔ identityKey = s.aliceIdentityKey ∧
        (∀ theirKey, theirIdentityKey = some theirKey → theirKey = s.aliceIdentityKey) ∧
        baseKey = s.aliceBaseKey ∧ oneTimeKey = s.bobOneTimeKey := by
  have hchecked := ((outerAccepted_iff _ m none).mp
    (h.outerAccepted (by intro theirKey hnone; cases hnone))).1
  obtain ⟨p₁, h₁, hl₁⟩ := h.oneTimeKey
  obtain ⟨p₂, h₂, hl₂⟩ := h.baseKey
  obtain ⟨p₃, h₃, hl₃⟩ := h.identityKey
  have hfields : checkMessageFields (outerReader m message messageLength)
      theirIdentityKey.isSome = true := by
    rw [checkMessageFields, h₃] at hchecked ⊢
    rw [Option.isSome_some, Bool.or_true] at hchecked ⊢
    exact hchecked
  unfold matchesInboundSession
  rw [show decodeOneTimeKeyMessage preKeyReader m message messageLength
    = outerReader m message messageLength from rfl]
  simp only
  rw [hfields, h₁, h₂, h₃]
  simp only [Bool.not_true, if_neg Bool.false_ne_true, Option.getD_some, Bool.and_eq_true,
    decide_eq_true_eq, hl₁, hl₂, hl₃]
  rw [and_assoc, and_assoc]
  refine and_congr_right (fun _ => and_congr_left (fun _ => ?_))
  cases theirIdentityKey with
  | none => exact iff_of_true rfl (by intro theirKey hnone; cases hnone)
  | some theirKey =>
      rw [decide_eq_true_eq]
      constructor
      · intro hkey other hother
        rw [← Option.some.inj hother, hkey]
      · intro hkeys
        exact hkeys theirKey rfl

/-- What the two sides know, and what a session on the receiver's side recognises. -/
structure Agree (prim : Primitives) (start : Session) (messages : List Bytes) (s s' : Session) :
    Prop where
  rootKey : s'.ratchet.rootKey = s.ratchet.rootKey
  receiverChain : ∃ chain : SenderChain SharedKey, start.ratchet.senderChain.toList = [chain] ∧
    chain.chainKey.index = 0 ∧ s'.ratchet.receiverChains.toList
      = [{ ratchetKey := chain.ratchetKey.publicKey, chainKey := chain.chainKey }]
  sessionId : ∀ (m : Mem) (id idLength : Nat),
    (sessionId prim s' m id idLength).1 = (sessionId prim s m id idLength).1 ∧
      (sessionId prim s' m id idLength).2.2 = (sessionId prim s m id idLength).2.2
  matchesOwn : ∀ bytes ∈ messages, ∀ (m : Mem) (message messageLength : Nat)
    (theirIdentityKey : Option Curve25519PublicKey), read m message messageLength = bytes →
    (theirIdentityKey = none ∨ theirIdentityKey = some start.aliceIdentityKey) →
    matchesInboundSession s' theirIdentityKey m message messageLength = true
  matchesOnly : ∀ (m : Mem) (message messageLength : Nat)
    (theirIdentityKey : Option Curve25519PublicKey)
    (oneTimeKey baseKey identityKey : Curve25519PublicKey) (body : Bytes),
    Carries (outerReader m message messageLength) m oneTimeKey baseKey identityKey body →
    (identityKey ≠ start.aliceIdentityKey ∨ baseKey ≠ start.aliceBaseKey ∨
      oneTimeKey ≠ start.bobOneTimeKey) →
    matchesInboundSession s' theirIdentityKey m message messageLength = false

/-- The keys are enough for the session id. -/
theorem sessionId_congr {s s' : Session} (hid : s'.aliceIdentityKey = s.aliceIdentityKey)
    (hbase : s'.aliceBaseKey = s.aliceBaseKey) (hone : s'.bobOneTimeKey = s.bobOneTimeKey)
    (m : Mem) (id idLength : Nat) :
    (sessionId prim s' m id idLength).1 = (sessionId prim s m id idLength).1 ∧
      (sessionId prim s' m id idLength).2.2 = (sessionId prim s m id idLength).2.2 := by
  rw [sessionId, sessionId, hid, hbase, hone]
  by_cases hroom : idLength < sessionIdLength
  · rw [if_pos hroom, if_pos hroom]
    exact ⟨rfl, rfl⟩
  · rw [if_neg hroom, if_neg hroom]
    exact ⟨rfl, rfl⟩

/-- A message of the session in memory. -/
theorem PreKeyMessageOf.carries {publicKey : Curve25519PublicKey} {bytes : Bytes}
    (h : PreKeyMessageOf start publicKey bytes) {m : Mem} {message messageLength : Nat}
    (hread : read m message messageLength = bytes) :
    ∃ body, Carries (outerReader m message messageLength) m start.bobOneTimeKey
      start.aliceBaseKey start.aliceIdentityKey body := by
  obtain ⟨hsize, counter, ct, mac, -, hbytes⟩ := h
  have hlength : messageLength < 2 ^ 64 := by
    rw [← hread, length_read] at hsize
    exact hsize
  exact ⟨_, outerReader_carries hlength (hread.trans hbytes)⟩

/-- **BOTH SIDES AGREE**: any message that the creator of a session sends before it decrypts
    anything opens the session of the receiver. -/
theorem newInboundSession_agrees (hdh : prim.DhCommutes) {alice bob : Account}
    (halice : alice.identityKeys.curve25519Key.Matches prim) (hbob : KeysMatch prim bob)
    (hdistinct : (bob.oneTimeKeys.toList.map (fun key => key.key.publicKey)).Nodup)
    {oneTimeKey : OneTimeKey} (hheld : oneTimeKey ∈ bob.oneTimeKeys.toList)
    {m : Mem} {random randomLength n : Nat}
    (hstart : newOutboundSession prim newSession alice bob.identityKeys.curve25519Key.publicKey
      oneTimeKey.key.publicKey m random randomLength = (start, some n))
    {messages : List Bytes} {s : Session} (hrun : OutboundRun prim start messages s)
    {bytes : Bytes} (hbytes : bytes ∈ messages) {theirIdentityKey : Option Curve25519PublicKey}
    (htheirs : theirIdentityKey = none ∨
      theirIdentityKey = some alice.identityKeys.curve25519Key.publicKey)
    {m' : Mem} {message messageLength : Nat} (hmessage : read m' message messageLength = bytes) :
    ∃ s', newInboundSession prim newSession bob theirIdentityKey m' message messageLength
        = some (s', some 0) ∧ Agree prim start messages s s' := by
  rw [newOutboundSession] at hstart
  by_cases hrandom : randomLength < newOutboundSessionRandomLength
  · rw [if_pos hrandom] at hstart
    cases (Prod.mk.inj hstart).2
  rw [if_neg hrandom] at hstart
  obtain ⟨hsession, -⟩ := Prod.mk.inj hstart
  have hbase := cryptoCurve25519GenerateKey_matches prim (load 32 m random)
  generalize cryptoCurve25519GenerateKey prim (load 32 m random) = baseKey at hsession hbase
  generalize cryptoCurve25519GenerateKey prim (load 32 m (random + 32)) = ratchetKey at hsession
  rw [← inboundSecret_eq hdh halice hbob.identityKey (hbob.oneTimeKeys _ hheld) hbase] at hsession
  have houtbound : Outbound start ratchetKey start := by
    subst hsession
    exact ⟨rfl, rfl, rfl, rfl, rfl, _, rfl⟩
  obtain ⟨hs, hmessages⟩ := hrun.outbound houtbound
  obtain ⟨hsize, counter, ct, mac, hmac, hbytes⟩ := hmessages bytes hbytes
  have hlength : messageLength < 2 ^ 64 := by
    rw [← hmessage, length_read] at hsize
    exact hsize
  have hlookup : lookupKey bob start.bobOneTimeKey = some oneTimeKey := by
    subst hsession
    exact find?_publicKey hdistinct hheld
  have hkeys : ∀ theirKey, theirIdentityKey = some theirKey → theirKey = start.aliceIdentityKey := by
    subst hsession
    intro theirKey hkey
    rcases htheirs with hnone | hsome
    · cases hnone.symm.trans hkey
    · exact Option.some.inj (hkey.symm.trans hsome)
  have hcreated := newInboundSession_encoded prim (s := newSession) hlength
    (hmessage.trans hbytes) hmac hkeys hlookup
  obtain ⟨chainKey, hchain, hindex, hreceiver⟩ : ∃ chainKey : ChainKey SharedKey,
      start.ratchet.senderChain.toList = [{ ratchetKey, chainKey }] ∧ chainKey.index = 0 ∧
        (initialiseAsBob (olmSuite prim) newSession.ratchet (inboundSecret prim bob oneTimeKey
          start.aliceIdentityKey start.aliceBaseKey) ratchetKey.publicKey).receiverChains.toList
          = [{ ratchetKey := ratchetKey.publicKey, chainKey }] := by
    subst hsession
    exact ⟨_, rfl, rfl, rfl⟩
  refine ⟨_, hcreated, ?_, ⟨{ ratchetKey, chainKey }, hchain, hindex, hreceiver⟩, ?_, ?_, ?_⟩
  · rw [hs.rootKey]
    subst hsession
    rfl
  · exact sessionId_congr hs.aliceIdentityKey.symm hs.aliceBaseKey.symm hs.bobOneTimeKey.symm
  · intro other hother m₁ message₁ messageLength₁ theirs hread htheirs
    obtain ⟨body, hcarries⟩ := (hmessages other hother).carries hread
    refine (matchesInboundSession_iff hcarries).mpr ⟨rfl, ?_, rfl, rfl⟩
    intro theirKey hkey
    rcases htheirs with hnone | hsome
    · cases hnone.symm.trans hkey
    · exact Option.some.inj (hkey.symm.trans hsome)
  · intro m₁ message₁ messageLength₁ theirs oneTimeKey₁ baseKey₁ identityKey₁ body hcarries hother
    rw [← Bool.not_eq_true, matchesInboundSession_iff hcarries]
    rintro ⟨hid, -, hbase, hone⟩
    rcases hother with hother | hother | hother
    · exact hother hid
    · exact hother hbase
    · exact hother hone

/-- An account with one one-time key. -/
def demoAccount : Account :=
  (generateOneTimeKeys demoPrimitives (newAccount demoPrimitives newAccountObject demoKeyMemory 0
    64).1 1 demoKeyMemory 64 32).1

theorem demoAccount_keysMatch : KeysMatch demoPrimitives demoAccount := by
  have hcreated : newAccount demoPrimitives newAccountObject demoKeyMemory 0 64
      = ((newAccount demoPrimitives newAccountObject demoKeyMemory 0 64).1, some 0) := rfl
  exact ((AccountRun.created hcreated).step
    (StoreStep.generated _ demoKeyMemory 64 (by decide))).keysMatch demoPrimitives_aesInverts

/-- A session of an account with itself, as it is created. -/
def demoStart : Session :=
  (newOutboundSession demoPrimitives newSession demoAccount
    demoAccount.identityKeys.curve25519Key.publicKey
    (cryptoCurve25519GenerateKey demoPrimitives (load 32 demoKeyMemory 64)).publicKey demoKeyMemory
    96 64).1

/-- The call that sends two bytes. -/
def demoSent : Mem × Session × Option Nat :=
  encrypt demoPrimitives demoStart demoKeyMemory 0 2 0 0 300 200

theorem newInboundSession_agrees_demo :
    ∃ s', newInboundSession demoPrimitives newSession demoAccount none demoSent.1 300
        (encryptMessageLength demoPrimitives demoStart 2) = some (s', some 0) ∧
      Agree demoPrimitives demoStart
        [read demoSent.1 300 (encryptMessageLength demoPrimitives demoStart 2)] demoSent.2.1 s' := by
  have hkeys := demoAccount_keysMatch
  have hstart : newOutboundSession demoPrimitives newSession demoAccount
      demoAccount.identityKeys.curve25519Key.publicKey
      (cryptoCurve25519GenerateKey demoPrimitives (load 32 demoKeyMemory 64)).publicKey
      demoKeyMemory 96 64 = (demoStart, some 0) := rfl
  have hsent : demoSent = (demoSent.1, demoSent.2.1, some 63) :=
    Prod.ext rfl (Prod.ext rfl (by decide +kernel))
  exact newInboundSession_agrees demoPrimitives_dhCommutes hkeys.identityKey hkeys
    (List.nodup_singleton _) (List.mem_singleton.mpr rfl) hstart
    (OutboundRun.sent OutboundRun.start (show 200 < 2 ^ 64 by decide) hsent)
    (List.mem_singleton.mpr rfl) (Or.inl rfl) rfl

end OlmSession
