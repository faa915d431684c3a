import SelfOlm.Conversation

/-! # The messages of a conversation

    What a session sends is a message of its ratchet, in a frame until the session has
    received one.  Where a message was sent on an epoch, its receiver finds the message
    of the ratchet in it again, and the call of its session is one of its ratchet. -/

namespace OlmRatchet

open ByteMemory OlmCrypto OlmMessage
open OlmSession (SharedKey olmSuite)

variable (prim : Primitives)

/-- The ratchet of the creator, with its keys. -/
theorem initialiseAsAlice_eq {K I : Type} (S : Suite K I) (r : Ratchet K)
    (ratchetKey : Curve25519KeyPair) {secret : I} {rootKey chainKey : K}
    (h : S.hkdf secret none S.kdfInfo.rootInfo = (rootKey, chainKey)) :
    initialiseAsAlice S r secret ratchetKey
      = { r with
          senderChain := r.senderChain.insert
            { ratchetKey, chainKey := { index := 0, key := chainKey } }
          rootKey } := by
  rw [initialiseAsAlice, h]

/-- The ratchet of the other side, with its keys. -/
theorem initialiseAsBob_eq {K I : Type} (S : Suite K I) (r : Ratchet K)
    (ratchetKey : Curve25519PublicKey) {secret : I} {rootKey chainKey : K}
    (h : S.hkdf secret none S.kdfInfo.rootInfo = (rootKey, chainKey)) :
    initialiseAsBob S r secret ratchetKey
      = { r with
          receiverChains := r.receiverChains.insert
            { ratchetKey, chainKey := { index := 0, key := chainKey } }
          rootKey } := by
  rw [initialiseAsBob, h]

/-- The message that a ratchet sends next. -/
def nextMessage (r : Ratchet SharedKey) (random : Vector UInt8 32) (plaintext : Bytes) : Bytes :=
  ratchetMessage prim (sendingKey (olmSuite prim) r random)
    (senderChainFor (olmSuite prim) r random).2.ratchetKey.publicKey plaintext

theorem length_nextMessage (r : Ratchet SharedKey) (random : Vector UInt8 32)
    (plaintext : Bytes) :
    (nextMessage prim r random plaintext).length
      = encryptOutputLength (olmSuite prim) r plaintext.length :=
  (encryptOutputLength_eq prim r random _ plaintext).symm

/-- The call stores the message. -/
theorem encrypt_nextMessage {r r' : Ratchet SharedKey} {m m' : Mem}
    {plaintext plaintextLength random randomLength output maxOutputLength n : Nat}
    (h : encrypt (olmSuite prim) r m plaintext plaintextLength random randomLength output
      maxOutputLength = (m', r', some n))
    (hdisjoint : Disjoint plaintext plaintextLength output
      (encryptOutputLength (olmSuite prim) r plaintextLength)) :
    r' = afterSending (olmSuite prim) r (load 32 m random) ∧
      m' = write m output
        (nextMessage prim r (load 32 m random) (read m plaintext plaintextLength)) := by
  obtain ⟨-, -, -, -, hlength, -⟩ := encrypt_written prim h
  rw [← hlength] at hdisjoint
  exact ⟨encrypt_some (olmSuite prim) h, (encrypt_message prim h hdisjoint).1⟩

end OlmRatchet

namespace OlmSession

open ByteMemory OlmCrypto OlmMessage OlmList OlmRatchet OlmAccount

variable {prim : Primitives}

/-! ## Messages as strings -/

/-- A message of the ratchet as a session sends it. -/
def framed (s : Session) (body : Bytes) : Bytes :=
  if s.receivedMessage then body else sessionPreKeyBytes s body

theorem length_sessionPreKeyBytes_body (s : Session) (body : Bytes) :
    (sessionPreKeyBytes s body).length
      = messageOffset 32 32 32 body.length + body.length := by
  rw [sessionPreKeyBytes, length_preKeyMessageBytes, Vector.length_toList, Vector.length_toList,
    Vector.length_toList]

theorem length_framed (s : Session) (random : Vector UInt8 32) (plaintext : Bytes) :
    (framed s (nextMessage prim s.ratchet random plaintext)).length
      = encryptMessageLength prim s plaintext.length := by
  rw [framed, encryptMessageLength, ← length_nextMessage prim s.ratchet random]
  by_cases hkind : s.receivedMessage = true
  · rw [if_pos hkind, if_pos hkind]
  · rw [if_neg hkind, if_neg hkind, length_sessionPreKeyBytes]

/-- **A MESSAGE THAT IS SENT** is a message of the ratchet, in a frame until the session has
    received one. -/
theorem encrypt_framed {s s' : Session} {m m' : Mem}
    {plaintext plaintextLength random randomLength message messageLength n : Nat}
    (h : encrypt prim s m plaintext plaintextLength random randomLength message messageLength
      = (m', s', some n)) (hdisjoint : Disjoint plaintext plaintextLength message messageLength) :
    ∃ bytes : Vector UInt8 32,
      s' = { s with ratchet := afterSending (olmSuite prim) s.ratchet bytes } ∧
      encryptMessageLength prim s plaintextLength ≤ messageLength ∧
      read m' message (encryptMessageLength prim s plaintextLength)
        = framed s (nextMessage prim s.ratchet bytes (read m plaintext plaintextLength)) := by
  have hlength : ∀ bytes, (framed s (nextMessage prim s.ratchet bytes
      (read m plaintext plaintextLength))).length
        = encryptMessageLength prim s plaintextLength := by
    intro bytes
    rw [length_framed, length_read]
  obtain ⟨hroom, hs, hcall⟩ := encrypt_body prim h
  by_cases hkind : s.receivedMessage = true
  · have hfits := hroom
    rw [encryptMessageLength, if_pos hkind] at hfits
    rw [bodyPlace, if_pos hkind] at hcall
    obtain ⟨hratchet, hwritten⟩ := encrypt_nextMessage prim hcall
      (hdisjoint.part (Nat.le_refl _) (Nat.add_le_add_left hfits message))
    refine ⟨load 32 m random, hs.trans (congrArg (fun r => { s with ratchet := r }) hratchet),
      hroom, ?_⟩
    rw [← hlength (load 32 m random), framed, if_pos hkind, hwritten]
    exact read_write_self m message _
  · obtain ⟨gap, hgap, hframe⟩ := encodePreKeyFrame_eq s m
      (encryptOutputLength (olmSuite prim) s.ratchet plaintextLength) message
    rw [bodyPlace, if_neg hkind, hframe] at hcall
    have hframeLength := length_sessionPreKeyBytes_body s gap
    have htotal : (sessionPreKeyBytes s gap).length
        = encryptMessageLength prim s plaintextLength := by
      rw [length_sessionPreKeyBytes, hgap, encryptMessageLength, if_neg hkind]
    rw [hgap] at hframeLength
    -- the frame is not in the plaintext
    have hplaintext : read (write m message (sessionPreKeyBytes s gap)) plaintext plaintextLength
        = read m plaintext plaintextLength :=
      read_write_disjoint m (hdisjoint.part (Nat.le_refl _) (by omega)).symm
    obtain ⟨hratchet, hwritten⟩ := encrypt_nextMessage prim hcall
      (hdisjoint.part (Nat.le_add_right _ _) (by omega))
    simp only at hratchet hwritten
    rw [hplaintext] at hwritten
    generalize load 32 (write m message (sessionPreKeyBytes s gap)) random = bytes at *
    have hbody := length_nextMessage prim s.ratchet bytes (read m plaintext plaintextLength)
    rw [length_read] at hbody
    have hframed := write_frame s m message
      (nextMessage prim s.ratchet bytes (read m plaintext plaintextLength))
    rw [hbody, hframe] at hframed
    refine ⟨bytes, hs.trans (congrArg (fun r => { s with ratchet := r }) hratchet), hroom, ?_⟩
    rw [← hlength bytes, framed, if_neg hkind, hwritten, hframed]
    exact read_write_self m message _

/-- A message that was sent on an epoch. -/
structure SentOn (prim : Primitives) (e : Epoch) (msg : Sent) : Prop where
  ratchetKey : msg.ratchetKey = e.publicKey
  counter : msg.counter ≠ 0xFFFFFFFF
  size : msg.bytes.length < 2 ^ 64
  bytes : ∃ s : Session, msg.messageType = encryptMessageType s ∧
    msg.bytes = framed s
      (ratchetMessage prim (e.messageKey prim msg.counter) e.publicKey msg.plaintext)

/-- The body of a framed message. -/
theorem messageBody_framed {s : Session} {m : Mem} {message messageLength : Nat} {body : Bytes}
    (hsize : messageLength < 2 ^ 64) (h : read m message messageLength = framed s body) :
    ∃ p, messageBody (encryptMessageType s) m message messageLength = some (p, body.length) ∧
      read m p body.length = body ∧ message ≤ p ∧ p + body.length ≤ message + messageLength := by
  have hlength := congrArg List.length h
  rw [length_read] at hlength
  -- without a frame the body is the whole message
  by_cases hkind : s.receivedMessage = true
  · rw [framed, if_pos hkind] at h hlength
    subst hlength
    rw [encryptMessageType, if_pos hkind]
    exact ⟨message, rfl, h, Nat.le_refl _, Nat.le_refl _⟩
  · rw [framed, if_neg hkind] at h hlength
    rw [length_sessionPreKeyBytes_body] at hlength
    have hdecode := decodeOneTimeKeyMessage_eq hsize h preKeyReader
    obtain ⟨a, ha, hac⟩ := preKeyMessageBytes_message protocolVersion s.bobOneTimeKey.toList
      s.aliceBaseKey.toList s.aliceIdentityKey.toList body
    have hread := read_middle (h.trans (hac body rfl))
    simp only [Vector.length_toList] at ha hdecode
    rw [ha] at hread
    rw [encryptMessageType, if_neg hkind]
    refine ⟨message + messageOffset 32 32 32 body.length, ?_, hread, Nat.le_add_right _ _, ?_⟩
    · rw [messageBody, hdecode]
      rfl
    · omega

section Receiving

variable {e : Epoch} {msg : Sent} {m : Mem} {message messageLength : Nat}

/-- Its body is a message of the ratchet. -/
theorem SentOn.messageBody (h : SentOn prim e msg)
    (hread : read m message messageLength = msg.bytes) :
    ∃ body bodyLength,
      messageBody msg.messageType m message messageLength = some (body, bodyLength) ∧
      Holds prim m body bodyLength (e.messageKey prim msg.counter) e.publicKey msg.plaintext ∧
      message ≤ body ∧ body + bodyLength ≤ message + messageLength := by
  obtain ⟨s, htype, hbytes⟩ := h.bytes
  have hsize : messageLength < 2 ^ 64 := by
    have hlength := h.size
    rwa [← hread, length_read] at hlength
  obtain ⟨body, hbody, hmessage, hfirst, hlast⟩ := messageBody_framed hsize (hread.trans hbytes)
  rw [htype]
  have hfits : (ratchetMessage prim (e.messageKey prim msg.counter) e.publicKey
      msg.plaintext).length < 2 ^ 64 := by omega
  exact ⟨body, _, hbody, ⟨hfits, hmessage⟩, hfirst, hlast⟩

/-- The call of a session that succeeds is one of its ratchet. -/
theorem decrypt_some {s s' : Session} {stack : MessageReader} {messageType : MessageType}
    {m' : Mem} {plaintext maxPlaintextLength body bodyLength n : Nat}
    (hbody : OlmSession.messageBody messageType m message messageLength = some (body, bodyLength))
    (hcall : decrypt prim s stack messageType m message messageLength plaintext
      maxPlaintextLength = (m', s', some n)) :
    OlmRatchet.decrypt (olmSuite prim) s.ratchet stack m body bodyLength plaintext
      maxPlaintextLength = (m', s'.ratchet, some n) := by
  rw [decrypt, hbody] at hcall
  simp only at hcall
  generalize hratchet : OlmRatchet.decrypt (olmSuite prim) s.ratchet stack m body bodyLength
    plaintext maxPlaintextLength = call at hcall ⊢
  obtain ⟨m₁, r₁, _ | result⟩ := call
  · cases (Prod.mk.inj (Prod.mk.inj hcall).2).2
  · obtain ⟨hm, hcalled⟩ := Prod.mk.inj hcall
    obtain ⟨hs, hn⟩ := Prod.mk.inj hcalled
    rw [hm, ← hs, hn]

/-- A message that the ratchet can read can be read. -/
theorem readable_of_readsAs {p : Party} (h : SentOn prim e msg)
    (hreads : ∀ (stack : MessageReader) (m : Mem) (input inputLength : Nat),
      Holds prim m input inputLength (e.messageKey prim msg.counter) e.publicKey msg.plaintext →
      ∀ plaintext maxPlaintextLength,
        cryptoAesEncryptCbcLength msg.plaintext.length ≤ maxPlaintextLength →
        Separate plaintext maxPlaintextLength input inputLength →
        ReadsAs (OlmRatchet.decrypt (olmSuite prim) p.session.ratchet stack m input inputLength
          plaintext maxPlaintextLength) plaintext msg.plaintext) :
    Readable prim p msg := by
  intro stack m message messageLength hread
  obtain ⟨body, bodyLength, hbody, hholds, hfirst, hlast⟩ := h.messageBody hread
  refine ⟨cryptoAesEncryptCbcLength msg.plaintext.length, ?_, ?_⟩
  · rw [decryptMaxPlaintextLength, hbody]
    simp only
    rw [OlmRatchet.decryptMaxPlaintextLength, hholds.decodeMessage_eq stack]
    rfl
  · intro plaintext maxPlaintextLength hroom hseparate
    obtain ⟨hresult, hplaintext⟩ := hreads stack m body bodyLength hholds plaintext
      maxPlaintextLength hroom (Disjoint.part hseparate hfirst hlast)
    rw [decrypt, hbody]
    simp only
    generalize OlmRatchet.decrypt (olmSuite prim) p.session.ratchet stack m body bodyLength
      plaintext maxPlaintextLength = call at hresult hplaintext
    obtain ⟨m₁, r₁, _ | result⟩ := call
    · cases hresult
    · obtain rfl := Option.some.inj hresult
      exact ⟨m₁, _, rfl, hplaintext⟩

end Receiving

/-! ## Sending -/

section Sending

variable {s s' : Session} {m m' : Mem} {chain : SenderChain SharedKey} {e : Epoch} {k : Nat}
  {plaintext plaintextLength random randomLength message messageLength n : Nat}

/-- What a session has done where it has sent message `k` of an epoch. -/
structure SendsNext (prim : Primitives) (s s' : Session) (chain : SenderChain SharedKey) (e : Epoch)
    (k : Nat) (msg : Sent) : Prop where
  ratchetKey : chain.ratchetKey.publicKey = e.publicKey
  sends : Sends prim s'.ratchet e (k + 1)
  receiverChains : s'.ratchet.receiverChains = s.ratchet.receiverChains
  skippedMessageKeys : s'.ratchet.skippedMessageKeys = s.ratchet.skippedMessageKeys
  sentOn : SentOn prim e msg
  bytes : msg.bytes = framed s
    (ratchetMessage prim (e.messageKey prim msg.counter) e.publicKey msg.plaintext)
  name : msg.name = (e.publicKey, UInt32.ofNat k)

/-- The message of a ratchet that sends on an epoch. -/
theorem sendsNext_of_sends {bytes : Vector UInt8 32} (hsize : messageLength < 2 ^ 64)
    (hsends : Sends prim (afterSending (olmSuite prim) s.ratchet bytes) e (k + 1))
    (hkey : sendingKey (olmSuite prim) s.ratchet bytes = e.messageKey prim (UInt32.ofNat k))
    (hchain : (afterSending (olmSuite prim) s.ratchet bytes).senderChain.toList = [chain])
    (hroom : encryptMessageLength prim s plaintextLength ≤ messageLength)
    (hread : read m' message (encryptMessageLength prim s plaintextLength)
      = framed s (nextMessage prim s.ratchet bytes (read m plaintext plaintextLength))) :
    SendsNext prim s { s with ratchet := afterSending (olmSuite prim) s.ratchet bytes } chain e k
      (sentMessage prim s chain m m' plaintext plaintextLength message) := by
  obtain rfl := List.singleton_inj.mp (hchain.symm.trans hsends.chain)
  have hratchetKey : (senderChainFor (olmSuite prim) s.ratchet bytes).2.ratchetKey = e.ratchetKey :=
    congrArg SenderChain.ratchetKey (List.singleton_inj.mp hchain)
  have hfew := hsends.few
  have hcounter : UInt32.ofNat (k + 1) - 1 = UInt32.ofNat k := by
    rw [UInt32.ofNat_add]
    exact add_sub_cancel_right _ _
  have hname : (sentMessage prim s
      { ratchetKey := e.ratchetKey, chainKey := e.chainKeyAt prim (k + 1) } m m' plaintext
      plaintextLength message).counter = UInt32.ofNat k := hcounter
  rw [nextMessage, hkey, hratchetKey, ← hname] at hread
  refine ⟨rfl, hsends, rfl, rfl, ⟨rfl, ?_, ?_, s, rfl, hread⟩, hread, Prod.ext rfl hname⟩
  · rw [hname]
    intro hlast
    have hmax := congrArg UInt32.toNat hlast
    rw [UInt32.toNat_ofNat_of_lt' (show k < 2 ^ 32 by omega)] at hmax
    have hmax : k = 2 ^ 32 - 1 := hmax
    omega
  · show (read m' message (encryptMessageLength prim s plaintextLength)).length < 2 ^ 64
    rw [length_read]
    omega

/-- **THE NEXT MESSAGE** of a sender chain. -/
theorem encrypt_sendsNext (h : Sends prim s.ratchet e k)
    (hcall : encrypt prim s m plaintext plaintextLength random randomLength message messageLength
      = (m', s', some n)) (hsize : messageLength < 2 ^ 64)
    (hdisjoint : Disjoint plaintext plaintextLength message messageLength)
    (hchain : s'.ratchet.senderChain.toList = [chain]) (hfew : chain.chainKey.index ≠ 0) :
    SendsNext prim s s' chain e k
      (sentMessage prim s chain m m' plaintext plaintextLength message) := by
  obtain ⟨bytes, rfl, hroom, hread⟩ := encrypt_framed hcall hdisjoint
  obtain ⟨hroot, hsender, hkey⟩ := h.afterSending bytes
  obtain rfl := List.singleton_inj.mp (hchain.symm.trans hsender)
  exact sendsNext_of_sends hsize ⟨hroot, hsender, succ_lt_of_index_ne h.few hfew⟩ hkey hchain hroom
    hread

/-- **THE FIRST MESSAGE** of a new sender chain. -/
theorem encrypt_sendsFirst {theirs : List Epoch} {passed : List KeyName}
    (h : Receives prim (e :: theirs) s.ratchet passed) (hempty : s.ratchet.senderChain.toList = [])
    (hroot : s.ratchet.rootKey = e.rootKey)
    (hcall : encrypt prim s m plaintext plaintextLength random randomLength message messageLength
      = (m', s', some n)) (hsize : messageLength < 2 ^ 64)
    (hdisjoint : Disjoint plaintext plaintextLength message messageLength)
    (hchain : s'.ratchet.senderChain.toList = [chain]) :
    ∃ new : Epoch, new.ratchetKey.Matches prim ∧ Follows prim e new ∧
      SendsNext prim s s' chain new 0
        (sentMessage prim s chain m m' plaintext plaintextLength message) := by
  obtain ⟨bytes, rfl, hroom, hread⟩ := encrypt_framed hcall hdisjoint
  obtain ⟨newest, rest, hnewest, hkey⟩ := h.newest
  obtain ⟨new, hnew, hfollows, hsends, hsending⟩ := afterSending_new hempty hroot hnewest hkey bytes
  refine ⟨new, ?_, hfollows, sendsNext_of_sends hsize hsends hsending hchain hroom hread⟩
  rw [hnew]
  exact cryptoCurve25519GenerateKey_matches prim bytes

end Sending

end OlmSession
