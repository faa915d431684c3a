import SelfOlm.PickleProofs
import SelfOlm.ConversationProofs

/-! # Conversations at the C interface

    The calls of `olm.cpp` on sessions that the runs of `Conversation` do not use, and
    conversations that are held with these calls only.  What is in flight now is text in
    base64, which the receiver decodes in its own buffer.  Between its calls, a side may
    put its session away: it is pickled under a key, and unpickled into a new object
    from wherever the pickle has been copied to. -/

namespace OlmSession

open ByteMemory OlmCrypto OlmMessage OlmBase64 OlmList OlmRatchet OlmAccount OlmPickle

variable (prim : Primitives)

/-! ## Calls -/

/-- `olm_create_inbound_session_from`; the key is decoded into an array on the stack. -/
def olmCreateInboundSessionFrom (s : Session) (account : Account) (m : Mem)
    (theirIdentityKey theirIdentityKeyLength oneTimeKeyMessage messageLength : Nat) :
    Mem × Option (Session × Option Nat) :=
  if decodeBase64Length theirIdentityKeyLength ≠ some curve25519KeyLength then
    (m, some ({ s with lastError := .invalidBase64 }, none))
  else
    let identityKey := ofBytes 32 (base64.decode (read m theirIdentityKey theirIdentityKeyLength))
    match b64Input m oneTimeKeyMessage messageLength with
    | (m, none) => (m, some ({ s with lastError := .invalidBase64 }, none))
    | (m, some rawLength) =>
        (m, newInboundSession prim s account (some identityKey) m oneTimeKeyMessage rawLength)

/-- `olm_session_id_length`. -/
def olmSessionIdLength : Nat := encodeBase64Length sessionIdLength

/-- `olm_session_id`. -/
def olmSessionId (s : Session) (m : Mem) (id idLength : Nat) : Mem × Session × Option Nat :=
  if idLength < encodeBase64Length sessionIdLength then
    (m, { s with lastError := .outputBufferTooSmall }, none)
  else
    match sessionId prim s m (b64OutputPos id sessionIdLength) sessionIdLength with
    | (m, s, none) => (m, s, none)
    | (m, s, some _) =>
        let (m, length) := b64Output m id sessionIdLength
        (m, s, some length)

/-- `olm_session_has_received_message`. -/
def olmSessionHasReceivedMessage (s : Session) : Bool := s.receivedMessage

/-- `olm_matches_inbound_session`. -/
def olmMatchesInboundSession (s : Session) (m : Mem) (oneTimeKeyMessage messageLength : Nat) :
    Mem × Session × Option Nat :=
  match b64Input m oneTimeKeyMessage messageLength with
  | (m, none) => (m, { s with lastError := .invalidBase64 }, none)
  | (m, some rawLength) =>
      (m, s, some (if matchesInboundSession s none m oneTimeKeyMessage rawLength then 1 else 0))

/-- `olm_matches_inbound_session_from`. -/
def olmMatchesInboundSessionFrom (s : Session) (m : Mem)
    (theirIdentityKey theirIdentityKeyLength oneTimeKeyMessage messageLength : Nat) :
    Mem × Session × Option Nat :=
  if decodeBase64Length theirIdentityKeyLength ≠ some curve25519KeyLength then
    (m, { s with lastError := .invalidBase64 }, none)
  else
    let identityKey := ofBytes 32 (base64.decode (read m theirIdentityKey theirIdentityKeyLength))
    match b64Input m oneTimeKeyMessage messageLength with
    | (m, none) => (m, { s with lastError := .invalidBase64 }, none)
    | (m, some rawLength) =>
        (m, s, some (if matchesInboundSession s (some identityKey) m oneTimeKeyMessage rawLength
          then 1 else 0))

/-- The number that stands for a message type. -/
def MessageType.toNat : MessageType → Nat
  | .preKey => 0
  | .message => 1

/-- `olm_encrypt_message_type`. -/
def olmEncryptMessageType (s : Session) : Nat := (encryptMessageType s).toNat

/-- `olm_decrypt_max_plaintext_length`; the message is decoded in place. -/
def olmDecryptMaxPlaintextLength (s : Session) (stack : MessageReader) (messageType : Nat) (m : Mem)
    (message messageLength : Nat) : Mem × Session × Option Nat :=
  match b64Input m message messageLength with
  | (m, none) => (m, { s with lastError := .invalidBase64 }, none)
  | (m, some rawLength) =>
      (m, decryptMaxPlaintextLength prim s stack (toMessageType messageType) m message rawLength)

/-! ## Steps -/

/-- What a call of `olm_encrypt` has sent: `bytes` is the text in the buffer. -/
def sentText (s : Session) (chain : SenderChain SharedKey) (m m' : Mem)
    (plaintext plaintextLength message n : Nat) : Sent where
  ratchetKey := chain.ratchetKey.publicKey
  counter := chain.chainKey.index - 1
  messageType := toMessageType (olmEncryptMessageType s)
  bytes := read m' message n
  plaintext := read m plaintext plaintextLength

/-- The calls of one side, and the loss of a text that it has sent. -/
inductive Calls (generated : List Curve25519PublicKey) (p q : Party) :
    List Curve25519PublicKey → Party → Party → Prop
  /-- A text is sent; the random bytes, which are cleared, are not in its buffer. -/
  | sent {m m' : Mem} {s : Session} {chain : SenderChain SharedKey}
      {plaintext plaintextLength random randomLength message messageLength n : Nat}
      (hcall : olmEncrypt prim p.session m plaintext plaintextLength random randomLength message
        messageLength = (m', s, some n))
      (hsize : messageLength < 2 ^ 64)
      (hdisjoint : Disjoint plaintext plaintextLength message messageLength)
      (hrandom : Disjoint random randomLength message messageLength)
      (hchain : s.ratchet.senderChain.toList = [chain]) (hfew : chain.chainKey.index ≠ 0)
      (hnew : p.session.ratchet.senderChain.toList = [] →
        chain.ratchetKey.publicKey ∉ generated) :
      Calls generated p q (chain.ratchetKey.publicKey :: generated) { p with session := s }
        { q with inbox := sentText p.session chain m m' plaintext plaintextLength message n
          :: q.inbox }
  | lost (msg : Sent) : Calls generated p q generated p { q with inbox := q.inbox.erase msg }
  /-- A text is delivered and accepted. -/
  | delivered {msg : Sent} {m m' : Mem} {s : Session} {stack : MessageReader}
      {messageType message messageLength plaintext maxPlaintextLength n : Nat}
      (hmsg : msg ∈ p.inbox) (hread : read m message messageLength = msg.bytes)
      (htype : toMessageType messageType = msg.messageType)
      (hseparate : Separate plaintext maxPlaintextLength message messageLength)
      (hcall : olmDecrypt prim p.session stack messageType m message messageLength plaintext
        maxPlaintextLength = (m', s, some n))
      (hgenuine : msg.ratchetKey ∈ p.started →
        msg.ratchetKey ∈ receiverKeys p.session.ratchet) :
      Calls generated p q generated (p.received msg s) q
  | notSent {m m' : Mem} {s : Session}
      {plaintext plaintextLength random randomLength message messageLength : Nat}
      (hcall : olmEncrypt prim p.session m plaintext plaintextLength random randomLength message
        messageLength = (m', s, none)) :
      Calls generated p q generated { p with session := s } q
  | notDecrypted {m m' : Mem} {s : Session} {stack : MessageReader}
      {messageType message messageLength plaintext maxPlaintextLength : Nat}
      (hcall : olmDecrypt prim p.session stack messageType m message messageLength plaintext
        maxPlaintextLength = (m', s, none)) :
      Calls generated p q generated { p with session := s } q
  /-- The session is pickled, the pickle is copied to another place, and loaded from there with
      the same key. -/
  | reloaded {m m₁ m₂ m₃ : Mem} {s s' : Session}
      {key keyLength pickled pickledLength key₂ keyLength₂ pickled₂ n n' : Nat}
      (hdisjoint : Disjoint key keyLength pickled (olmPickleSessionLength prim p.session))
      (hpickle : olmPickleSession prim p.session m key keyLength pickled pickledLength
        = (m₁, s', some n))
      (hkey : read m₂ key₂ keyLength₂ = read m key keyLength)
      (hcopy : read m₂ pickled₂ n = read m₁ pickled n)
      (hdisjoint₂ : Disjoint key₂ keyLength₂ pickled₂ n)
      (hunpickle : olmUnpickleSession prim newSession m₂ key₂ keyLength₂ pickled₂ n
        = (m₃, s, some n')) :
      Calls generated p q generated { p with session := s } q

/-! ## Runs -/

/-- Before the other side has a session. -/
inductive CallOpening (alice : Account) (bobIdentityKey : Curve25519PublicKey) :
    Conversation → Prop
  | created {m m' : Mem} {start : Session}
      {theirIdentityKey theirOneTimeKey theirOneTimeKeyLength random randomLength n : Nat}
      (hkey : read m theirIdentityKey 43 = base64.encode bobIdentityKey.toList)
      (hcall : olmCreateOutboundSession prim newSession alice m theirIdentityKey 43 theirOneTimeKey
        theirOneTimeKeyLength random randomLength = (m', start, some n)) :
      CallOpening alice bobIdentityKey
        { generated := start.ratchet.senderChain.toList.map
            (fun chain => chain.ratchetKey.publicKey)
          alice := { session := start, started := [], passed := [], inbox := [] }
          bob := { session := newSession, started := [], passed := [], inbox := [] } }
  | calls {c : Conversation} {generated : List Curve25519PublicKey} {p q : Party}
      (hrun : CallOpening alice bobIdentityKey c)
      (hcalls : Calls prim c.generated c.alice c.bob generated p q) :
      CallOpening alice bobIdentityKey { generated, alice := p, bob := q }

/-- The call that opened a session, with or without the identity key of the creator. -/
inductive Opens (account : Account) (m : Mem) (message messageLength : Nat) (s : Session) : Prop
  | any {m' : Mem} (hcall : olmCreateInboundSession prim newSession account m message messageLength
      = (m', some (s, some 0)))
  | of {m' : Mem} {theirIdentityKey theirIdentityKeyLength : Nat}
      (hcall : olmCreateInboundSessionFrom prim newSession account m theirIdentityKey
        theirIdentityKeyLength message messageLength = (m', some (s, some 0)))

/-- The conversations that are held with the calls of the C interface. -/
inductive Calling (alice bob : Account) : Conversation → Prop
  | opened {c : Conversation} {msg : Sent} {m : Mem} {message messageLength : Nat} {s : Session}
      (hrun : CallOpening prim alice bob.identityKeys.curve25519Key.publicKey c)
      (hmsg : msg ∈ c.bob.inbox) (hread : read m message messageLength = msg.bytes)
      (hopens : Opens prim bob m message messageLength s) :
      Calling alice bob
        { c with bob := { c.bob with session := s, started := receiverKeys s.ratchet } }
  | alice {c : Conversation} {generated : List Curve25519PublicKey} {p q : Party}
      (hrun : Calling alice bob c) (hcalls : Calls prim c.generated c.alice c.bob generated p q) :
      Calling alice bob { generated, alice := p, bob := q }
  | bob {c : Conversation} {generated : List Curve25519PublicKey} {p q : Party}
      (hrun : Calling alice bob c) (hcalls : Calls prim c.generated c.bob c.alice generated p q) :
      Calling alice bob { generated, alice := q, bob := p }

/-- A text in flight can be read: for every copy of it, `olm_decrypt_max_plaintext_length`
    announces one size, and in any buffer of this size `olm_decrypt` makes the plaintext of
    any other copy. -/
def TextReadable (p : Party) (msg : Sent) : Prop :=
  ∃ announced : Nat,
    (∀ (stack : MessageReader) (messageType : Nat) (m : Mem) (message : Nat),
      toMessageType messageType = msg.messageType →
      read m message msg.bytes.length = msg.bytes →
      (olmDecryptMaxPlaintextLength prim p.session stack messageType m message
        msg.bytes.length).2.2 = some announced) ∧
    ∀ (stack : MessageReader) (messageType : Nat) (m : Mem) (message plaintext
        maxPlaintextLength : Nat),
      toMessageType messageType = msg.messageType →
      read m message msg.bytes.length = msg.bytes → announced ≤ maxPlaintextLength →
      Separate plaintext maxPlaintextLength message msg.bytes.length →
      ∃ m' s, olmDecrypt prim p.session stack messageType m message msg.bytes.length plaintext
          maxPlaintextLength = (m', s, some msg.plaintext.length) ∧
        read m' plaintext msg.plaintext.length = msg.plaintext

end OlmSession
