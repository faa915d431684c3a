import SelfOlm.RatchetEpochProofs
import SelfOlm.SessionAgreementProofs
import SelfOlm.ReportedSizeProofs

/-! # Conversations

    Two sessions that send each other messages.  Messages are in flight until they are
    lost or delivered, in any order.  The creator of the conversation sends from the
    start, the other side from the moment when one of these messages has opened its
    session.  Beside its session, a side has two logs: the receiver chains that it has
    started, and the names of the keys that it has put into its list of skipped keys. -/

namespace OlmSession

open ByteMemory OlmCrypto OlmMessage OlmList OlmRatchet OlmAccount

variable (prim : Primitives)

/-- A message in flight: its chain and counter, its bytes, and what they were made of. -/
structure Sent where
  ratchetKey : Curve25519PublicKey
  counter : UInt32
  messageType : MessageType
  bytes : Bytes
  plaintext : Bytes
  deriving DecidableEq

/-- Ratchet key and counter. -/
def Sent.name (msg : Sent) : KeyName := (msg.ratchetKey, msg.counter)

/-- One side, with what is in flight to it.  Both logs have the last entry first. -/
structure Party where
  session : Session
  started : List Curve25519PublicKey
  passed : List KeyName
  inbox : List Sent

/-- The sides, and the ratchet keys that were generated. -/
structure Conversation where
  generated : List Curve25519PublicKey
  alice : Party
  bob : Party

/-- What a call of `encrypt` has sent; `chain` is the sender chain behind the call. -/
def sentMessage (s : Session) (chain : SenderChain SharedKey) (m m' : Mem)
    (plaintext plaintextLength message : Nat) : Sent where
  ratchetKey := chain.ratchetKey.publicKey
  counter := chain.chainKey.index - 1
  messageType := encryptMessageType s
  bytes := read m' message (encryptMessageLength prim s plaintextLength)
  plaintext := read m plaintext plaintextLength

/-- A side behind a message that it has accepted. -/
def Party.received (p : Party) (msg : Sent) (s : Session) : Party where
  session := s
  started := if msg.ratchetKey ∈ receiverKeys p.session.ratchet then p.started
    else msg.ratchetKey :: p.started
  passed := passedBy p.session.ratchet msg.name ++ p.passed
  inbox := p.inbox.erase msg

/-! ## Steps -/

/-- The calls of one side, and the loss of a message that it has sent. -/
inductive Acts (generated : List Curve25519PublicKey) (p q : Party) :
    List Curve25519PublicKey → Party → Party → Prop
  /-- A message is sent.  Its counter is not the last one, and a new ratchet key is not one that
      was there before. -/
  | sent {m m' : Mem} {s : Session} {chain : SenderChain SharedKey}
      {plaintext plaintextLength random randomLength message messageLength n : Nat}
      (hcall : encrypt prim p.session m plaintext plaintextLength random randomLength message
        messageLength = (m', s, some n))
      (hsize : messageLength < 2 ^ 64)
      (hdisjoint : Disjoint plaintext plaintextLength message messageLength)
      (hchain : s.ratchet.senderChain.toList = [chain]) (hfew : chain.chainKey.index ≠ 0)
      (hnew : p.session.ratchet.senderChain.toList = [] →
        chain.ratchetKey.publicKey ∉ generated) :
      Acts generated p q (chain.ratchetKey.publicKey :: generated) { p with session := s }
        { q with inbox := sentMessage prim p.session chain m m' plaintext plaintextLength message
          :: q.inbox }
  | lost (msg : Sent) : Acts generated p q generated p { q with inbox := q.inbox.erase msg }
  /-- A message is delivered and accepted.  Its MAC does not verify on a chain other than its own:
      once that was started and has left the list, the message is not taken for the first one of
      a new chain. -/
  | delivered {msg : Sent} {m m' : Mem} {s : Session} {stack : MessageReader}
      {message messageLength plaintext maxPlaintextLength n : Nat} (hmsg : msg ∈ p.inbox)
      (hread : read m message messageLength = msg.bytes)
      (hseparate : Separate plaintext maxPlaintextLength message messageLength)
      (hcall : decrypt prim p.session stack msg.messageType m message messageLength plaintext
        maxPlaintextLength = (m', s, some n))
      (hgenuine : msg.ratchetKey ∈ p.started →
        msg.ratchetKey ∈ receiverKeys p.session.ratchet) :
      Acts generated p q generated (p.received msg s) q
  | notSent {m m' : Mem} {s : Session}
      {plaintext plaintextLength random randomLength message messageLength : Nat}
      (hcall : encrypt prim p.session m plaintext plaintextLength random randomLength message
        messageLength = (m', s, none)) :
      Acts generated p q generated { p with session := s } q
  | notDecrypted {m m' : Mem} {s : Session} {stack : MessageReader} {messageType : MessageType}
      {message messageLength plaintext maxPlaintextLength : Nat}
      (hcall : decrypt prim p.session stack messageType m message messageLength plaintext
        maxPlaintextLength = (m', s, none)) :
      Acts generated p q generated { p with session := s } q

/-! ## Runs -/

/-- Before the other side has a session. -/
inductive Opening (alice : Account) (bobIdentityKey : Curve25519PublicKey) : Conversation → Prop
  | created {oneTimeKey : Curve25519PublicKey} {m : Mem} {random randomLength n : Nat}
      {start : Session}
      (hcall : newOutboundSession prim newSession alice bobIdentityKey oneTimeKey m random
        randomLength = (start, some n)) :
      Opening alice bobIdentityKey
        { generated := start.ratchet.senderChain.toList.map
            (fun chain => chain.ratchetKey.publicKey)
          alice := { session := start, started := [], passed := [], inbox := [] }
          bob := { session := newSession, started := [], passed := [], inbox := [] } }
  | acts {c : Conversation} {generated : List Curve25519PublicKey} {p q : Party}
      (hrun : Opening alice bobIdentityKey c)
      (hacts : Acts prim c.generated c.alice c.bob generated p q) :
      Opening alice bobIdentityKey { generated, alice := p, bob := q }

/-- The conversations between two accounts, from the moment when one of the messages in flight
    has opened the session of the other side. -/
inductive Conversing (alice bob : Account) : Conversation → Prop
  | opened {c : Conversation} {msg : Sent} {m : Mem} {message messageLength : Nat}
      {theirIdentityKey : Option Curve25519PublicKey} {s : Session}
      (hrun : Opening prim alice bob.identityKeys.curve25519Key.publicKey c)
      (hmsg : msg ∈ c.bob.inbox) (hread : read m message messageLength = msg.bytes)
      (hcall : newInboundSession prim newSession bob theirIdentityKey m message messageLength
        = some (s, some 0)) :
      Conversing alice bob
        { c with bob := { c.bob with session := s, started := receiverKeys s.ratchet } }
  | alice {c : Conversation} {generated : List Curve25519PublicKey} {p q : Party}
      (hrun : Conversing alice bob c)
      (hacts : Acts prim c.generated c.alice c.bob generated p q) :
      Conversing alice bob { generated, alice := p, bob := q }
  | bob {c : Conversation} {generated : List Curve25519PublicKey} {p q : Party}
      (hrun : Conversing alice bob c)
      (hacts : Acts prim c.generated c.bob c.alice generated p q) :
      Conversing alice bob { generated, alice := q, bob := p }

/-! ## What is asked of a delivery -/

/-- The message is not too far from where the receiver is. -/
structure InWindow (p : Party) (msg : Sent) : Prop where
  /-- Fewer than five chains were started behind that of the message. -/
  chain : msg.ratchetKey ∈ p.started → msg.ratchetKey ∈ p.started.take 5
  /-- The counter is at most 2000 past the next index. -/
  gap : msg.counter.toNat ≤ (nextIndex p.session.ratchet msg.ratchetKey).toNat + 2000
  /-- Fewer than forty keys were put into the list behind that of the message. -/
  skipped : msg.name ∈ p.passed → msg.name ∈ p.passed.take 40

/-- Wherever its bytes are, the message is decrypted to its plaintext, in a buffer of the size
    that is announced. -/
def Readable (p : Party) (msg : Sent) : Prop :=
  ∀ (stack : MessageReader) (m : Mem) (message messageLength : Nat),
    read m message messageLength = msg.bytes →
    ∃ announced, (decryptMaxPlaintextLength prim p.session stack msg.messageType m message
        messageLength).2 = some announced ∧
      ∀ plaintext maxPlaintextLength, announced ≤ maxPlaintextLength →
        Separate plaintext maxPlaintextLength message messageLength →
        ∃ m' s, decrypt prim p.session stack msg.messageType m message messageLength plaintext
            maxPlaintextLength = (m', s, some msg.plaintext.length) ∧
          read m' plaintext msg.plaintext.length = msg.plaintext

end OlmSession
