import SelfOlm.Ratchet
import SelfOlm.Account
import SelfOlm.Base64

/-! # Sessions

    `session.cpp` and the calls of `olm.cpp` for sessions: the triple
    Diffie-Hellman handshake, the framing of the first messages as pre-key
    messages, and the ratchet behind it.  A null pointer is `none`. -/

namespace OlmSession

open ByteMemory OlmCrypto OlmMessage OlmList OlmRatchet OlmAccount OlmBase64

/-- Root, chain and message keys. -/
abbrev SharedKey := Vector UInt8 32

variable (prim : Primitives)

/-- `OLM_KDF_INFO`. -/
def olmKdfInfo : KdfInfo where
  rootInfo := ascii "OLM_ROOT"
  ratchetInfo := ascii "OLM_RATCHET"

/-- `_olm_crypto_hkdf_sha256` for two keys. -/
def hkdfSharedKeys (secret : Bytes) (salt : Option SharedKey) (info : Bytes) :
    SharedKey × SharedKey :=
  let derivedSecrets := cryptoHkdfSha256 prim secret (salt.map Vector.toList) info 64
  (ofBytes 32 derivedSecrets, ofBytes 32 (derivedSecrets.drop 32))

/-- What the ratchet of a session is built on: the real hash functions, and
    `OLM_CIPHER`. -/
def olmSuite : Suite SharedKey Bytes where
  generateKey := cryptoCurve25519GenerateKey prim
  sharedSecret := fun ourKey theirKey => (cryptoCurve25519SharedSecret prim ourKey theirKey).toList
  hkdf := hkdfSharedKeys prim
  hmac := fun key seed => cryptoHmacSha256 prim key.toList [seed]
  kdfInfo := olmKdfInfo
  ratchetCipher := (aesSha256Cipher prim (ascii "OLM_KEYS")).onKeys Vector.toList

inductive MessageType where
  | preKey
  | message
  deriving DecidableEq, Repr

/-- `olm::Session`. -/
structure Session where
  ratchet : Ratchet SharedKey
  lastError : OlmErrorCode
  receivedMessage : Bool
  aliceIdentityKey : Curve25519PublicKey
  aliceBaseKey : Curve25519PublicKey
  bobOneTimeKey : Curve25519PublicKey
  deriving DecidableEq

/-- `olm_session`: `Session::Session` in memory that was set to zero. -/
def newSession : Session where
  ratchet := newRatchet (Vector.replicate 32 0)
  lastError := .success
  receivedMessage := false
  aliceIdentityKey := Vector.replicate 32 0
  aliceBaseKey := Vector.replicate 32 0
  bobOneTimeKey := Vector.replicate 32 0

/-! ## The handshake -/

/-- `new_outbound_session_random_length`. -/
def newOutboundSessionRandomLength : Nat := 32 * 2

/-- `new_outbound_session`. -/
def newOutboundSession (s : Session) (localAccount : Account)
    (identityKey oneTimeKey : Curve25519PublicKey) (m : Mem) (random randomLength : Nat) :
    Session × Option Nat :=
  if randomLength < newOutboundSessionRandomLength then
    ({ s with lastError := .notEnoughRandom }, none)
  else
    let baseKey := cryptoCurve25519GenerateKey prim (load 32 m random)
    let ratchetKey := cryptoCurve25519GenerateKey prim (load 32 m (random + 32))
    let aliceIdentityKeyPair := localAccount.identityKeys.curve25519Key
    -- the shared secret via triple DH
    let secret :=
      (cryptoCurve25519SharedSecret prim aliceIdentityKeyPair oneTimeKey).toList
        ++ (cryptoCurve25519SharedSecret prim baseKey identityKey).toList
        ++ (cryptoCurve25519SharedSecret prim baseKey oneTimeKey).toList
    ({ s with
        receivedMessage := false
        aliceIdentityKey := aliceIdentityKeyPair.publicKey
        aliceBaseKey := baseKey.publicKey
        bobOneTimeKey := oneTimeKey
        ratchet := initialiseAsAlice (olmSuite prim) s.ratchet secret ratchetKey }, some 0)

/-- `check_message_fields`. -/
def checkMessageFields (reader : PreKeyMessageReader) (haveTheirIdentityKey : Bool) : Bool :=
  (haveTheirIdentityKey || reader.identityKey.isSome)
    && (reader.identityKey.isNone || reader.identityKeyLength == curve25519KeyLength)
    && reader.message.isSome
    && reader.baseKey.isSome
    && reader.baseKeyLength == curve25519KeyLength
    && reader.oneTimeKey.isSome
    && reader.oneTimeKeyLength == curve25519KeyLength

/-- An uninitialised `PreKeyMessageReader`; only its version keeps the value
    from before, and nothing reads that. -/
def preKeyReader : PreKeyMessageReader := ⟨0, none, 0, none, 0, none, 0, none, 0⟩

/-- An uninitialised `MessageReader` where nothing reads version or counter. -/
def messageReader : MessageReader := ⟨0, false, 0, 0, 0, none, 0, none, 0⟩

/-- Whether the identity key of the message and the supplied one agree. -/
def sameIdentityKey (reader : PreKeyMessageReader)
    (theirIdentityKey : Option Curve25519PublicKey) (m : Mem) : Bool :=
  match reader.identityKey, theirIdentityKey with
  | some identityKey, some theirKey => decide (load 32 m identityKey = theirKey)
  | _, _ => true

/-- `new_inbound_session`; `none` where `load_array` reads the identity key from
    a null pointer: one was supplied, and the message has none. -/
def newInboundSession (s : Session) (localAccount : Account)
    (theirIdentityKey : Option Curve25519PublicKey) (m : Mem)
    (oneTimeKeyMessage messageLength : Nat) : Option (Session × Option Nat) :=
  let reader := decodeOneTimeKeyMessage preKeyReader m oneTimeKeyMessage messageLength
  if !checkMessageFields reader theirIdentityKey.isSome then
    some ({ s with lastError := .badMessageFormat }, none)
  else if !sameIdentityKey reader theirIdentityKey m then
    some ({ s with lastError := .badMessageKeyId }, none)
  else
    match reader.identityKey with
    | none => none
    | some identityKey =>
        let s := { s with
          aliceIdentityKey := load 32 m identityKey
          aliceBaseKey := load 32 m (reader.baseKey.getD 0)
          bobOneTimeKey := load 32 m (reader.oneTimeKey.getD 0) }
        let inner := decodeMessage messageReader m (reader.message.getD 0)
          reader.messageLength (olmSuite prim).ratchetCipher.macLength
        if inner.ratchetKey.isNone || inner.ratchetKeyLength != curve25519KeyLength then
          some ({ s with lastError := .badMessageFormat }, none)
        else
          let ratchetKey := load 32 m (inner.ratchetKey.getD 0)
          match lookupKey localAccount s.bobOneTimeKey with
          | none => some ({ s with lastError := .badMessageKeyId }, none)
          | some ourOneTimeKey =>
              let bobIdentityKey := localAccount.identityKeys.curve25519Key
              let bobOneTimeKey := ourOneTimeKey.key
              let secret :=
                (cryptoCurve25519SharedSecret prim bobOneTimeKey s.aliceIdentityKey).toList
                  ++ (cryptoCurve25519SharedSecret prim bobIdentityKey s.aliceBaseKey).toList
                  ++ (cryptoCurve25519SharedSecret prim bobOneTimeKey s.aliceBaseKey).toList
              some ({ s with
                  ratchet := initialiseAsBob (olmSuite prim) s.ratchet secret ratchetKey },
                some 0)

/-- `olm_remove_one_time_keys`. -/
def olmRemoveOneTimeKeys (account : Account) (session : Session) : Account × Option Nat :=
  match removeKey account session.bobOneTimeKey with
  | (account, none) => ({ account with lastError := .badMessageKeyId }, none)
  | (account, some result) => (account, some result)

/-- `session_id_length`. -/
def sessionIdLength : Nat := 32

/-- `session_id`. -/
def sessionId (s : Session) (m : Mem) (id idLength : Nat) : Mem × Session × Option Nat :=
  if idLength < sessionIdLength then (m, { s with lastError := .outputBufferTooSmall }, none)
  else
    let tmp := s.aliceIdentityKey.toList ++ s.aliceBaseKey.toList ++ s.bobOneTimeKey.toList
    (store m id (cryptoSha256 prim tmp), s, some sessionIdLength)

/-- `matches_inbound_session`. -/
def matchesInboundSession (s : Session) (theirIdentityKey : Option Curve25519PublicKey) (m : Mem)
    (oneTimeKeyMessage messageLength : Nat) : Bool :=
  let reader := decodeOneTimeKeyMessage preKeyReader m oneTimeKeyMessage messageLength
  if !checkMessageFields reader theirIdentityKey.isSome then false
  else
    (match reader.identityKey with
      | some identityKey => decide (load 32 m identityKey = s.aliceIdentityKey)
      | none => true)
    && (match theirIdentityKey with
      | some theirKey => decide (theirKey = s.aliceIdentityKey)
      | none => true)
    && decide (load 32 m (reader.baseKey.getD 0) = s.aliceBaseKey)
    && decide (load 32 m (reader.oneTimeKey.getD 0) = s.bobOneTimeKey)

/-! ## Encryption -/

/-- `encrypt_message_type`. -/
def encryptMessageType (s : Session) : MessageType :=
  if s.receivedMessage then .message else .preKey

/-- `encrypt_message_length`. -/
def encryptMessageLength (s : Session) (plaintextLength : Nat) : Nat :=
  let messageLength := encryptOutputLength (olmSuite prim) s.ratchet plaintextLength
  if s.receivedMessage then messageLength
  else
    encodeOneTimeKeyMessageLength curve25519KeyLength curve25519KeyLength curve25519KeyLength
      messageLength

/-- The frame of a pre-key message and the place for the body. -/
def encodePreKeyFrame (s : Session) (m : Mem) (messageBodyLength message : Nat) : Mem × Nat :=
  let (m, writer) := encodeOneTimeKeyMessage m protocolVersion curve25519KeyLength
    curve25519KeyLength curve25519KeyLength messageBodyLength message
  let m := store m writer.oneTimeKey s.bobOneTimeKey
  let m := store m writer.identityKey s.aliceIdentityKey
  let m := store m writer.baseKey s.aliceBaseKey
  (m, writer.message)

/-- `Session::encrypt`. -/
def encrypt (s : Session) (m : Mem)
    (plaintext plaintextLength random randomLength message messageLength : Nat) :
    Mem × Session × Option Nat :=
  if messageLength < encryptMessageLength prim s plaintextLength then
    (m, { s with lastError := .outputBufferTooSmall }, none)
  else
    let messageBodyLength := encryptOutputLength (olmSuite prim) s.ratchet plaintextLength
    let (m, messageBody) :=
      if s.receivedMessage then (m, message)
      else encodePreKeyFrame s m messageBodyLength message
    match OlmRatchet.encrypt (olmSuite prim) s.ratchet m plaintext plaintextLength random
      randomLength messageBody messageBodyLength with
    | (m, ratchet, none) =>
        (m, { s with
          lastError := ratchet.lastError
          ratchet := { ratchet with lastError := .success } }, none)
    -- the length of the body, also where a frame is around it
    | (m, ratchet, some result) => (m, { s with ratchet }, some result)

/-! ## Decryption -/

/-- The body of a message: where it is and how long; `none` for a pre-key
    message without one. -/
def messageBody (messageType : MessageType) (m : Mem) (message messageLength : Nat) :
    Option (Nat × Nat) :=
  match messageType with
  | .message => some (message, messageLength)
  | .preKey =>
      let reader := decodeOneTimeKeyMessage preKeyReader m message messageLength
      reader.message.map (fun body => (body, reader.messageLength))

/-- `Session::decrypt_max_plaintext_length`. -/
def decryptMaxPlaintextLength (s : Session) (stack : MessageReader) (messageType : MessageType)
    (m : Mem) (message messageLength : Nat) : Session × Option Nat :=
  match messageBody messageType m message messageLength with
  | none => ({ s with lastError := .badMessageFormat }, none)
  | some (body, bodyLength) =>
      match OlmRatchet.decryptMaxPlaintextLength (olmSuite prim) s.ratchet stack m body
        bodyLength with
      | (ratchet, none) =>
          ({ s with
            lastError := ratchet.lastError
            ratchet := { ratchet with lastError := .success } }, none)
      | (ratchet, some result) => ({ s with ratchet }, some result)

/-- `Session::decrypt`; `stack` is what the reader struct of the ratchet holds
    before. -/
def decrypt (s : Session) (stack : MessageReader) (messageType : MessageType) (m : Mem)
    (message messageLength plaintext maxPlaintextLength : Nat) : Mem × Session × Option Nat :=
  match messageBody messageType m message messageLength with
  | none => (m, { s with lastError := .badMessageFormat }, none)
  | some (body, bodyLength) =>
      match OlmRatchet.decrypt (olmSuite prim) s.ratchet stack m body bodyLength plaintext
        maxPlaintextLength with
      | (m, ratchet, none) =>
          (m, { s with
            lastError := ratchet.lastError
            ratchet := { ratchet with lastError := .success } }, none)
      | (m, ratchet, some result) => (m, { s with ratchet, receivedMessage := true }, some result)

/-! ## The C interface -/

/-- `b64_output_pos`. -/
def b64OutputPos (output rawLength : Nat) : Nat :=
  output + encodeBase64Length rawLength - rawLength

/-- `b64_output`. -/
def b64Output (m : Mem) (output rawLength : Nat) : Mem × Nat :=
  let base64Length := encodeBase64Length rawLength
  let rawOutput := output + base64Length - rawLength
  (encodeBase64 m rawOutput rawLength output, base64Length)

/-- `b64_input`: the memory, and the raw length. -/
def b64Input (m : Mem) (input b64Length : Nat) : Mem × Option Nat :=
  match decodeBase64Length b64Length with
  | none => (m, none)
  | some rawLength => (decodeBase64 m input b64Length input, some rawLength)

/-- `olm::unset`. -/
def unset (m : Mem) (buffer bufferLength : Nat) : Mem :=
  write m buffer (List.replicate bufferLength 0)

/-- `olm_create_outbound_session`; the keys are decoded into arrays on the stack. -/
def olmCreateOutboundSession (s : Session) (account : Account) (m : Mem)
    (theirIdentityKey theirIdentityKeyLength theirOneTimeKey theirOneTimeKeyLength
      random randomLength : Nat) : Mem × Session × Option Nat :=
  if decodeBase64Length theirIdentityKeyLength ≠ some curve25519KeyLength
      ∨ decodeBase64Length theirOneTimeKeyLength ≠ some curve25519KeyLength then
    (m, { s with lastError := .invalidBase64 }, none)
  else
    let identityKey := ofBytes 32 (base64.decode (read m theirIdentityKey theirIdentityKeyLength))
    let oneTimeKey := ofBytes 32 (base64.decode (read m theirOneTimeKey theirOneTimeKeyLength))
    let (s, result) := newOutboundSession prim s account identityKey oneTimeKey m random
      randomLength
    (unset m random randomLength, s, result)

/-- `olm_create_inbound_session`; the message is decoded in place. -/
def olmCreateInboundSession (s : Session) (account : Account) (m : Mem)
    (oneTimeKeyMessage messageLength : Nat) : Mem × Option (Session × Option Nat) :=
  match b64Input m oneTimeKeyMessage messageLength with
  | (m, none) => (m, some ({ s with lastError := .invalidBase64 }, none))
  | (m, some rawLength) =>
      (m, newInboundSession prim s account none m oneTimeKeyMessage rawLength)

/-- `olm_encrypt_message_length`. -/
def olmEncryptMessageLength (s : Session) (plaintextLength : Nat) : Nat :=
  encodeBase64Length (encryptMessageLength prim s plaintextLength)

/-- `olm_encrypt`. -/
def olmEncrypt (s : Session) (m : Mem)
    (plaintext plaintextLength random randomLength message messageLength : Nat) :
    Mem × Session × Option Nat :=
  let rawLength := encryptMessageLength prim s plaintextLength
  if messageLength < encodeBase64Length rawLength then
    (m, { s with lastError := .outputBufferTooSmall }, none)
  else
    match encrypt prim s m plaintext plaintextLength random randomLength
      (b64OutputPos message rawLength) rawLength with
    | (m, s, none) => (unset m random randomLength, s, none)
    | (m, s, some _) =>
        let (m, length) := b64Output (unset m random randomLength) message rawLength
        (m, s, some length)

/-- The cast `olm::MessageType(message_type)`; every number but 1 is treated as
    a pre-key message. -/
def toMessageType (messageType : Nat) : MessageType :=
  if messageType = 1 then .message else .preKey

/-- `olm_decrypt`. -/
def olmDecrypt (s : Session) (stack : MessageReader) (messageType : Nat) (m : Mem)
    (message messageLength plaintext maxPlaintextLength : Nat) : Mem × Session × Option Nat :=
  match b64Input m message messageLength with
  | (m, none) => (m, { s with lastError := .invalidBase64 }, none)
  | (m, some rawLength) =>
      decrypt prim s stack (toMessageType messageType) m message rawLength plaintext
        maxPlaintextLength

end OlmSession
