import SelfOlm.Megolm
import SelfOlm.Cipher
import SelfOlm.Message
import SelfOlm.Base64

/-! # Group sessions

    `outbound_group_session.c` and `inbound_group_session.c` without the
    pickles.  The sender moves its Megolm ratchet one step for every message;
    a receiver keeps the first ratchet it was given and the latest one it
    needed.  Session keys and exported sessions carry the counter as a big
    endian number. -/

namespace OlmGroupSession

open ByteMemory OlmCrypto OlmMessage OlmBase64 OlmMegolm

variable (prim : Primitives)

/-- A part of the ratchet of a group session. -/
abbrev Part := Vector UInt8 32

/-- The hash of the ratchet. -/
def megolmHmac (key : Part) (seed : UInt8) : Part := cryptoHmacSha256 prim key.toList [seed]

def megolmRatchetLength : Nat := 128

/-- `megolm_get_data`. -/
def megolmGetData (megolm : Megolm Part) : Bytes :=
  (megolm.data 0).toList ++ (megolm.data 1).toList ++ (megolm.data 2).toList
    ++ (megolm.data 3).toList

/-- The four parts in a string. -/
def partsOfBytes (bs : Bytes) : Fin 4 → Part := fun i => ofBytes 32 (bs.drop (32 * i))

/-- `megolm_cipher`. -/
def megolmCipher : Cipher Bytes := aesSha256Cipher prim (ascii "MEGOLM_KEYS")

def olmProtocolVersion : UInt8 := 3
def sessionKeyVersion : UInt8 := 2
def sessionExportVersion : UInt8 := 1

/-- `1 + 4 + MEGOLM_RATCHET_LENGTH + ED25519_PUBLIC_KEY_LENGTH`. -/
def sessionExportRawLength : Nat := 1 + 4 + megolmRatchetLength + 32

/-- The same and `ED25519_SIGNATURE_LENGTH`. -/
def sessionKeyRawLength : Nat := 1 + 4 + megolmRatchetLength + 32 + ed25519SignatureLength

/-! ## Counters in big endian -/

/-- `*ptr++ = 0xFF & (counter >> 24); counter <<= 8;`, `n` times. -/
def encodeCounterLoop : Nat → UInt32 → Bytes
  | 0, _ => []
  | n + 1, counter =>
      ((0xFF : UInt32) &&& (counter >>> 24)).toUInt8 :: encodeCounterLoop n (counter <<< 8)

def encodeCounter (counter : UInt32) : Bytes := encodeCounterLoop 4 counter

/-- `counter <<= 8; counter |= *ptr++;` over the bytes. -/
def decodeCounter (bs : Bytes) : UInt32 :=
  bs.foldl (fun counter b => (counter <<< 8) ||| b.toUInt32) 0

/-! ## Outbound sessions -/

/-- `OlmOutboundGroupSession`. -/
structure OutboundGroupSession where
  ratchet : Megolm Part
  signingKey : Ed25519KeyPair
  lastError : OlmErrorCode

/-- `olm_init_outbound_group_session_random_length`. -/
def initOutboundGroupSessionRandomLength : Nat := megolmRatchetLength + 32

/-- `olm_init_outbound_group_session`. -/
def initOutboundGroupSession (session : OutboundGroupSession) (m : Mem)
    (random randomLength : Nat) : Mem × OutboundGroupSession × Option Nat :=
  if randomLength < initOutboundGroupSessionRandomLength then
    (m, { session with lastError := .notEnoughRandom }, none)
  else
    (write m random (List.replicate randomLength 0),
      { session with
        ratchet := megolmInit (partsOfBytes (read m random megolmRatchetLength)) 0
        signingKey := cryptoEd25519GenerateKey prim (load 32 m (random + megolmRatchetLength)) },
      some 0)

/-- `raw_message_length`. -/
def rawMessageLength (session : OutboundGroupSession) (plaintextLength : Nat) : Nat :=
  encodeGroupMessageLength session.ratchet.counter
    ((megolmCipher prim).encryptCiphertextLength plaintextLength) (megolmCipher prim).macLength
    ed25519SignatureLength

/-- `olm_group_encrypt_message_length`. -/
def groupEncryptMessageLength (session : OutboundGroupSession) (plaintextLength : Nat) : Nat :=
  encodeBase64Length (rawMessageLength prim session plaintextLength)

/-- `_encrypt`. -/
def encrypt (session : OutboundGroupSession) (m : Mem)
    (plaintext plaintextLength buffer : Nat) : Mem × OutboundGroupSession × Option Nat :=
  let ciphertextLength := (megolmCipher prim).encryptCiphertextLength plaintextLength
  let (m, headed, ciphertextPtr) := encodeGroupMessage m olmProtocolVersion
    session.ratchet.counter ciphertextLength buffer
  let messageLength := headed + (megolmCipher prim).macLength
  match (megolmCipher prim).encrypt (megolmGetData session.ratchet) m plaintext plaintextLength
    ciphertextPtr ciphertextLength buffer messageLength with
  | (m, none) => (m, session, none)
  | (m, some result) =>
      let session := { session with
        ratchet := megolmAdvance (megolmHmac prim) session.ratchet }
      (store m (buffer + messageLength)
        (cryptoEd25519Sign prim session.signingKey (read m buffer messageLength)),
        session, some result)

/-- `olm_group_encrypt`. -/
def groupEncrypt (session : OutboundGroupSession) (m : Mem)
    (plaintext plaintextLength message maxMessageLength : Nat) :
    Mem × OutboundGroupSession × Option Nat :=
  let rawmsglen := rawMessageLength prim session plaintextLength
  if maxMessageLength < encodeBase64Length rawmsglen then
    (m, { session with lastError := .outputBufferTooSmall }, none)
  else
    let messagePos := message + encodeBase64Length rawmsglen - rawmsglen
    match encrypt prim session m plaintext plaintextLength messagePos with
    | (m, session, none) => (m, session, none)
    | (m, session, some _) =>
        (encodeBase64 m messagePos rawmsglen message, session,
          some (encodeBase64Length rawmsglen))

/-- The raw session key that is signed: version, counter, ratchet and public
    key. -/
def sessionKeyBody (version : UInt8) (ratchet : Megolm Part) (counter : UInt32)
    (publicKey : Vector UInt8 32) : Bytes :=
  version :: (encodeCounter counter ++ (megolmGetData ratchet ++ publicKey.toList))

/-- `olm_outbound_group_session_key`. -/
def outboundGroupSessionKey (session : OutboundGroupSession) (m : Mem) (key keyLength : Nat) :
    Mem × OutboundGroupSession × Option Nat :=
  let encodedLength := encodeBase64Length sessionKeyRawLength
  if keyLength < encodedLength then
    (m, { session with lastError := .outputBufferTooSmall }, none)
  else
    -- the raw data goes to the end of the output buffer
    let raw := key + encodedLength - sessionKeyRawLength
    let body := sessionKeyBody sessionKeyVersion session.ratchet session.ratchet.counter
      session.signingKey.publicKey
    let m := write m raw body
    let m := store m (raw + body.length)
      (cryptoEd25519Sign prim session.signingKey (read m raw body.length))
    (encodeBase64 m raw sessionKeyRawLength key, session, some encodedLength)

/-! ## Inbound sessions -/

/-- `OlmInboundGroupSession`. -/
structure InboundGroupSession where
  /-- our earliest known ratchet value -/
  initialRatchet : Megolm Part
  /-- the most recent ratchet value -/
  latestRatchet : Megolm Part
  signingKey : Vector UInt8 32
  signingKeyVerified : Bool
  lastError : OlmErrorCode

/-- `_init_group_session_keys`; `keyBuf` is the decoded key. -/
def initGroupSessionKeys (session : InboundGroupSession) (keyBuf : Bytes) (exportFormat : Bool) :
    InboundGroupSession × Option Nat :=
  let expectedVersion := if exportFormat then sessionExportVersion else sessionKeyVersion
  if keyBuf.getD 0 0 ≠ expectedVersion then ({ session with lastError := .badSessionKey }, none)
  else
    let counter := decodeCounter ((keyBuf.drop 1).take 4)
    let data := partsOfBytes (keyBuf.drop 5)
    let session := { session with
      initialRatchet := megolmInit data counter
      latestRatchet := megolmInit data counter
      signingKey := ofBytes 32 (keyBuf.drop 133) }
    if exportFormat then (session, some 0)
    else if !cryptoEd25519Verify prim session.signingKey (keyBuf.take 165)
        (ofBytes 64 (keyBuf.drop 165)) then
      ({ session with lastError := .badSignature }, none)
    else ({ session with signingKeyVerified := true }, some 0)

/-- `olm_init_inbound_group_session` and `olm_import_inbound_group_session`,
    for a key of `rawLength` bytes.  The key is decoded into an array on the
    stack. -/
def initFromKey (exportFormat : Bool) (keyRawLength : Nat) (session : InboundGroupSession)
    (m : Mem) (sessionKey sessionKeyLength : Nat) : InboundGroupSession × Option Nat :=
  match decodeBase64Length sessionKeyLength with
  | none => ({ session with lastError := .invalidBase64 }, none)
  | some rawLength =>
      if rawLength ≠ keyRawLength then ({ session with lastError := .badSessionKey }, none)
      else
        initGroupSessionKeys prim session (base64.decode (read m sessionKey sessionKeyLength))
          exportFormat

/-- `olm_init_inbound_group_session`. -/
def initInboundGroupSession := initFromKey prim false sessionKeyRawLength

/-- `olm_import_inbound_group_session`. -/
def importInboundGroupSession := initFromKey prim true sessionExportRawLength

/-- `_get_megolm`. -/
def getMegolm (session : InboundGroupSession) (messageIndex : UInt32) :
    InboundGroupSession × Option (Megolm Part) :=
  -- at or beyond the latest ratchet value
  if messageIndex - session.latestRatchet.counter < 0x80000000 then
    let latestRatchet := megolmAdvanceTo (megolmHmac prim) session.latestRatchet messageIndex
    ({ session with latestRatchet }, some latestRatchet)
  else if messageIndex - session.initialRatchet.counter ≥ 0x80000000 then
    ({ session with lastError := .unknownMessageIndex }, none)
  else
    (session, some (megolmAdvanceTo (megolmHmac prim) session.initialRatchet messageIndex))

/-- What a decryption returns: the length of the plaintext, and the index that
    was stored to `*message_index`. -/
structure DecryptResult where
  length : Option Nat
  messageIndex : Option UInt32

/-- `_decrypt`; `stack` is what the results struct holds before. -/
def decrypt (session : InboundGroupSession) (stack : DecodeGroupMessageResults) (m : Mem)
    (message messageLength plaintext maxPlaintextLength : Nat) :
    Mem × InboundGroupSession × DecryptResult :=
  let decoded := decodeGroupMessage stack m message messageLength (megolmCipher prim).macLength
    ed25519SignatureLength
  if decoded.version ≠ olmProtocolVersion then
    (m, { session with lastError := .badMessageVersion }, ⟨none, none⟩)
  else if !decoded.hasMessageIndex || decoded.ciphertext.isNone then
    (m, { session with lastError := .badMessageFormat }, ⟨none, none⟩)
  else
    let messageIndex := some decoded.messageIndex
    let messageLength := messageLength - ed25519SignatureLength
    if !cryptoEd25519Verify prim session.signingKey (read m message messageLength)
        (load 64 m (message + messageLength)) then
      (m, { session with lastError := .badSignature }, ⟨none, messageIndex⟩)
    else if maxPlaintextLength
        < (megolmCipher prim).decryptMaxPlaintextLength decoded.ciphertextLength then
      (m, { session with lastError := .outputBufferTooSmall }, ⟨none, messageIndex⟩)
    else
      match getMegolm prim session decoded.messageIndex with
      | (session, none) => (m, session, ⟨none, messageIndex⟩)
      | (session, some megolm) =>
          match (megolmCipher prim).decrypt (megolmGetData megolm) m message messageLength
            (decoded.ciphertext.getD 0) decoded.ciphertextLength plaintext maxPlaintextLength with
          | (m, none) => (m, { session with lastError := .badMessageMac }, ⟨none, messageIndex⟩)
          | (m, some r) => (m, { session with signingKeyVerified := true }, ⟨some r, messageIndex⟩)

/-- `olm_group_decrypt`.  The message is decoded in place, also where its
    length is not that of base64. -/
def groupDecrypt (session : InboundGroupSession) (stack : DecodeGroupMessageResults) (m : Mem)
    (message messageLength plaintext maxPlaintextLength : Nat) :
    Mem × InboundGroupSession × DecryptResult :=
  let m := decodeBase64 m message messageLength message
  match decodeBase64Length messageLength with
  | none => (m, { session with lastError := .invalidBase64 }, ⟨none, none⟩)
  | some rawMessageLength =>
      decrypt prim session stack m message rawMessageLength plaintext maxPlaintextLength

/-- `_decrypt_max_plaintext_length`; `stack` is what the results struct holds before. -/
def decryptMaxPlaintextLength (session : InboundGroupSession)
    (stack : DecodeGroupMessageResults) (m : Mem) (message messageLength : Nat) :
    InboundGroupSession × Option Nat :=
  let decoded := decodeGroupMessage stack m message messageLength (megolmCipher prim).macLength
    ed25519SignatureLength
  if decoded.version ≠ olmProtocolVersion then
    ({ session with lastError := .badMessageVersion }, none)
  else if decoded.ciphertext.isNone then
    ({ session with lastError := .badMessageFormat }, none)
  else
    (session, some ((megolmCipher prim).decryptMaxPlaintextLength decoded.ciphertextLength))

/-- `olm_group_decrypt_max_plaintext_length`.  The message is decoded in place. -/
def groupDecryptMaxPlaintextLength (session : InboundGroupSession)
    (stack : DecodeGroupMessageResults) (m : Mem) (message messageLength : Nat) :
    Mem × InboundGroupSession × Option Nat :=
  let m := decodeBase64 m message messageLength message
  match decodeBase64Length messageLength with
  | none => (m, { session with lastError := .invalidBase64 }, none)
  | some rawLength =>
      let (session, length) := decryptMaxPlaintextLength prim session stack m message rawLength
      (m, session, length)

/-- `olm_inbound_group_session_first_known_index`. -/
def firstKnownIndex (session : InboundGroupSession) : UInt32 := session.initialRatchet.counter

/-- `olm_export_inbound_group_session`. -/
def exportInboundGroupSession (session : InboundGroupSession) (m : Mem) (key keyLength : Nat)
    (messageIndex : UInt32) : Mem × InboundGroupSession × Option Nat :=
  let encodedLength := encodeBase64Length sessionExportRawLength
  if keyLength < encodedLength then
    (m, { session with lastError := .outputBufferTooSmall }, none)
  else
    match getMegolm prim session messageIndex with
    | (session, none) => (m, session, none)
    | (session, some megolm) =>
        let raw := key + encodedLength - sessionExportRawLength
        let m := write m raw
          (sessionKeyBody sessionExportVersion megolm messageIndex session.signingKey)
        (encodeBase64 m raw sessionExportRawLength key, session, some encodedLength)

end OlmGroupSession
