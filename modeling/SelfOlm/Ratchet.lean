import SelfOlm.Cipher
import SelfOlm.Message
import SelfOlm.BoundedList

/-! # The Olm ratchet

    `ratchet.cpp`: a root key, at most one sender chain, the last five receiver
    chains and the last forty skipped message keys.  The key material is only
    handed to the key derivation, to HMAC and to the cipher; `Suite` gathers
    these, and the type `K` of root, chain and message keys and the type `I` of
    shared secrets are parameters.  Ratchet keys are Curve25519 keys, since they
    travel in the messages and are compared there. -/

namespace OlmRatchet

open ByteMemory OlmCrypto OlmMessage OlmList

/-- `KdfInfo`. -/
structure KdfInfo where
  rootInfo : Bytes
  ratchetInfo : Bytes

/-- What the ratchet is built on. -/
structure Suite (K I : Type) where
  /-- `_olm_crypto_curve25519_generate_key`. -/
  generateKey : Vector UInt8 32 → Curve25519KeyPair
  /-- `_olm_crypto_curve25519_shared_secret`. -/
  sharedSecret : Curve25519KeyPair → Curve25519PublicKey → I
  /-- `_olm_crypto_hkdf_sha256` with two keys as its output; no salt for the
      first root key. -/
  hkdf : I → Option K → Bytes → K × K
  /-- `_olm_crypto_hmac_sha256` with a one-byte input. -/
  hmac : K → UInt8 → K
  kdfInfo : KdfInfo
  ratchetCipher : Cipher K

structure ChainKey (K : Type) where
  index : UInt32
  key : K
  deriving DecidableEq

structure MessageKey (K : Type) where
  index : UInt32
  key : K
  deriving DecidableEq

structure SenderChain (K : Type) where
  ratchetKey : Curve25519KeyPair
  chainKey : ChainKey K
  deriving DecidableEq

structure ReceiverChain (K : Type) where
  ratchetKey : Curve25519PublicKey
  chainKey : ChainKey K
  deriving DecidableEq

structure SkippedMessageKey (K : Type) where
  ratchetKey : Curve25519PublicKey
  messageKey : MessageKey K
  deriving DecidableEq

def maxReceiverChains : Nat := 5
def maxSkippedMessageKeys : Nat := 40

/-- `olm::Ratchet`, without its references to the key derivation strings and
    the cipher, which are those of the suite. -/
structure Ratchet (K : Type) where
  lastError : OlmErrorCode
  rootKey : K
  senderChain : BoundedList (SenderChain K) 1
  receiverChains : BoundedList (ReceiverChain K) maxReceiverChains
  skippedMessageKeys : BoundedList (SkippedMessageKey K) maxSkippedMessageKeys
  deriving DecidableEq

variable {K I : Type} (S : Suite K I)

def protocolVersion : UInt8 := 3
def messageKeySeed : UInt8 := 0x01
def chainKeySeed : UInt8 := 0x02
def maxMessageGap : Nat := 2000

/-! ## Chains -/

/-- `create_chain_key`: the new root key and the new chain key. -/
def createChainKey (rootKey : K) (ourKey : Curve25519KeyPair)
    (theirKey : Curve25519PublicKey) : K × ChainKey K :=
  let secret := S.sharedSecret ourKey theirKey
  let derivedSecrets := S.hkdf secret (some rootKey) S.kdfInfo.ratchetInfo
  (derivedSecrets.1, { index := 0, key := derivedSecrets.2 })

/-- `advance_chain_key`. -/
def advanceChainKey (chainKey : ChainKey K) : ChainKey K where
  index := chainKey.index + 1
  key := S.hmac chainKey.key chainKeySeed

/-- `create_message_keys`. -/
def createMessageKeys (chainKey : ChainKey K) : MessageKey K where
  index := chainKey.index
  key := S.hmac chainKey.key messageKeySeed

/-- `while (new_chain.index < reader.counter) advance_chain_key(..)`; the first
    argument bounds the iterations. -/
def advanceWhile (counter : UInt32) : Nat → ChainKey K → ChainKey K
  | 0, chain => chain
  | n + 1, chain =>
      if chain.index < counter then advanceWhile counter n (advanceChainKey S chain) else chain

/-- `verify_mac_and_decrypt`. -/
def verifyMacAndDecrypt (messageKey : MessageKey K) (reader : MessageReader) (m : Mem)
    (plaintext maxPlaintextLength : Nat) : Mem × Option Nat :=
  S.ratchetCipher.decrypt messageKey.key m reader.input reader.inputLength
    (reader.ciphertext.getD 0) reader.ciphertextLength plaintext maxPlaintextLength

/-- `verify_mac_and_decrypt_for_existing_chain`. -/
def verifyMacAndDecryptForExistingChain (chain : ChainKey K) (reader : MessageReader) (m : Mem)
    (plaintext maxPlaintextLength : Nat) : Mem × Option Nat :=
  if reader.counter < chain.index then (m, none)
  else if (reader.counter - chain.index).toNat > maxMessageGap then (m, none)
  else
    let newChain := advanceWhile S reader.counter (reader.counter - chain.index).toNat chain
    verifyMacAndDecrypt S (createMessageKeys S newChain) reader m plaintext maxPlaintextLength

/-- The ratchet key that a message names. -/
def readerRatchetKey (m : Mem) (reader : MessageReader) : Curve25519PublicKey :=
  load 32 m (reader.ratchetKey.getD 0)

/-- `verify_mac_and_decrypt_for_new_chain`. -/
def verifyMacAndDecryptForNewChain (session : Ratchet K) (reader : MessageReader) (m : Mem)
    (plaintext maxPlaintextLength : Nat) : Mem × Option Nat :=
  match session.senderChain.toList with
  | [] => (m, none)
  | senderChain :: _ =>
      if reader.counter.toNat > maxMessageGap then (m, none)
      else
        let (_, chainKey) := createChainKey S session.rootKey senderChain.ratchetKey
          (readerRatchetKey m reader)
        verifyMacAndDecryptForExistingChain S chainKey reader m plaintext maxPlaintextLength

/-! ## Initialisation -/

/-- `Ratchet::Ratchet` in memory that was set to zero, with `zero` as the key
    of zeros. -/
def newRatchet (zero : K) : Ratchet K where
  lastError := .success
  rootKey := zero
  senderChain := .empty
  receiverChains := .empty
  skippedMessageKeys := .empty

/-- `initialise_as_bob`. -/
def initialiseAsBob (r : Ratchet K) (sharedSecret : I)
    (theirRatchetKey : Curve25519PublicKey) : Ratchet K :=
  let derivedSecrets := S.hkdf sharedSecret none S.kdfInfo.rootInfo
  { r with
    receiverChains := r.receiverChains.insert
      { ratchetKey := theirRatchetKey, chainKey := { index := 0, key := derivedSecrets.2 } }
    rootKey := derivedSecrets.1 }

/-- `initialise_as_alice`. -/
def initialiseAsAlice (r : Ratchet K) (sharedSecret : I)
    (ourRatchetKey : Curve25519KeyPair) : Ratchet K :=
  let derivedSecrets := S.hkdf sharedSecret none S.kdfInfo.rootInfo
  { r with
    senderChain := r.senderChain.insert
      { ratchetKey := ourRatchetKey, chainKey := { index := 0, key := derivedSecrets.2 } }
    rootKey := derivedSecrets.1 }

/-! ## Encryption -/

/-- `encrypt_output_length`. -/
def encryptOutputLength (r : Ratchet K) (plaintextLength : Nat) : Nat :=
  let counter := match r.senderChain.toList with
    | [] => 0
    | chain :: _ => chain.chainKey.index
  encodeMessageLength counter curve25519KeyLength
    (S.ratchetCipher.encryptCiphertextLength plaintextLength) S.ratchetCipher.macLength

/-- `encrypt_random_length`. -/
def encryptRandomLength (r : Ratchet K) : Nat :=
  match r.senderChain.toList with
  | [] => 32
  | _ :: _ => 0

/-- The root key and the sender chain that a message is encrypted with: a new
    chain where there is none.  `receiver_chains[0]` of a ratchet that has not
    been initialised is memory of zeros. -/
def senderChainFor (r : Ratchet K) (random : Vector UInt8 32) : K × SenderChain K :=
  match r.senderChain.toList with
  | [] =>
      let ratchetKey := S.generateKey random
      let theirKey := match r.receiverChains.toList with
        | [] => Vector.replicate 32 0
        | chain :: _ => chain.ratchetKey
      let (rootKey, chainKey) := createChainKey S r.rootKey ratchetKey theirKey
      (rootKey, { ratchetKey, chainKey })
  | chain :: _ => (r.rootKey, chain)

/-- `Ratchet::encrypt`. -/
def encrypt (r : Ratchet K) (m : Mem)
    (plaintext plaintextLength random randomLength output maxOutputLength : Nat) :
    Mem × Ratchet K × Option Nat :=
  let outputLength := encryptOutputLength S r plaintextLength
  if randomLength < encryptRandomLength r then
    (m, { r with lastError := .notEnoughRandom }, none)
  else if maxOutputLength < outputLength then
    (m, { r with lastError := .outputBufferTooSmall }, none)
  else
    let (rootKey, chain) := senderChainFor S r (load 32 m random)
    let keys := createMessageKeys S chain.chainKey
    let r := { r with
      rootKey
      senderChain := BoundedList.empty.insert
        { chain with chainKey := advanceChainKey S chain.chainKey } }
    let ciphertextLength := S.ratchetCipher.encryptCiphertextLength plaintextLength
    let (m, writer) := encodeMessage m protocolVersion keys.index curve25519KeyLength
      ciphertextLength output
    let m := store m writer.ratchetKey chain.ratchetKey.publicKey
    let (m, _) := S.ratchetCipher.encrypt keys.key m plaintext plaintextLength writer.ciphertext
      ciphertextLength output outputLength
    (m, r, some outputLength)

/-! ## Decryption -/

/-- `Ratchet::decrypt_max_plaintext_length`. -/
def decryptMaxPlaintextLength (r : Ratchet K) (stack : MessageReader) (m : Mem)
    (input inputLength : Nat) : Ratchet K × Option Nat :=
  let reader := decodeMessage stack m input inputLength S.ratchetCipher.macLength
  if reader.ciphertext = none then ({ r with lastError := .badMessageFormat }, none)
  else (r, some (S.ratchetCipher.decryptMaxPlaintextLength reader.ciphertextLength))

/-- The loop over the receiver chains: the place of the chain with the ratchet
    key of the message. -/
def findChain (r : Ratchet K) (m : Mem) (reader : MessageReader) : Option Nat :=
  r.receiverChains.toList.findIdx? (fun chain => chain.ratchetKey = readerRatchetKey m reader)

/-- The loop over the skipped message keys, from place `pos` on: the place of
    the key that decrypts the message and the length of the plaintext.  A key
    that fits by counter and ratchet key may fail; the loop then goes on. -/
def trySkippedKeys (reader : MessageReader) (plaintext maxPlaintextLength : Nat) :
    Nat → List (SkippedMessageKey K) → Mem → Mem × Option (Nat × Nat)
  | _, [], m => (m, none)
  | pos, skipped :: rest, m =>
      if reader.counter = skipped.messageKey.index
          ∧ skipped.ratchetKey = readerRatchetKey m reader then
        match verifyMacAndDecrypt S skipped.messageKey reader m plaintext maxPlaintextLength with
        | (m, some result) => (m, some (pos, result))
        | (m, none) => trySkippedKeys reader plaintext maxPlaintextLength (pos + 1) rest m
      else trySkippedKeys reader plaintext maxPlaintextLength (pos + 1) rest m

/-- `while (chain->chain_key.index < reader.counter)`: the keys passed over go
    to the skipped keys, the last one to the front. -/
def skipKeys (counter : UInt32) : Nat → ReceiverChain K →
    BoundedList (SkippedMessageKey K) maxSkippedMessageKeys →
    ReceiverChain K × BoundedList (SkippedMessageKey K) maxSkippedMessageKeys
  | 0, chain, skipped => (chain, skipped)
  | n + 1, chain, skipped =>
      if chain.chainKey.index < counter then
        skipKeys counter n { chain with chainKey := advanceChainKey S chain.chainKey }
          (skipped.insert
            { ratchetKey := chain.ratchetKey
              messageKey := createMessageKeys S chain.chainKey })
      else (chain, skipped)

/-- The new chain behind an accepted message with an unknown ratchet key.  The
    sender chain is dropped; a new one is made with the next message. -/
def startReceiverChain (r : Ratchet K) (theirKey : Curve25519PublicKey) : Ratchet K :=
  match r.senderChain.toList with
  | [] => r
  | senderChain :: _ =>
      let (rootKey, chainKey) := createChainKey S r.rootKey senderChain.ratchetKey theirKey
      { r with
        rootKey
        receiverChains := r.receiverChains.insert { ratchetKey := theirKey, chainKey }
        senderChain := r.senderChain.erase 0 }

/-- The end of `Ratchet::decrypt`: move the chain in place `pos` past the
    message. -/
def advanceReceiverChain (r : Ratchet K) (pos : Nat) (counter : UInt32) : Ratchet K :=
  match r.receiverChains.toList[pos]? with
  | none => r
  | some chain =>
      let (chain, skippedMessageKeys) := skipKeys S counter
        (counter - chain.chainKey.index).toNat chain r.skippedMessageKeys
      { r with
        skippedMessageKeys
        receiverChains := r.receiverChains.set pos
          { chain with chainKey := advanceChainKey S chain.chainKey } }

/-- `Ratchet::decrypt` behind the checks of the header. -/
def decryptChecked (r : Ratchet K) (m : Mem) (reader : MessageReader)
    (plaintext maxPlaintextLength : Nat) : Mem × Ratchet K × Option Nat :=
  match findChain r m reader with
  | none =>
      match verifyMacAndDecryptForNewChain S r reader m plaintext maxPlaintextLength with
      | (m, none) => (m, { r with lastError := .badMessageMac }, none)
      | (m, some result) =>
          (m, advanceReceiverChain S (startReceiverChain S r (readerRatchetKey m reader)) 0
            reader.counter, some result)
  | some pos =>
      match r.receiverChains.toList[pos]? with
      | none => (m, r, none)  -- `findChain` only returns places of the list
      | some chain =>
          if chain.chainKey.index > reader.counter then
            match trySkippedKeys S reader plaintext maxPlaintextLength 0
              r.skippedMessageKeys.toList m with
            | (m, none) => (m, { r with lastError := .badMessageMac }, none)
            | (m, some (pos, result)) =>
                (m, { r with skippedMessageKeys := r.skippedMessageKeys.erase pos }, some result)
          else
            match verifyMacAndDecryptForExistingChain S chain.chainKey reader m plaintext
              maxPlaintextLength with
            | (m, none) => (m, { r with lastError := .badMessageMac }, none)
            | (m, some result) => (m, advanceReceiverChain S r pos reader.counter, some result)

/-- `Ratchet::decrypt`; `stack` is what the reader struct holds before. -/
def decrypt (r : Ratchet K) (stack : MessageReader) (m : Mem)
    (input inputLength plaintext maxPlaintextLength : Nat) : Mem × Ratchet K × Option Nat :=
  let reader := decodeMessage stack m input inputLength S.ratchetCipher.macLength
  if reader.version ≠ protocolVersion then
    (m, { r with lastError := .badMessageVersion }, none)
  else if reader.hasCounter = false ∨ reader.ratchetKey = none ∨ reader.ciphertext = none then
    (m, { r with lastError := .badMessageFormat }, none)
  else if maxPlaintextLength
      < S.ratchetCipher.decryptMaxPlaintextLength reader.ciphertextLength then
    (m, { r with lastError := .outputBufferTooSmall }, none)
  else if reader.ratchetKeyLength ≠ curve25519KeyLength then
    (m, { r with lastError := .badMessageFormat }, none)
  else decryptChecked S r m reader plaintext maxPlaintextLength

end OlmRatchet
