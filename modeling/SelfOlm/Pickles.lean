import SelfOlm.Pickle
import SelfOlm.Session
import SelfOlm.GroupSession

/-! # The pickles of the objects

    What each object stores, and the calls that pickle and unpickle it:
    `account.cpp`, `ratchet.cpp`, `session.cpp`, `pk.cpp`, `megolm.c` and the two
    group session files. -/

namespace OlmPickle

open ByteMemory OlmCrypto OlmBase64 OlmList OlmAccount OlmRatchet OlmSession OlmMegolm
open OlmGroupSession (Part OutboundGroupSession InboundGroupSession megolmGetData partsOfBytes)

variable (prim : Primitives)

/-! ## Accounts -/

instance : Pickle IdentityKeys where
  zero := { ed25519Key := Pickle.zero, curve25519Key := Pickle.zero }
  pickleLength := fun value => pickleLength value.ed25519Key + pickleLength value.curve25519Key
  pickle := fun value => pickle value.ed25519Key ++ pickle value.curve25519Key
  unpickle := fun m pos fin value =>
    let (ed25519Key, pos) := unpickle m pos fin value.ed25519Key
    let (curve25519Key, pos) := unpickle m pos fin value.curve25519Key
    ({ ed25519Key, curve25519Key }, pos)

instance : Pickle OneTimeKey where
  zero := { id := Pickle.zero, published := Pickle.zero, key := Pickle.zero }
  pickleLength := fun value =>
    pickleLength value.id + (pickleLength value.published + pickleLength value.key)
  pickle := fun value => pickle value.id ++ (pickle value.published ++ pickle value.key)
  unpickle := fun m pos fin value =>
    let (id, pos) := unpickle m pos fin value.id
    let (published, pos) := unpickle m pos fin value.published
    let (key, pos) := unpickle m pos fin value.key
    ({ id, published, key }, pos)

def accountPickleVersion : UInt32 := 2

/-- `pickle_length` of an account. -/
def accountPickleLength (value : Account) : Nat :=
  pickleLength accountPickleVersion + (pickleLength value.identityKeys
    + (pickleLength value.oneTimeKeys + pickleLength value.nextOneTimeKeyId))

/-- `pickle` of an account. -/
def accountPickle (value : Account) : Bytes :=
  pickle accountPickleVersion ++ (pickle value.identityKeys
    ++ (pickle value.oneTimeKeys ++ pickle value.nextOneTimeKeyId))

/-- `unpickle` of an account. -/
def accountUnpickle (m : Mem) (pos fin : Nat) (value : Account) : Account × Nat :=
  let (pickleVersion, pos) := unpickle m pos fin (0 : UInt32)
  if pickleVersion = accountPickleVersion then
    let (identityKeys, pos) := unpickle m pos fin value.identityKeys
    let (oneTimeKeys, pos) := unpickle m pos fin value.oneTimeKeys
    let (nextOneTimeKeyId, pos) := unpickle m pos fin value.nextOneTimeKeyId
    ({ value with identityKeys, oneTimeKeys, nextOneTimeKeyId }, pos)
  else if pickleVersion = 1 then ({ value with lastError := .badLegacyAccountPickle }, fin)
  else ({ value with lastError := .unknownPickleVersion }, fin)

/-- `olm_pickle_account_length`. -/
def olmPickleAccountLength (account : Account) : Nat :=
  encOutputLength prim (accountPickleLength account)

/-- `olm_pickle_account`. -/
def olmPickleAccount :=
  olmPickle prim accountPickleLength accountPickle (fun e a => { a with lastError := e })

/-- `olm_unpickle_account`. -/
def olmUnpickleAccount :=
  olmUnpickle prim accountUnpickle Account.lastError (fun e a => { a with lastError := e })

/-! ## Sessions -/

instance : Pickle (SenderChain SharedKey) where
  zero := { ratchetKey := Pickle.zero, chainKey := { index := Pickle.zero, key := Pickle.zero } }
  pickleLength := fun value => pickleLength value.ratchetKey
    + (pickleLength value.chainKey.key + pickleLength value.chainKey.index)
  pickle := fun value => pickle value.ratchetKey
    ++ (pickle value.chainKey.key ++ pickle value.chainKey.index)
  unpickle := fun m pos fin value =>
    let (ratchetKey, pos) := unpickle m pos fin value.ratchetKey
    let (key, pos) := unpickle m pos fin value.chainKey.key
    let (index, pos) := unpickle m pos fin value.chainKey.index
    ({ ratchetKey, chainKey := { index, key } }, pos)

instance : Pickle (ReceiverChain SharedKey) where
  zero := { ratchetKey := Pickle.zero, chainKey := { index := Pickle.zero, key := Pickle.zero } }
  pickleLength := fun value => pickleLength value.ratchetKey
    + (pickleLength value.chainKey.key + pickleLength value.chainKey.index)
  pickle := fun value => pickle value.ratchetKey
    ++ (pickle value.chainKey.key ++ pickle value.chainKey.index)
  unpickle := fun m pos fin value =>
    let (ratchetKey, pos) := unpickle m pos fin value.ratchetKey
    let (key, pos) := unpickle m pos fin value.chainKey.key
    let (index, pos) := unpickle m pos fin value.chainKey.index
    ({ ratchetKey, chainKey := { index, key } }, pos)

instance : Pickle (SkippedMessageKey SharedKey) where
  zero := { ratchetKey := Pickle.zero, messageKey := { index := Pickle.zero, key := Pickle.zero } }
  pickleLength := fun value => pickleLength value.ratchetKey
    + (pickleLength value.messageKey.key + pickleLength value.messageKey.index)
  pickle := fun value => pickle value.ratchetKey
    ++ (pickle value.messageKey.key ++ pickle value.messageKey.index)
  unpickle := fun m pos fin value =>
    let (ratchetKey, pos) := unpickle m pos fin value.ratchetKey
    let (key, pos) := unpickle m pos fin value.messageKey.key
    let (index, pos) := unpickle m pos fin value.messageKey.index
    ({ ratchetKey, messageKey := { index, key } }, pos)

/-- `pickle_length` of a ratchet. -/
def ratchetPickleLength (value : Ratchet SharedKey) : Nat :=
  pickleLength value.rootKey + (pickleLength value.senderChain
    + (pickleLength value.receiverChains + pickleLength value.skippedMessageKeys))

/-- `pickle` of a ratchet. -/
def ratchetPickle (value : Ratchet SharedKey) : Bytes :=
  pickle value.rootKey ++ (pickle value.senderChain
    ++ (pickle value.receiverChains ++ pickle value.skippedMessageKeys))

/-- `unpickle` of a ratchet. -/
def ratchetUnpickle (m : Mem) (pos fin : Nat) (value : Ratchet SharedKey)
    (includesChainIndex : Bool) : Ratchet SharedKey × Nat :=
  let (rootKey, pos) := unpickle m pos fin value.rootKey
  let (senderChain, pos) := unpickle m pos fin value.senderChain
  let (receiverChains, pos) := unpickle m pos fin value.receiverChains
  let (skippedMessageKeys, pos) := unpickle m pos fin value.skippedMessageKeys
  let pos := if includesChainIndex then (unpickle m pos fin (0 : UInt32)).2 else pos
  ({ value with rootKey, senderChain, receiverChains, skippedMessageKeys }, pos)

def sessionPickleVersion : UInt32 := 1

/-- `pickle_length` of a session. -/
def sessionPickleLength (value : Session) : Nat :=
  pickleLength sessionPickleVersion + (pickleLength value.receivedMessage
    + (pickleLength value.aliceIdentityKey + (pickleLength value.aliceBaseKey
      + (pickleLength value.bobOneTimeKey + ratchetPickleLength value.ratchet))))

/-- `pickle` of a session. -/
def sessionPickle (value : Session) : Bytes :=
  pickle sessionPickleVersion ++ (pickle value.receivedMessage
    ++ (pickle value.aliceIdentityKey ++ (pickle value.aliceBaseKey
      ++ (pickle value.bobOneTimeKey ++ ratchetPickle value.ratchet))))

/-- The part of `unpickle` behind the version of a session. -/
def sessionUnpickleFields (m : Mem) (pos fin : Nat) (value : Session)
    (includesChainIndex : Bool) : Session × Nat :=
  let (receivedMessage, pos) := unpickle m pos fin value.receivedMessage
  let (aliceIdentityKey, pos) := unpickle m pos fin value.aliceIdentityKey
  let (aliceBaseKey, pos) := unpickle m pos fin value.aliceBaseKey
  let (bobOneTimeKey, pos) := unpickle m pos fin value.bobOneTimeKey
  let (ratchet, pos) := ratchetUnpickle m pos fin value.ratchet includesChainIndex
  ({ value with receivedMessage, aliceIdentityKey, aliceBaseKey, bobOneTimeKey, ratchet }, pos)

/-- `unpickle` of a session; version `0x80000001` also has a chain index. -/
def sessionUnpickle (m : Mem) (pos fin : Nat) (value : Session) : Session × Nat :=
  let (pickleVersion, pos) := unpickle m pos fin (0 : UInt32)
  if pickleVersion = 1 then sessionUnpickleFields m pos fin value false
  else if pickleVersion = 0x80000001 then sessionUnpickleFields m pos fin value true
  else ({ value with lastError := .unknownPickleVersion }, fin)

/-- `olm_pickle_session_length`. -/
def olmPickleSessionLength (session : Session) : Nat :=
  encOutputLength prim (sessionPickleLength session)

/-- `olm_pickle_session`. -/
def olmPickleSession :=
  olmPickle prim sessionPickleLength sessionPickle (fun e s => { s with lastError := e })

/-- `olm_unpickle_session`. -/
def olmUnpickleSession :=
  olmUnpickle prim sessionUnpickle Session.lastError (fun e s => { s with lastError := e })

/-! ## Decryption with a key pair -/

/-- `OlmPkDecryption`. -/
structure PkDecryption where
  lastError : OlmErrorCode
  keyPair : Curve25519KeyPair
  deriving DecidableEq

/-- `olm_pk_decryption`. -/
def newPkDecryption : PkDecryption where
  lastError := .success
  keyPair := Pickle.zero

def pkDecryptionPickleVersion : UInt32 := 1

/-- `pickle_length` of a decryption object. -/
def pkDecryptionPickleLength (value : PkDecryption) : Nat :=
  pickleLength pkDecryptionPickleVersion + pickleLength value.keyPair

/-- `pickle` of a decryption object. -/
def pkDecryptionPickle (value : PkDecryption) : Bytes :=
  pickle pkDecryptionPickleVersion ++ pickle value.keyPair

/-- `unpickle` of a decryption object. -/
def pkDecryptionUnpickle (m : Mem) (pos fin : Nat) (value : PkDecryption) : PkDecryption × Nat :=
  let (pickleVersion, pos) := unpickle m pos fin (0 : UInt32)
  if pickleVersion = 1 then
    let (keyPair, pos) := unpickle m pos fin value.keyPair
    ({ value with keyPair }, pos)
  else ({ value with lastError := .unknownPickleVersion }, fin)

/-- `olm_pk_key_length`. -/
def olmPkKeyLength : Nat := encodeBase64Length curve25519KeyLength

/-- `olm_pickle_pk_decryption_length`. -/
def olmPicklePkDecryptionLength (decryption : PkDecryption) : Nat :=
  encOutputLength prim (pkDecryptionPickleLength decryption)

/-- `olm_pickle_pk_decryption`. -/
def olmPicklePkDecryption :=
  olmPickle prim pkDecryptionPickleLength pkDecryptionPickle (fun e d => { d with lastError := e })

/-- `olm_unpickle_pk_decryption`; the public key is stored unless its address is
    null. -/
def olmUnpicklePkDecryption (pubkey : Option Nat) (pubkeyLength : Nat)
    (decryption : PkDecryption) (m : Mem) (key keyLength pickled pickledLength : Nat) :
    Mem × PkDecryption × Option Nat :=
  if pubkey.isSome ∧ pubkeyLength < olmPkKeyLength then
    (m, { decryption with lastError := .outputBufferTooSmall }, none)
  else
    match olmUnpickle prim pkDecryptionUnpickle PkDecryption.lastError
      (fun e d => { d with lastError := e }) decryption m key keyLength pickled pickledLength with
    | (m, decryption, none) => (m, decryption, none)
    | (m, decryption, some result) =>
        let m := match pubkey with
          | none => m
          | some pubkey => write m pubkey (base64.encode decryption.keyPair.publicKey.toList)
        (m, decryption, some result)

/-! ## Group sessions -/

/-- `megolm_pickle_length`, `megolm_pickle` and `megolm_unpickle`; the four parts
    are one array of bytes in memory. -/
instance : Pickle (Megolm Part) where
  zero := { data := fun _ => Pickle.zero, counter := Pickle.zero }
  pickleLength := fun megolm =>
    OlmGroupSession.megolmRatchetLength + pickleLength megolm.counter
  pickle := fun megolm => megolmGetData megolm ++ pickle megolm.counter
  unpickle := fun m pos fin megolm =>
    let (data, pos) :=
      if fin < pos + OlmGroupSession.megolmRatchetLength then (megolm.data, fin)
      else (partsOfBytes (read m pos OlmGroupSession.megolmRatchetLength),
        pos + OlmGroupSession.megolmRatchetLength)
    let (counter, pos) := unpickle m pos fin megolm.counter
    ({ data, counter }, pos)

/-- `olm_outbound_group_session`: memory that was set to zero. -/
def newOutboundGroupSession : OutboundGroupSession where
  ratchet := Pickle.zero
  signingKey := Pickle.zero
  lastError := .success

/-- `PICKLE_VERSION` of outbound sessions. -/
def outboundPickleVersion : UInt32 := 1

/-- `raw_pickle_length` of an outbound session. -/
def outboundPickleLength (session : OutboundGroupSession) : Nat :=
  pickleLength outboundPickleVersion
    + (pickleLength session.ratchet + pickleLength session.signingKey)

/-- The raw pickle of an outbound session. -/
def outboundPickle (session : OutboundGroupSession) : Bytes :=
  pickle outboundPickleVersion ++ (pickle session.ratchet ++ pickle session.signingKey)

/-- `olm_pickle_outbound_group_session_length`. -/
def olmPickleOutboundGroupSessionLength (session : OutboundGroupSession) : Nat :=
  encOutputLength prim (outboundPickleLength session)

/-- `olm_pickle_outbound_group_session`. -/
def olmPickleOutboundGroupSession :=
  olmPickle prim outboundPickleLength outboundPickle (fun e s => { s with lastError := e })

/-- `olm_unpickle_outbound_group_session`; the end is the real one here. -/
def olmUnpickleOutboundGroupSession (session : OutboundGroupSession) (m : Mem)
    (key keyLength pickled pickledLength : Nat) : Mem × OutboundGroupSession × Option Nat :=
  match encInput prim m key keyLength pickled pickledLength with
  | (m, .error e) => (m, { session with lastError := e }, none)
  | (m, .ok rawLength) =>
      let fin := pickled + rawLength
      let (pickleVersion, pos) := unpickle m pickled fin (0 : UInt32)
      if pickleVersion ≠ outboundPickleVersion then
        (m, { session with lastError := .unknownPickleVersion }, none)
      else
        let (ratchet, pos) := unpickle m pos fin session.ratchet
        let (signingKey, pos) := unpickle m pos fin session.signingKey
        let session := { session with ratchet, signingKey }
        if fin ≠ pos then (m, { session with lastError := .corruptedPickle }, none)
        else (m, session, some pickledLength)

/-- `olm_inbound_group_session`: memory that was set to zero. -/
def newInboundGroupSession : InboundGroupSession where
  initialRatchet := Pickle.zero
  latestRatchet := Pickle.zero
  signingKey := Pickle.zero
  signingKeyVerified := false
  lastError := .success

/-- `PICKLE_VERSION` of inbound sessions. -/
def inboundPickleVersion : UInt32 := 2

/-- `raw_pickle_length` of an inbound session. -/
def inboundPickleLength (session : InboundGroupSession) : Nat :=
  pickleLength inboundPickleVersion + (pickleLength session.initialRatchet
    + (pickleLength session.latestRatchet + (pickleLength session.signingKey
      + pickleLength session.signingKeyVerified)))

/-- The raw pickle of an inbound session. -/
def inboundPickle (session : InboundGroupSession) : Bytes :=
  pickle inboundPickleVersion ++ (pickle session.initialRatchet
    ++ (pickle session.latestRatchet ++ (pickle session.signingKey
      ++ pickle session.signingKeyVerified)))

/-- `olm_pickle_inbound_group_session_length`. -/
def olmPickleInboundGroupSessionLength (session : InboundGroupSession) : Nat :=
  encOutputLength prim (inboundPickleLength session)

/-- `olm_pickle_inbound_group_session`. -/
def olmPickleInboundGroupSession :=
  olmPickle prim inboundPickleLength inboundPickle (fun e s => { s with lastError := e })

/-- `olm_unpickle_inbound_group_session`; pickles of version 1 have no flag. -/
def olmUnpickleInboundGroupSession (session : InboundGroupSession) (m : Mem)
    (key keyLength pickled pickledLength : Nat) : Mem × InboundGroupSession × Option Nat :=
  match encInput prim m key keyLength pickled pickledLength with
  | (m, .error e) => (m, { session with lastError := e }, none)
  | (m, .ok rawLength) =>
      let fin := pickled + rawLength
      let (pickleVersion, pos) := unpickle m pickled fin (0 : UInt32)
      if pickleVersion < 1 ∨ pickleVersion > inboundPickleVersion then
        (m, { session with lastError := .unknownPickleVersion }, none)
      else
        let (initialRatchet, pos) := unpickle m pos fin session.initialRatchet
        let (latestRatchet, pos) := unpickle m pos fin session.latestRatchet
        let (signingKey, pos) := unpickle m pos fin session.signingKey
        let (signingKeyVerified, pos) :=
          if pickleVersion = 1 then (true, pos)
          else unpickle m pos fin session.signingKeyVerified
        let session :=
          { session with initialRatchet, latestRatchet, signingKey, signingKeyVerified }
        if fin ≠ pos then (m, { session with lastError := .corruptedPickle }, none)
        else (m, session, some pickledLength)

end OlmPickle
