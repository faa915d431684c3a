import SelfOlm.Crypto
import SelfOlm.BoundedList

/-! # Accounts

    `account.cpp` without the JSON output: the identity keys and the one-time
    keys, newest first.  libsodium is not part of the repository; the four
    functions that are called are a parameter, with `none` for a result other
    than 0. -/

namespace OlmAccount

open ByteMemory OlmCrypto OlmList

/-- The functions of libsodium that `account.cpp` calls. -/
structure Sodium where
  /-- `crypto_sign_seed_keypair`: public key and secret key. -/
  signSeedKeypair : Vector UInt8 32 → Option (Vector UInt8 32 × Vector UInt8 64)
  /-- `crypto_sign_ed25519_sk_to_curve25519`. -/
  skToCurve25519 : Vector UInt8 64 → Option (Vector UInt8 32)
  /-- `crypto_sign_ed25519_pk_to_curve25519`. -/
  pkToCurve25519 : Vector UInt8 32 → Option (Vector UInt8 32)
  /-- `crypto_sign`: the signed message. -/
  sign : Bytes → Vector UInt8 64 → Option Bytes

structure IdentityKeys where
  ed25519Key : Ed25519KeyPair
  curve25519Key : Curve25519KeyPair
  deriving DecidableEq

structure OneTimeKey where
  id : UInt32
  published : Bool
  key : Curve25519KeyPair
  deriving DecidableEq

def maxOneTimeKeys : Nat := 100000

/-- `olm::Account`. -/
structure Account where
  identityKeys : IdentityKeys
  oneTimeKeys : BoundedList OneTimeKey maxOneTimeKeys
  nextOneTimeKeyId : UInt32
  lastError : OlmErrorCode
  deriving DecidableEq

variable (prim : Primitives) (sodium : Sodium)

def zeroCurve25519KeyPair : Curve25519KeyPair where
  publicKey := Vector.replicate 32 0
  privateKey := Vector.replicate 32 0

def zeroEd25519KeyPair : Ed25519KeyPair where
  publicKey := Vector.replicate 32 0
  privateKey := Vector.replicate 64 0

/-- `olm_account`: `Account::Account` in memory that was set to zero. -/
def newAccountObject : Account where
  identityKeys := { ed25519Key := zeroEd25519KeyPair, curve25519Key := zeroCurve25519KeyPair }
  oneTimeKeys := .empty
  nextOneTimeKeyId := 0
  lastError := .success

/-- `lookup_key`. -/
def lookupKey (a : Account) (publicKey : Curve25519PublicKey) : Option OneTimeKey :=
  a.oneTimeKeys.toList.find? (fun key => key.key.publicKey = publicKey)

/-- `remove_key`. -/
def removeKey (a : Account) (publicKey : Curve25519PublicKey) : Account × Option Nat :=
  match a.oneTimeKeys.toList.findIdx? (fun key => key.key.publicKey = publicKey) with
  | none => (a, none)
  | some i =>
      ({ a with oneTimeKeys := a.oneTimeKeys.erase i },
        a.oneTimeKeys.toList[i]?.map (fun key => key.id.toNat))

/-- `new_account_random_length`. -/
def newAccountRandomLength : Nat := 32 + 32

/-- `new_account`. -/
def newAccount (a : Account) (m : Mem) (random randomLength : Nat) : Account × Option Nat :=
  if randomLength < newAccountRandomLength then ({ a with lastError := .notEnoughRandom }, none)
  else
    ({ a with
        identityKeys := {
          ed25519Key := cryptoEd25519GenerateKey prim (load 32 m random)
          curve25519Key := cryptoCurve25519GenerateKey prim (load 32 m (random + 32)) } }, some 0)

/-- `new_account_derrived_keys`.  The keys are stored one after the other, also
    where a later step fails. -/
def newAccountDerrivedKeys (a : Account) (m : Mem) (random randomLength : Nat) :
    Account × Option Nat :=
  if randomLength < 32 then ({ a with lastError := .notEnoughRandom }, none)
  else
    match sodium.signSeedKeypair (load 32 m random) with
    | none => ({ a with lastError := .notEnoughRandom }, none)
    | some (ed25519Pk, ed25519Sk) =>
        let a := { a with
          identityKeys := { a.identityKeys with
            ed25519Key := { publicKey := ed25519Pk, privateKey := ed25519Sk } } }
        match sodium.skToCurve25519 ed25519Sk with
        | none => ({ a with lastError := .notEnoughRandom }, none)
        | some curve25519Sk =>
            let a := { a with
              identityKeys := { a.identityKeys with
                curve25519Key := { a.identityKeys.curve25519Key with
                  privateKey := curve25519Sk } } }
            match sodium.pkToCurve25519 ed25519Pk with
            | none => ({ a with lastError := .notEnoughRandom }, none)
            | some curve25519Pk =>
                ({ a with
                    identityKeys := { a.identityKeys with
                      curve25519Key := { a.identityKeys.curve25519Key with
                        publicKey := curve25519Pk } } }, some 0)

/-- `signature_length`. -/
def signatureLength : Nat := ed25519SignatureLength

/-- `Account::sign`.  `crypto_sign` stores the signature and the whole message
    behind it. -/
def sign (a : Account) (m : Mem) (message messageLength signature signatureLen : Nat) :
    Mem × Account × Option Nat :=
  if signatureLen < signatureLength then
    (m, { a with lastError := .outputBufferTooSmall }, none)
  else
    match sodium.sign (read m message messageLength) a.identityKeys.ed25519Key.privateKey with
    | none => (m, { a with lastError := .outputBufferTooSmall }, none)
    | some signedMessage => (write m signature signedMessage, a, some signatureLength)

/-- `mark_keys_as_published`. -/
def markKeysAsPublished (a : Account) : Account × Nat :=
  ({ a with
      oneTimeKeys := ⟨a.oneTimeKeys.toList.map (fun key => { key with published := true }), by
        rw [List.length_map]; exact a.oneTimeKeys.length_le⟩ },
    (a.oneTimeKeys.toList.filter (fun key => !key.published)).length)

/-- `generate_one_time_keys_random_length`. -/
def generateOneTimeKeysRandomLength (numberOfKeys : Nat) : Nat := 32 * numberOfKeys

/-- The `for` loop of `generate_one_time_keys`. -/
def generateOneTimeKeysLoop : Nat → Account → Mem → Nat → Account
  | 0, a, _, _ => a
  | n + 1, a, m, random =>
      let id := a.nextOneTimeKeyId + 1
      let a := { a with
        nextOneTimeKeyId := id
        oneTimeKeys := a.oneTimeKeys.insert
          { id, published := false, key := cryptoCurve25519GenerateKey prim (load 32 m random) } }
      generateOneTimeKeysLoop n a m (random + 32)

/-- `generate_one_time_keys`. -/
def generateOneTimeKeys (a : Account) (numberOfKeys : Nat) (m : Mem)
    (random randomLength : Nat) : Account × Option Nat :=
  if randomLength < generateOneTimeKeysRandomLength numberOfKeys then
    ({ a with lastError := .notEnoughRandom }, none)
  else (generateOneTimeKeysLoop prim numberOfKeys a m random, some numberOfKeys)

end OlmAccount
