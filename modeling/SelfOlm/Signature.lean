import SelfOlm.Session
import SelfOlm.Ed25519

/-! # Account signatures through the C interface

    The calls of `olm.cpp` that create an account, publish its identity keys,
    sign with it and check a signature. -/

namespace OlmAccount

open ByteMemory OlmCrypto OlmBase64
open OlmSession (b64OutputPos b64Output b64Input unset)

variable (prim : Primitives) (sodium : Sodium)

/-- `olm_create_account`. -/
def olmCreateAccount (a : Account) (m : Mem) (random randomLength : Nat) :
    Mem × Account × Option Nat :=
  let (a, result) := newAccount prim a m random randomLength
  (unset m random randomLength, a, result)

/-- `olm_create_account_derrived_keys`. -/
def olmCreateAccountDerrivedKeys (a : Account) (m : Mem) (random randomLength : Nat) :
    Mem × Account × Option Nat :=
  let (a, result) := newAccountDerrivedKeys sodium a m random randomLength
  (unset m random randomLength, a, result)

/-- `KEY_JSON_ED25519` and `KEY_JSON_CURVE25519`. -/
def keyJsonEd25519 : Bytes := ascii "\"ed25519\":"
def keyJsonCurve25519 : Bytes := ascii "\"curve25519\":"

/-- `get_identity_json_length`. -/
def getIdentityJsonLength : Nat :=
  1 + keyJsonCurve25519.length + 1 + encodeBase64Length curve25519KeyLength + 2
    + keyJsonEd25519.length + 1 + encodeBase64Length 32 + 2

/-- The string that `get_identity_json` writes. -/
def identityJson (a : Account) : Bytes :=
  ascii "\x7b" ++ keyJsonCurve25519 ++ ascii "\""
    ++ base64.encode a.identityKeys.curve25519Key.publicKey.toList ++ ascii "\","
    ++ keyJsonEd25519 ++ ascii "\""
    ++ base64.encode a.identityKeys.ed25519Key.publicKey.toList ++ ascii "\"\x7d"

/-- `olm_account_identity_keys`. -/
def olmAccountIdentityKeys (a : Account) (m : Mem) (identityKeys identityKeyLength : Nat) :
    Mem × Account × Option Nat :=
  if identityKeyLength < getIdentityJsonLength then
    (m, { a with lastError := .outputBufferTooSmall }, none)
  else (write m identityKeys (identityJson a), a, some (identityJson a).length)

/-- `olm_account_sign`.  The result of `Account::sign` is not looked at. -/
def olmAccountSign (a : Account) (m : Mem) (message messageLength signature signatureLen : Nat) :
    Mem × Account × Option Nat :=
  if signatureLen < encodeBase64Length signatureLength then
    (m, { a with lastError := .outputBufferTooSmall }, none)
  else
    let (m, a, _) := sign sodium a m message messageLength
      (b64OutputPos signature signatureLength) signatureLength
    let (m, length) := b64Output m signature signatureLength
    (m, a, some length)

end OlmAccount

namespace OlmUtility

open ByteMemory OlmCrypto OlmBase64
open OlmSession (b64Input)

variable (prim : Primitives)

/-- `Utility::ed25519_verify`: the last error and the result. -/
def ed25519Verify (lastError : OlmErrorCode) (key : Vector UInt8 32) (m : Mem)
    (message messageLength signature signatureLength : Nat) : OlmErrorCode × Option Nat :=
  if signatureLength < ed25519SignatureLength then (.badMessageMac, none)
  else if !cryptoEd25519Verify prim key (read m message messageLength) (load 64 m signature) then
    (.badMessageMac, none)
  else (lastError, some 0)

/-- `olm_ed25519_verify`; the key is decoded into an array on the stack, the
    signature in place. -/
def olmEd25519Verify (lastError : OlmErrorCode) (m : Mem)
    (key keyLength message messageLength signature signatureLength : Nat) :
    Mem × OlmErrorCode × Option Nat :=
  if decodeBase64Length keyLength ≠ some curve25519KeyLength then (m, .invalidBase64, none)
  else
    let verifyKey := ofBytes 32 (base64.decode (read m key keyLength))
    match b64Input m signature signatureLength with
    | (m, none) => (m, .invalidBase64, none)
    | (m, some rawSignatureLength) =>
        (m, ed25519Verify prim lastError verifyKey m message messageLength signature
          rawSignatureLength)

end OlmUtility
