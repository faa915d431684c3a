import SelfOlm.Base64

/-! # Short authentication strings

    `sas.c`.  Two parties agree on a secret and compare bytes that are derived from it.
    The MACs are HMACs under a key that is derived from the secret; the two functions
    for them differ in the length of that key alone. -/

namespace OlmSas

open ByteMemory OlmCrypto OlmBase64

variable (prim : Primitives)

/-- `OlmSAS`. -/
structure SAS where
  lastError : OlmErrorCode
  curve25519Key : Curve25519KeyPair
  secret : Vector UInt8 32
  deriving DecidableEq

/-- `olm_sas`: memory that was set to zero. -/
def newSas : SAS where
  lastError := .success
  curve25519Key := ⟨Vector.replicate 32 0, Vector.replicate 32 0⟩
  secret := Vector.replicate 32 0

/-- `olm_create_sas_random_length`. -/
def olmCreateSasRandomLength : Nat := curve25519KeyLength

/-- `olm_create_sas`. -/
def olmCreateSas (sas : SAS) (m : Mem) (random randomLength : Nat) : SAS × Option Nat :=
  if randomLength < olmCreateSasRandomLength then ({ sas with lastError := .notEnoughRandom }, none)
  else ({ sas with curve25519Key := cryptoCurve25519GenerateKey prim (load 32 m random) }, some 0)

/-- `olm_sas_pubkey_length`. -/
def olmSasPubkeyLength : Nat := encodeBase64Length curve25519KeyLength

/-- `olm_sas_get_pubkey`. -/
def olmSasGetPubkey (sas : SAS) (m : Mem) (pubkey pubkeyLength : Nat) : Mem × SAS × Option Nat :=
  if pubkeyLength < olmSasPubkeyLength then
    (m, { sas with lastError := .outputBufferTooSmall }, none)
  else (write m pubkey (base64.encode sas.curve25519Key.publicKey.toList), sas, some 0)

/-- `olm_sas_set_their_key`: the key is decoded in place. -/
def olmSasSetTheirKey (sas : SAS) (m : Mem) (theirKey theirKeyLength : Nat) :
    Mem × SAS × Option Nat :=
  if theirKeyLength < olmSasPubkeyLength then
    (m, { sas with lastError := .inputBufferTooSmall }, none)
  else
    let m := decodeBase64 m theirKey theirKeyLength theirKey
    (m, { sas with
      secret := cryptoCurve25519SharedSecret prim sas.curve25519Key (load 32 m theirKey) }, some 0)

/-- `olm_sas_generate_bytes`. -/
def olmSasGenerateBytes (sas : SAS) (m : Mem) (info infoLength output outputLength : Nat) :
    Mem × Option Nat :=
  (write m output
    (cryptoHkdfSha256 prim sas.secret.toList none (read m info infoLength) outputLength), some 0)

/-- `olm_sas_mac_length`. -/
def olmSasMacLength : Nat := encodeBase64Length 32

/-- `olm_sas_calculate_mac` for a key of `keyLength` bytes: the HMAC is stored at the start
    of the buffer that its characters are stored in. -/
def calculateMac (keyLength : Nat) (sas : SAS) (m : Mem)
    (input inputLength info infoLength mac macLength : Nat) : Mem × SAS × Option Nat :=
  if macLength < olmSasMacLength then (m, { sas with lastError := .outputBufferTooSmall }, none)
  else
    let key := cryptoHkdfSha256 prim sas.secret.toList none (read m info infoLength) keyLength
    let m := store m mac (cryptoHmacSha256 prim key (read m input inputLength))
    (encodeBase64 m mac 32 mac, sas, some 0)

/-- `olm_sas_calculate_mac`. -/
def olmSasCalculateMac : SAS → Mem → Nat → Nat → Nat → Nat → Nat → Nat → Mem × SAS × Option Nat :=
  calculateMac prim 32

/-- `olm_sas_calculate_mac_long_kdf`. -/
def olmSasCalculateMacLongKdf :
    SAS → Mem → Nat → Nat → Nat → Nat → Nat → Nat → Mem × SAS × Option Nat :=
  calculateMac prim 256

end OlmSas
