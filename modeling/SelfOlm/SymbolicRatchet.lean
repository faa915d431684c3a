import SelfOlm.Lib.KeyTerms
import SelfOlm.RatchetStepProofs
import SelfOlm.SessionFailureProofs

/-! # The ratchet over key derivation terms

    The same code on a suite whose HMAC, HKDF and shared secrets are free
    constructors.  Every root key is one epoch later than the one before it, and
    a chain is in the epoch of the root key that came with it. -/

namespace OlmRatchet

open ByteMemory OlmCrypto OlmMessage OlmList KeyTerms

/-- Secrets: of the ratchet, and of the handshake. -/
inductive SecretTerm where
  | sharedSecret (ourKey : Curve25519KeyPair) (theirKey : Curve25519PublicKey)
  | handshake (secret : Bytes)

/-- Keys as terms. -/
abbrev Term := KeyTerm Unit SecretTerm

/-- A suite with free constructors; key generation, the strings and the cipher
    are arbitrary. -/
def symbolicSuite (generateKey : Vector UInt8 32 → Curve25519KeyPair) (kdfInfo : KdfInfo)
    (cipher : Cipher Term) : Suite Term SecretTerm where
  generateKey := generateKey
  sharedSecret := .sharedSecret
  hkdf := fun secret salt info =>
    match salt with
    | none => (.hkdf false secret info, .hkdf true secret info)
    | some salt => (.hkdfSalted false secret salt info, .hkdfSalted true secret salt info)
  hmac := .hmac
  kdfInfo := kdfInfo
  ratchetCipher := cipher

variable (generateKey : Vector UInt8 32 → Curve25519KeyPair) (kdfInfo : KdfInfo)
  (cipher : Cipher Term)

/-- Both keys that come with a new chain are one epoch later. -/
theorem createChainKey_epoch {rootKey rootKey' : Term} {ourKey : Curve25519KeyPair}
    {theirKey : Curve25519PublicKey} {chainKey : ChainKey Term}
    (h : createChainKey (symbolicSuite generateKey kdfInfo cipher) rootKey ourKey theirKey
      = (rootKey', chainKey)) :
    epoch rootKey' = epoch rootKey + 1 ∧ epoch chainKey.key = epoch rootKey + 1 ∧
      chainKey.index = 0 := by
  obtain ⟨rfl, rfl⟩ := Prod.mk.inj h
  exact ⟨rfl, rfl, rfl⟩

theorem key_chainKeyAfter (chainKey : ChainKey Term) (n : Nat) :
    (chainKeyAfter (symbolicSuite generateKey kdfInfo cipher) n chainKey).key
      = chainAfter chainKeySeed n chainKey.key := by
  induction n with
  | zero => rfl
  | succ n ih =>
      rw [chainKeyAfter_succ', chainAfter_succ, ← ih]
      rfl

end OlmRatchet
