import SelfOlm.GroupMessageProofs
import SelfOlm.Ed25519

/-! # Rejected key shares

    `_init_group_session_keys` copies the ratchet and the public key of a key
    share into the session and checks the signature with that public key
    afterwards.  Every error exit before the copy leaves the session alone, an
    exported share has no exit behind it, and a signed share has exactly one: a
    signature that does not verify.  There the session keeps the ratchet and the
    public key of the forged share. -/

namespace OlmGroupSession

open ByteMemory OlmCrypto OlmBase64 OlmMegolm OlmEd25519

variable (prim : Primitives)

/-! ## What a share carries -/

/-- The ratchet in a decoded key share. -/
def shareRatchet (keyBuf : Bytes) : Megolm Part :=
  megolmInit (partsOfBytes (keyBuf.drop 5)) (decodeCounter ((keyBuf.drop 1).take 4))

/-- The public key in a decoded key share. -/
def sharePublicKey (keyBuf : Bytes) : Vector UInt8 32 := ofBytes 32 (keyBuf.drop 133)

/-- Whether a decoded key share is signed with its own public key. -/
def shareVerifies (keyBuf : Bytes) : Bool :=
  cryptoEd25519Verify prim (sharePublicKey keyBuf) (keyBuf.take 165)
    (ofBytes 64 (keyBuf.drop 165))

/-- A string of the length and the version of a signed share, whose signature
    does not verify. -/
def Forged (keyBuf : Bytes) (sessionKeyLength : Nat) : Prop :=
  decodeBase64Length sessionKeyLength = some sessionKeyRawLength ∧
    keyBuf.getD 0 0 = sessionKeyVersion ∧ shareVerifies prim keyBuf = false

/-- A session whose two ratchets and signing key are those of the share. -/
structure Holds (session : InboundGroupSession) (keyBuf : Bytes) : Prop where
  initialRatchet : shareRatchet keyBuf = session.initialRatchet
  latestRatchet : shareRatchet keyBuf = session.latestRatchet
  signingKey : sharePublicKey keyBuf = session.signingKey

/-! ## The frame of a rejected call -/

/-- Two states of a session that agree on everything a key share can set. -/
structure SameKeys (session session' : InboundGroupSession) : Prop where
  initialRatchet : session'.initialRatchet = session.initialRatchet
  latestRatchet : session'.latestRatchet = session.latestRatchet
  signingKey : session'.signingKey = session.signingKey
  signingKeyVerified : session'.signingKeyVerified = session.signingKeyVerified

/-- If the call failed, it left the keys of the session alone. -/
def RejectedUnchanged (session : InboundGroupSession)
    (result : InboundGroupSession × Option Nat) : Prop :=
  result.2 = none → SameKeys session result.1

theorem SameKeys.withError (session : InboundGroupSession) (e : OlmErrorCode) :
    SameKeys session { session with lastError := e } where
  initialRatchet := rfl
  latestRatchet := rfl
  signingKey := rfl
  signingKeyVerified := rfl

theorem rejectedUnchanged_error (session : InboundGroupSession) (e : OlmErrorCode) :
    RejectedUnchanged session ({ session with lastError := e }, none) :=
  fun _ => SameKeys.withError session e

theorem rejectedUnchanged_some (session session' : InboundGroupSession) (n : Nat) :
    RejectedUnchanged session (session', some n) := by
  intro h
  cases h

/-- An exported share is not rejected once it has been copied. -/
theorem initGroupSessionKeys_export (session : InboundGroupSession) (keyBuf : Bytes) :
    RejectedUnchanged session (initGroupSessionKeys prim session keyBuf true) := by
  rw [initGroupSessionKeys]
  simp only [reduceIte]
  by_cases hversion : keyBuf.getD 0 0 ≠ sessionExportVersion
  · rw [if_pos hversion]
    exact rejectedUnchanged_error session .badSessionKey
  · rw [if_neg hversion]
    exact rejectedUnchanged_some session _ 0

/-- A signature that does not verify: the keys of the share have been copied. -/
theorem initGroupSessionKeys_badSignature (session : InboundGroupSession) {keyBuf : Bytes}
    (hversion : keyBuf.getD 0 0 = sessionKeyVersion)
    (hverify : shareVerifies prim keyBuf = false) :
    initGroupSessionKeys prim session keyBuf false
      = ({ session with
            initialRatchet := shareRatchet keyBuf
            latestRatchet := shareRatchet keyBuf
            signingKey := sharePublicKey keyBuf
            lastError := .badSignature }, none) := by
  have hcheck : cryptoEd25519Verify prim (ofBytes 32 (keyBuf.drop 133)) (keyBuf.take 165)
      (ofBytes 64 (keyBuf.drop 165)) = false := hverify
  rw [initGroupSessionKeys]
  simp only [Bool.false_eq_true, reduceIte]
  rw [if_neg (not_not_intro hversion), hcheck]
  rfl

/-- A signed share leaves the keys alone unless its signature fails; then the
    session has its keys. -/
theorem initGroupSessionKeys_signed (session : InboundGroupSession) (keyBuf : Bytes) :
    RejectedUnchanged session (initGroupSessionKeys prim session keyBuf false)
      ↔ ¬(keyBuf.getD 0 0 = sessionKeyVersion ∧ shareVerifies prim keyBuf = false)
        ∨ Holds session keyBuf := by
  by_cases hforged : keyBuf.getD 0 0 = sessionKeyVersion ∧ shareVerifies prim keyBuf = false
  · rw [initGroupSessionKeys_badSignature prim session hforged.1 hforged.2]
    constructor
    · -- the copied keys are all that can differ
      intro h
      obtain ⟨h1, h2, h3, -⟩ := h rfl
      exact Or.inr ⟨h1, h2, h3⟩
    · intro h
      obtain ⟨h1, h2, h3⟩ := h.resolve_left (fun hn => hn hforged)
      intro _
      exact ⟨h1, h2, h3, rfl⟩
  · refine iff_of_true ?_ (Or.inl hforged)
    rw [initGroupSessionKeys]
    simp only [Bool.false_eq_true, reduceIte]
    by_cases hversion : keyBuf.getD 0 0 = sessionKeyVersion
    · have hcheck : cryptoEd25519Verify prim (ofBytes 32 (keyBuf.drop 133)) (keyBuf.take 165)
          (ofBytes 64 (keyBuf.drop 165)) = true :=
        (Bool.not_eq_false _).mp (fun h => hforged ⟨hversion, h⟩)
      rw [if_neg (not_not_intro hversion), hcheck]
      exact rejectedUnchanged_some session _ 0
    · rw [if_pos hversion]
      exact rejectedUnchanged_error session .badSessionKey

/-- The length of the string is checked before anything is copied. -/
theorem initFromKey_rejected (exportFormat : Bool) (keyRawLength : Nat)
    (session : InboundGroupSession) (m : Mem) (sessionKey sessionKeyLength : Nat) :
    RejectedUnchanged session
        (initFromKey prim exportFormat keyRawLength session m sessionKey sessionKeyLength)
      ↔ (decodeBase64Length sessionKeyLength = some keyRawLength →
          RejectedUnchanged session (initGroupSessionKeys prim session
            (base64.decode (read m sessionKey sessionKeyLength)) exportFormat)) := by
  rw [initFromKey]
  cases hlength : decodeBase64Length sessionKeyLength with
  | none =>
      refine iff_of_true (rejectedUnchanged_error session .invalidBase64) ?_
      intro h
      cases h
  | some rawLength =>
      simp only
      by_cases hraw : rawLength = keyRawLength
      · rw [if_neg (not_not_intro hraw), hraw]
        exact ⟨fun h _ => h, fun h => h rfl⟩
      · rw [if_pos hraw]
        refine iff_of_true (rejectedUnchanged_error session .badSessionKey) ?_
        intro h
        exact absurd (Option.some.inj h) hraw

/-- An export has no signature, so what `import` rejects it rejects before it stores a key. -/
theorem importInboundGroupSession_unchanged (session : InboundGroupSession) (m : Mem)
    (sessionKey sessionKeyLength : Nat) :
    RejectedUnchanged session
      (importInboundGroupSession prim session m sessionKey sessionKeyLength) :=
  (initFromKey_rejected prim true _ session m _ _).mpr
    (fun _ => initGroupSessionKeys_export prim session _)

/-- **REJECTED SHARES**: a string that is rejected through `import` leaves the session as it
    was, and through either call it does exactly when it is not a forged share or the session
    holds the keys of that share already. -/
theorem initInboundGroupSession_unchanged_iff (session : InboundGroupSession) (m : Mem)
    (sessionKey sessionKeyLength : Nat) :
    RejectedUnchanged session
        (importInboundGroupSession prim session m sessionKey sessionKeyLength) ∧
      (RejectedUnchanged session
          (initInboundGroupSession prim session m sessionKey sessionKeyLength) ∧
        RejectedUnchanged session
          (importInboundGroupSession prim session m sessionKey sessionKeyLength)
      ↔ ¬Forged prim (base64.decode (read m sessionKey sessionKeyLength)) sessionKeyLength
        ∨ Holds session (base64.decode (read m sessionKey sessionKeyLength))) := by
  have himport := importInboundGroupSession_unchanged prim session m sessionKey sessionKeyLength
  refine ⟨himport, ?_⟩
  rw [initInboundGroupSession, initFromKey_rejected, initGroupSessionKeys_signed]
  constructor
  · rintro ⟨hinit, -⟩
    by_cases hforged : Forged prim (base64.decode (read m sessionKey sessionKeyLength))
        sessionKeyLength
    · exact Or.inr ((hinit hforged.1).resolve_left (fun hn => hn hforged.2))
    · exact Or.inl hforged
  · intro h
    refine ⟨?_, himport⟩
    intro hlength
    rcases h with hforged | hholds
    · exact Or.inl (fun hn => hforged ⟨hlength, hn⟩)
    · exact Or.inr hholds

/-! ## A forged share -/

/-- Counter, ratchet and public key of ones, and a signature that is too large. -/
def forgedShare : Bytes :=
  sessionKeyVersion :: (List.replicate 164 1 ++ List.replicate 64 0xFF)

/-- The encoded share at address 0. -/
def forgedMemory : Mem := write (fun _ => 0) 0 (base64.encode forgedShare)

/-- A session in memory that was set to zero. -/
def blankSession : InboundGroupSession where
  initialRatchet := { data := fun _ => Vector.replicate 32 0, counter := 0 }
  latestRatchet := { data := fun _ => Vector.replicate 32 0, counter := 0 }
  signingKey := Vector.replicate 32 0
  signingKeyVerified := false
  lastError := .success

theorem decode_forgedMemory :
    base64.decode (read forgedMemory 0 306) = forgedShare := by
  have hlen : (base64.encode forgedShare).length = 306 := by
    rw [length_base64_encode, show forgedShare.length = 229 from rfl]
    decide
  rw [forgedMemory, ← hlen, read_write_self, SextetCodec.decode_encode]

/-- **A FORGED SHARE**: the bundled library rejects the signature, and the new
    session has the counter and the public key of the share. -/
theorem initInboundGroupSession_forged :
    (initInboundGroupSession (withEd25519 libEd25519 demoPrimitives) blankSession
        forgedMemory 0 306).2 = none ∧
      (initInboundGroupSession (withEd25519 libEd25519 demoPrimitives) blankSession
        forgedMemory 0 306).1.latestRatchet.counter = 0x01010101 ∧
      (initInboundGroupSession (withEd25519 libEd25519 demoPrimitives) blankSession
        forgedMemory 0 306).1.signingKey = Vector.replicate 32 1 ∧
      ¬RejectedUnchanged blankSession (initInboundGroupSession
        (withEd25519 libEd25519 demoPrimitives) blankSession forgedMemory 0 306) := by
  have hlength : decodeBase64Length 306 = some sessionKeyRawLength := by decide
  have hverify : shareVerifies (withEd25519 libEd25519 demoPrimitives) forgedShare = false := by
    decide +kernel
  have hresult : initInboundGroupSession (withEd25519 libEd25519 demoPrimitives) blankSession
      forgedMemory 0 306
      = ({ blankSession with
            initialRatchet := shareRatchet forgedShare
            latestRatchet := shareRatchet forgedShare
            signingKey := sharePublicKey forgedShare
            lastError := .badSignature }, none) := by
    rw [initInboundGroupSession, initFromKey, hlength, decode_forgedMemory]
    simp only
    rw [if_neg (not_not_intro rfl)]
    exact initGroupSessionKeys_badSignature _ blankSession rfl hverify
  rw [hresult]
  refine ⟨rfl, rfl, by decide, ?_⟩
  intro h
  have hkey : sharePublicKey forgedShare = blankSession.signingKey := (h rfl).signingKey
  exact absurd hkey (by decide)

end OlmGroupSession
