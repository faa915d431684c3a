import SelfOlm.InboundSessionProofs
import SelfOlm.RatchetStepProofs
import SelfOlm.GroupSession
import SelfOlm.Signature

/-! # Which strings are refused as base64

    `decode_base64` looks up every character by its low seven bits, and the entry
    for a character outside the alphabet is a value like any other.  Nothing is
    checked but lengths, so `OLM_INVALID_BASE64` is the error for a wrong length
    and for nothing else. -/

namespace OlmBase64

open ByteMemory OlmCrypto

theorem decodeBase64Length_none (n : Nat) : decodeBase64Length n = none ↔ n % 4 = 1 := by
  rw [decodeBase64Length]
  by_cases h : n % 4 = 1
  · rw [if_pos h]
    exact iff_of_true rfl h
  · rw [if_neg h]
    exact iff_of_false (by intro hn; cases hn) h

/-- A key of 32 bytes has 43 characters. -/
theorem decodeBase64Length_key (n : Nat) :
    decodeBase64Length n = some curve25519KeyLength ↔ n = 43 := by
  rw [decodeBase64Length, curve25519KeyLength]
  by_cases h : n % 4 = 1
  · rw [if_pos h]
    exact iff_of_false (by intro hn; cases hn) (by omega)
  · rw [if_neg h, Option.some.injEq]
    omega

/-- The outcome of a call: it fails with `OLM_INVALID_BASE64`. -/
def Refused (lastError : OlmErrorCode) (result : Option Nat) : Prop :=
  result = none ∧ lastError = .invalidBase64

theorem not_refused_of_error {lastError : OlmErrorCode} {result : Option Nat}
    (h : lastError ≠ .invalidBase64) : ¬Refused lastError result :=
  fun hrefused => h hrefused.2

theorem not_refused_some {lastError : OlmErrorCode} {n : Nat} : ¬Refused lastError (some n) :=
  fun hrefused => Option.some_ne_none n hrefused.1

/-- A call with an argument that is not canonical base64 is refused. -/
def RefusesInvalid (arguments : List Bytes) (lastError : OlmErrorCode) (result : Option Nat) :
    Prop :=
  ∀ cs ∈ arguments, ¬base64.Canonical cs → Refused lastError result

theorem refusesInvalid_iff {arguments : List Bytes} {lastError : OlmErrorCode}
    {result : Option Nat} {wrongLength : Prop} (h : Refused lastError result ↔ wrongLength) :
    RefusesInvalid arguments lastError result
      ↔ (∀ cs ∈ arguments, base64.Canonical cs) ∨ wrongLength := by
  rw [← h]
  constructor
  · intro hrefuses
    by_cases hcanonical : ∀ cs ∈ arguments, base64.Canonical cs
    · exact Or.inl hcanonical
    · obtain ⟨cs, hmem, hcs⟩ : ∃ cs ∈ arguments, ¬base64.Canonical cs := by
        by_contra hnone
        exact hcanonical (fun cs hmem => not_not.mp (fun hcs => hnone ⟨cs, hmem, hcs⟩))
      exact Or.inr (hrefuses cs hmem hcs)
  · rintro (hcanonical | hrefused) cs hmem hcs
    · exact absurd (hcanonical cs hmem) hcs
    · exact hrefused

theorem refusesInvalid_one {cs : Bytes} {lastError : OlmErrorCode} {result : Option Nat}
    {wrongLength : Prop} (h : Refused lastError result ↔ wrongLength) :
    RefusesInvalid [cs] lastError result ↔ base64.Canonical cs ∨ wrongLength := by
  rw [refusesInvalid_iff h, List.forall_mem_singleton]

theorem refusesInvalid_two {cs cs' : Bytes} {lastError : OlmErrorCode} {result : Option Nat}
    {wrongLength : Prop} (h : Refused lastError result ↔ wrongLength) :
    RefusesInvalid [cs, cs'] lastError result
      ↔ (base64.Canonical cs ∧ base64.Canonical cs') ∨ wrongLength := by
  rw [refusesInvalid_iff h, List.forall_mem_cons, List.forall_mem_singleton]

end OlmBase64

namespace OlmRatchet

open ByteMemory OlmCrypto OlmMessage OlmList OlmBase64

variable {K I : Type} (S : Suite K I)

/-- The errors of `Ratchet::decrypt` are other ones. -/
theorem decrypt_not_refused (r : Ratchet K) (stack : MessageReader) (m : Mem)
    (input inputLength plaintext maxPlaintextLength : Nat) :
    ¬Refused
      (decrypt S r stack m input inputLength plaintext maxPlaintextLength).2.1.lastError
      (decrypt S r stack m input inputLength plaintext maxPlaintextLength).2.2 := by
  simp only [decrypt]
  generalize decodeMessage stack m input inputLength S.ratchetCipher.macLength = reader
  by_cases h1 : reader.version ≠ protocolVersion
  · rw [if_pos h1]
    exact not_refused_of_error (by intro h; cases h)
  rw [if_neg h1]
  by_cases h2 : reader.hasCounter = false ∨ reader.ratchetKey = none ∨ reader.ciphertext = none
  · rw [if_pos h2]
    exact not_refused_of_error (by intro h; cases h)
  rw [if_neg h2]
  by_cases h3 : maxPlaintextLength
      < S.ratchetCipher.decryptMaxPlaintextLength reader.ciphertextLength
  · rw [if_pos h3]
    exact not_refused_of_error (by intro h; cases h)
  rw [if_neg h3]
  by_cases h4 : reader.ratchetKeyLength ≠ curve25519KeyLength
  · rw [if_pos h4]
    exact not_refused_of_error (by intro h; cases h)
  rw [if_neg h4, decryptChecked]
  cases hfind : findChain r m reader with
  | none =>
      rcases verifyMacAndDecryptForNewChain S r reader m plaintext maxPlaintextLength
        with ⟨m₁, _ | result⟩
      · exact not_refused_of_error (by intro h; cases h)
      · exact not_refused_some
  | some pos =>
      -- the place is always that of a chain
      obtain ⟨chain, hchain, -⟩ := findChain_some hfind
      simp only [hchain]
      by_cases h5 : chain.chainKey.index > reader.counter
      · rw [if_pos h5]
        rcases trySkippedKeys S reader plaintext maxPlaintextLength 0 r.skippedMessageKeys.toList m
          with ⟨m₁, _ | ⟨i, result⟩⟩
        · exact not_refused_of_error (by intro h; cases h)
        · exact not_refused_some
      · rw [if_neg h5]
        rcases verifyMacAndDecryptForExistingChain S chain.chainKey reader m plaintext
          maxPlaintextLength with ⟨m₁, _ | result⟩
        · exact not_refused_of_error (by intro h; cases h)
        · exact not_refused_some

end OlmRatchet

namespace OlmSession

open ByteMemory OlmCrypto OlmMessage OlmRatchet OlmAccount OlmBase64

variable (prim : Primitives)

/-! ## Sessions -/

theorem b64Input_none {m : Mem} {input b64Length : Nat} (h : b64Length % 4 = 1) :
    b64Input m input b64Length = (m, none) := by
  rw [b64Input, (decodeBase64Length_none b64Length).mpr h]

theorem b64Input_some {b64Length : Nat} (h : b64Length % 4 ≠ 1) :
    ∃ rawLength, ∀ m input, b64Input m input b64Length
      = (decodeBase64 m input b64Length input, some rawLength) := by
  obtain ⟨rawLength, hraw⟩ := Option.ne_none_iff_exists'.mp
    (mt (decodeBase64Length_none b64Length).mp h)
  refine ⟨rawLength, ?_⟩
  intro m input
  rw [b64Input, hraw]

theorem decrypt_not_refused {s : Session} {stack : MessageReader} {messageType : MessageType}
    {m : Mem} {message messageLength plaintext maxPlaintextLength : Nat} :
    ¬Refused
      (decrypt prim s stack messageType m message messageLength plaintext
        maxPlaintextLength).2.1.lastError
      (decrypt prim s stack messageType m message messageLength plaintext
        maxPlaintextLength).2.2 := by
  rw [decrypt]
  rcases messageBody messageType m message messageLength with _ | ⟨body, bodyLength⟩
  · exact not_refused_of_error (by intro h; cases h)
  · have hratchet := OlmRatchet.decrypt_not_refused (olmSuite prim) s.ratchet stack m body
      bodyLength plaintext maxPlaintextLength
    simp only
    generalize OlmRatchet.decrypt (olmSuite prim) s.ratchet stack m body bodyLength plaintext
      maxPlaintextLength = call at hratchet ⊢
    obtain ⟨m₁, ratchet, _ | result⟩ := call
    · exact hratchet
    · exact not_refused_some

theorem olmDecrypt_refused_iff (s : Session) (stack : MessageReader) (messageType : Nat) (m : Mem)
    (message messageLength plaintext maxPlaintextLength : Nat) :
    Refused
        (olmDecrypt prim s stack messageType m message messageLength plaintext
          maxPlaintextLength).2.1.lastError
        (olmDecrypt prim s stack messageType m message messageLength plaintext
          maxPlaintextLength).2.2
      ↔ messageLength % 4 = 1 := by
  rw [olmDecrypt]
  by_cases h : messageLength % 4 = 1
  · rw [b64Input_none h]
    exact iff_of_true ⟨rfl, rfl⟩ h
  · obtain ⟨rawLength, hraw⟩ := b64Input_some h
    rw [hraw]
    exact iff_of_false (decrypt_not_refused prim) h

theorem olmCreateInboundSession_refused_iff (s : Session) (account : Account) (m : Mem)
    (oneTimeKeyMessage messageLength : Nat) :
    ∃ s' result, (olmCreateInboundSession prim s account m oneTimeKeyMessage messageLength).2
        = some (s', result) ∧
      (Refused s'.lastError result ↔ messageLength % 4 = 1) := by
  rw [olmCreateInboundSession]
  by_cases h : messageLength % 4 = 1
  · rw [b64Input_none h]
    exact ⟨_, _, rfl, iff_of_true ⟨rfl, rfl⟩ h⟩
  · obtain ⟨rawLength, hraw⟩ := b64Input_some h
    rw [hraw]
    simp only
    generalize decodeBase64 m oneTimeKeyMessage messageLength oneTimeKeyMessage = m'
    -- without a supplied identity key no null pointer is read
    cases hcall : newInboundSession prim s account none m' oneTimeKeyMessage rawLength with
    | none => exact absurd hcall (newInboundSession_none_isSome prim s account m' _ _)
    | some outcome =>
        obtain ⟨s', result⟩ := outcome
        refine ⟨s', result, rfl, iff_of_false ?_ h⟩
        rintro ⟨rfl, herror⟩
        rcases newInboundSession_error prim s account none m' _ _ hcall with he | he
        · exact nomatch he.symm.trans herror
        · exact nomatch he.symm.trans herror

theorem olmCreateOutboundSession_refused_iff (s : Session) (account : Account) (m : Mem)
    (theirIdentityKey theirIdentityKeyLength theirOneTimeKey theirOneTimeKeyLength
      random randomLength : Nat) :
    Refused
        (olmCreateOutboundSession prim s account m theirIdentityKey theirIdentityKeyLength
          theirOneTimeKey theirOneTimeKeyLength random randomLength).2.1.lastError
        (olmCreateOutboundSession prim s account m theirIdentityKey theirIdentityKeyLength
          theirOneTimeKey theirOneTimeKeyLength random randomLength).2.2
      ↔ theirIdentityKeyLength ≠ 43 ∨ theirOneTimeKeyLength ≠ 43 := by
  rw [olmCreateOutboundSession]
  have hlengths : decodeBase64Length theirIdentityKeyLength ≠ some curve25519KeyLength
      ∨ decodeBase64Length theirOneTimeKeyLength ≠ some curve25519KeyLength
      ↔ theirIdentityKeyLength ≠ 43 ∨ theirOneTimeKeyLength ≠ 43 := by
    rw [ne_eq, ne_eq, decodeBase64Length_key, decodeBase64Length_key]
  by_cases h : theirIdentityKeyLength ≠ 43 ∨ theirOneTimeKeyLength ≠ 43
  · rw [if_pos (hlengths.mpr h)]
    exact iff_of_true ⟨rfl, rfl⟩ h
  · rw [if_neg (fun hn => h (hlengths.mp hn))]
    refine iff_of_false ?_ h
    simp only [newOutboundSession]
    by_cases hrandom : randomLength < newOutboundSessionRandomLength
    · rw [if_pos hrandom]
      exact not_refused_of_error (by intro h; cases h)
    · rw [if_neg hrandom]
      exact not_refused_some

end OlmSession

namespace OlmUtility

open ByteMemory OlmCrypto OlmBase64 OlmSession

/-! ## Signatures -/

theorem olmEd25519Verify_refused_iff (prim : Primitives) (lastError : OlmErrorCode) (m : Mem)
    (key keyLength message messageLength signature signatureLength : Nat) :
    Refused
        (olmEd25519Verify prim lastError m key keyLength message messageLength signature
          signatureLength).2.1
        (olmEd25519Verify prim lastError m key keyLength message messageLength signature
          signatureLength).2.2
      ↔ keyLength ≠ 43 ∨ signatureLength % 4 = 1 := by
  rw [olmEd25519Verify]
  by_cases hkey : keyLength = 43
  · rw [if_neg (not_not_intro ((decodeBase64Length_key keyLength).mpr hkey))]
    by_cases h : signatureLength % 4 = 1
    · simp only [b64Input_none h]
      exact iff_of_true ⟨rfl, rfl⟩ (Or.inr h)
    · obtain ⟨rawLength, hraw⟩ := b64Input_some h
      simp only [hraw]
      refine iff_of_false ?_ (by rintro (hn | hn); exacts [hn hkey, h hn])
      rw [ed25519Verify]
      split
      · exact not_refused_of_error (by intro h; cases h)
      · split
        · exact not_refused_of_error (by intro h; cases h)
        · exact not_refused_some
  · rw [if_pos (mt (decodeBase64Length_key keyLength).mp hkey)]
    exact iff_of_true ⟨rfl, rfl⟩ (Or.inl hkey)

end OlmUtility

namespace OlmGroupSession

open ByteMemory OlmCrypto OlmMessage OlmBase64 OlmMegolm

variable (prim : Primitives)

/-! ## Group sessions -/

theorem decrypt_not_refused {session : InboundGroupSession} {stack : DecodeGroupMessageResults}
    {m : Mem} {message messageLength plaintext maxPlaintextLength : Nat} :
    ¬Refused
      (decrypt prim session stack m message messageLength plaintext
        maxPlaintextLength).2.1.lastError
      (decrypt prim session stack m message messageLength plaintext
        maxPlaintextLength).2.2.length := by
  rw [decrypt]
  simp only
  split
  · exact not_refused_of_error (by intro h; cases h)
  split
  · exact not_refused_of_error (by intro h; cases h)
  split
  · exact not_refused_of_error (by intro h; cases h)
  split
  · exact not_refused_of_error (by intro h; cases h)
  split
  · rename_i session' hmegolm
    rw [getMegolm] at hmegolm
    simp only at hmegolm
    split at hmegolm
    · cases (Prod.mk.inj hmegolm).2
    · split at hmegolm
      · rw [← (Prod.mk.inj hmegolm).1]
        exact not_refused_of_error (by intro h; cases h)
      · cases (Prod.mk.inj hmegolm).2
  · split
    · exact not_refused_of_error (by intro h; cases h)
    · exact not_refused_some

theorem groupDecrypt_refused_iff (session : InboundGroupSession)
    (stack : DecodeGroupMessageResults) (m : Mem)
    (message messageLength plaintext maxPlaintextLength : Nat) :
    Refused
        (groupDecrypt prim session stack m message messageLength plaintext
          maxPlaintextLength).2.1.lastError
        (groupDecrypt prim session stack m message messageLength plaintext
          maxPlaintextLength).2.2.length
      ↔ messageLength % 4 = 1 := by
  rw [groupDecrypt]
  by_cases h : messageLength % 4 = 1
  · simp only [(decodeBase64Length_none messageLength).mpr h]
    exact iff_of_true ⟨rfl, rfl⟩ h
  · obtain ⟨rawLength, hraw⟩ := Option.ne_none_iff_exists'.mp
      (mt (decodeBase64Length_none messageLength).mp h)
    simp only [hraw]
    exact iff_of_false (decrypt_not_refused prim) h

theorem initInboundGroupSession_refused_iff (session : InboundGroupSession) (m : Mem)
    (sessionKey sessionKeyLength : Nat) :
    Refused
        (initInboundGroupSession prim session m sessionKey sessionKeyLength).1.lastError
        (initInboundGroupSession prim session m sessionKey sessionKeyLength).2
      ↔ sessionKeyLength % 4 = 1 := by
  rw [initInboundGroupSession, initFromKey]
  by_cases h : sessionKeyLength % 4 = 1
  · rw [(decodeBase64Length_none sessionKeyLength).mpr h]
    exact iff_of_true ⟨rfl, rfl⟩ h
  · obtain ⟨rawLength, hraw⟩ := Option.ne_none_iff_exists'.mp
      (mt (decodeBase64Length_none sessionKeyLength).mp h)
    rw [hraw]
    refine iff_of_false ?_ h
    simp only
    by_cases hlength : rawLength ≠ sessionKeyRawLength
    · rw [if_pos hlength]
      exact not_refused_of_error (by intro h; cases h)
    · rw [if_neg hlength, initGroupSessionKeys]
      generalize base64.decode (read m sessionKey sessionKeyLength) = keyBuf
      simp only [Bool.false_eq_true, if_false]
      by_cases hversion : keyBuf.getD 0 0 ≠ sessionKeyVersion
      · rw [if_pos hversion]
        exact not_refused_of_error (by intro h; cases h)
      · rw [if_neg hversion]
        by_cases hverify : (!cryptoEd25519Verify prim (ofBytes 32 (keyBuf.drop 133))
            (keyBuf.take 165) (ofBytes 64 (keyBuf.drop 165))) = true
        · rw [if_pos hverify]
          exact not_refused_of_error (by intro h; cases h)
        · rw [if_neg hverify]
          exact not_refused_some

end OlmGroupSession

namespace OlmBase64

open ByteMemory OlmCrypto OlmMessage OlmAccount OlmSession OlmGroupSession OlmUtility

/-! ## All calls together -/

/-- **REFUSED BASE64**: a call refuses every argument that is not canonical exactly where it
    gets none or where the length alone is wrong. -/
theorem refusesInvalid_iff_length (prim : Primitives) :
    (∀ s stack messageType m message messageLength plaintext maxPlaintextLength,
      let call := olmDecrypt prim s stack messageType m message messageLength plaintext
        maxPlaintextLength
      RefusesInvalid [read m message messageLength] call.2.1.lastError call.2.2
        ↔ base64.Canonical (read m message messageLength) ∨ messageLength % 4 = 1) ∧
    (∀ session stack m message messageLength plaintext maxPlaintextLength,
      let call := groupDecrypt prim session stack m message messageLength plaintext
        maxPlaintextLength
      RefusesInvalid [read m message messageLength] call.2.1.lastError call.2.2.length
        ↔ base64.Canonical (read m message messageLength) ∨ messageLength % 4 = 1) ∧
    (∀ s account m oneTimeKeyMessage messageLength, ∃ s' result,
      (olmCreateInboundSession prim s account m oneTimeKeyMessage messageLength).2
        = some (s', result) ∧
      (RefusesInvalid [read m oneTimeKeyMessage messageLength] s'.lastError result
        ↔ base64.Canonical (read m oneTimeKeyMessage messageLength) ∨ messageLength % 4 = 1)) ∧
    (∀ s account m theirIdentityKey theirIdentityKeyLength theirOneTimeKey theirOneTimeKeyLength
        random randomLength,
      let call := olmCreateOutboundSession prim s account m theirIdentityKey
        theirIdentityKeyLength theirOneTimeKey theirOneTimeKeyLength random randomLength
      RefusesInvalid [read m theirIdentityKey theirIdentityKeyLength,
          read m theirOneTimeKey theirOneTimeKeyLength] call.2.1.lastError call.2.2
        ↔ (base64.Canonical (read m theirIdentityKey theirIdentityKeyLength) ∧
            base64.Canonical (read m theirOneTimeKey theirOneTimeKeyLength)) ∨
          (theirIdentityKeyLength ≠ 43 ∨ theirOneTimeKeyLength ≠ 43)) ∧
    (∀ lastError m key keyLength message messageLength signature signatureLength,
      let call := olmEd25519Verify prim lastError m key keyLength message messageLength signature
        signatureLength
      RefusesInvalid [read m key keyLength, read m signature signatureLength] call.2.1 call.2.2
        ↔ (base64.Canonical (read m key keyLength) ∧
            base64.Canonical (read m signature signatureLength)) ∨
          (keyLength ≠ 43 ∨ signatureLength % 4 = 1)) ∧
    (∀ session m sessionKey sessionKeyLength,
      let call := initInboundGroupSession prim session m sessionKey sessionKeyLength
      RefusesInvalid [read m sessionKey sessionKeyLength] call.1.lastError call.2
        ↔ base64.Canonical (read m sessionKey sessionKeyLength) ∨ sessionKeyLength % 4 = 1) ∧
    (∀ cs cs', base64.Canonical cs → base64.Canonical cs' → base64.decode cs = base64.decode cs' →
      cs = cs') := by
  refine ⟨?_, ?_, ?_, ?_, ?_, ?_, ?_⟩
  · intro s stack messageType m message messageLength plaintext maxPlaintextLength
    exact refusesInvalid_one (olmDecrypt_refused_iff prim s stack messageType m message _ _ _)
  · intro session stack m message messageLength plaintext maxPlaintextLength
    exact refusesInvalid_one (groupDecrypt_refused_iff prim session stack m message _ _ _)
  · intro s account m oneTimeKeyMessage messageLength
    obtain ⟨s', result, hcall, hrefused⟩ :=
      olmCreateInboundSession_refused_iff prim s account m oneTimeKeyMessage messageLength
    exact ⟨s', result, hcall, refusesInvalid_one hrefused⟩
  · intro s account m theirIdentityKey theirIdentityKeyLength theirOneTimeKey theirOneTimeKeyLength
      random randomLength
    exact refusesInvalid_two (olmCreateOutboundSession_refused_iff prim s account m _ _ _ _ _ _)
  · intro lastError m key keyLength message messageLength signature signatureLength
    exact refusesInvalid_two (olmEd25519Verify_refused_iff prim lastError m _ _ _ _ _ _)
  · intro session m sessionKey sessionKeyLength
    exact refusesInvalid_one (initInboundGroupSession_refused_iff prim session m _ _)
  · intro cs cs' hcs hcs' hsame
    exact hcs.decode_inj base64 hcs' hsame

/-- Forty-three times one character, and random bytes behind it. -/
def repeatedCharacter (c : UInt8) : Mem := fun p => if p < 43 then c else 0

/-- Both keys of this character. -/
def repeatedKeys (c : UInt8) : Mem × Session × Option Nat :=
  olmCreateOutboundSession demoPrimitives newSession newAccountObject (repeatedCharacter c)
    0 43 0 43 100 64

/-- Keys of exclamation marks are accepted, and stand for the same bytes as quotation
    marks. -/
theorem olmCreateOutboundSession_accepts_invalid :
    ¬base64.Canonical (read (repeatedCharacter 0x21) 0 43) ∧
    ¬base64.Canonical (read (repeatedCharacter 0x22) 0 43) ∧
    read (repeatedCharacter 0x21) 0 43 ≠ read (repeatedCharacter 0x22) 0 43 ∧
    (repeatedKeys 0x21).2.2 = some 0 ∧ (repeatedKeys 0x22).2 = (repeatedKeys 0x21).2 ∧
    ¬RefusesInvalid [read (repeatedCharacter 0x21) 0 43, read (repeatedCharacter 0x21) 0 43]
      (repeatedKeys 0x21).2.1.lastError (repeatedKeys 0x21).2.2 := by
  have hinvalid : ∀ c ∈ [(0x21 : UInt8), 0x22],
      ¬base64.Canonical (read (repeatedCharacter c) 0 43) := by decide +kernel
  have hdecode : base64.decode (read (repeatedCharacter 0x22) 0 43)
      = base64.decode (read (repeatedCharacter 0x21) 0 43) := by decide +kernel
  have hcall : ∀ c, (repeatedKeys c).2
      = newOutboundSession demoPrimitives newSession newAccountObject
          (ofBytes 32 (base64.decode (read (repeatedCharacter c) 0 43)))
          (ofBytes 32 (base64.decode (read (repeatedCharacter c) 0 43)))
          (repeatedCharacter c) 100 64 := fun _ => rfl
  have haccepted : (repeatedKeys 0x21).2.2 = some 0 := by
    rw [hcall]
    rfl
  refine ⟨hinvalid _ (by decide), hinvalid _ (by decide), by decide +kernel, haccepted, ?_, ?_⟩
  · rw [hcall, hcall, hdecode]
    rfl
  · intro hrefuses
    have hrefused := hrefuses _ (List.mem_cons_self ..) (hinvalid _ (by decide))
    exact nomatch hrefused.1.symm.trans haccepted

end OlmBase64
