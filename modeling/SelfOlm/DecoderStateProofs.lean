import SelfOlm.DecoderLoopProofs
import SelfOlm.GroupSession
import SelfOlm.Ratchet

/-! # What the decoders leave as it was

    The callers pass structs that are not initialised.  A decoder returns early where the
    input has no payload, and then it has not set the version, nor `has_message_index`.
    Two calls agree in everything that a caller looks at if and only if there is at least
    the version byte; the errors of the callers depend on the old contents of the stack
    in the other cases, and only there. -/

namespace OlmMessage

open ByteMemory OlmCrypto

variable {R : Type} {m : Mem} {fin : Nat}

/-! ## Two runs of the loop -/

/-- **TWO RUNS** of the loop stay related where the row of `decode` calls relates what it
    is given and goes on at one place. -/
theorem decodeFields_related (P : R → R → Prop) {row : R → Nat → R × Nat}
    (hrow : ∀ a b pos, P a b → P (row a pos).1 (row b pos).1 ∧ (row a pos).2 = (row b pos).2) :
    ∀ (n : Nat) (a b : R) (pos : Nat), P a b →
      P (decodeFields m row fin n a pos) (decodeFields m row fin n b pos) := by
  intro n
  induction n with
  | zero => intro a b pos h; exact h
  | succ n ih =>
      intro a b pos h
      obtain ⟨hrelated, hpos⟩ := hrow a b pos h
      rw [decodeFields, decodeFields]
      by_cases hend : pos = fin
      · rw [if_pos hend, if_pos hend]
        exact h
      · rw [if_neg hend, if_neg hend]
        simp only [hpos]
        exact ih _ _ _ hrelated

/-- Two structs agree in the version, the flag, the pointers and the lengths. -/
structure MessageReader.Agree (a b : MessageReader) : Prop where
  version : a.version = b.version
  hasCounter : a.hasCounter = b.hasCounter
  ratchetKey : a.ratchetKey = b.ratchetKey
  ratchetKeyLength : a.ratchetKeyLength = b.ratchetKeyLength
  ciphertext : a.ciphertext = b.ciphertext
  ciphertextLength : a.ciphertextLength = b.ciphertextLength

/-- And in the counter where there is one. -/
def MessageReader.SameMessage (a b : MessageReader) : Prop :=
  a.Agree b ∧ (a.hasCounter = true → a.counter = b.counter)

/-- The value that was there is kept only where no value is read. -/
theorem decodeValue_related (m : Mem) (pos fin : Nat) (tag : UInt8) {value value' : UInt32}
    {hasValue : Bool} (h : hasValue = true → value = value') :
    (decodeValue m pos fin tag value hasValue).1 = (decodeValue m pos fin tag value' hasValue).1 ∧
      (decodeValue m pos fin tag value hasValue).2.2
        = (decodeValue m pos fin tag value' hasValue).2.2 ∧
      ((decodeValue m pos fin tag value hasValue).2.2 = true →
        (decodeValue m pos fin tag value hasValue).2.1
          = (decodeValue m pos fin tag value' hasValue).2.1) := by
  rw [decodeValue, decodeValue]
  by_cases htag : pos ≠ fin ∧ m pos = tag
  · rw [if_pos htag, if_pos htag]
    exact ⟨rfl, rfl, fun _ => rfl⟩
  · rw [if_neg htag, if_neg htag]
    exact ⟨rfl, rfl, h⟩

theorem messageFields_related (m : Mem) (fin : Nat) (a b : MessageReader) (pos : Nat)
    (h : a.SameMessage b) :
    (messageFields m fin a pos).1.SameMessage (messageFields m fin b pos).1 ∧
      (messageFields m fin a pos).2 = (messageFields m fin b pos).2 := by
  obtain ⟨⟨hversion, hflag, hkey, hkeyLength, hciphertext, hciphertextLength⟩, hcounter⟩ := h
  rw [messageFields, messageFields]
  simp only
  rw [← hkey, ← hkeyLength, ← hciphertext, ← hciphertextLength, ← hflag]
  obtain ⟨hpos, hflag', hcounter'⟩ := decodeValue_related m
    (decodeString m pos fin ratchetKeyTag a.ratchetKey a.ratchetKeyLength).1 fin counterTag hcounter
  rw [← hpos]
  exact ⟨⟨⟨hversion, hflag', rfl, rfl, rfl, rfl⟩, hcounter'⟩, rfl⟩

/-! ## The decoders -/

/-- **A NORMAL MESSAGE** with a version byte is decoded alike. -/
theorem decodeMessage_same (reader reader' : MessageReader) (m : Mem)
    {input inputLength macLength : Nat} (hpayload : macLength < inputLength) :
    (decodeMessage reader m input inputLength macLength).SameMessage
      (decodeMessage reader' m input inputLength macLength) := by
  rw [decodeMessage, decodeMessage]
  simp only
  rw [if_neg (by omega), if_neg (by omega), if_neg (by omega), if_neg (by omega)]
  refine decodeFields_related MessageReader.SameMessage (messageFields_related m _) _ _ _ _ ?_
  exact ⟨⟨rfl, rfl, rfl, rfl, rfl, rfl⟩, fun h => (Bool.false_ne_true h).elim⟩

/-- One without keeps the version that was there, and has no field. -/
theorem decodeMessage_short (reader : MessageReader) (m : Mem)
    {input inputLength macLength : Nat} (hshort : inputLength ≤ macLength) :
    decodeMessage reader m input inputLength macLength
      = { reader with
          input, inputLength, hasCounter := false, ratchetKey := none, ratchetKeyLength := 0,
          ciphertext := none, ciphertextLength := 0 } := by
  rw [decodeMessage]
  simp only
  by_cases hless : inputLength < macLength
  · rw [if_pos hless]
  · rw [if_neg hless, if_pos (by omega)]

/-- **A PRE-KEY MESSAGE** with a version byte is decoded to the same struct. -/
theorem decodeOneTimeKeyMessage_same (reader reader' : PreKeyMessageReader) (m : Mem)
    {input inputLength : Nat} (hpayload : 0 < inputLength) :
    decodeOneTimeKeyMessage reader m input inputLength
      = decodeOneTimeKeyMessage reader' m input inputLength := by
  rw [decodeOneTimeKeyMessage, decodeOneTimeKeyMessage]
  simp only
  rw [if_neg (by omega), if_neg (by omega)]

theorem decodeOneTimeKeyMessage_empty (reader : PreKeyMessageReader) (m : Mem) (input : Nat) :
    decodeOneTimeKeyMessage reader m input 0
      = { reader with
          oneTimeKey := none, oneTimeKeyLength := 0, identityKey := none, identityKeyLength := 0,
          baseKey := none, baseKeyLength := 0, message := none, messageLength := 0 } := by
  rw [decodeOneTimeKeyMessage]
  simp only
  rw [if_pos (Nat.add_zero input).symm]

/-- The results with the local flag, as they are at the end. -/
def withFlag (state : DecodeGroupMessageResults × Bool) : DecodeGroupMessageResults :=
  { state.1 with hasMessageIndex := state.2 }

/-- Nothing in the loop depends on the flag in the results. -/
theorem groupMessageFields_related (m : Mem) (fin : Nat)
    (a b : DecodeGroupMessageResults × Bool) (pos : Nat) (h : withFlag a = withFlag b) :
    withFlag (groupMessageFields m fin a pos).1 = withFlag (groupMessageFields m fin b pos).1 ∧
      (groupMessageFields m fin a pos).2 = (groupMessageFields m fin b pos).2 := by
  obtain ⟨⟨version, messageIndex, _, ciphertext, ciphertextLength⟩, hasMessageIndex⟩ := a
  obtain ⟨⟨version', messageIndex', _, ciphertext', ciphertextLength'⟩, hasMessageIndex'⟩ := b
  simp only [withFlag, DecodeGroupMessageResults.mk.injEq] at h
  obtain ⟨rfl, rfl, rfl, rfl, rfl⟩ := h
  exact ⟨rfl, rfl⟩

/-- **A GROUP MESSAGE** with a version byte is decoded to the same struct. -/
theorem decodeGroupMessage_same (results results' : DecodeGroupMessageResults) (m : Mem)
    {input inputLength macLength signatureLength : Nat}
    (hpayload : macLength + signatureLength < inputLength) :
    decodeGroupMessage results m input inputLength macLength signatureLength
      = decodeGroupMessage results' m input inputLength macLength signatureLength := by
  rw [decodeGroupMessage, decodeGroupMessage]
  simp only
  rw [if_neg (by omega), if_neg (by omega), if_neg (by omega), if_neg (by omega)]
  exact decodeFields_related (fun a b => withFlag a = withFlag b)
    (groupMessageFields_related m _) _ _ _ _ rfl

/-! ## The errors of the callers -/

/-- Structs with one message, and a counter, are the same. -/
theorem MessageReader.SameMessage.eq {a b : MessageReader} (h : a.SameMessage b)
    (hinput : a.input = b.input) (hlength : a.inputLength = b.inputLength)
    (hcounter : a.hasCounter = true) : a = b := by
  obtain ⟨⟨hversion, hflag, hkey, hkeyLength, hciphertext, hciphertextLength⟩, hvalue⟩ := h
  have hvalue := hvalue hcounter
  cases a
  cases b
  simp only at *
  subst hversion hflag hvalue hkey hkeyLength hciphertext hciphertextLength hinput hlength
  rfl

section Ratchet

open OlmRatchet

variable {K I : Type} (S : Suite K I)

/-- **`Ratchet::decrypt`** does not depend on the stack where there is a version byte. -/
theorem ratchet_decrypt_same (r : Ratchet K) (stack stack' : MessageReader) (m : Mem)
    {input inputLength : Nat} (plaintext maxPlaintextLength : Nat)
    (hpayload : S.ratchetCipher.macLength < inputLength) :
    decrypt S r stack m input inputLength plaintext maxPlaintextLength
      = decrypt S r stack' m input inputLength plaintext maxPlaintextLength := by
  have hsame : MessageReader.SameMessage
      (decodeMessage stack m input inputLength S.ratchetCipher.macLength)
      (decodeMessage stack' m input inputLength S.ratchetCipher.macLength) :=
    decodeMessage_same stack stack' m hpayload
  have hinput := decodeMessage_input stack m input inputLength S.ratchetCipher.macLength
  have hinput' := decodeMessage_input stack' m input inputLength S.ratchetCipher.macLength
  rw [decrypt, decrypt]
  generalize decodeMessage stack m input inputLength S.ratchetCipher.macLength = a at *
  generalize decodeMessage stack' m input inputLength S.ratchetCipher.macLength = b at *
  by_cases hcounter : a.hasCounter = true
  · rw [hsame.eq (hinput.1.trans hinput'.1.symm) (hinput.2.trans hinput'.2.symm) hcounter]
  · -- the message is refused before the counter is looked at
    have hfalse := eq_false_of_ne_true hcounter
    rw [← hsame.1.version, ← hsame.1.hasCounter]
    by_cases hversion : a.version ≠ protocolVersion
    · rw [if_pos hversion, if_pos hversion]
    · rw [if_neg hversion, if_neg hversion, if_pos (Or.inl hfalse), if_pos (Or.inl hfalse)]

/-- Its error in the other cases is that of the version on the stack. -/
theorem ratchet_decrypt_short (r : Ratchet K) (stack : MessageReader) (m : Mem)
    {input inputLength : Nat} (plaintext maxPlaintextLength : Nat)
    (hshort : inputLength ≤ S.ratchetCipher.macLength) :
    (decrypt S r stack m input inputLength plaintext maxPlaintextLength).2.1.lastError
      = if stack.version ≠ protocolVersion then .badMessageVersion else .badMessageFormat := by
  rw [decrypt, decodeMessage_short stack m hshort]
  simp only
  by_cases hversion : stack.version ≠ protocolVersion
  · rw [if_pos hversion, if_pos hversion]
  · rw [if_neg hversion, if_neg hversion, if_pos (Or.inl trivial)]

end Ratchet

section Group

open OlmGroupSession OlmBase64

variable (prim : Primitives)

/-- The length that a group message has to exceed. -/
def groupTrailerLength : Nat := (megolmCipher prim).macLength + ed25519SignatureLength

/-- **`olm_group_decrypt`** does not depend on the stack where there is a version byte, or
    no base64. -/
theorem groupDecrypt_same (session : InboundGroupSession)
    (stack stack' : DecodeGroupMessageResults) (m : Mem)
    {message messageLength : Nat} (plaintext maxPlaintextLength : Nat)
    (hpayload : ∀ rawLength, decodeBase64Length messageLength = some rawLength →
      groupTrailerLength prim < rawLength) :
    groupDecrypt prim session stack m message messageLength plaintext maxPlaintextLength
      = groupDecrypt prim session stack' m message messageLength plaintext maxPlaintextLength := by
  rw [groupDecrypt, groupDecrypt]
  cases hlength : decodeBase64Length messageLength with
  | none => rfl
  | some rawLength =>
      simp only
      rw [decrypt, decrypt, decodeGroupMessage_same stack stack' _ (hpayload rawLength hlength)]

/-- **`olm_group_decrypt_max_plaintext_length`** neither. -/
theorem groupDecryptMaxPlaintextLength_same (session : InboundGroupSession)
    (stack stack' : DecodeGroupMessageResults) (m : Mem) {message messageLength : Nat}
    (hpayload : ∀ rawLength, decodeBase64Length messageLength = some rawLength →
      groupTrailerLength prim < rawLength) :
    groupDecryptMaxPlaintextLength prim session stack m message messageLength
      = groupDecryptMaxPlaintextLength prim session stack' m message messageLength := by
  rw [groupDecryptMaxPlaintextLength, groupDecryptMaxPlaintextLength]
  cases hlength : decodeBase64Length messageLength with
  | none => rfl
  | some rawLength =>
      simp only
      rw [decryptMaxPlaintextLength, decryptMaxPlaintextLength,
        decodeGroupMessage_same stack stack' _ (hpayload rawLength hlength)]

/-- The error in the other cases is that of the version on the stack. -/
theorem groupDecrypt_short (session : InboundGroupSession) (stack : DecodeGroupMessageResults)
    (m : Mem) {message messageLength rawLength : Nat} (plaintext maxPlaintextLength : Nat)
    (hlength : decodeBase64Length messageLength = some rawLength)
    (hshort : rawLength ≤ groupTrailerLength prim) :
    (groupDecrypt prim session stack m message messageLength plaintext
        maxPlaintextLength).2.1.lastError
      = if stack.version ≠ olmProtocolVersion then .badMessageVersion else .badMessageFormat := by
  rw [groupDecrypt, hlength]
  simp only
  rw [decrypt, decodeGroupMessage_short stack _ hshort]
  simp only
  by_cases hversion : stack.version ≠ olmProtocolVersion
  · rw [if_pos hversion, if_pos hversion]
  · rw [if_neg hversion, if_neg hversion,
      if_pos (show (!stack.hasMessageIndex || (none : Option Nat).isNone) = true from Bool.or_true _)]

theorem groupDecryptMaxPlaintextLength_short (session : InboundGroupSession)
    (stack : DecodeGroupMessageResults) (m : Mem) {message messageLength rawLength : Nat}
    (hlength : decodeBase64Length messageLength = some rawLength)
    (hshort : rawLength ≤ groupTrailerLength prim) :
    (groupDecryptMaxPlaintextLength prim session stack m message messageLength).2.1.lastError
      = if stack.version ≠ olmProtocolVersion then .badMessageVersion else .badMessageFormat := by
  rw [groupDecryptMaxPlaintextLength, hlength]
  simp only
  rw [decryptMaxPlaintextLength, decodeGroupMessage_short stack _ hshort]
  simp only
  by_cases hversion : stack.version ≠ olmProtocolVersion
  · rw [if_pos hversion, if_pos hversion]
  · rw [if_neg hversion, if_neg hversion, if_pos (show (none : Option Nat).isNone = true from rfl)]

end Group

/-! ## The exact condition -/

/-- Results agree in the version, the flag, the pointer and the length. -/
structure DecodeGroupMessageResults.Agree (a b : DecodeGroupMessageResults) : Prop where
  version : a.version = b.version
  hasMessageIndex : a.hasMessageIndex = b.hasMessageIndex
  ciphertext : a.ciphertext = b.ciphertext
  ciphertextLength : a.ciphertextLength = b.ciphertextLength

theorem decodeMessage_agree_iff (m : Mem) (input inputLength macLength : Nat) :
    (∀ reader reader' : MessageReader,
      (decodeMessage reader m input inputLength macLength).Agree
        (decodeMessage reader' m input inputLength macLength))
      ↔ macLength < inputLength := by
  constructor
  · intro h
    by_contra hpayload
    have hversion := (h ⟨0, false, 0, 0, 0, none, 0, none, 0⟩
      ⟨1, false, 0, 0, 0, none, 0, none, 0⟩).version
    rw [decodeMessage_short _ m (by omega), decodeMessage_short _ m (by omega)] at hversion
    exact absurd hversion (show (0 : UInt8) ≠ 1 by decide)
  · intro hpayload reader reader'
    exact (decodeMessage_same reader reader' m hpayload).1

theorem decodeOneTimeKeyMessage_same_iff (m : Mem) (input inputLength : Nat) :
    (∀ reader reader' : PreKeyMessageReader,
      decodeOneTimeKeyMessage reader m input inputLength
        = decodeOneTimeKeyMessage reader' m input inputLength)
      ↔ 0 < inputLength := by
  constructor
  · intro h
    by_contra hpayload
    obtain rfl : inputLength = 0 := by omega
    have hversion := congrArg PreKeyMessageReader.version
      (h ⟨0, none, 0, none, 0, none, 0, none, 0⟩ ⟨1, none, 0, none, 0, none, 0, none, 0⟩)
    rw [decodeOneTimeKeyMessage_empty, decodeOneTimeKeyMessage_empty] at hversion
    exact absurd hversion (show (0 : UInt8) ≠ 1 by decide)
  · intro hpayload reader reader'
    exact decodeOneTimeKeyMessage_same reader reader' m hpayload

theorem decodeGroupMessage_agree_iff (m : Mem) (input inputLength macLength signatureLength : Nat) :
    (∀ results results' : DecodeGroupMessageResults,
      (decodeGroupMessage results m input inputLength macLength signatureLength).Agree
        (decodeGroupMessage results' m input inputLength macLength signatureLength))
      ↔ macLength + signatureLength < inputLength := by
  constructor
  · intro h
    by_contra hpayload
    have hversion := (h ⟨0, 0, false, none, 0⟩ ⟨1, 0, false, none, 0⟩).version
    rw [decodeGroupMessage_short _ m (by omega), decodeGroupMessage_short _ m (by omega)]
      at hversion
    exact absurd hversion (show (0 : UInt8) ≠ 1 by decide)
  · intro hpayload results results'
    rw [decodeGroupMessage_same results results' m hpayload]
    exact ⟨rfl, rfl, rfl, rfl⟩

theorem ratchet_decrypt_error_iff {K I : Type} (S : OlmRatchet.Suite K I) (r : OlmRatchet.Ratchet K)
    (m : Mem) (input inputLength plaintext maxPlaintextLength : Nat) :
    (∀ stack stack' : MessageReader,
      (OlmRatchet.decrypt S r stack m input inputLength plaintext maxPlaintextLength).2.1.lastError
        = (OlmRatchet.decrypt S r stack' m input inputLength plaintext
            maxPlaintextLength).2.1.lastError)
      ↔ S.ratchetCipher.macLength < inputLength := by
  constructor
  · intro h
    by_contra hpayload
    have herror := h ⟨0, false, 0, 0, 0, none, 0, none, 0⟩ ⟨3, false, 0, 0, 0, none, 0, none, 0⟩
    rw [ratchet_decrypt_short S r _ m plaintext maxPlaintextLength (Nat.not_lt.mp hpayload),
      ratchet_decrypt_short S r _ m plaintext maxPlaintextLength (Nat.not_lt.mp hpayload)] at herror
    exact absurd herror (by decide)
  · intro hpayload stack stack'
    rw [ratchet_decrypt_same S r stack stack' m plaintext maxPlaintextLength hpayload]

section Group

open OlmGroupSession OlmBase64

variable (prim : Primitives) (session : InboundGroupSession) (m : Mem)

/-- The raw message has a payload, where there is a raw message. -/
def HasPayload (messageLength : Nat) : Prop :=
  ∀ rawLength, decodeBase64Length messageLength = some rawLength →
    groupTrailerLength prim < rawLength

theorem groupDecrypt_error_iff (message messageLength plaintext maxPlaintextLength : Nat) :
    (∀ stack stack' : DecodeGroupMessageResults,
      (groupDecrypt prim session stack m message messageLength plaintext
          maxPlaintextLength).2.1.lastError
        = (groupDecrypt prim session stack' m message messageLength plaintext
            maxPlaintextLength).2.1.lastError)
      ↔ HasPayload prim messageLength := by
  constructor
  · intro h rawLength hlength
    by_contra hpayload
    have herror := h ⟨0, 0, false, none, 0⟩ ⟨3, 0, false, none, 0⟩
    rw [groupDecrypt_short prim session _ m plaintext maxPlaintextLength hlength
        (Nat.not_lt.mp hpayload),
      groupDecrypt_short prim session _ m plaintext maxPlaintextLength hlength
        (Nat.not_lt.mp hpayload)] at herror
    exact absurd herror (by decide)
  · intro hpayload stack stack'
    rw [groupDecrypt_same prim session stack stack' m plaintext maxPlaintextLength hpayload]

theorem groupDecryptMaxPlaintextLength_error_iff (message messageLength : Nat) :
    (∀ stack stack' : DecodeGroupMessageResults,
      (groupDecryptMaxPlaintextLength prim session stack m message messageLength).2.1.lastError
        = (groupDecryptMaxPlaintextLength prim session stack' m message
            messageLength).2.1.lastError)
      ↔ HasPayload prim messageLength := by
  constructor
  · intro h rawLength hlength
    by_contra hpayload
    have herror := h ⟨0, 0, false, none, 0⟩ ⟨3, 0, false, none, 0⟩
    rw [groupDecryptMaxPlaintextLength_short prim session _ m hlength (Nat.not_lt.mp hpayload),
      groupDecryptMaxPlaintextLength_short prim session _ m hlength (Nat.not_lt.mp hpayload)]
      at herror
    exact absurd herror (by decide)
  · intro hpayload stack stack'
    rw [groupDecryptMaxPlaintextLength_same prim session stack stack' m hpayload]

end Group

/-- **THE STACK** does not show, in what is decoded and in the errors, if and only if there
    is a payload, that is at least the version byte. -/
theorem decoders_independent_iff {K I : Type} (S : OlmRatchet.Suite K I)
    (r : OlmRatchet.Ratchet K) (prim : Primitives) (session : OlmGroupSession.InboundGroupSession)
    (m : Mem) (input inputLength macLength signatureLength plaintext maxPlaintextLength : Nat) :
    ((∀ reader reader' : MessageReader,
      (decodeMessage reader m input inputLength macLength).Agree
        (decodeMessage reader' m input inputLength macLength))
      ↔ macLength < inputLength) ∧
    ((∀ reader reader' : PreKeyMessageReader,
      decodeOneTimeKeyMessage reader m input inputLength
        = decodeOneTimeKeyMessage reader' m input inputLength)
      ↔ 0 < inputLength) ∧
    ((∀ results results' : DecodeGroupMessageResults,
      (decodeGroupMessage results m input inputLength macLength signatureLength).Agree
        (decodeGroupMessage results' m input inputLength macLength signatureLength))
      ↔ macLength + signatureLength < inputLength) ∧
    ((∀ stack stack' : MessageReader,
      (OlmRatchet.decrypt S r stack m input inputLength plaintext maxPlaintextLength).2.1.lastError
        = (OlmRatchet.decrypt S r stack' m input inputLength plaintext
            maxPlaintextLength).2.1.lastError)
      ↔ S.ratchetCipher.macLength < inputLength) ∧
    ((∀ stack stack' : DecodeGroupMessageResults,
      (OlmGroupSession.groupDecrypt prim session stack m input inputLength plaintext
          maxPlaintextLength).2.1.lastError
        = (OlmGroupSession.groupDecrypt prim session stack' m input inputLength plaintext
            maxPlaintextLength).2.1.lastError)
      ↔ HasPayload prim inputLength) ∧
    ((∀ stack stack' : DecodeGroupMessageResults,
      (OlmGroupSession.groupDecryptMaxPlaintextLength prim session stack m input
          inputLength).2.1.lastError
        = (OlmGroupSession.groupDecryptMaxPlaintextLength prim session stack' m input
            inputLength).2.1.lastError)
      ↔ HasPayload prim inputLength) :=
  ⟨decodeMessage_agree_iff m input inputLength macLength,
    decodeOneTimeKeyMessage_same_iff m input inputLength,
    decodeGroupMessage_agree_iff m input inputLength macLength signatureLength,
    ratchet_decrypt_error_iff S r m input inputLength plaintext maxPlaintextLength,
    groupDecrypt_error_iff prim session m input inputLength plaintext maxPlaintextLength,
    groupDecryptMaxPlaintextLength_error_iff prim session m input inputLength⟩

/-- An empty message keeps the version of each struct, and the flag of the results. -/
theorem decoders_keepStack :
    let m : Mem := fun _ => 0
    (decodeMessage ⟨0, false, 0, 0, 0, none, 0, none, 0⟩ m 0 0 8).version
        ≠ (decodeMessage ⟨3, false, 0, 0, 0, none, 0, none, 0⟩ m 0 0 8).version ∧
      (decodeOneTimeKeyMessage ⟨0, none, 0, none, 0, none, 0, none, 0⟩ m 0 0).version
        ≠ (decodeOneTimeKeyMessage ⟨3, none, 0, none, 0, none, 0, none, 0⟩ m 0 0).version ∧
      (decodeGroupMessage ⟨0, 0, false, none, 0⟩ m 0 0 8 64).version
        ≠ (decodeGroupMessage ⟨3, 0, true, none, 0⟩ m 0 0 8 64).version ∧
      (decodeGroupMessage ⟨0, 0, false, none, 0⟩ m 0 0 8 64).hasMessageIndex
        ≠ (decodeGroupMessage ⟨3, 0, true, none, 0⟩ m 0 0 8 64).hasMessageIndex := by
  decide

end OlmMessage
