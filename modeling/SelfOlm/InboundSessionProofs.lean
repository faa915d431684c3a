import SelfOlm.Session
import SelfOlm.MessageProofs

/-! # What an inbound session accepts

    `new_inbound_session` reads two nested messages.  It checks the outer one,
    copies its three keys into the session, and only then looks at the embedded
    message and at the one-time keys of the account.  Four lemmas say what it
    does: refused at the outer message, stopped at a null pointer, refused
    behind the copy, accepted.  No version byte is ever looked at. -/

namespace OlmSession

open ByteMemory OlmCrypto OlmMessage OlmList OlmRatchet OlmAccount

variable (prim : Primitives)

/-! ## The two messages -/

/-- The outer message. -/
def outerReader (m : Mem) (message messageLength : Nat) : PreKeyMessageReader :=
  decodeOneTimeKeyMessage preKeyReader m message messageLength

/-- The embedded message. -/
def embeddedReader (m : Mem) (message messageLength : Nat) : MessageReader :=
  decodeMessage messageReader m ((outerReader m message messageLength).message.getD 0)
    (outerReader m message messageLength).messageLength (olmSuite prim).ratchetCipher.macLength

/-- The keys and the body that the outer message has to have. -/
structure OuterAccepted (reader : PreKeyMessageReader) (m : Mem)
    (theirIdentityKey : Option Curve25519PublicKey) : Prop where
  identityKey : reader.identityKey ≠ none ∨ theirIdentityKey ≠ none
  identityKeyLength : reader.identityKey ≠ none → reader.identityKeyLength = curve25519KeyLength
  identityAgrees : ∀ identityKey theirKey, reader.identityKey = some identityKey →
    theirIdentityKey = some theirKey → load 32 m identityKey = theirKey
  message : reader.message ≠ none
  baseKey : reader.baseKey ≠ none
  baseKeyLength : reader.baseKeyLength = curve25519KeyLength
  oneTimeKey : reader.oneTimeKey ≠ none
  oneTimeKeyLength : reader.oneTimeKeyLength = curve25519KeyLength

/-- The ratchet key that the embedded message has to have. -/
structure EmbeddedAccepted (reader : MessageReader) : Prop where
  ratchetKey : reader.ratchetKey ≠ none
  ratchetKeyLength : reader.ratchetKeyLength = curve25519KeyLength

/-- The account holds the one-time key of the message. -/
def OneTimeKeyHeld (account : Account) (reader : PreKeyMessageReader) (m : Mem) : Prop :=
  lookupKey account (load 32 m (reader.oneTimeKey.getD 0)) ≠ none

theorem isSome_iff_ne_none {α : Type} (x : Option α) : x.isSome = true ↔ x ≠ none := by
  cases x with
  | none => exact iff_of_false (by intro h; cases h) (not_not_intro rfl)
  | some a => exact iff_of_true rfl (by intro h; cases h)

theorem sameIdentityKey_iff (reader : PreKeyMessageReader)
    (theirIdentityKey : Option Curve25519PublicKey) (m : Mem) :
    sameIdentityKey reader theirIdentityKey m = true
      ↔ ∀ identityKey theirKey, reader.identityKey = some identityKey →
          theirIdentityKey = some theirKey → load 32 m identityKey = theirKey := by
  unfold sameIdentityKey
  cases hk : reader.identityKey with
  | none => exact iff_of_true rfl (by intro _ _ h; cases h)
  | some identityKey =>
      cases ht : theirIdentityKey with
      | none => exact iff_of_true rfl (by intro _ _ _ h; cases h)
      | some theirKey =>
          simp only [decide_eq_true_eq]
          constructor
          · intro h _ _ hi hj
            rw [← Option.some.inj hi, ← Option.some.inj hj]
            exact h
          · intro h
            exact h identityKey theirKey rfl rfl

/-- `check_message_fields` and the comparison behind it are the conditions on the
    outer message. -/
theorem outerAccepted_iff (reader : PreKeyMessageReader) (m : Mem)
    (theirIdentityKey : Option Curve25519PublicKey) :
    OuterAccepted reader m theirIdentityKey
      ↔ checkMessageFields reader theirIdentityKey.isSome = true ∧
        sameIdentityKey reader theirIdentityKey m = true := by
  rw [checkMessageFields, sameIdentityKey_iff]
  simp only [Bool.and_eq_true, Bool.or_eq_true, isSome_iff_ne_none, beq_iff_eq]
  constructor
  · rintro ⟨hid, hlen, hagree, hmessage, hbase, hbaseLen, hone, honeLen⟩
    refine ⟨⟨⟨⟨⟨⟨⟨hid.symm, ?_⟩, hmessage⟩, hbase⟩, hbaseLen⟩, hone⟩, honeLen⟩, hagree⟩
    cases hk : reader.identityKey with
    | none => exact Or.inl rfl
    | some identityKey => exact Or.inr (hlen (by rw [hk]; intro h; cases h))
  · rintro ⟨⟨⟨⟨⟨⟨⟨hid, hlen⟩, hmessage⟩, hbase⟩, hbaseLen⟩, hone⟩, honeLen⟩, hagree⟩
    refine ⟨hid.symm, ?_, hagree, hmessage, hbase, hbaseLen, hone, honeLen⟩
    intro hk
    rcases hlen with hnone | hlen
    · exact absurd (Option.isNone_iff_eq_none.mp hnone) hk
    · exact hlen

/-! ## The four ways through -/

/-- The session with the three keys of the outer message. -/
def withMessageKeys (s : Session) (reader : PreKeyMessageReader) (m : Mem) : Session :=
  { s with
    aliceIdentityKey := load 32 m (reader.identityKey.getD 0)
    aliceBaseKey := load 32 m (reader.baseKey.getD 0)
    bobOneTimeKey := load 32 m (reader.oneTimeKey.getD 0) }

/-- The triple Diffie-Hellman secret on Bob's side. -/
def inboundSecret (account : Account) (oneTimeKey : OneTimeKey)
    (aliceIdentityKey aliceBaseKey : Curve25519PublicKey) : Bytes :=
  (cryptoCurve25519SharedSecret prim oneTimeKey.key aliceIdentityKey).toList
    ++ (cryptoCurve25519SharedSecret prim account.identityKeys.curve25519Key aliceBaseKey).toList
    ++ (cryptoCurve25519SharedSecret prim oneTimeKey.key aliceBaseKey).toList

variable (s : Session) (account : Account) (theirIdentityKey : Option Curve25519PublicKey) (m : Mem)
  (message messageLength : Nat)

/-- **REFUSED** at the outer message: nothing but the error changes. -/
theorem newInboundSession_outer
    (h : ¬OuterAccepted (outerReader m message messageLength) m theirIdentityKey) :
    ∃ e, (e = OlmErrorCode.badMessageFormat ∨ e = OlmErrorCode.badMessageKeyId) ∧
      newInboundSession prim s account theirIdentityKey m message messageLength
        = some ({ s with lastError := e }, none) := by
  rw [outerAccepted_iff, not_and_or] at h
  rw [newInboundSession]
  simp only
  by_cases hcheck : checkMessageFields (outerReader m message messageLength)
      theirIdentityKey.isSome = true
  · have hsame := h.resolve_left (not_not_intro hcheck)
    refine ⟨.badMessageKeyId, Or.inr rfl, ?_⟩
    rw [show checkMessageFields (decodeOneTimeKeyMessage preKeyReader m message messageLength)
      theirIdentityKey.isSome = true from hcheck]
    rw [if_neg (by decide), if_pos]
    rw [Bool.not_eq_true']
    exact (Bool.not_eq_true _).mp hsame
  · refine ⟨.badMessageFormat, Or.inl rfl, ?_⟩
    rw [if_pos]
    rw [Bool.not_eq_true']
    exact (Bool.not_eq_true _).mp hcheck

/-- What is left of the function behind the checks of the outer message. -/
theorem newInboundSession_checked
    (h : OuterAccepted (outerReader m message messageLength) m theirIdentityKey) :
    newInboundSession prim s account theirIdentityKey m message messageLength
      = (match (outerReader m message messageLength).identityKey with
          | none => none
          | some _ =>
              let s := withMessageKeys s (outerReader m message messageLength) m
              let inner := embeddedReader prim m message messageLength
              if inner.ratchetKey.isNone || inner.ratchetKeyLength != curve25519KeyLength then
                some ({ s with lastError := .badMessageFormat }, none)
              else
                match lookupKey account s.bobOneTimeKey with
                | none => some ({ s with lastError := .badMessageKeyId }, none)
                | some ourOneTimeKey =>
                    some ({ s with
                      ratchet := initialiseAsBob (olmSuite prim) s.ratchet
                        (inboundSecret prim account ourOneTimeKey s.aliceIdentityKey s.aliceBaseKey)
                        (load 32 m (inner.ratchetKey.getD 0)) }, some 0)) := by
  obtain ⟨hcheck, hsame⟩ := (outerAccepted_iff _ m theirIdentityKey).mp h
  rw [newInboundSession]
  simp only
  rw [show checkMessageFields (decodeOneTimeKeyMessage preKeyReader m message messageLength)
    theirIdentityKey.isSome = true from hcheck, if_neg (by decide), if_neg]
  · cases hk : (outerReader m message messageLength).identityKey with
    | none =>
        rw [show (decodeOneTimeKeyMessage preKeyReader m message messageLength).identityKey = none
          from hk]
    | some identityKey =>
        rw [show (decodeOneTimeKeyMessage preKeyReader m message messageLength).identityKey
          = some identityKey from hk]
        simp only [withMessageKeys, hk, Option.getD_some]
        rfl
  · rw [Bool.not_eq_true', Bool.not_eq_false]
    exact hsame

/-- A **NULL POINTER** is read where the identity key is only supplied. -/
theorem newInboundSession_null
    (h : OuterAccepted (outerReader m message messageLength) m theirIdentityKey)
    (hk : (outerReader m message messageLength).identityKey = none) :
    newInboundSession prim s account theirIdentityKey m message messageLength = none := by
  rw [newInboundSession_checked prim s account theirIdentityKey m message messageLength h, hk]

/-- **REFUSED** behind the copy: the session has the keys of the message. -/
theorem newInboundSession_late
    (h : OuterAccepted (outerReader m message messageLength) m theirIdentityKey)
    (hk : (outerReader m message messageLength).identityKey ≠ none)
    (hlate : ¬(EmbeddedAccepted (embeddedReader prim m message messageLength) ∧
      OneTimeKeyHeld account (outerReader m message messageLength) m)) :
    ∃ e, (e = OlmErrorCode.badMessageFormat ∨ e = OlmErrorCode.badMessageKeyId) ∧
      newInboundSession prim s account theirIdentityKey m message messageLength
        = some ({ withMessageKeys s (outerReader m message messageLength) m with lastError := e },
            none) := by
  obtain ⟨identityKey, hk⟩ := Option.ne_none_iff_exists'.mp hk
  rw [newInboundSession_checked prim s account theirIdentityKey m message messageLength h, hk]
  simp only
  by_cases hinner : ((embeddedReader prim m message messageLength).ratchetKey.isNone
      || (embeddedReader prim m message messageLength).ratchetKeyLength != curve25519KeyLength)
      = true
  · rw [if_pos hinner]
    exact ⟨.badMessageFormat, Or.inl rfl, rfl⟩
  · rw [if_neg hinner]
    rw [Bool.or_eq_true, not_or, bne_iff_ne, not_not] at hinner
    have hembedded : EmbeddedAccepted (embeddedReader prim m message messageLength) :=
      ⟨fun hn => hinner.1 (Option.isNone_iff_eq_none.mpr hn), hinner.2⟩
    have hheld : lookupKey account (load 32 m ((outerReader m message messageLength).oneTimeKey.getD
        0)) = none := by
      by_contra hn
      exact hlate ⟨hembedded, hn⟩
    refine ⟨.badMessageKeyId, Or.inr rfl, ?_⟩
    rw [show (withMessageKeys s (outerReader m message messageLength) m).bobOneTimeKey
      = load 32 m ((outerReader m message messageLength).oneTimeKey.getD 0) from rfl, hheld]

/-- **ACCEPTED**: the keys of the message, and the ratchet of the receiver. -/
theorem newInboundSession_accepted
    (h : OuterAccepted (outerReader m message messageLength) m theirIdentityKey)
    (hk : (outerReader m message messageLength).identityKey ≠ none)
    (hembedded : EmbeddedAccepted (embeddedReader prim m message messageLength))
    {oneTimeKey : OneTimeKey}
    (hheld : lookupKey account (load 32 m
      ((outerReader m message messageLength).oneTimeKey.getD 0)) = some oneTimeKey) :
    newInboundSession prim s account theirIdentityKey m message messageLength
      = (let s := withMessageKeys s (outerReader m message messageLength) m
        some ({ s with
          ratchet := initialiseAsBob (olmSuite prim) s.ratchet
            (inboundSecret prim account oneTimeKey s.aliceIdentityKey s.aliceBaseKey)
            (load 32 m ((embeddedReader prim m message messageLength).ratchetKey.getD 0)) },
          some 0)) := by
  obtain ⟨identityKey, hk⟩ := Option.ne_none_iff_exists'.mp hk
  rw [newInboundSession_checked prim s account theirIdentityKey m message messageLength h, hk]
  simp only
  rw [if_neg]
  · rw [show (withMessageKeys s (outerReader m message messageLength) m).bobOneTimeKey
      = load 32 m ((outerReader m message messageLength).oneTimeKey.getD 0) from rfl, hheld]
  · rw [Bool.or_eq_true, not_or, bne_iff_ne, not_not]
    exact ⟨fun hn => hembedded.ratchetKey (Option.isNone_iff_eq_none.mp hn),
      hembedded.ratchetKeyLength⟩

/-! ## Messages as they are encoded -/

/-- A pre-key message in memory with these keys and this body. -/
structure Carries (reader : PreKeyMessageReader) (m : Mem)
    (oneTimeKey baseKey identityKey : Curve25519PublicKey) (body : Bytes) : Prop where
  oneTimeKey : ∃ p, reader.oneTimeKey = some p ∧ load 32 m p = oneTimeKey
  oneTimeKeyLength : reader.oneTimeKeyLength = curve25519KeyLength
  baseKey : ∃ p, reader.baseKey = some p ∧ load 32 m p = baseKey
  baseKeyLength : reader.baseKeyLength = curve25519KeyLength
  identityKey : ∃ p, reader.identityKey = some p ∧ load 32 m p = identityKey
  identityKeyLength : reader.identityKeyLength = curve25519KeyLength
  embedded : ∃ p, reader.message = some p ∧ read m p body.length = body
  embeddedLength : reader.messageLength = body.length

section Encoded

variable {m} {message messageLength} {version : UInt8}
  {oneTimeKey baseKey identityKey : Curve25519PublicKey} {body : Bytes}

/-- The fields of an encoded pre-key message are found. -/
theorem outerReader_carries (hsize : messageLength < 2 ^ 64)
    (h : read m message messageLength = preKeyMessageBytes version oneTimeKey.toList
      baseKey.toList identityKey.toList body) :
    Carries (outerReader m message messageLength) m oneTimeKey baseKey identityKey body := by
  obtain ⟨a₁, c₁, ha₁, h₁⟩ := preKeyMessageBytes_oneTimeKey version oneTimeKey.toList
    baseKey.toList identityKey.toList body
  obtain ⟨a₂, c₂, ha₂, h₂⟩ := preKeyMessageBytes_baseKey version oneTimeKey.toList
    baseKey.toList identityKey.toList body
  obtain ⟨a₃, c₃, ha₃, h₃⟩ := preKeyMessageBytes_identityKey version oneTimeKey.toList
    baseKey.toList identityKey.toList body
  obtain ⟨a₄, ha₄, h₄⟩ := preKeyMessageBytes_message version oneTimeKey.toList
    baseKey.toList identityKey.toList body
  rw [outerReader, decodeOneTimeKeyMessage_eq hsize h]
  refine ⟨⟨_, rfl, ?_⟩, Vector.length_toList, ⟨_, rfl, ?_⟩, Vector.length_toList, ⟨_, rfl, ?_⟩,
    Vector.length_toList, ⟨_, rfl, ?_⟩, rfl⟩
  · rw [← ha₁]
    exact load_middle (h.trans (h₁ oneTimeKey.toList rfl))
  · rw [← ha₂]
    exact load_middle (h.trans (h₂ baseKey.toList rfl))
  · rw [← ha₃]
    exact load_middle (h.trans (h₃ identityKey.toList rfl))
  · rw [← ha₄]
    exact read_middle (h.trans (h₄ body rfl))

/-- The embedded message of an encoded pre-key message has its ratchet key. -/
theorem embeddedReader_encoded {embeddedVersion : UInt8} {counter : UInt32}
    {ratchetKey : Curve25519PublicKey} {ciphertext mac : Bytes}
    (hcarries : Carries (outerReader m message messageLength) m oneTimeKey baseKey identityKey
      (messageBytes embeddedVersion counter ratchetKey.toList ciphertext ++ mac))
    (hsize : (messageBytes embeddedVersion counter ratchetKey.toList ciphertext).length < 2 ^ 64)
    (hmac : mac.length = cipherMacLength) :
    EmbeddedAccepted (embeddedReader prim m message messageLength) ∧
      load 32 m ((embeddedReader prim m message messageLength).ratchetKey.getD 0) = ratchetKey := by
  obtain ⟨p, hp, hread⟩ := hcarries.embedded
  have hinner := decodeMessage_eq hsize hmac hread messageReader
  rw [embeddedReader, hp, hcarries.embeddedLength]
  rw [show (olmSuite prim).ratchetCipher.macLength = cipherMacLength from rfl, Option.getD_some,
    hinner]
  obtain ⟨a, c, ha, hac⟩ := messageBytes_ratchetKey embeddedVersion counter ratchetKey.toList
    ciphertext
  have hk := hread.trans (congrArg (· ++ mac) (hac ratchetKey.toList rfl))
  simp only [List.append_assoc] at hk
  refine ⟨⟨?_, Vector.length_toList⟩, ?_⟩
  · intro hn
    cases hn
  · rw [Option.getD_some, ← ha]
    exact load_middle hk

variable {s account theirIdentityKey}

theorem Carries.outerAccepted {reader : PreKeyMessageReader}
    (h : Carries reader m oneTimeKey baseKey identityKey body)
    (htheirs : ∀ theirKey, theirIdentityKey = some theirKey → theirKey = identityKey) :
    OuterAccepted reader m theirIdentityKey := by
  obtain ⟨p₁, h₁, -⟩ := h.oneTimeKey
  obtain ⟨p₂, h₂, -⟩ := h.baseKey
  obtain ⟨p₃, h₃, hl₃⟩ := h.identityKey
  obtain ⟨p₄, h₄, -⟩ := h.embedded
  refine ⟨Or.inl ?_, fun _ => h.identityKeyLength, ?_, ?_, ?_, h.baseKeyLength, ?_,
    h.oneTimeKeyLength⟩
  · rw [h₃]; intro hn; cases hn
  · intro k theirKey hk ht
    rw [htheirs theirKey ht, ← hl₃]
    rw [h₃] at hk
    rw [Option.some.inj hk]
  · rw [h₄]; intro hn; cases hn
  · rw [h₂]; intro hn; cases hn
  · rw [h₁]; intro hn; cases hn

theorem Carries.withMessageKeys {reader : PreKeyMessageReader}
    (h : Carries reader m oneTimeKey baseKey identityKey body) :
    withMessageKeys s reader m
      = { s with
          aliceIdentityKey := identityKey, aliceBaseKey := baseKey, bobOneTimeKey := oneTimeKey } := by
  obtain ⟨p₁, h₁, hl₁⟩ := h.oneTimeKey
  obtain ⟨p₂, h₂, hl₂⟩ := h.baseKey
  obtain ⟨p₃, h₃, hl₃⟩ := h.identityKey
  rw [OlmSession.withMessageKeys, h₁, h₂, h₃]
  simp only [Option.getD_some]
  rw [hl₁, hl₂, hl₃]

/-- **ACCEPTED**: an encoded pre-key message, whatever its version bytes are. -/
theorem newInboundSession_encoded {embeddedVersion : UInt8} {counter : UInt32}
    {ratchetKey : Curve25519PublicKey} {ciphertext mac : Bytes}
    (hsize : messageLength < 2 ^ 64)
    (h : read m message messageLength = preKeyMessageBytes version oneTimeKey.toList
      baseKey.toList identityKey.toList
      (messageBytes embeddedVersion counter ratchetKey.toList ciphertext ++ mac))
    (hmac : mac.length = cipherMacLength)
    (htheirs : ∀ theirKey, theirIdentityKey = some theirKey → theirKey = identityKey)
    {ourOneTimeKey : OneTimeKey} (hheld : lookupKey account oneTimeKey = some ourOneTimeKey) :
    newInboundSession prim s account theirIdentityKey m message messageLength
      = some ({ s with
          aliceIdentityKey := identityKey, aliceBaseKey := baseKey, bobOneTimeKey := oneTimeKey
          ratchet := initialiseAsBob (olmSuite prim) s.ratchet
            (inboundSecret prim account ourOneTimeKey identityKey baseKey) ratchetKey },
          some 0) := by
  have hcarries := outerReader_carries hsize h
  have hbody : (messageBytes embeddedVersion counter ratchetKey.toList ciphertext).length
      < 2 ^ 64 := by
    have hlen := congrArg List.length h
    rw [length_read, length_preKeyMessageBytes, List.length_append] at hlen
    omega
  obtain ⟨hembedded, hkey⟩ := embeddedReader_encoded prim hcarries hbody hmac
  obtain ⟨p₁, h₁, hl₁⟩ := hcarries.oneTimeKey
  obtain ⟨p₃, h₃, -⟩ := hcarries.identityKey
  have hlookup : lookupKey account
      (load 32 m ((outerReader m message messageLength).oneTimeKey.getD 0))
      = some ourOneTimeKey := by
    rw [h₁, Option.getD_some, hl₁]
    exact hheld
  rw [newInboundSession_accepted prim s account theirIdentityKey m message messageLength
    (hcarries.outerAccepted htheirs) (by rw [h₃]; intro hn; cases hn) hembedded hlookup]
  rw [hcarries.withMessageKeys, hkey]

end Encoded

/-! ## A refused message -/

/-- The keys and the ratchet of two sessions agree, and so does what is done with
    them. -/
structure KeysUnchanged (s s' : Session) : Prop where
  aliceIdentityKey : s'.aliceIdentityKey = s.aliceIdentityKey
  aliceBaseKey : s'.aliceBaseKey = s.aliceBaseKey
  bobOneTimeKey : s'.bobOneTimeKey = s.bobOneTimeKey
  ratchet : s'.ratchet = s.ratchet
  removeOneTimeKeys : ∀ account, olmRemoveOneTimeKeys account s' = olmRemoveOneTimeKeys account s
  sessionId : ∀ m id idLength,
    (sessionId prim s' m id idLength).1 = (sessionId prim s m id idLength).1
  matchesInboundSession : ∀ theirIdentityKey m message messageLength,
    matchesInboundSession s' theirIdentityKey m message messageLength
      = matchesInboundSession s theirIdentityKey m message messageLength

/-- If the call failed, it left the session as it was. -/
def RejectedUnchanged (s : Session) (result : Option (Session × Option Nat)) : Prop :=
  ∀ s', result = some (s', none) → KeysUnchanged prim s s'

/-- The outer message is accepted, and the embedded message or its one-time key
    is not. -/
structure RefusedLate : Prop where
  outer : OuterAccepted (outerReader m message messageLength) m theirIdentityKey
  identityKey : (outerReader m message messageLength).identityKey ≠ none
  refused : ¬(EmbeddedAccepted (embeddedReader prim m message messageLength) ∧
    OneTimeKeyHeld account (outerReader m message messageLength) m)

/-- The session has the three keys of the message already. -/
structure CarriesOwnKeys (reader : PreKeyMessageReader) : Prop where
  aliceIdentityKey : load 32 m (reader.identityKey.getD 0) = s.aliceIdentityKey
  aliceBaseKey : load 32 m (reader.baseKey.getD 0) = s.aliceBaseKey
  bobOneTimeKey : load 32 m (reader.oneTimeKey.getD 0) = s.bobOneTimeKey

theorem KeysUnchanged.of_eq {s s' : Session} (h1 : s'.aliceIdentityKey = s.aliceIdentityKey)
    (h2 : s'.aliceBaseKey = s.aliceBaseKey) (h3 : s'.bobOneTimeKey = s.bobOneTimeKey)
    (h4 : s'.ratchet = s.ratchet) : KeysUnchanged prim s s' where
  aliceIdentityKey := h1
  aliceBaseKey := h2
  bobOneTimeKey := h3
  ratchet := h4
  removeOneTimeKeys := by
    intro account
    rw [olmRemoveOneTimeKeys, olmRemoveOneTimeKeys, h3]
  sessionId := by
    intro m id idLength
    unfold OlmSession.sessionId
    rw [h1, h2, h3]
    split <;> rfl
  matchesInboundSession := by
    intro theirIdentityKey m message messageLength
    unfold OlmSession.matchesInboundSession
    rw [h1, h2, h3]

/-- Storing the keys of a message changes nothing just where they are there. -/
theorem carriesOwnKeys_iff (s : Session) (reader : PreKeyMessageReader) (m : Mem)
    (e : OlmErrorCode) :
    CarriesOwnKeys s m reader
      ↔ KeysUnchanged prim s { withMessageKeys s reader m with lastError := e } := by
  constructor
  · rintro ⟨h1, h2, h3⟩
    refine KeysUnchanged.of_eq prim ?_ ?_ ?_ ?_
    · exact h1
    · exact h2
    · exact h3
    · rw [withMessageKeys]
  · intro h
    refine ⟨?_, ?_, ?_⟩
    · exact h.aliceIdentityKey
    · exact h.aliceBaseKey
    · exact h.bobOneTimeKey

theorem rejectedUnchanged_none {s s' : Session} {result : Option (Session × Option Nat)}
    (h : result = some (s', none)) : RejectedUnchanged prim s result ↔ KeysUnchanged prim s s' := by
  subst h
  constructor
  · intro h
    exact h s' rfl
  · intro h s'' heq
    rw [Option.some.injEq, Prod.mk.injEq] at heq
    rw [← heq.1]
    exact h

theorem rejectedUnchanged_some {s s' : Session} {result : Option (Session × Option Nat)} {n : Nat}
    (h : result = some (s', some n)) : RejectedUnchanged prim s result := by
  subst h
  intro s'' heq
  rw [Option.some.injEq, Prod.mk.injEq] at heq
  exact absurd heq.2 (by intro hn; cases hn)

/-- **REFUSED MESSAGES**: a refused message leaves the session as it was exactly
    when it was refused at the outer message or names the keys of the session. -/
theorem newInboundSession_unchanged_iff :
    RejectedUnchanged prim s
        (newInboundSession prim s account theirIdentityKey m message messageLength)
      ↔ ¬RefusedLate prim account theirIdentityKey m message messageLength
        ∨ CarriesOwnKeys s m (outerReader m message messageLength) := by
  by_cases hlate : RefusedLate prim account theirIdentityKey m message messageLength
  · obtain ⟨e, -, hresult⟩ := newInboundSession_late prim s account theirIdentityKey m message
      messageLength hlate.outer hlate.identityKey hlate.refused
    rw [rejectedUnchanged_none prim hresult]
    rw [← carriesOwnKeys_iff]
    exact ⟨Or.inr, fun h => h.resolve_left (not_not_intro hlate)⟩
  · refine iff_of_true ?_ (Or.inl hlate)
    by_cases houter : OuterAccepted (outerReader m message messageLength) m theirIdentityKey
    · by_cases hk : (outerReader m message messageLength).identityKey = none
      · rw [newInboundSession_null prim s account theirIdentityKey m message messageLength houter
          hk]
        intro s' hs'
        cases hs'
      · have hinner : EmbeddedAccepted (embeddedReader prim m message messageLength) ∧
            OneTimeKeyHeld account (outerReader m message messageLength) m := by
          by_contra hn
          exact hlate ⟨houter, hk, hn⟩
        obtain ⟨oneTimeKey, hheld⟩ := Option.ne_none_iff_exists'.mp hinner.2
        exact rejectedUnchanged_some prim (newInboundSession_accepted prim s account
          theirIdentityKey m message messageLength houter hk hinner.1 hheld)
    · obtain ⟨e, -, hresult⟩ := newInboundSession_outer prim s account theirIdentityKey m message
        messageLength houter
      exact (rejectedUnchanged_none prim hresult).mpr (KeysUnchanged.of_eq prim rfl rfl rfl rfl)

/-- An account with one one-time key, the base point itself. -/
def oneKeyAccount : Account :=
  (generateOneTimeKeys demoPrimitives newAccountObject 1 (fun _ => 0) 0 32).1

/-- A pre-key message for that key with these versions and this body. -/
def handmadeMessage (version : UInt8) (body : Bytes) : Bytes :=
  preKeyMessageBytes version curve25519Basepoint.toList (List.replicate 32 2)
    (List.replicate 32 1) body

/-- The message at address 0. -/
def handmadeMemory (version : UInt8) (body : Bytes) : Mem :=
  write (fun _ => 0) 0 (handmadeMessage version body)

theorem read_handmadeMemory (version : UInt8) (body : Bytes) :
    read (handmadeMemory version body) 0 (handmadeMessage version body).length
      = preKeyMessageBytes version curve25519Basepoint.toList
          (Vector.replicate 32 (2 : UInt8)).toList (Vector.replicate 32 (1 : UInt8)).toList body :=
  read_write_self _ _ _

theorem lookupKey_oneKeyAccount : lookupKey oneKeyAccount curve25519Basepoint
    = some { id := 1, published := false,
             key := { publicKey := curve25519Basepoint, privateKey := Vector.replicate 32 0 } } := by
  decide +kernel

theorem removeKey_oneKeyAccount :
    (removeKey oneKeyAccount (Vector.replicate 32 0)).2 = none ∧
      (removeKey oneKeyAccount curve25519Basepoint).2 = some 1 := by
  decide +kernel

theorem olmRemoveOneTimeKeys_snd (account : Account) (s : Session) :
    (olmRemoveOneTimeKeys account s).2 = (removeKey account s.bobOneTimeKey).2 := by
  rw [olmRemoveOneTimeKeys]
  rcases removeKey account s.bobOneTimeKey with ⟨a, _ | n⟩
  · rfl
  · rfl

/-- **A REFUSED MESSAGE** without a body: the new session names the one-time key of
    the message, and removing the key of that session removes it. -/
theorem newInboundSession_refused :
    ∃ s', newInboundSession demoPrimitives newSession oneKeyAccount none
          (handmadeMemory 3 []) 0 (handmadeMessage 3 []).length = some (s', none) ∧
      (olmRemoveOneTimeKeys oneKeyAccount newSession).2 = none ∧
      (olmRemoveOneTimeKeys oneKeyAccount s').2 = some 1 ∧
      ¬RejectedUnchanged demoPrimitives newSession (newInboundSession demoPrimitives newSession
          oneKeyAccount none (handmadeMemory 3 []) 0 (handmadeMessage 3 []).length) := by
  have hcarries := outerReader_carries (by decide +kernel) (read_handmadeMemory 3 [])
  obtain ⟨p, hp, -⟩ := hcarries.identityKey
  have hrefused : ¬(EmbeddedAccepted (embeddedReader demoPrimitives (handmadeMemory 3 []) 0
      (handmadeMessage 3 []).length) ∧ OneTimeKeyHeld oneKeyAccount (outerReader
        (handmadeMemory 3 []) 0 (handmadeMessage 3 []).length) (handmadeMemory 3 [])) := by
    intro h
    refine h.1.ratchetKey ?_
    rw [embeddedReader, hcarries.embeddedLength]
    rfl
  obtain ⟨e, -, hresult⟩ := newInboundSession_late demoPrimitives newSession oneKeyAccount none
    _ _ _ (hcarries.outerAccepted (by intro k h; cases h)) (by rw [hp]; intro h; cases h) hrefused
  rw [hcarries.withMessageKeys] at hresult
  generalize hs' : ({ newSession with
    lastError := e
    aliceIdentityKey := Vector.replicate 32 1
    aliceBaseKey := Vector.replicate 32 2
    bobOneTimeKey := curve25519Basepoint } : Session) = s' at hresult
  have hkey : s'.bobOneTimeKey = curve25519Basepoint := by rw [← hs']
  refine ⟨s', hresult, ?_, ?_, ?_⟩
  · rw [olmRemoveOneTimeKeys_snd]
    exact removeKey_oneKeyAccount.1
  · rw [olmRemoveOneTimeKeys_snd, hkey]
    exact removeKey_oneKeyAccount.2
  · rw [rejectedUnchanged_none demoPrimitives hresult]
    intro h
    have hsame : curve25519Basepoint = newSession.bobOneTimeKey := hkey.symm.trans h.bobOneTimeKey
    exact absurd hsame (by decide)

/-! ## Version bytes -/

/-- A string that starts with another byte than the version of the protocol. -/
def OtherVersion (m : Mem) (p n : Nat) : Prop := n ≠ 0 ∧ m p ≠ protocolVersion

/-- One of the two messages is there and has another version byte. -/
def HasOtherVersion : Prop :=
  OtherVersion m message messageLength ∨
    ((outerReader m message messageLength).message ≠ none ∧
      OtherVersion m ((outerReader m message messageLength).message.getD 0)
        (outerReader m message messageLength).messageLength)

/-- A string with the version byte of the protocol. -/
def CarriesVersion (m : Mem) (p n : Nat) : Prop := n ≠ 0 ∧ m p = protocolVersion

/-- The messages that are documented to be accepted. -/
structure Documented : Prop where
  version : CarriesVersion m message messageLength
  embeddedVersion : CarriesVersion m ((outerReader m message messageLength).message.getD 0)
    (outerReader m message messageLength).messageLength
  outer : OuterAccepted (outerReader m message messageLength) m theirIdentityKey
  embedded : EmbeddedAccepted (embeddedReader prim m message messageLength)
  held : OneTimeKeyHeld account (outerReader m message messageLength) m

/-- Just the documented messages are accepted, and another version is refused as
    such. -/
structure AcceptsDocumented : Prop where
  accepts : (∃ s', newInboundSession prim s account theirIdentityKey m message messageLength
    = some (s', some 0)) ↔ Documented prim account theirIdentityKey m message messageLength
  refuses : HasOtherVersion m message messageLength →
    ∃ s', newInboundSession prim s account theirIdentityKey m message messageLength
        = some (s', none) ∧ s'.lastError = .badMessageVersion

/-- The identity key is supplied and not in the message, which has everything
    else. -/
structure OnlySupplied : Prop where
  outer : OuterAccepted (outerReader m message messageLength) m theirIdentityKey
  embedded : EmbeddedAccepted (embeddedReader prim m message messageLength)
  held : OneTimeKeyHeld account (outerReader m message messageLength) m
  identityKey : (outerReader m message messageLength).identityKey = none

theorem OuterAccepted.nonempty
    (h : OuterAccepted (outerReader m message messageLength) m theirIdentityKey) :
    messageLength ≠ 0 := by
  rintro rfl
  refine h.message ?_
  rw [outerReader, decodeOneTimeKeyMessage]
  simp only [Nat.add_zero, reduceIte]

theorem EmbeddedAccepted.nonempty
    (h : EmbeddedAccepted (embeddedReader prim m message messageLength)) :
    (outerReader m message messageLength).messageLength ≠ 0 := by
  intro hzero
  refine h.ratchetKey ?_
  rw [embeddedReader, hzero]
  rfl

/-- The errors of `new_inbound_session` are two others. -/
theorem newInboundSession_error {s' : Session}
    (h : newInboundSession prim s account theirIdentityKey m message messageLength
      = some (s', none)) :
    s'.lastError = .badMessageFormat ∨ s'.lastError = .badMessageKeyId := by
  by_cases houter : OuterAccepted (outerReader m message messageLength) m theirIdentityKey
  · by_cases hk : (outerReader m message messageLength).identityKey = none
    · rw [newInboundSession_null prim s account theirIdentityKey m message messageLength houter
        hk] at h
      cases h
    · by_cases hinner : EmbeddedAccepted (embeddedReader prim m message messageLength) ∧
          OneTimeKeyHeld account (outerReader m message messageLength) m
      · obtain ⟨oneTimeKey, hheld⟩ := Option.ne_none_iff_exists'.mp hinner.2
        rw [newInboundSession_accepted prim s account theirIdentityKey m message messageLength
          houter hk hinner.1 hheld, Option.some.injEq, Prod.mk.injEq] at h
        exact absurd h.2 (by intro hn; cases hn)
      · obtain ⟨e, he, hresult⟩ := newInboundSession_late prim s account theirIdentityKey m
          message messageLength houter hk hinner
        rw [hresult, Option.some.injEq, Prod.mk.injEq] at h
        rw [← h.1]
        exact he
  · obtain ⟨e, he, hresult⟩ := newInboundSession_outer prim s account theirIdentityKey m message
      messageLength houter
    rw [hresult, Option.some.injEq, Prod.mk.injEq] at h
    rw [← h.1]
    exact he

/-- Without a supplied identity key no null pointer is read. -/
theorem newInboundSession_none_isSome :
    newInboundSession prim s account none m message messageLength ≠ none := by
  by_cases houter : OuterAccepted (outerReader m message messageLength) m none
  · have hk : (outerReader m message messageLength).identityKey ≠ none := by
      rcases houter.identityKey with hk | hk
      · exact hk
      · exact absurd hk (by decide)
    by_cases hinner : EmbeddedAccepted (embeddedReader prim m message messageLength) ∧
        OneTimeKeyHeld account (outerReader m message messageLength) m
    · obtain ⟨oneTimeKey, hheld⟩ := Option.ne_none_iff_exists'.mp hinner.2
      rw [newInboundSession_accepted prim s account none m message messageLength houter hk hinner.1
        hheld]
      exact Option.some_ne_none _
    · obtain ⟨e, -, hresult⟩ := newInboundSession_late prim s account none m message messageLength
        houter hk hinner
      rw [hresult]
      exact Option.some_ne_none _
  · obtain ⟨e, -, hresult⟩ := newInboundSession_outer prim s account none m message messageLength
      houter
    rw [hresult]
    exact Option.some_ne_none _

/-- What is accepted: everything that is documented but the versions, with the
    identity key in the message. -/
theorem newInboundSession_succeeds_iff :
    (∃ s', newInboundSession prim s account theirIdentityKey m message messageLength
        = some (s', some 0))
      ↔ OuterAccepted (outerReader m message messageLength) m theirIdentityKey ∧
        EmbeddedAccepted (embeddedReader prim m message messageLength) ∧
        OneTimeKeyHeld account (outerReader m message messageLength) m ∧
        (outerReader m message messageLength).identityKey ≠ none := by
  constructor
  · rintro ⟨s', h⟩
    by_cases houter : OuterAccepted (outerReader m message messageLength) m theirIdentityKey
    · by_cases hk : (outerReader m message messageLength).identityKey = none
      · rw [newInboundSession_null prim s account theirIdentityKey m message messageLength houter
          hk] at h
        cases h
      · by_cases hinner : EmbeddedAccepted (embeddedReader prim m message messageLength) ∧
            OneTimeKeyHeld account (outerReader m message messageLength) m
        · exact ⟨houter, hinner.1, hinner.2, hk⟩
        · obtain ⟨e, -, hresult⟩ := newInboundSession_late prim s account theirIdentityKey m
            message messageLength houter hk hinner
          rw [hresult, Option.some.injEq, Prod.mk.injEq] at h
          exact absurd h.2 (by intro hn; cases hn)
    · obtain ⟨e, -, hresult⟩ := newInboundSession_outer prim s account theirIdentityKey m message
        messageLength houter
      rw [hresult, Option.some.injEq, Prod.mk.injEq] at h
      exact absurd h.2 (by intro hn; cases hn)
  · rintro ⟨houter, hembedded, hheld, hk⟩
    obtain ⟨oneTimeKey, hheld⟩ := Option.ne_none_iff_exists'.mp hheld
    exact ⟨_, newInboundSession_accepted prim s account theirIdentityKey m message messageLength
      houter hk hembedded hheld⟩

/-- **WHAT IS ACCEPTED** is as documented exactly when neither message has another
    version byte and the identity key is not the only thing that is missing. -/
theorem newInboundSession_documented_iff :
    AcceptsDocumented prim s account theirIdentityKey m message messageLength
      ↔ ¬HasOtherVersion m message messageLength ∧
        ¬OnlySupplied prim account theirIdentityKey m message messageLength := by
  have hsucceeds := newInboundSession_succeeds_iff prim s account theirIdentityKey m message
    messageLength
  constructor
  · rintro ⟨haccepts, hrefuses⟩
    have hversion : ¬HasOtherVersion m message messageLength := by
      intro hother
      obtain ⟨s', hs', herror⟩ := hrefuses hother
      rcases newInboundSession_error prim s account theirIdentityKey m message messageLength hs'
        with he | he
      · rw [herror] at he
        cases he
      · rw [herror] at he
        cases he
    refine ⟨hversion, ?_⟩
    rintro ⟨houter, hembedded, hheld, hk⟩
    -- both version bytes are there, so the message is documented to be accepted
    have hdocumented : Documented prim account theirIdentityKey m message messageLength := by
      refine ⟨⟨houter.nonempty, ?_⟩, ⟨hembedded.nonempty, ?_⟩, houter, hembedded, hheld⟩
      · by_contra hn
        exact hversion (Or.inl ⟨houter.nonempty, hn⟩)
      · by_contra hn
        exact hversion (Or.inr ⟨houter.message, hembedded.nonempty, hn⟩)
    exact (hsucceeds.mp (haccepts.mpr hdocumented)).2.2.2 hk
  · rintro ⟨hversion, hsupplied⟩
    refine ⟨?_, fun hother => absurd hother hversion⟩
    rw [hsucceeds]
    constructor
    · rintro ⟨houter, hembedded, hheld, -⟩
      refine ⟨⟨houter.nonempty, ?_⟩, ⟨hembedded.nonempty, ?_⟩, houter, hembedded, hheld⟩
      · by_contra hn
        exact hversion (Or.inl ⟨houter.nonempty, hn⟩)
      · by_contra hn
        exact hversion (Or.inr ⟨houter.message, hembedded.nonempty, hn⟩)
    · rintro ⟨-, -, houter, hembedded, hheld⟩
      exact ⟨houter, hembedded, hheld, fun hk => hsupplied ⟨houter, hembedded, hheld, hk⟩⟩

/-- An embedded message of version 4 with an empty ciphertext and a MAC of zeros. -/
def handmadeBody : Bytes :=
  messageBytes 4 0 (List.replicate 32 5) [] ++ List.replicate 8 0

/-- **ANOTHER VERSION**: a message of version 4 that is accepted. -/
theorem newInboundSession_otherVersion :
    (∃ s', newInboundSession demoPrimitives newSession oneKeyAccount none
        (handmadeMemory 4 handmadeBody) 0 (handmadeMessage 4 handmadeBody).length
        = some (s', some 0)) ∧
      HasOtherVersion (handmadeMemory 4 handmadeBody) 0 (handmadeMessage 4 handmadeBody).length ∧
      ¬AcceptsDocumented demoPrimitives newSession oneKeyAccount none
        (handmadeMemory 4 handmadeBody) 0 (handmadeMessage 4 handmadeBody).length := by
  have hnone : ∀ theirKey : Curve25519PublicKey, none = some theirKey →
      theirKey = Vector.replicate 32 1 := by
    intro _ h
    cases h
  have haccepted := newInboundSession_encoded demoPrimitives (s := newSession) (by decide +kernel)
    (read_handmadeMemory 4 (messageBytes 4 0 (Vector.replicate 32 (5 : UInt8)).toList []
      ++ List.replicate 8 0)) rfl hnone lookupKey_oneKeyAccount
  have hother : HasOtherVersion (handmadeMemory 4 handmadeBody) 0
      (handmadeMessage 4 handmadeBody).length := Or.inl ⟨by decide +kernel, by decide +kernel⟩
  refine ⟨⟨_, haccepted⟩, hother, ?_⟩
  intro h
  obtain ⟨s', hs', -⟩ := h.refuses hother
  have hsame := haccepted.symm.trans hs'
  rw [Option.some.injEq, Prod.mk.injEq] at hsame
  exact absurd hsame.2 (by intro hn; cases hn)

end OlmSession
