import SelfOlm.InboundSessionProofs

/-! # The fields that an inbound session uses

    `check_message_fields` accepts a message without an identity key when one is
    supplied, and `new_inbound_session` copies the identity key of the message in every
    case.  Here every field pointer is followed where the code follows it, so that a null
    pointer stops the call: the identity key is the only one that can be null, and it is
    for just the messages without it. -/

namespace OlmSession

open ByteMemory OlmCrypto OlmMessage OlmList OlmRatchet OlmAccount

variable (prim : Primitives)

/-! ## The code -/

/-- The comparison of the two identity keys; `none` where it follows a null pointer. -/
def compareIdentityKeys (reader : PreKeyMessageReader)
    (theirIdentityKey : Option Curve25519PublicKey) (m : Mem) : Option Bool :=
  if reader.identityKey.isSome && theirIdentityKey.isSome then
    theirIdentityKey.bind fun theirKey =>
    reader.identityKey.bind fun identityKey =>
    some (decide (load 32 m identityKey = theirKey))
  else some true

/-- `new_inbound_session`; `none` where it follows a null pointer. -/
def newInboundSessionFields (s : Session) (localAccount : Account)
    (theirIdentityKey : Option Curve25519PublicKey) (m : Mem)
    (oneTimeKeyMessage messageLength : Nat) : Option (Session × Option Nat) :=
  let reader := decodeOneTimeKeyMessage preKeyReader m oneTimeKeyMessage messageLength
  if !checkMessageFields reader theirIdentityKey.isSome then
    some ({ s with lastError := .badMessageFormat }, none)
  else
    (compareIdentityKeys reader theirIdentityKey m).bind fun same =>
    if !same then some ({ s with lastError := .badMessageKeyId }, none)
    else
      reader.identityKey.bind fun identityKey =>
      reader.baseKey.bind fun baseKey =>
      reader.oneTimeKey.bind fun oneTimeKey =>
      reader.message.bind fun message =>
      let s := { s with
        aliceIdentityKey := load 32 m identityKey
        aliceBaseKey := load 32 m baseKey
        bobOneTimeKey := load 32 m oneTimeKey }
      let inner := decodeMessage messageReader m message reader.messageLength
        (olmSuite prim).ratchetCipher.macLength
      if inner.ratchetKey.isNone || inner.ratchetKeyLength != curve25519KeyLength then
        some ({ s with lastError := .badMessageFormat }, none)
      else
        inner.ratchetKey.bind fun ratchetKey =>
        match lookupKey localAccount s.bobOneTimeKey with
        | none => some ({ s with lastError := .badMessageKeyId }, none)
        | some ourOneTimeKey =>
            some ({ s with
                ratchet := initialiseAsBob (olmSuite prim) s.ratchet
                  (inboundSecret prim localAccount ourOneTimeKey s.aliceIdentityKey
                    s.aliceBaseKey)
                  (load 32 m ratchetKey) },
              some 0)

/-! ## What it computes -/

theorem compareIdentityKeys_eq (reader : PreKeyMessageReader)
    (theirIdentityKey : Option Curve25519PublicKey) (m : Mem) :
    compareIdentityKeys reader theirIdentityKey m
      = some (sameIdentityKey reader theirIdentityKey m) := by
  rw [compareIdentityKeys]
  unfold sameIdentityKey
  cases reader.identityKey with
  | none => rfl
  | some identityKey =>
      cases theirIdentityKey with
      | none => rfl
      | some theirKey => rfl

variable (s : Session) (account : Account) (theirIdentityKey : Option Curve25519PublicKey) (m : Mem)
  (message messageLength : Nat)

/-- No other pointer than that to the identity key can be null where it is followed. -/
theorem newInboundSessionFields_eq :
    newInboundSessionFields prim s account theirIdentityKey m message messageLength
      = newInboundSession prim s account theirIdentityKey m message messageLength := by
  by_cases houter : OuterAccepted (outerReader m message messageLength) m theirIdentityKey
  · obtain ⟨hcheck, hsame⟩ := (outerAccepted_iff _ m theirIdentityKey).mp houter
    obtain ⟨baseKey, hbase⟩ := Option.ne_none_iff_exists'.mp houter.baseKey
    obtain ⟨oneTimeKey, hone⟩ := Option.ne_none_iff_exists'.mp houter.oneTimeKey
    obtain ⟨body, hbody⟩ := Option.ne_none_iff_exists'.mp houter.message
    rw [newInboundSession_checked prim s account theirIdentityKey m message messageLength houter]
    rw [outerReader] at hcheck hsame hbase hone hbody
    simp only [newInboundSessionFields, compareIdentityKeys_eq, hcheck, hsame, outerReader,
      embeddedReader, withMessageKeys, hbase, hone, hbody, Option.bind_some, Bool.not_true,
      Bool.false_eq_true, if_false, Option.getD_some]
    cases hk : (decodeOneTimeKeyMessage preKeyReader m message messageLength).identityKey with
    | none => rfl
    | some identityKey =>
        cases hr : (decodeMessage messageReader m body
            (decodeOneTimeKeyMessage preKeyReader m message messageLength).messageLength
            (olmSuite prim).ratchetCipher.macLength).ratchetKey with
        | none => rfl
        | some ratchetKey => rfl
  · rw [outerAccepted_iff, not_and_or, Bool.not_eq_true, Bool.not_eq_true, outerReader] at houter
    rw [newInboundSessionFields, newInboundSession]
    simp only [compareIdentityKeys_eq, Option.bind_some]
    rcases houter with hcheck | hsame
    · rw [hcheck, Bool.not_false, if_pos rfl, if_pos rfl]
    · rw [hsame, Bool.not_false, if_pos rfl, if_pos rfl]

/-- Only pointers that the decoder has set are followed, and a new session has the
    identity key of the message, or else the supplied one. -/
structure UsesSetFields : Prop where
  followed : newInboundSessionFields prim s account theirIdentityKey m message messageLength ≠ none
  identityKey : ∀ s' n,
    newInboundSessionFields prim s account theirIdentityKey m message messageLength
        = some (s', some n) →
      match (decodeOneTimeKeyMessage preKeyReader m message messageLength).identityKey with
      | some identityKey => s'.aliceIdentityKey = load 32 m identityKey
      | none => theirIdentityKey = some s'.aliceIdentityKey

/-- With an identity key in the message the call ends, and keeps that key if it succeeds. -/
theorem usesSetFields_of_identityKey {identityKey : Nat}
    (hk : (outerReader m message messageLength).identityKey = some identityKey) :
    UsesSetFields prim s account theirIdentityKey m message messageLength := by
  have hne : (outerReader m message messageLength).identityKey ≠ none :=
    hk ▸ Option.some_ne_none _
  by_cases houter : OuterAccepted (outerReader m message messageLength) m theirIdentityKey
  · by_cases hinner : EmbeddedAccepted (embeddedReader prim m message messageLength) ∧
        OneTimeKeyHeld account (outerReader m message messageLength) m
    · obtain ⟨ourOneTimeKey, hheld⟩ := Option.ne_none_iff_exists'.mp hinner.2
      have hresult := newInboundSession_accepted prim s account theirIdentityKey m message
        messageLength houter hne hinner.1 hheld
      rw [← newInboundSessionFields_eq] at hresult
      refine ⟨hresult ▸ Option.some_ne_none _, fun s' n hs' => ?_⟩
      rw [hresult, Option.some.injEq, Prod.mk.injEq] at hs'
      rw [outerReader] at hk
      rw [hk, ← hs'.1]
      show load 32 m ((outerReader m message messageLength).identityKey.getD 0) = _
      rw [outerReader, hk, Option.getD_some]
    · obtain ⟨e, -, hresult⟩ := newInboundSession_late prim s account theirIdentityKey m message
        messageLength houter hne hinner
      rw [← newInboundSessionFields_eq] at hresult
      refine ⟨hresult ▸ Option.some_ne_none _, fun s' n hs' => ?_⟩
      rw [hresult, Option.some.injEq, Prod.mk.injEq] at hs'
      cases hs'.2
  · obtain ⟨e, -, hresult⟩ := newInboundSession_outer prim s account theirIdentityKey m message
      messageLength houter
    rw [← newInboundSessionFields_eq] at hresult
    refine ⟨hresult ▸ Option.some_ne_none _, fun s' n hs' => ?_⟩
    rw [hresult, Option.some.injEq, Prod.mk.injEq] at hs'
    cases hs'.2

/-- A message that is accepted without an identity key stops the call. -/
theorem newInboundSessionFields_null
    (hcheck : checkMessageFields (outerReader m message messageLength) theirIdentityKey.isSome
      = true)
    (hk : (outerReader m message messageLength).identityKey = none) :
    newInboundSessionFields prim s account theirIdentityKey m message messageLength = none := by
  have hsame : sameIdentityKey (outerReader m message messageLength) theirIdentityKey m = true := by
    rw [sameIdentityKey_iff]
    intro identityKey theirKey h
    exact nomatch hk.symm.trans h
  rw [newInboundSessionFields_eq]
  exact newInboundSession_null prim s account theirIdentityKey m message messageLength
    ((outerAccepted_iff _ m theirIdentityKey).mpr ⟨hcheck, hsame⟩) hk

/-- **NULL FIELDS**: a message that `check_message_fields` accepts is used without
    following a null pointer if and only if it has an identity key. -/
theorem newInboundSession_usesSetFields_iff
    (hcheck : checkMessageFields (decodeOneTimeKeyMessage preKeyReader m message messageLength)
      theirIdentityKey.isSome = true) :
    UsesSetFields prim s account theirIdentityKey m message messageLength
      ↔ (decodeOneTimeKeyMessage preKeyReader m message messageLength).identityKey ≠ none := by
  constructor
  · intro h hk
    exact h.followed (newInboundSessionFields_null prim s account theirIdentityKey m message
      messageLength hcheck hk)
  · intro h
    obtain ⟨identityKey, hk⟩ := Option.ne_none_iff_exists'.mp h
    exact usesSetFields_of_identityKey prim s account theirIdentityKey m message messageLength hk

/-- The accepted message of an account with one one-time key. -/
theorem newInboundSession_usesSetFields_handmade :
    UsesSetFields demoPrimitives newSession oneKeyAccount none (handmadeMemory 3 []) 0
        (handmadeMessage 3 []).length
      ↔ (decodeOneTimeKeyMessage preKeyReader (handmadeMemory 3 []) 0
          (handmadeMessage 3 []).length).identityKey ≠ none := by
  have hcarries := outerReader_carries (by decide +kernel) (read_handmadeMemory 3 [])
  have houter : OuterAccepted _ (handmadeMemory 3 []) none :=
    hcarries.outerAccepted (by intro k h; cases h)
  exact newInboundSession_usesSetFields_iff demoPrimitives newSession oneKeyAccount none
    (handmadeMemory 3 []) 0 (handmadeMessage 3 []).length
    ((outerAccepted_iff _ _ _).mp houter).1

/-- A message with a one-time key, a base key and an empty body. -/
def anonymousMessage : Bytes :=
  3 :: (stringField oneTimeKeyIdTag curve25519Basepoint.toList
    ++ (stringField baseKeyTag (List.replicate 32 2) ++ stringField messageTag []))

/-- That message at address 0. -/
def anonymousMemory : Mem := fun a => anonymousMessage.getD a 0

/-- It is accepted with an identity key, and stops the call. -/
theorem newInboundSession_followsNull :
    checkMessageFields (decodeOneTimeKeyMessage preKeyReader anonymousMemory 0
        anonymousMessage.length) (some (Vector.replicate 32 (1 : UInt8))).isSome = true ∧
      ¬UsesSetFields demoPrimitives newSession oneKeyAccount (some (Vector.replicate 32 1))
        anonymousMemory 0 anonymousMessage.length := by
  have hcheck : checkMessageFields (decodeOneTimeKeyMessage preKeyReader anonymousMemory 0
      anonymousMessage.length) true = true := by
    decide +kernel
  have hk : (decodeOneTimeKeyMessage preKeyReader anonymousMemory 0
      anonymousMessage.length).identityKey = none := by
    decide +kernel
  refine ⟨hcheck, fun h => h.followed ?_⟩
  exact newInboundSessionFields_null demoPrimitives newSession oneKeyAccount _ anonymousMemory 0
    anonymousMessage.length hcheck hk

end OlmSession
