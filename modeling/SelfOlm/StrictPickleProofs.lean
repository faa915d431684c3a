import SelfOlm.StrictPickle

/-! # Accounts, sessions and key pairs are read strictly

    The calls of `olm.cpp` and `pk.cpp` give their readers the address behind the
    end.  A reader that runs out of bytes ends there, also where it read the one
    byte behind the pickle, and is told apart from one that ends at the end. -/

namespace OlmPickle

open ByteMemory OlmCrypto OlmBase64 OlmList OlmAccount OlmRatchet OlmSession

variable (prim : Primitives)

/-! ## Decoders -/

/-- The fields of an account; the one-time keys are appended to those of `old`. -/
def decodeAccountFields (old : Account) (bs : Bytes) : Option (Account × Bytes) := do
  let (identityKeys, bs) ← decodeField IdentityKeys bs
  let (oneTimeKeys, bs) ← decodeInto old.oneTimeKeys bs
  let (nextOneTimeKeyId, bs) ← decodeField UInt32 bs
  some ({ old with identityKeys, oneTimeKeys, nextOneTimeKeyId }, bs)

/-- An account of version 2. -/
def decodeAccount (old : Account) (bs : Bytes) : Option (Account × Bytes) := do
  let (version, bs) ← decodeField UInt32 bs
  if version = accountPickleVersion then decodeAccountFields old bs else none

/-- The fields of a ratchet, and the chain index where there is one. -/
def decodeRatchet (old : Ratchet SharedKey) (includesChainIndex : Bool) (bs : Bytes) :
    Option (Ratchet SharedKey × Bytes) := do
  let (rootKey, bs) ← decodeField SharedKey bs
  let (senderChain, bs) ← decodeInto old.senderChain bs
  let (receiverChains, bs) ← decodeInto old.receiverChains bs
  let (skippedMessageKeys, bs) ← decodeInto old.skippedMessageKeys bs
  let value := { old with rootKey, senderChain, receiverChains, skippedMessageKeys }
  if includesChainIndex then do
    let (_, bs) ← decodeField UInt32 bs
    some (value, bs)
  else some (value, bs)

/-- The fields of a session. -/
def decodeSessionFields (old : Session) (includesChainIndex : Bool) (bs : Bytes) :
    Option (Session × Bytes) := do
  let (receivedMessage, bs) ← decodeField Bool bs
  let (aliceIdentityKey, bs) ← decodeField Curve25519PublicKey bs
  let (aliceBaseKey, bs) ← decodeField Curve25519PublicKey bs
  let (bobOneTimeKey, bs) ← decodeField Curve25519PublicKey bs
  let (ratchet, bs) ← decodeRatchet old.ratchet includesChainIndex bs
  some ({ old with receivedMessage, aliceIdentityKey, aliceBaseKey, bobOneTimeKey, ratchet }, bs)

/-- A session of version 1, or of version `0x80000001` with a chain index. -/
def decodeSession (old : Session) (bs : Bytes) : Option (Session × Bytes) := do
  let (version, bs) ← decodeField UInt32 bs
  if version = 1 then decodeSessionFields old false bs
  else if version = 0x80000001 then decodeSessionFields old true bs
  else none

/-- A key pair for decryption of version 1. -/
def decodePkDecryption (old : PkDecryption) (bs : Bytes) : Option (PkDecryption × Bytes) := do
  let (version, bs) ← decodeField UInt32 bs
  if version = 1 then do
    let (keyPair, bs) ← decodeField Curve25519KeyPair bs
    some ({ old with keyPair }, bs)
  else none

/-! ## The readers of the objects -/

theorem strict_account (old : Account) :
    Strict (fun m pos fin => accountUnpickle m pos fin old) (decodeAccount old) := by
  have hfields := (strict_field old.identityKeys).bind fun identityKeys =>
    (strict_list old.oneTimeKeys).bind fun oneTimeKeys =>
    (strict_field old.nextOneTimeKeyId).bind fun nextOneTimeKeyId =>
    Strict.pure { old with identityKeys, oneTimeKeys, nextOneTimeKeyId }
  have hrefused : ∀ version : UInt32, Strict
      (fun _ _ fin =>
        if version = 1 then ({ old with lastError := .badLegacyAccountPickle }, fin)
        else ({ old with lastError := .unknownPickleVersion }, fin))
      (fun _ => none) := by
    intro version
    by_cases h1 : version = 1
    · simp only [if_pos h1]
      exact Strict.fail _
    · simp only [if_neg h1]
      exact Strict.fail _
  have hnext := fun version : UInt32 =>
    Strict.ite (version = accountPickleVersion) hfields (hrefused version)
  exact (strict_field (0 : UInt32)).bind hnext

theorem strict_ratchet (old : Ratchet SharedKey) (includesChainIndex : Bool) :
    Strict (fun m pos fin => ratchetUnpickle m pos fin old includesChainIndex)
      (decodeRatchet old includesChainIndex) := by
  have hlast : ∀ value : Ratchet SharedKey, Strict
      (fun m pos fin =>
        (value, if includesChainIndex then (unpickle m pos fin (0 : UInt32)).2 else pos))
      (fun bs => if includesChainIndex then do
          let (_, bs) ← decodeField UInt32 bs
          some (value, bs)
        else some (value, bs)) := by
    intro value
    cases includesChainIndex with
    | true => exact (strict_field (0 : UInt32)).bind (fun _ => Strict.pure value)
    | false => exact Strict.pure value
  have hfields := (strict_field old.rootKey).bind fun rootKey =>
    (strict_list old.senderChain).bind fun senderChain =>
    (strict_list old.receiverChains).bind fun receiverChains =>
    (strict_list old.skippedMessageKeys).bind fun skippedMessageKeys =>
    hlast { old with rootKey, senderChain, receiverChains, skippedMessageKeys }
  exact hfields

theorem strict_sessionFields (old : Session) (includesChainIndex : Bool) :
    Strict (fun m pos fin => sessionUnpickleFields m pos fin old includesChainIndex)
      (decodeSessionFields old includesChainIndex) := by
  have hfields := (strict_field old.receivedMessage).bind fun receivedMessage =>
    (strict_field old.aliceIdentityKey).bind fun aliceIdentityKey =>
    (strict_field old.aliceBaseKey).bind fun aliceBaseKey =>
    (strict_field old.bobOneTimeKey).bind fun bobOneTimeKey =>
    (strict_ratchet old.ratchet includesChainIndex).bind fun ratchet =>
    Strict.pure
      { old with receivedMessage, aliceIdentityKey, aliceBaseKey, bobOneTimeKey, ratchet }
  exact hfields

theorem strict_session (old : Session) :
    Strict (fun m pos fin => sessionUnpickle m pos fin old) (decodeSession old) := by
  have hnext := fun version : UInt32 =>
    Strict.ite (version = 1) (strict_sessionFields old false)
      (Strict.ite (version = 0x80000001) (strict_sessionFields old true)
        (Strict.fail { old with lastError := OlmErrorCode.unknownPickleVersion }))
  exact (strict_field (0 : UInt32)).bind hnext

theorem strict_pkDecryption (old : PkDecryption) :
    Strict (fun m pos fin => pkDecryptionUnpickle m pos fin old) (decodePkDecryption old) := by
  have hfields := (strict_field old.keyPair).bind fun keyPair => Strict.pure { old with keyPair }
  have hnext := fun version : UInt32 => Strict.ite (version = 1) hfields
    (Strict.fail { old with lastError := OlmErrorCode.unknownPickleVersion })
  exact (strict_field (0 : UInt32)).bind hnext

/-! ## The calls -/

/-- A load succeeds exactly from a complete encoding, and then the object is the one
    that was encoded. -/
def Loads {X : Type} (decode : Bytes → Option (X × Bytes)) (raw : Bytes) (pickledLength : Nat)
    (call : Mem × X × Option Nat) : Prop :=
  (call.2.2.isSome ↔ ∃ object, decode raw = some (object, [])) ∧
    ∀ object, decode raw = some (object, []) → call.2.1 = object ∧ call.2.2 = some pickledLength

theorem loads_failed {X : Type} {decode : Bytes → Option (X × Bytes)} {raw : Bytes}
    (h : ∀ object, decode raw ≠ some (object, [])) (m : Mem) (object : X) (n : Nat) :
    Loads decode raw n (m, object, none) := by
  refine ⟨⟨?_, ?_⟩, fun object' hobject => absurd hobject (h object')⟩
  · intro hsome
    cases hsome
  · rintro ⟨object', hobject⟩
    exact absurd hobject (h object')

theorem loads_succeeded {X : Type} {decode : Bytes → Option (X × Bytes)} {raw : Bytes} {object : X}
    (h : decode raw = some (object, [])) (m : Mem) (n : Nat) :
    Loads decode raw n (m, object, some n) := by
  refine ⟨⟨fun _ => ⟨object, h⟩, fun _ => rfl⟩, ?_⟩
  intro object' hobject
  rw [h, Option.some.injEq, Prod.mk.injEq] at hobject
  exact ⟨hobject.1, rfl⟩

/-- **STRICT READERS MAKE STRICT CALLS**: the address behind the end tells a reader that
    ran out of bytes from one that took them all. -/
theorem olmUnpickle_loads {X : Type} {unpickle : Mem → Nat → Nat → X → X × Nat}
    {lastError : X → OlmErrorCode} {withError : OlmErrorCode → X → X} {object : X}
    {decode : Bytes → Option (X × Bytes)}
    (hstrict : Strict (fun m pos fin => unpickle m pos fin object) decode) {m m' : Mem}
    {key keyLength pickled pickledLength rawLength : Nat}
    (hinput : encInput prim m key keyLength pickled pickledLength = (m', .ok rawLength)) :
    Loads decode (read m' pickled rawLength) pickledLength
      (olmUnpickle prim unpickle lastError withError object m key keyLength pickled
        pickledLength) := by
  have hraw : Remaining m' pickled (pickled + rawLength) (pickled + rawLength + 1)
      (read m' pickled rawLength) := by
    have hlen := length_read m' pickled rawLength
    refine ⟨?_, ?_, Nat.le_succ _, Nat.le_refl _⟩
    · rw [hlen]
    · rw [hlen]
  rw [olmUnpickle, hinput]
  simp only
  generalize read m' pickled rawLength = raw at hraw ⊢
  generalize pickled + rawLength = stop at hraw
  cases hdecode : decode raw with
  | none =>
      have hend := hstrict.refuses hraw hdecode
      rw [if_pos (by rw [hend]; exact (Nat.succ_ne_self stop).symm)]
      refine loads_failed ?_ m' _ pickledLength
      intro object' hobject
      rw [hdecode] at hobject
      cases hobject
  | some result =>
      obtain ⟨object', rest⟩ := result
      obtain ⟨pos', hread, hrest⟩ := hstrict.accepts hraw hdecode
      have hstop := hrest.stops
      rw [hread]
      simp only
      by_cases hnil : rest = []
      · subst hnil
        rw [List.length_nil, Nat.add_zero] at hstop
        rw [if_neg (not_not_intro hstop.symm)]
        exact loads_succeeded hdecode m' pickledLength
      · have hlt : stop ≠ pos' := by
          have hpos := List.length_pos_iff.mpr hnil
          omega
        rw [if_pos hlt]
        refine loads_failed ?_ m' _ pickledLength
        intro object'' hobject
        rw [hdecode, Option.some.injEq, Prod.mk.injEq] at hobject
        exact hnil hobject.2

/-! ## The two versions of a session -/

/-- A decoder that takes its bytes from the front: what is behind them changes
    nothing. -/
structure Consumes {X : Type} (decoder : Bytes → Option (X × Bytes)) : Prop where
  suffix : ∀ {bs rest : Bytes} {value : X}, decoder bs = some (value, rest) →
    ∃ taken, bs = taken ++ rest
  append_iff : ∀ {bs rest behind : Bytes} {value : X},
    decoder (bs ++ behind) = some (value, rest ++ behind) ↔ decoder bs = some (value, rest)

theorem Consumes.pure {X : Type} (value : X) : Consumes (fun bs => some (value, bs)) where
  suffix := by
    intro bs rest value' h
    rw [Option.some.injEq, Prod.mk.injEq] at h
    exact ⟨[], h.2⟩
  append_iff := by
    intro bs rest behind value'
    rw [Option.some.injEq, Option.some.injEq, Prod.mk.injEq, Prod.mk.injEq,
      List.append_left_inj]

theorem Consumes.bind {X Y : Type} {decoder : Bytes → Option (X × Bytes)}
    {nextDecoder : X → Bytes → Option (Y × Bytes)} (h : Consumes decoder)
    (hnext : ∀ x, Consumes (nextDecoder x)) :
    Consumes (fun bs => (decoder bs).bind (fun x => nextDecoder x.1 x.2)) where
  suffix := by
    intro bs rest value hdecode
    obtain ⟨x, hx, hrest⟩ := Option.bind_eq_some_iff.mp hdecode
    obtain ⟨taken, htaken⟩ := h.suffix (show decoder bs = some (x.1, x.2) from hx)
    obtain ⟨taken', htaken'⟩ := (hnext x.1).suffix hrest
    refine ⟨taken ++ taken', ?_⟩
    rw [htaken, htaken', List.append_assoc]
  append_iff := by
    intro bs rest behind value
    constructor
    · intro hdecode
      obtain ⟨x, hx, hrest⟩ := Option.bind_eq_some_iff.mp hdecode
      obtain ⟨taken, htaken⟩ := (hnext x.1).suffix hrest
      rw [← List.append_assoc] at htaken
      have hx' : decoder (bs ++ behind) = some (x.1, (taken ++ rest) ++ behind) := by
        rw [← htaken]
        exact hx
      rw [htaken] at hrest
      refine Option.bind_eq_some_iff.mpr ⟨(x.1, taken ++ rest), h.append_iff.mp hx', ?_⟩
      exact (hnext x.1).append_iff.mp hrest
    · intro hdecode
      obtain ⟨x, hx, hrest⟩ := Option.bind_eq_some_iff.mp hdecode
      refine Option.bind_eq_some_iff.mpr ⟨(x.1, x.2 ++ behind), h.append_iff.mpr hx, ?_⟩
      exact (hnext x.1).append_iff.mpr hrest

section Consuming

variable {T : Type} [Pickle T] [FixedPickle T]

theorem consumes_field : Consumes (decodeField T) where
  suffix := by
    intro bs rest value h
    rw [decodeField] at h
    by_cases hlt : bs.length < size T
    · rw [if_pos hlt] at h
      cases h
    · rw [if_neg hlt, Option.some.injEq, Prod.mk.injEq] at h
      refine ⟨bs.take (size T), ?_⟩
      rw [← h.2, List.take_append_drop]
  append_iff := by
    intro bs rest behind value
    have hadd : ∀ {v : T}, decodeField T bs = some (v, rest) →
        decodeField T (bs ++ behind) = some (v, rest ++ behind) := by
      intro v h
      have hlen := length_of_decodeField h
      rw [decodeField, if_neg (by omega), Option.some.injEq, Prod.mk.injEq] at h
      rw [decodeField, if_neg (by rw [List.length_append]; omega),
        List.take_append_of_le_length (by omega), List.drop_append_of_le_length (by omega), h.1, h.2]
    constructor
    · intro h
      have hlen := length_of_decodeField h
      rw [List.length_append, List.length_append] at hlen
      have hfits : ¬bs.length < size T := by omega
      have hdecode : decodeField T bs = some (decode (bs.take (size T)), bs.drop (size T)) := by
        rw [decodeField, if_neg hfits]
      rw [decodeField, if_neg (by rw [List.length_append]; omega),
        List.take_append_of_le_length (by omega), List.drop_append_of_le_length (by omega),
        Option.some.injEq, Prod.mk.injEq, List.append_left_inj] at h
      rw [hdecode, h.1, h.2]
    · intro h
      exact hadd h

theorem consumes_items : ∀ count : Nat, Consumes (decodeItems T count) := by
  intro count
  induction count with
  | zero => exact Consumes.pure []
  | succ count ih =>
      have hbind := (consumes_field (T := T)).bind fun item =>
        ih.bind fun items => Consumes.pure (item :: items)
      have heq : decodeItems T (count + 1) = fun bs => (decodeField T bs).bind fun item =>
          (decodeItems T count item.2).bind fun items => some (item.1 :: items.1, items.2) := by
        funext bs
        rw [decodeItems]
        cases decodeField T bs with
        | none => rfl
        | some field =>
            simp only [Option.bind_some]
            cases decodeItems T count field.2 with
            | none => rfl
            | some items => rfl
      rw [heq]
      exact hbind

theorem consumes_list {maxSize : Nat} (list : BoundedList T maxSize) :
    Consumes (decodeInto list) := by
  have hbind := (consumes_field (T := UInt32)).bind fun count =>
    (consumes_items (T := T) count.toNat).bind fun items =>
    Consumes.pure (items.foldl BoundedList.insertEnd list)
  have heq : decodeInto list = fun bs => (decodeField UInt32 bs).bind fun count =>
      (decodeItems T count.1.toNat count.2).bind fun items =>
        some (items.1.foldl BoundedList.insertEnd list, items.2) := by
    funext bs
    rw [decodeInto, decodeList]
    cases decodeField UInt32 bs with
    | none => rfl
    | some count =>
        simp only [Option.bind_some]
        cases decodeItems T count.1.toNat count.2 with
        | none => rfl
        | some items => rfl
  rw [heq]
  exact hbind

end Consuming

theorem consumes_ratchet (old : Ratchet SharedKey) : Consumes (decodeRatchet old false) := by
  have hfields := (consumes_field (T := SharedKey)).bind fun rootKey =>
    (consumes_list old.senderChain).bind fun senderChain =>
    (consumes_list old.receiverChains).bind fun receiverChains =>
    (consumes_list old.skippedMessageKeys).bind fun skippedMessageKeys =>
    Consumes.pure { old with rootKey, senderChain, receiverChains, skippedMessageKeys }
  exact hfields

theorem consumes_sessionFields (old : Session) : Consumes (decodeSessionFields old false) := by
  have hfields := (consumes_field (T := Bool)).bind fun receivedMessage =>
    (consumes_field (T := Curve25519PublicKey)).bind fun aliceIdentityKey =>
    (consumes_field (T := Curve25519PublicKey)).bind fun aliceBaseKey =>
    (consumes_field (T := Curve25519PublicKey)).bind fun bobOneTimeKey =>
    (consumes_ratchet old.ratchet).bind fun ratchet =>
    Consumes.pure
      { old with receivedMessage, aliceIdentityKey, aliceBaseKey, bobOneTimeKey, ratchet }
  exact hfields

/-- A chain index is one more field, whose value is dropped. -/
theorem decodeRatchet_index (old : Ratchet SharedKey) (bs : Bytes) :
    decodeRatchet old true bs = (decodeRatchet old false bs).bind fun ratchet =>
      (decodeField UInt32 ratchet.2).map fun index => (ratchet.1, index.2) := by
  unfold decodeRatchet
  cases decodeField SharedKey bs with
  | none => rfl
  | some rootKey =>
      simp only [Option.bind_eq_bind, Option.bind_some]
      cases decodeInto old.senderChain rootKey.2 with
      | none => rfl
      | some senderChain =>
          simp only [Option.bind_some]
          cases decodeInto old.receiverChains senderChain.2 with
          | none => rfl
          | some receiverChains =>
              simp only [Option.bind_some]
              cases decodeInto old.skippedMessageKeys receiverChains.2 with
              | none => rfl
              | some skippedMessageKeys =>
                  simp only [Option.bind_some, if_true, Bool.false_eq_true, if_false]
                  cases decodeField UInt32 skippedMessageKeys.2 with
                  | none => rfl
                  | some index => rfl

theorem decodeSessionFields_index (old : Session) (bs : Bytes) :
    decodeSessionFields old true bs = (decodeSessionFields old false bs).bind fun session =>
      (decodeField UInt32 session.2).map fun index => (session.1, index.2) := by
  unfold decodeSessionFields
  cases decodeField Bool bs with
  | none => rfl
  | some receivedMessage =>
      simp only [Option.bind_eq_bind, Option.bind_some]
      cases decodeField Curve25519PublicKey receivedMessage.2 with
      | none => rfl
      | some aliceIdentityKey =>
          simp only [Option.bind_some]
          cases decodeField Curve25519PublicKey aliceIdentityKey.2 with
          | none => rfl
          | some aliceBaseKey =>
              simp only [Option.bind_some]
              cases decodeField Curve25519PublicKey aliceBaseKey.2 with
              | none => rfl
              | some bobOneTimeKey =>
                  simp only [Option.bind_some]
                  rw [decodeRatchet_index]
                  cases decodeRatchet old.ratchet false bobOneTimeKey.2 with
                  | none => rfl
                  | some ratchet =>
                      simp only [Option.bind_some]
                      cases decodeField UInt32 ratchet.2 with
                      | none => rfl
                      | some index => rfl

theorem decodeField_version (version : UInt32) (bs : Bytes) :
    decodeField UInt32 (pickle version ++ bs) = some (version, bs) := by
  have hdecode : decode (pickle version) = version := unpickleLoop_pickleLoop version
  have hlen : (pickle version).length = size UInt32 := rfl
  rw [decodeField, if_neg (by rw [List.length_append]; omega), ← hlen, List.take_left,
    List.drop_left, hdecode]

/-- **THE CHAIN INDEX IS DROPPED**: with it, whatever it is, a session loads as it does
    without. -/
theorem decodeSession_index (old : Session) (body index : Bytes) (hindex : index.length = 4)
    (session : Session) :
    decodeSession old (pickle (0x80000001 : UInt32) ++ (body ++ index)) = some (session, [])
      ↔ decodeSession old (pickle (1 : UInt32) ++ body) = some (session, []) := by
  have hplain : decodeSession old (pickle (1 : UInt32) ++ body)
      = decodeSessionFields old false body := by
    rw [decodeSession, decodeField_version]
    rfl
  have hlong : decodeSession old (pickle (0x80000001 : UInt32) ++ (body ++ index))
      = decodeSessionFields old true (body ++ index) := by
    rw [decodeSession, decodeField_version]
    rfl
  have happend : decodeSessionFields old false (body ++ index) = some (session, [] ++ index)
      ↔ decodeSessionFields old false body = some (session, []) :=
    (consumes_sessionFields old).append_iff
  rw [hplain, hlong, decodeSessionFields_index, ← happend]
  constructor
  · intro h
    obtain ⟨fields, hfields, hrest⟩ := Option.bind_eq_some_iff.mp h
    obtain ⟨field, hfield, hvalue⟩ := Option.map_eq_some_iff.mp hrest
    obtain ⟨rfl, hnil⟩ := Prod.mk.inj hvalue
    obtain ⟨taken, htaken⟩ := (consumes_sessionFields old).suffix
      (show decodeSessionFields old false (body ++ index) = some (fields.1, fields.2) from hfields)
    have hlen : fields.2.length = 4 + field.2.length :=
      length_of_decodeField (show decodeField UInt32 fields.2 = some (field.1, field.2) from hfield)
    rw [hnil, List.length_nil] at hlen
    have hsame := (List.append_inj' htaken (hindex.trans hlen.symm)).2
    have hpair : fields = (fields.1, index) := by rw [hsame]
    exact hfields.trans (congrArg some hpair)
  · intro h
    obtain ⟨value, hfield⟩ : ∃ value, decodeField UInt32 index = some (value, []) := by
      have hsize : index.length = size UInt32 := hindex
      refine ⟨decode index, ?_⟩
      rw [decodeField, if_neg (by omega), ← hsize, List.take_length, List.drop_length]
    rw [h, Option.bind_some, List.nil_append, hfield]
    rfl

/-! ## The three objects -/

theorem olmUnpicklePkDecryption_loads {pubkey : Option Nat} {pubkeyLength : Nat} {m m' : Mem}
    {key keyLength pickled pickledLength rawLength : Nat}
    (hpubkey : pubkey ≠ none → olmPkKeyLength ≤ pubkeyLength)
    (hinput : encInput prim m key keyLength pickled pickledLength = (m', .ok rawLength)) :
    Loads (decodePkDecryption newPkDecryption) (read m' pickled rawLength) pickledLength
      (olmUnpicklePkDecryption prim pubkey pubkeyLength newPkDecryption m key keyLength pickled
        pickledLength) := by
  have hfits : ¬(pubkey.isSome ∧ pubkeyLength < olmPkKeyLength) := by
    rintro ⟨hsome, hlt⟩
    have hle := hpubkey (Option.ne_none_iff_isSome.mpr hsome)
    omega
  have hloads : Loads (decodePkDecryption newPkDecryption) (read m' pickled rawLength) pickledLength
      (olmUnpickle prim pkDecryptionUnpickle PkDecryption.lastError
        (fun e d => { d with lastError := e }) newPkDecryption m key keyLength pickled
        pickledLength) :=
    olmUnpickle_loads prim (strict_pkDecryption newPkDecryption) hinput
  rw [olmUnpicklePkDecryption, if_neg hfits]
  generalize olmUnpickle prim pkDecryptionUnpickle PkDecryption.lastError
    (fun e d => { d with lastError := e }) newPkDecryption m key keyLength pickled pickledLength
    = call at hloads ⊢
  obtain ⟨m'', decryption, _ | result⟩ := call
  · exact hloads
  · exact hloads

/-- **PICKLES OF ACCOUNTS, SESSIONS AND KEY PAIRS ARE READ STRICTLY**: a fresh object is
    loaded exactly from a complete encoding of an accepted version, and the chain
    index of version `0x80000001` changes nothing. -/
theorem unpickles_strict {m m' : Mem} {key keyLength pickled pickledLength rawLength : Nat}
    (hinput : encInput prim m key keyLength pickled pickledLength = (m', .ok rawLength)) :
    Loads (decodeAccount newAccountObject) (read m' pickled rawLength) pickledLength
      (olmUnpickleAccount prim newAccountObject m key keyLength pickled pickledLength) ∧
    Loads (decodeSession newSession) (read m' pickled rawLength) pickledLength
      (olmUnpickleSession prim newSession m key keyLength pickled pickledLength) ∧
    (∀ (pubkey : Option Nat) (pubkeyLength : Nat),
      (pubkey ≠ none → olmPkKeyLength ≤ pubkeyLength) →
      Loads (decodePkDecryption newPkDecryption) (read m' pickled rawLength) pickledLength
        (olmUnpicklePkDecryption prim pubkey pubkeyLength newPkDecryption m key keyLength pickled
          pickledLength)) ∧
    ∀ (body index : Bytes) (session : Session), index.length = 4 →
      (decodeSession newSession (pickle (0x80000001 : UInt32) ++ (body ++ index))
          = some (session, [])
        ↔ decodeSession newSession (pickle (1 : UInt32) ++ body) = some (session, [])) :=
  ⟨olmUnpickle_loads prim (strict_account newAccountObject) hinput,
    olmUnpickle_loads prim (strict_session newSession) hinput,
    fun _ _ hpubkey => olmUnpicklePkDecryption_loads prim hpubkey hinput,
    fun body index session hindex => decodeSession_index newSession body index hindex session⟩

/-- The pickle of a new session, read as each of the objects. -/
theorem unpickles_strict_newSession :
    ∃ m', read m' 100 (sessionPickle newSession).length = sessionPickle newSession ∧
      Loads (decodeAccount newAccountObject)
        (read m' 100 (sessionPickle newSession).length)
        (encOutputLength demoPrimitives (sessionPickle newSession).length)
        (olmUnpickleAccount demoPrimitives newAccountObject (pickledMemory (sessionPickle newSession))
          0 0 100 (encOutputLength demoPrimitives (sessionPickle newSession).length)) ∧
      Loads (decodeSession newSession)
        (read m' 100 (sessionPickle newSession).length)
        (encOutputLength demoPrimitives (sessionPickle newSession).length)
        (olmUnpickleSession demoPrimitives newSession (pickledMemory (sessionPickle newSession))
          0 0 100 (encOutputLength demoPrimitives (sessionPickle newSession).length)) ∧
      Loads (decodePkDecryption newPkDecryption)
        (read m' 100 (sessionPickle newSession).length)
        (encOutputLength demoPrimitives (sessionPickle newSession).length)
        (olmUnpicklePkDecryption demoPrimitives none 0 newPkDecryption
          (pickledMemory (sessionPickle newSession)) 0 0 100
          (encOutputLength demoPrimitives (sessionPickle newSession).length)) ∧
      decodeSession newSession (sessionPickle newSession) = some (newSession, []) ∧
      decodeSession newSession (pickle (0x80000001 : UInt32)
        ++ ((sessionPickle newSession).drop 4 ++ [1, 2, 3, 4])) = some (newSession, []) := by
  obtain ⟨m', hinput, hread⟩ := encInput_pickledMemory (sessionPickle newSession)
  obtain ⟨haccount, hsession, hkeys, hindex⟩ := unpickles_strict demoPrimitives hinput
  have hnew : decodeSession newSession (sessionPickle newSession) = some (newSession, []) := by
    decide +kernel
  exact ⟨m', hread, haccount, hsession, hkeys none 0 (fun h => absurd rfl h), hnew,
    (hindex ((sessionPickle newSession).drop 4) [1, 2, 3, 4] newSession rfl).mpr hnew⟩

end OlmPickle
