import SelfOlm.StrictPickleProofs
import SelfOlm.PartialReads
import SelfOlm.KeyFreshnessProofs
import SelfOlm.InboundSessionProofs

/-! # Loading into an object that was used

    A load that succeeds appends the items of the pickle to the lists of the
    object, and a load that fails has written all the fields it reached.  Both
    show unless the object was such that nothing of it could show. -/

namespace OlmPickle

open ByteMemory OlmCrypto OlmBase64 OlmList OlmAccount OlmRatchet OlmSession

variable (prim : Primitives)

/-! ## What a load should do -/

/-- All fields but the last error. -/
def accountFields (account : Account) : Account := { account with lastError := .success }

/-- All fields but the last error. -/
def ratchetFields (ratchet : Ratchet SharedKey) : Ratchet SharedKey :=
  { ratchet with lastError := .success }

/-- All fields but the last errors. -/
def sessionFields (session : Session) : Session :=
  { session with lastError := .success, ratchet := ratchetFields session.ratchet }

/-- A load that gives what a fresh object gets, or leaves the object as it was. -/
def LoadsCleanly {X : Type} (fields : X → X) (fresh : X) (load : X → Mem × X × Option Nat)
    (object : X) : Prop :=
  match (load object).2.2 with
  | some _ => fields (load object).2.1 = fields (load fresh).2.1
  | none => fields (load object).2.1 = fields object

/-! ## When it does -/

section Conditions

variable {T : Type} [Pickle T] [FixedPickle T] [PartialPickle T] {maxSize : Nat}

/-- The bytes leave the field as it is. -/
def Keeps (bs : Bytes) (value : T) : Prop := Leaves bs value value

/-- The list had no items, or those of the pickle fill it and take its places again. -/
def ListReplaced (bs : Bytes) (list : BoundedList T maxSize) : Prop :=
  list.toList = [] ∨ ∃ items rest, decodeList T bs = some (items, rest) ∧
    maxSize ≤ items.length ∧
    (list.toList ++ items).take (maxSize - 1) = items.take (maxSize - 1)

end Conditions

/-- The version word at the front. -/
def pickledVersion (bs : Bytes) : UInt32 :=
  if bs.length < 4 then 0 else unpickleLoop (bs.take 4)

/-- The bytes behind the version leave an account as it is. -/
structure AccountKept (account : Account) (bs : Bytes) : Prop where
  identityKeys : Keeps bs account.identityKeys
  oneTimeKeys : ListKept (bs.drop (size IdentityKeys)) account.oneTimeKeys
  nextOneTimeKeyId :
    Keeps (behindList OneTimeKey (bs.drop (size IdentityKeys))) account.nextOneTimeKeyId

/-- The bytes from the sender chain on. -/
def senderChainBytes (bs : Bytes) : Bytes := bs.drop (size SharedKey)

/-- The bytes from the receiver chains on. -/
def receiverChainBytes (bs : Bytes) : Bytes :=
  behindList (SenderChain SharedKey) (senderChainBytes bs)

/-- The bytes from the skipped message keys on. -/
def skippedKeyBytes (bs : Bytes) : Bytes :=
  behindList (ReceiverChain SharedKey) (receiverChainBytes bs)

/-- The bytes leave a ratchet as it is. -/
structure RatchetKept (ratchet : Ratchet SharedKey) (bs : Bytes) : Prop where
  rootKey : Keeps bs ratchet.rootKey
  senderChain : ListKept (senderChainBytes bs) ratchet.senderChain
  receiverChains : ListKept (receiverChainBytes bs) ratchet.receiverChains
  skippedMessageKeys : ListKept (skippedKeyBytes bs) ratchet.skippedMessageKeys

/-- The lists of a ratchet show nothing of what they held. -/
structure RatchetReplaced (ratchet : Ratchet SharedKey) (bs : Bytes) : Prop where
  senderChain : ListReplaced (senderChainBytes bs) ratchet.senderChain
  receiverChains : ListReplaced (receiverChainBytes bs) ratchet.receiverChains
  skippedMessageKeys : ListReplaced (skippedKeyBytes bs) ratchet.skippedMessageKeys

/-- The bytes of the ratchet behind the flag and the three public keys. -/
def ratchetBytes (bs : Bytes) : Bytes :=
  (((bs.drop 1).drop curve25519KeyLength).drop curve25519KeyLength).drop curve25519KeyLength

/-- The bytes behind the version leave a session as it is. -/
structure SessionKept (session : Session) (bs : Bytes) : Prop where
  receivedMessage : Keeps bs session.receivedMessage
  aliceIdentityKey : Keeps (bs.drop 1) session.aliceIdentityKey
  aliceBaseKey : Keeps ((bs.drop 1).drop curve25519KeyLength) session.aliceBaseKey
  bobOneTimeKey : Keeps (((bs.drop 1).drop curve25519KeyLength).drop curve25519KeyLength)
    session.bobOneTimeKey
  ratchet : RatchetKept session.ratchet (ratchetBytes bs)

/-- The raw pickle is one that is accepted. -/
def Complete {X : Type} (decode : Bytes → Option (X × Bytes)) (raw : Bytes) : Prop :=
  ∃ object, decode raw = some (object, [])

/-- The account and the pickle are such that a load is clean; `reached` has the byte behind
    the pickle too. -/
structure AccountLoadsCleanly (account : Account) (raw reached : Bytes) : Prop where
  replaced : Complete (decodeAccount newAccountObject) raw →
    ListReplaced ((raw.drop 4).drop (size IdentityKeys)) account.oneTimeKeys
  kept : ¬Complete (decodeAccount newAccountObject) raw →
    pickledVersion reached = accountPickleVersion → AccountKept account (reached.drop 4)

/-- The session and the pickle are such that a load is clean. -/
structure SessionLoadsCleanly (session : Session) (raw reached : Bytes) : Prop where
  replaced : Complete (decodeSession newSession) raw →
    RatchetReplaced session.ratchet (ratchetBytes (raw.drop 4))
  kept : ¬Complete (decodeSession newSession) raw →
    pickledVersion reached = 1 ∨ pickledVersion reached = 0x80000001 →
    SessionKept session (reached.drop 4)

/-! ## Successful loads -/

section Decoding

variable {T : Type} [Pickle T] [FixedPickle T] {maxSize : Nat} {bs rest : Bytes}

theorem rest_of_decodeField {value : T} (h : decodeField T bs = some (value, rest)) :
    rest = bs.drop (size T) := by
  have hlen := length_of_decodeField h
  rw [decodeField, if_neg (by omega), Option.some.injEq, Prod.mk.injEq] at h
  exact h.2.symm

theorem rest_of_decodeItems :
    ∀ (count : Nat) {bs rest : Bytes} {items : List T},
      decodeItems T count bs = some (items, rest) → rest = bs.drop (count * size T) := by
  intro count
  induction count with
  | zero =>
      intro bs rest items h
      rw [decodeItems, Option.some.injEq, Prod.mk.injEq] at h
      rw [Nat.zero_mul, List.drop_zero]
      exact h.2.symm
  | succ count ih =>
      intro bs rest items h
      rw [decodeItems] at h
      cases hfield : decodeField T bs with
      | none =>
          rw [hfield] at h
          cases h
      | some field =>
          rw [hfield] at h
          simp only at h
          cases hitems : decodeItems T count field.2 with
          | none =>
              rw [hitems] at h
              cases h
          | some others =>
              rw [hitems, Option.some.injEq, Prod.mk.injEq] at h
              rw [← h.2, ih hitems, rest_of_decodeField hfield, List.drop_drop, Nat.succ_mul,
                Nat.add_comm]

theorem rest_of_decodeList {items : List T} (h : decodeList T bs = some (items, rest)) :
    rest = behindList T bs := by
  rw [decodeList] at h
  cases hfield : decodeField UInt32 bs with
  | none =>
      rw [hfield] at h
      cases h
  | some field =>
      rw [hfield] at h
      have hcount : field.1 = unpickleLoop (bs.take 4) := by
        have hlen := length_of_decodeField hfield
        rw [decodeField, if_neg (by omega), Option.some.injEq, Prod.mk.injEq] at hfield
        exact hfield.1.symm
      rw [rest_of_decodeItems _ h, rest_of_decodeField hfield, hcount]
      rfl

/-- Whatever the list held, the same bytes are read into it. -/
theorem decodeInto_some {list list' : BoundedList T maxSize}
    (h : decodeInto list bs = some (list', rest)) :
    rest = behindList T bs ∧ ∃ items, decodeList T bs = some (items, rest) ∧
      ∀ other : BoundedList T maxSize,
        decodeInto other bs = some (items.foldl BoundedList.insertEnd other, rest) := by
  obtain ⟨items, hitems, heq⟩ := Option.map_eq_some_iff.mp h
  obtain ⟨-, rfl⟩ := Prod.mk.inj heq
  refine ⟨rest_of_decodeList hitems, items.1, hitems, ?_⟩
  intro other
  rw [decodeInto, hitems]
  rfl

theorem listReplaced_iff [PartialPickle T] (hmax : 0 < maxSize) (list : BoundedList T maxSize)
    {items : List T} (h : decodeList T bs = some (items, rest)) :
    items.foldl BoundedList.insertEnd list = items.foldl BoundedList.insertEnd .empty
      ↔ ListReplaced bs list := by
  rw [BoundedList.foldl_insertEnd_eq_empty hmax, ListReplaced]
  constructor
  · rintro (hnone | ⟨hlong, hfirst⟩)
    · exact Or.inl hnone
    · exact Or.inr ⟨items, rest, h, hlong, hfirst⟩
  · rintro (hnone | ⟨items', rest', h', hlong, hfirst⟩)
    · exact Or.inl hnone
    · rw [h, Option.some.injEq, Prod.mk.injEq] at h'
      obtain ⟨rfl, -⟩ := h'
      exact Or.inr ⟨hlong, hfirst⟩

end Decoding

/-- What a complete account gives any object. -/
theorem decodeAccount_some {old object : Account} {raw rest : Bytes}
    (h : decodeAccount old raw = some (object, rest)) :
    ∃ identityKeys items behind nextOneTimeKeyId,
      decodeList OneTimeKey ((raw.drop 4).drop (size IdentityKeys)) = some (items, behind) ∧
      ∀ account, decodeAccount account raw = some ({ account with
        identityKeys, nextOneTimeKeyId
        oneTimeKeys := items.foldl BoundedList.insertEnd account.oneTimeKeys }, rest) := by
  obtain ⟨⟨version, bs⟩, hversion, h⟩ := Option.bind_eq_some_iff.mp h
  simp only at h
  by_cases haccepted : version = accountPickleVersion
  · rw [if_pos haccepted] at h
    obtain ⟨⟨identityKeys, bs₁⟩, hkeys, h⟩ := Option.bind_eq_some_iff.mp h
    obtain ⟨⟨oneTimeKeys, bs₂⟩, hlist, h⟩ := Option.bind_eq_some_iff.mp h
    obtain ⟨⟨nextOneTimeKeyId, bs₃⟩, hnext, h⟩ := Option.bind_eq_some_iff.mp h
    obtain ⟨-, items, hitems, hother⟩ := decodeInto_some hlist
    rw [Option.some.injEq, Prod.mk.injEq] at h
    obtain ⟨-, rfl⟩ := h
    have hbs : bs₁ = (raw.drop 4).drop (size IdentityKeys) := by
      rw [rest_of_decodeField hkeys, rest_of_decodeField hversion]
      rfl
    refine ⟨identityKeys, items, bs₂, nextOneTimeKeyId, hbs ▸ hitems, ?_⟩
    intro account
    refine Option.bind_eq_some_iff.mpr ⟨_, hversion, (if_pos haccepted).trans ?_⟩
    refine Option.bind_eq_some_iff.mpr ⟨_, hkeys, ?_⟩
    refine Option.bind_eq_some_iff.mpr ⟨_, hother account.oneTimeKeys, ?_⟩
    exact Option.bind_eq_some_iff.mpr ⟨_, hnext, rfl⟩
  · rw [if_neg haccepted] at h
    cases h

/-- What a complete ratchet gives any ratchet. -/
theorem decodeRatchet_some {old ratchet : Ratchet SharedKey} {includesChainIndex : Bool}
    {bs rest : Bytes} (h : decodeRatchet old includesChainIndex bs = some (ratchet, rest)) :
    ∃ rootKey senders receivers skipped behind₁ behind₂ behind₃,
      decodeList (SenderChain SharedKey) (senderChainBytes bs) = some (senders, behind₁) ∧
      decodeList (ReceiverChain SharedKey) (receiverChainBytes bs) = some (receivers, behind₂) ∧
      decodeList (SkippedMessageKey SharedKey) (skippedKeyBytes bs) = some (skipped, behind₃) ∧
      ∀ other : Ratchet SharedKey, decodeRatchet other includesChainIndex bs = some ({ other with
        rootKey
        senderChain := senders.foldl BoundedList.insertEnd other.senderChain
        receiverChains := receivers.foldl BoundedList.insertEnd other.receiverChains
        skippedMessageKeys :=
          skipped.foldl BoundedList.insertEnd other.skippedMessageKeys }, rest) := by
  obtain ⟨⟨rootKey, bs₁⟩, hroot, h⟩ := Option.bind_eq_some_iff.mp h
  obtain ⟨⟨senderChain, bs₂⟩, hsender, h⟩ := Option.bind_eq_some_iff.mp h
  obtain ⟨⟨receiverChains, bs₃⟩, hreceiver, h⟩ := Option.bind_eq_some_iff.mp h
  obtain ⟨⟨skippedMessageKeys, bs₄⟩, hskipped, h⟩ := Option.bind_eq_some_iff.mp h
  obtain ⟨hbs₂, senders, hsenders, hsenderOther⟩ := decodeInto_some hsender
  obtain ⟨hbs₃, receivers, hreceivers, hreceiverOther⟩ := decodeInto_some hreceiver
  obtain ⟨-, skipped, hskippedItems, hskippedOther⟩ := decodeInto_some hskipped
  have hbs₁ : bs₁ = senderChainBytes bs := rest_of_decodeField hroot
  have hbs₂' : bs₂ = receiverChainBytes bs := by
    rw [hbs₂, hbs₁]
    rfl
  have hbs₃' : bs₃ = skippedKeyBytes bs := by
    rw [hbs₃, hbs₂']
    rfl
  refine ⟨rootKey, senders, receivers, skipped, bs₂, bs₃, bs₄, hbs₁ ▸ hsenders,
    hbs₂' ▸ hreceivers, hbs₃' ▸ hskippedItems, ?_⟩
  intro other
  refine Option.bind_eq_some_iff.mpr ⟨_, hroot, ?_⟩
  refine Option.bind_eq_some_iff.mpr ⟨_, hsenderOther other.senderChain, ?_⟩
  refine Option.bind_eq_some_iff.mpr ⟨_, hreceiverOther other.receiverChains, ?_⟩
  refine Option.bind_eq_some_iff.mpr ⟨_, hskippedOther other.skippedMessageKeys, ?_⟩
  cases includesChainIndex with
  | false =>
      obtain ⟨-, rfl⟩ := Prod.mk.inj (Option.some.inj h)
      rfl
  | true =>
      obtain ⟨⟨index, bs₅⟩, hindex, h⟩ := Option.bind_eq_some_iff.mp h
      obtain ⟨-, rfl⟩ := Prod.mk.inj (Option.some.inj h)
      exact Option.bind_eq_some_iff.mpr ⟨_, hindex, rfl⟩

theorem decodeSessionFields_some {old session : Session} {includesChainIndex : Bool}
    {bs rest : Bytes}
    (h : decodeSessionFields old includesChainIndex bs = some (session, rest)) :
    ∃ receivedMessage aliceIdentityKey aliceBaseKey bobOneTimeKey ratchet,
      decodeRatchet old.ratchet includesChainIndex (ratchetBytes bs) = some (ratchet, rest) ∧
      ∀ (other : Session) (ratchet' : Ratchet SharedKey),
        decodeRatchet other.ratchet includesChainIndex (ratchetBytes bs) = some (ratchet', rest) →
        decodeSessionFields other includesChainIndex bs = some ({ other with
          receivedMessage, aliceIdentityKey, aliceBaseKey, bobOneTimeKey
          ratchet := ratchet' }, rest) := by
  obtain ⟨⟨receivedMessage, bs₁⟩, hreceived, h⟩ := Option.bind_eq_some_iff.mp h
  obtain ⟨⟨aliceIdentityKey, bs₂⟩, hidentity, h⟩ := Option.bind_eq_some_iff.mp h
  obtain ⟨⟨aliceBaseKey, bs₃⟩, hbase, h⟩ := Option.bind_eq_some_iff.mp h
  obtain ⟨⟨bobOneTimeKey, bs₄⟩, honeTime, h⟩ := Option.bind_eq_some_iff.mp h
  obtain ⟨⟨ratchet, bs₅⟩, hratchet, h⟩ := Option.bind_eq_some_iff.mp h
  obtain ⟨-, rfl⟩ := Prod.mk.inj (Option.some.inj h)
  have hbs : bs₄ = ratchetBytes bs := by
    rw [rest_of_decodeField honeTime, rest_of_decodeField hbase, rest_of_decodeField hidentity,
      rest_of_decodeField hreceived]
    rfl
  rw [← hbs]
  refine ⟨receivedMessage, aliceIdentityKey, aliceBaseKey, bobOneTimeKey, ratchet, hratchet, ?_⟩
  intro other ratchet' hother
  refine Option.bind_eq_some_iff.mpr ⟨_, hreceived, ?_⟩
  refine Option.bind_eq_some_iff.mpr ⟨_, hidentity, ?_⟩
  refine Option.bind_eq_some_iff.mpr ⟨_, hbase, ?_⟩
  refine Option.bind_eq_some_iff.mpr ⟨_, honeTime, ?_⟩
  exact Option.bind_eq_some_iff.mpr ⟨_, hother, rfl⟩

/-- Which of the two forms a session has. -/
theorem decodeSession_some {old session : Session} {raw rest : Bytes}
    (h : decodeSession old raw = some (session, rest)) :
    ∃ includesChainIndex,
      decodeSessionFields old includesChainIndex (raw.drop 4) = some (session, rest) ∧
      ∀ other, decodeSession other raw = decodeSessionFields other includesChainIndex (raw.drop 4) := by
  obtain ⟨⟨version, bs⟩, hversion, h⟩ := Option.bind_eq_some_iff.mp h
  simp only at h
  have hbs : bs = raw.drop 4 := rest_of_decodeField hversion
  have hdecode : ∀ other, decodeSession other raw =
      if version = 1 then decodeSessionFields other false bs
      else if version = 0x80000001 then decodeSessionFields other true bs else none := by
    intro other
    rw [decodeSession, hversion]
    rfl
  by_cases h1 : version = 1
  · rw [if_pos h1] at h
    refine ⟨false, hbs ▸ h, ?_⟩
    intro other
    rw [hdecode, if_pos h1, hbs]
  · rw [if_neg h1] at h
    by_cases h2 : version = 0x80000001
    · rw [if_pos h2] at h
      refine ⟨true, hbs ▸ h, ?_⟩
      intro other
      rw [hdecode, if_neg h1, if_pos h2, hbs]
    · rw [if_neg h2] at h
      cases h

/-- What is complete does not depend on the object. -/
theorem account_complete {a b : Account} {raw : Bytes} (h : Complete (decodeAccount a) raw) :
    Complete (decodeAccount b) raw := by
  obtain ⟨object, hobject⟩ := h
  obtain ⟨_, _, _, _, -, hall⟩ := decodeAccount_some hobject
  exact ⟨_, hall b⟩

/-- **ACCOUNTS THAT LOAD** differ from a fresh one exactly in the keys that were there. -/
theorem account_replaced {account : Account} {raw : Bytes}
    (h : Complete (decodeAccount newAccountObject) raw) :
    ∃ object fresh, decodeAccount account raw = some (object, []) ∧
      decodeAccount newAccountObject raw = some (fresh, []) ∧
      (accountFields object = accountFields fresh
        ↔ ListReplaced ((raw.drop 4).drop (size IdentityKeys)) account.oneTimeKeys) := by
  obtain ⟨object, hobject⟩ := h
  obtain ⟨identityKeys, items, behind, next, hitems, hall⟩ := decodeAccount_some hobject
  refine ⟨_, _, hall account, hall newAccountObject, ?_⟩
  rw [← listReplaced_iff (by decide) account.oneTimeKeys hitems]
  constructor
  · intro hsame
    exact congrArg Account.oneTimeKeys hsame
  · intro hkeys
    simp only [accountFields, hkeys]
    rfl

theorem ratchet_replaced {old ratchet : Ratchet SharedKey} {includesChainIndex : Bool}
    {bs rest : Bytes} (h : decodeRatchet old includesChainIndex bs = some (ratchet, rest))
    (ratchet' : Ratchet SharedKey) :
    ∃ object fresh, decodeRatchet ratchet' includesChainIndex bs = some (object, rest) ∧
      decodeRatchet newSession.ratchet includesChainIndex bs = some (fresh, rest) ∧
      (ratchetFields object = ratchetFields fresh ↔ RatchetReplaced ratchet' bs) := by
  obtain ⟨rootKey, senders, receivers, skipped, b₁, b₂, b₃, hsenders, hreceivers, hskipped, hall⟩ :=
    decodeRatchet_some h
  refine ⟨_, _, hall ratchet', hall newSession.ratchet, ?_⟩
  have hsender := listReplaced_iff (by decide) ratchet'.senderChain hsenders
  have hreceiver := listReplaced_iff (by decide) ratchet'.receiverChains hreceivers
  have hskip := listReplaced_iff (by decide) ratchet'.skippedMessageKeys hskipped
  constructor
  · intro hsame
    exact ⟨hsender.mp (congrArg Ratchet.senderChain hsame),
      hreceiver.mp (congrArg Ratchet.receiverChains hsame),
      hskip.mp (congrArg Ratchet.skippedMessageKeys hsame)⟩
  · intro hreplaced
    simp only [ratchetFields, hsender.mpr hreplaced.senderChain,
      hreceiver.mpr hreplaced.receiverChains, hskip.mpr hreplaced.skippedMessageKeys]
    rfl

theorem session_complete {a b : Session} {raw : Bytes} (h : Complete (decodeSession a) raw) :
    Complete (decodeSession b) raw := by
  obtain ⟨object, hobject⟩ := h
  obtain ⟨includesChainIndex, hfields, hall⟩ := decodeSession_some hobject
  obtain ⟨_, _, _, _, ratchet, hratchet, hothers⟩ := decodeSessionFields_some hfields
  obtain ⟨loaded, _, hloaded, -, -⟩ := ratchet_replaced hratchet b.ratchet
  exact ⟨_, (hall b).trans (hothers b loaded hloaded)⟩

/-- **SESSIONS THAT LOAD** differ from a fresh one exactly in the lists of the ratchet. -/
theorem session_replaced {session : Session} {raw : Bytes}
    (h : Complete (decodeSession newSession) raw) :
    ∃ object fresh, decodeSession session raw = some (object, []) ∧
      decodeSession newSession raw = some (fresh, []) ∧
      (sessionFields object = sessionFields fresh
        ↔ RatchetReplaced session.ratchet (ratchetBytes (raw.drop 4))) := by
  obtain ⟨object, hobject⟩ := h
  obtain ⟨includesChainIndex, hfields, hall⟩ := decodeSession_some hobject
  obtain ⟨receivedMessage, aliceIdentityKey, aliceBaseKey, bobOneTimeKey, ratchet, hratchet,
    hothers⟩ := decodeSessionFields_some hfields
  obtain ⟨loaded, fresh, hloaded, hfresh, hsame⟩ := ratchet_replaced hratchet session.ratchet
  refine ⟨_, _, (hall session).trans (hothers session loaded hloaded),
    (hall newSession).trans (hothers newSession fresh hfresh), ?_⟩
  rw [← hsame]
  constructor
  · intro heq
    exact congrArg Session.ratchet heq
  · intro heq
    simp only [sessionFields, heq]

/-! ## Failed loads -/

theorem Reached.version {m : Mem} {pos fin : Nat} {bs : Bytes} (h : Reached m pos fin bs) :
    (unpickle m pos fin (0 : UInt32)).1 = pickledVersion bs :=
  (unpickle_leaves (0 : UInt32) (pickledVersion bs) h).mpr rfl

/-- **AN ACCOUNT IS LEFT ALONE** where its version is not accepted, and otherwise where the
    bytes are what it holds. -/
theorem account_kept {m : Mem} {pos fin : Nat} {bs : Bytes} (h : Reached m pos fin bs)
    (account : Account) :
    accountFields (accountUnpickle m pos fin account).1 = accountFields account ↔
      (pickledVersion bs = accountPickleVersion → AccountKept account (bs.drop 4)) := by
  have hversion := h.version
  have h₁ : Reached m (unpickle m pos fin (0 : UInt32)).2 fin (bs.drop 4) := h.next (0 : UInt32)
  rw [← hversion, accountUnpickle]
  generalize unpickle m pos fin (0 : UInt32) = version at h₁
  simp only
  by_cases haccepted : version.1 = accountPickleVersion
  · rw [if_pos haccepted]
    have h₂ := h₁.next account.identityKeys
    have h₃ := h₂.nextList account.oneTimeKeys
    have hkeys := unpickle_leaves account.identityKeys account.identityKeys h₁
    have hlist := h₂.list_kept (by decide) account.oneTimeKeys
    have hnext := unpickle_leaves account.nextOneTimeKeyId account.nextOneTimeKeyId h₃
    constructor
    · intro hsame _
      exact ⟨hkeys.mp (congrArg Account.identityKeys hsame),
        hlist.mp (congrArg Account.oneTimeKeys hsame),
        hnext.mp (congrArg Account.nextOneTimeKeyId hsame)⟩
    · intro hkept
      obtain ⟨hkeys', hlist', hnext'⟩ := hkept haccepted
      simp only [accountFields, hkeys.mpr hkeys', hlist.mpr hlist', hnext.mpr hnext']
  · rw [if_neg haccepted]
    refine iff_of_true ?_ (fun hversion => absurd hversion haccepted)
    by_cases h1 : version.1 = 1
    · rw [if_pos h1]
      rfl
    · rw [if_neg h1]
      rfl

theorem ratchet_kept {m : Mem} {pos fin : Nat} {bs : Bytes} (h : Reached m pos fin bs)
    (ratchet : Ratchet SharedKey) (includesChainIndex : Bool) :
    ratchetFields (ratchetUnpickle m pos fin ratchet includesChainIndex).1 = ratchetFields ratchet
      ↔ RatchetKept ratchet bs := by
  have h₁ := h.next ratchet.rootKey
  have h₂ := h₁.nextList ratchet.senderChain
  have h₃ := h₂.nextList ratchet.receiverChains
  have hroot := unpickle_leaves ratchet.rootKey ratchet.rootKey h
  have hsender := h₁.list_kept (by decide) ratchet.senderChain
  have hreceiver := h₂.list_kept (by decide) ratchet.receiverChains
  have hskipped := h₃.list_kept (by decide) ratchet.skippedMessageKeys
  rw [ratchetUnpickle]
  simp only
  constructor
  · intro hsame
    exact ⟨hroot.mp (congrArg Ratchet.rootKey hsame),
      hsender.mp (congrArg Ratchet.senderChain hsame),
      hreceiver.mp (congrArg Ratchet.receiverChains hsame),
      hskipped.mp (congrArg Ratchet.skippedMessageKeys hsame)⟩
  · rintro ⟨hroot', hsender', hreceiver', hskipped'⟩
    simp only [ratchetFields, hroot.mpr hroot', hsender.mpr hsender', hreceiver.mpr hreceiver',
      hskipped.mpr hskipped']

theorem sessionFields_kept {m : Mem} {pos fin : Nat} {bs : Bytes} (h : Reached m pos fin bs)
    (session : Session) (includesChainIndex : Bool) :
    sessionFields (sessionUnpickleFields m pos fin session includesChainIndex).1
        = sessionFields session
      ↔ SessionKept session bs := by
  have h₁ := h.next session.receivedMessage
  have h₂ := h₁.next session.aliceIdentityKey
  have h₃ := h₂.next session.aliceBaseKey
  have h₄ := h₃.next session.bobOneTimeKey
  have hreceived := unpickle_leaves session.receivedMessage session.receivedMessage h
  have hidentity := unpickle_leaves session.aliceIdentityKey session.aliceIdentityKey h₁
  have hbase := unpickle_leaves session.aliceBaseKey session.aliceBaseKey h₂
  have honeTime := unpickle_leaves session.bobOneTimeKey session.bobOneTimeKey h₃
  have hratchet := ratchet_kept h₄ session.ratchet includesChainIndex
  rw [sessionUnpickleFields]
  simp only
  constructor
  · intro hsame
    exact ⟨hreceived.mp (congrArg Session.receivedMessage hsame),
      hidentity.mp (congrArg Session.aliceIdentityKey hsame),
      hbase.mp (congrArg Session.aliceBaseKey hsame),
      honeTime.mp (congrArg Session.bobOneTimeKey hsame),
      hratchet.mp (congrArg Session.ratchet hsame)⟩
  · rintro ⟨hreceived', hidentity', hbase', honeTime', hratchet'⟩
    simp only [sessionFields, hreceived.mpr hreceived', hidentity.mpr hidentity',
      hbase.mpr hbase', honeTime.mpr honeTime', hratchet.mpr hratchet']

/-- **A SESSION IS LEFT ALONE** where its version is not accepted, and otherwise where the
    bytes are what it holds. -/
theorem session_kept {m : Mem} {pos fin : Nat} {bs : Bytes} (h : Reached m pos fin bs)
    (session : Session) :
    sessionFields (sessionUnpickle m pos fin session).1 = sessionFields session ↔
      (pickledVersion bs = 1 ∨ pickledVersion bs = 0x80000001 →
        SessionKept session (bs.drop 4)) := by
  have hversion := h.version
  have h₁ : Reached m (unpickle m pos fin (0 : UInt32)).2 fin (bs.drop 4) := h.next (0 : UInt32)
  rw [← hversion, sessionUnpickle]
  generalize unpickle m pos fin (0 : UInt32) = version at h₁
  simp only
  by_cases h1 : version.1 = 1
  · rw [if_pos h1, sessionFields_kept h₁]
    exact ⟨fun hkept _ => hkept, fun hkept => hkept (Or.inl h1)⟩
  · rw [if_neg h1]
    by_cases h2 : version.1 = 0x80000001
    · rw [if_pos h2, sessionFields_kept h₁]
      exact ⟨fun hkept _ => hkept, fun hkept => hkept (Or.inr h2)⟩
    · rw [if_neg h2]
      refine iff_of_true rfl ?_
      rintro (hversion | hversion)
      · exact absurd hversion h1
      · exact absurd hversion h2

/-! ## The calls -/

section Calls

variable {m m' : Mem} {key keyLength pickled pickledLength rawLength : Nat}

theorem reached_pickle (m : Mem) (pickled rawLength : Nat) :
    Reached m pickled (pickled + rawLength + 1) (read m pickled (rawLength + 1)) := by
  have hlen := length_read m pickled (rawLength + 1)
  refine ⟨?_, ?_⟩
  · rw [hlen]
  · rw [hlen]
    rfl

/-- A failed load leaves what its reader wrote, and a last error. -/
theorem olmUnpickle_failed {X : Type} {reader : Mem → Nat → Nat → X → X × Nat}
    {lastError : X → OlmErrorCode} {withError : OlmErrorCode → X → X} {fields : X → X}
    (herror : ∀ e object, fields (withError e object) = fields object)
    (hinput : encInput prim m key keyLength pickled pickledLength = (m', .ok rawLength))
    {object : X}
    (hnone : (olmUnpickle prim reader lastError withError object m key keyLength pickled
      pickledLength).2.2 = none) :
    fields (olmUnpickle prim reader lastError withError object m key keyLength pickled
        pickledLength).2.1
      = fields (reader m' pickled (pickled + rawLength + 1) object).1 := by
  rw [olmUnpickle, hinput] at hnone ⊢
  simp only at hnone ⊢
  by_cases hend : pickled + rawLength ≠ (reader m' pickled (pickled + rawLength + 1) object).2
  · rw [if_pos hend]
    by_cases hsuccess : lastError (reader m' pickled (pickled + rawLength + 1) object).1 = .success
    · simp only [if_pos hsuccess, herror]
    · simp only [if_neg hsuccess]
  · rw [if_neg hend] at hnone
    cases hnone

/-- **A LOAD IS CLEAN** when its lists are, if it succeeds, and when its fields are, if it
    fails. -/
theorem olmUnpickle_cleanly_iff {X : Type} {reader : Mem → Nat → Nat → X → X × Nat}
    {lastError : X → OlmErrorCode} {withError : OlmErrorCode → X → X} {fields : X → X}
    {decode : X → Bytes → Option (X × Bytes)} {fresh object : X} {Replaced Kept : Prop}
    (herror : ∀ e x, fields (withError e x) = fields x)
    (hstrict : ∀ x, Strict (fun m pos fin => reader m pos fin x) (decode x))
    (hinput : encInput prim m key keyLength pickled pickledLength = (m', .ok rawLength))
    (hcomplete : Complete (decode object) (read m' pickled rawLength) →
      Complete (decode fresh) (read m' pickled rawLength))
    (hreplaced : Complete (decode fresh) (read m' pickled rawLength) →
      ∃ loaded freshLoaded, decode object (read m' pickled rawLength) = some (loaded, []) ∧
        decode fresh (read m' pickled rawLength) = some (freshLoaded, []) ∧
        (fields loaded = fields freshLoaded ↔ Replaced))
    (hkept : fields (reader m' pickled (pickled + rawLength + 1) object).1 = fields object
      ↔ Kept) :
    LoadsCleanly fields fresh (fun x => olmUnpickle prim reader lastError withError x m key keyLength
        pickled pickledLength) object
      ↔ (Complete (decode fresh) (read m' pickled rawLength) → Replaced) ∧
        (¬Complete (decode fresh) (read m' pickled rawLength) → Kept) := by
  have hloads : ∀ x, Loads (decode x) (read m' pickled rawLength) pickledLength
      (olmUnpickle prim reader lastError withError x m key keyLength pickled pickledLength) :=
    fun x => olmUnpickle_loads prim (hstrict x) hinput
  rw [LoadsCleanly]
  by_cases hcompleted : Complete (decode fresh) (read m' pickled rawLength)
  · obtain ⟨loaded, freshLoaded, hloaded, hfresh, hsame⟩ := hreplaced hcompleted
    obtain ⟨hobject, hresult⟩ := (hloads object).2 loaded hloaded
    obtain ⟨hfreshObject, -⟩ := (hloads fresh).2 freshLoaded hfresh
    simp only [hresult, hobject, hfreshObject]
    rw [hsame]
    exact ⟨fun h => ⟨fun _ => h, fun hnot => absurd hcompleted hnot⟩, fun h => h.1 hcompleted⟩
  · have hnone : (olmUnpickle prim reader lastError withError object m key keyLength pickled
        pickledLength).2.2 = none := by
      rw [← Option.not_isSome_iff_eq_none, (hloads object).1]
      exact fun h => hcompleted (hcomplete h)
    have hfailed := olmUnpickle_failed prim herror hinput hnone
    simp only [hnone]
    rw [hfailed, hkept]
    exact ⟨fun h => ⟨fun hyes => absurd hyes hcompleted, fun _ => h⟩, fun h => h.2 hcompleted⟩

/-- Without a raw pickle only the last error is set. -/
theorem olmUnpickle_refused {X : Type} {reader : Mem → Nat → Nat → X → X × Nat}
    {lastError : X → OlmErrorCode} {withError : OlmErrorCode → X → X} {fields : X → X}
    {fresh object : X} {e : OlmErrorCode} (herror : ∀ e x, fields (withError e x) = fields x)
    (hinput : encInput prim m key keyLength pickled pickledLength = (m', .error e)) :
    LoadsCleanly fields fresh (fun x => olmUnpickle prim reader lastError withError x m key keyLength
      pickled pickledLength) object := by
  rw [LoadsCleanly, olmUnpickle, hinput]
  exact herror e object

end Calls

/-- There is one raw pickle at most. -/
theorem forall_input_iff {e : Mem × Except OlmErrorCode Nat} {m' : Mem} {rawLength : Nat}
    (h : e = (m', .ok rawLength)) (P : Mem → Nat → Prop) :
    (∀ m'' n, e = (m'', .ok n) → P m'' n) ↔ P m' rawLength := by
  constructor
  · intro hall
    exact hall m' rawLength h
  · rintro hP m'' n heq
    rw [h] at heq
    obtain ⟨rfl, hn⟩ := Prod.mk.inj heq
    cases hn
    exact hP

theorem account_cleanly_iff (m : Mem) (key keyLength pickled pickledLength : Nat)
    (account : Account) :
    LoadsCleanly accountFields newAccountObject
        (fun a => olmUnpickleAccount prim a m key keyLength pickled pickledLength) account
      ↔ ∀ m' rawLength,
        encInput prim m key keyLength pickled pickledLength = (m', .ok rawLength) →
        AccountLoadsCleanly account (read m' pickled rawLength)
          (read m' pickled (rawLength + 1)) := by
  have herror : ∀ (e : OlmErrorCode) (a : Account),
      accountFields { a with lastError := e } = accountFields a := fun _ _ => rfl
  rcases hinput : encInput prim m key keyLength pickled pickledLength with ⟨m', e | rawLength⟩
  · refine iff_of_true (olmUnpickle_refused prim herror hinput) ?_
    intro m'' rawLength h
    cases (Prod.mk.inj h).2
  · rw [forall_input_iff rfl, olmUnpickleAccount]
    refine (olmUnpickle_cleanly_iff prim herror strict_account hinput account_complete
      account_replaced (account_kept (reached_pickle m' pickled rawLength) account)).trans ?_
    exact ⟨fun h => ⟨h.1, h.2⟩, fun h => ⟨h.replaced, h.kept⟩⟩

theorem session_cleanly_iff (m : Mem) (key keyLength pickled pickledLength : Nat)
    (session : Session) :
    LoadsCleanly sessionFields newSession
        (fun s => olmUnpickleSession prim s m key keyLength pickled pickledLength) session
      ↔ ∀ m' rawLength,
        encInput prim m key keyLength pickled pickledLength = (m', .ok rawLength) →
        SessionLoadsCleanly session (read m' pickled rawLength)
          (read m' pickled (rawLength + 1)) := by
  have herror : ∀ (e : OlmErrorCode) (s : Session),
      sessionFields { s with lastError := e } = sessionFields s := fun _ _ => rfl
  rcases hinput : encInput prim m key keyLength pickled pickledLength with ⟨m', e | rawLength⟩
  · refine iff_of_true (olmUnpickle_refused prim herror hinput) ?_
    intro m'' rawLength h
    cases (Prod.mk.inj h).2
  · rw [forall_input_iff rfl, olmUnpickleSession]
    refine (olmUnpickle_cleanly_iff prim herror strict_session hinput session_complete
      session_replaced (session_kept (reached_pickle m' pickled rawLength) session)).trans ?_
    exact ⟨fun h => ⟨h.1, h.2⟩, fun h => ⟨h.replaced, h.kept⟩⟩

/-- **LOADS INTO A USED OBJECT** are clean exactly when no item, field or part of a field
    that was there can show. -/
theorem unpickle_cleanly_iff (m : Mem) (key keyLength pickled pickledLength : Nat) :
    (∀ account : Account,
      LoadsCleanly accountFields newAccountObject
          (fun a => olmUnpickleAccount prim a m key keyLength pickled pickledLength) account
        ↔ ∀ m' rawLength,
          encInput prim m key keyLength pickled pickledLength = (m', .ok rawLength) →
          AccountLoadsCleanly account (read m' pickled rawLength)
            (read m' pickled (rawLength + 1))) ∧
    (∀ session : Session,
      LoadsCleanly sessionFields newSession
          (fun s => olmUnpickleSession prim s m key keyLength pickled pickledLength) session
        ↔ ∀ m' rawLength,
          encInput prim m key keyLength pickled pickledLength = (m', .ok rawLength) →
          SessionLoadsCleanly session (read m' pickled rawLength)
            (read m' pickled (rawLength + 1))) :=
  ⟨account_cleanly_iff prim m key keyLength pickled pickledLength,
    session_cleanly_iff prim m key keyLength pickled pickledLength⟩

/-- A session that has sent nothing yet keeps its sender chain when the pickle of a new one
    is loaded into it. -/
theorem usedSession_not_replaced :
    ¬RatchetReplaced demoSession.ratchet (ratchetBytes ((sessionPickle newSession).drop 4)) := by
  intro h
  have hlist : decodeList (SenderChain SharedKey)
      (senderChainBytes (ratchetBytes ((sessionPickle newSession).drop 4)))
      = some ([], List.replicate 8 0) := by
    decide +kernel
  rcases h.senderChain with hnone | ⟨items, rest, hitems, hlong, -⟩
  · exact absurd hnone (by decide +kernel)
  · rw [hlist, Option.some.injEq, Prod.mk.injEq] at hitems
    rw [← hitems.1] at hlong
    exact absurd hlong (by decide)

/-- Of an account that has a key, four bytes reset the number of the next key. -/
theorem usedAccount_not_kept {bs : Bytes} (hshort : bs.length = 1) :
    ¬AccountKept oneKeyAccount bs := by
  intro h
  have hnext : oneKeyAccount.nextOneTimeKeyId
      = if (behindList OneTimeKey (bs.drop (size IdentityKeys))).length < 4 then 0
        else decode ((behindList OneTimeKey (bs.drop (size IdentityKeys))).take 4) :=
    h.nextOneTimeKeyId
  have hnil : bs.drop (size IdentityKeys) = [] :=
    List.drop_of_length_le (by rw [hshort]; decide)
  rw [hnil, behindList, List.drop_nil, List.drop_nil, if_pos (by decide)] at hnext
  exact absurd hnext (by decide +kernel)

/-- A session that was set up takes the lists of a new one and keeps its own, and an account
    with a key is changed by a pickle that is only a version word. -/
theorem unpickle_not_cleanly :
    ((olmUnpickleSession demoPrimitives demoSession (pickledMemory (sessionPickle newSession)) 0 0 100
        (encOutputLength demoPrimitives (sessionPickle newSession).length)).2.2.isSome ∧
      ¬LoadsCleanly sessionFields newSession
        (fun s => olmUnpickleSession demoPrimitives s (pickledMemory (sessionPickle newSession)) 0 0
          100 (encOutputLength demoPrimitives (sessionPickle newSession).length)) demoSession) ∧
    ((olmUnpickleAccount demoPrimitives oneKeyAccount (pickledMemory [0, 0, 0, 2]) 0 0 100
        (encOutputLength demoPrimitives 4)).2.2 = none ∧
      ¬LoadsCleanly accountFields newAccountObject
        (fun a => olmUnpickleAccount demoPrimitives a (pickledMemory [0, 0, 0, 2]) 0 0 100
          (encOutputLength demoPrimitives 4)) oneKeyAccount) := by
  constructor
  · obtain ⟨m', hinput, hread⟩ := encInput_pickledMemory (sessionPickle newSession)
    have hcomplete : Complete (decodeSession newSession) (sessionPickle newSession) :=
      ⟨newSession, by decide +kernel⟩
    constructor
    · have hloads : Loads (decodeSession demoSession)
          (read m' 100 (sessionPickle newSession).length)
          (encOutputLength demoPrimitives (sessionPickle newSession).length)
          (olmUnpickleSession demoPrimitives demoSession (pickledMemory (sessionPickle newSession)) 0 0
            100 (encOutputLength demoPrimitives (sessionPickle newSession).length)) :=
        olmUnpickle_loads demoPrimitives (strict_session demoSession) hinput
      rw [hloads.1]
      rw [hread]
      exact session_complete hcomplete
    · rw [session_cleanly_iff, forall_input_iff hinput, hread]
      intro h
      exact usedSession_not_replaced (h.replaced hcomplete)
  · obtain ⟨m', hinput, hread⟩ := encInput_pickledMemory [0, 0, 0, 2]
    have hincomplete : ∀ account, ¬Complete (decodeAccount account) [0, 0, 0, 2] := by
      rintro account ⟨object, hobject⟩
      obtain ⟨_, _, _, _, hlist, -⟩ := decodeAccount_some hobject
      have hnone : decodeList OneTimeKey ((([0, 0, 0, 2] : Bytes).drop 4).drop (size IdentityKeys))
          = none := by
        decide +kernel
      rw [hnone] at hlist
      cases hlist
    have hversion : read m' 100 4 = [0, 0, 0, 2] := hread
    constructor
    · have hloads : Loads (decodeAccount oneKeyAccount) (read m' 100 4)
          (encOutputLength demoPrimitives 4)
          (olmUnpickleAccount demoPrimitives oneKeyAccount (pickledMemory [0, 0, 0, 2]) 0 0 100
            (encOutputLength demoPrimitives 4)) :=
        olmUnpickle_loads demoPrimitives (strict_account oneKeyAccount) hinput
      rw [← Option.not_isSome_iff_eq_none]
      intro hsome
      have hcomplete : Complete (decodeAccount oneKeyAccount) (read m' 100 4) := hloads.1.mp hsome
      rw [hversion] at hcomplete
      exact hincomplete _ hcomplete
    · have htake : (read m' 100 5).take 4 = [0, 0, 0, 2] := by
        rw [take_read m' 100 (by decide), hversion]
      have hlen := length_read m' 100 5
      have hinput' : encInput demoPrimitives (pickledMemory [0, 0, 0, 2]) 0 0 100
          (encOutputLength demoPrimitives 4) = (m', .ok 4) := hinput
      rw [account_cleanly_iff, forall_input_iff hinput', hversion]
      intro h
      refine usedAccount_not_kept ?_ (h.kept (hincomplete _) ?_)
      · rw [List.length_drop, hlen]
      · rw [pickledVersion, hlen, htake, if_neg (by decide)]
        rfl

end OlmPickle
