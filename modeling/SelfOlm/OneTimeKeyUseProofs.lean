import SelfOlm.OneTimeKeyProofs
import SelfOlm.InboundSessionProofs
import SelfOlm.Lib.RecentLog

/-! # The use of one-time keys

    A device generates, publishes and removes one-time keys, puts its account away and
    loads it, and opens sessions, all in any order.  Its log has the sessions that were
    opened and the keys that were removed.  Nothing is opened with a key behind its
    removal, and until then a key opens sessions as long as fewer than 100000 came
    behind it. -/

namespace OlmSession

open ByteMemory OlmCrypto OlmMessage OlmList OlmRatchet OlmAccount RecentLog

variable (prim : Primitives)

/-- What happened to a one-time key. -/
inductive KeyEvent where
  | opened (s : Session)
  | removed (publicKey : Curve25519PublicKey) (id : Nat)

/-- The key it happened to. -/
def KeyEvent.oneTimeKey : KeyEvent → Curve25519PublicKey
  | .opened s => s.bobOneTimeKey
  | .removed publicKey _ => publicKey

/-- An account, the keys that it issued and what happened to them, newest first. -/
structure Device where
  account : Account
  issued : List OneTimeKey
  log : List KeyEvent

/-- The keys that were removed. -/
def removedKeys (log : List KeyEvent) : List Curve25519PublicKey :=
  log.filterMap fun
    | .opened _ => none
    | .removed publicKey _ => some publicKey

/-- A call of a device. -/
inductive DeviceStep : Device → Device → Prop
  | generated (d : Device) {n randomLength : Nat} (m : Mem) (random : Nat)
      (h : generateOneTimeKeysRandomLength n ≤ randomLength) :
      DeviceStep d { d with
        account := (generateOneTimeKeys prim d.account n m random randomLength).1
        issued := generatedKeys prim n d.account.nextOneTimeKeyId m random ++ d.issued }
  | notGenerated (d : Device) {n randomLength : Nat} (m : Mem) (random : Nat)
      (h : randomLength < generateOneTimeKeysRandomLength n) :
      DeviceStep d { d with
        account := (generateOneTimeKeys prim d.account n m random randomLength).1 }
  | marked (d : Device) : DeviceStep d { d with account := (markKeysAsPublished d.account).1 }
  | reloaded (d : Device) {account : Account} (h : Reloaded prim d.account account) :
      DeviceStep d { d with account }
  /-- `new_inbound_session`, for any message and in any object. -/
  | opened (d : Device) {s s' : Session} {theirIdentityKey : Option Curve25519PublicKey} {m : Mem}
      {message messageLength : Nat}
      (hcall : newInboundSession prim s d.account theirIdentityKey m message messageLength
        = some (s', some 0)) :
      DeviceStep d { d with log := .opened s' :: d.log }
  /-- `olm_remove_one_time_keys`, for any session. -/
  | removed (d : Device) {s : Session} {account : Account} {id : Nat}
      (hcall : olmRemoveOneTimeKeys d.account s = (account, some id)) :
      DeviceStep d { d with account, log := .removed s.bobOneTimeKey id :: d.log }
  | notRemoved (d : Device) {s : Session} {account : Account}
      (hcall : olmRemoveOneTimeKeys d.account s = (account, none)) :
      DeviceStep d { d with account }

/-- Runs from an account without one-time keys. -/
inductive DeviceRun : Device → Prop
  | start (account : Account) (hkeys : account.oneTimeKeys = .empty)
      (hnext : account.nextOneTimeKeyId = 0) : DeviceRun ⟨account, [], []⟩
  | step {d d' : Device} (hrun : DeviceRun d) (hstep : DeviceStep prim d d') : DeviceRun d'

/-- No two keys that were issued have one public part. -/
def Device.Distinct (d : Device) : Prop := (d.issued.map (fun key => key.key.publicKey)).Nodup

/-- The key was issued; the secret of a session is that of its private part. -/
def Genuine (d : Device) : KeyEvent → Prop
  | .opened s => ∃ key ∈ d.issued, key.key.publicKey = s.bobOneTimeKey ∧
      ∃ blank ratchetKey, s.ratchet = initialiseAsBob (olmSuite prim) blank
        (inboundSecret prim d.account key s.aliceIdentityKey s.aliceBaseKey) ratchetKey
  | .removed publicKey id => ∃ key ∈ d.issued, key.key.publicKey = publicKey ∧ key.id.toNat = id

/-- Nothing happens to a key behind its removal. -/
def NotRemovedBy (later earlier : KeyEvent) : Prop :=
  ∀ publicKey id, earlier = .removed publicKey id → later.oneTimeKey ≠ publicKey

/-- The stored keys are just the recent ones that were not removed, and older ones. -/
structure DeviceInvariant (d : Device) : Prop where
  store : StoreInvariant d.issued d.account
  gone : ∀ key ∈ d.account.oneTimeKeys.toList, key.key.publicKey ∉ removedKeys d.log
  recent : ∀ pair ∈ (d.issued.map numberedPair).take maxOneTimeKeys,
    pair.2.publicKey ∉ removedKeys d.log → pair ∈ d.account.oneTimeKeys.toList.map numberedPair
  genuine : ∀ e ∈ d.log, Genuine prim d e
  order : d.log.Pairwise NotRemovedBy

variable {prim}

/-! ## The log -/

theorem mem_removedKeys {log : List KeyEvent} {publicKey : Curve25519PublicKey} :
    publicKey ∈ removedKeys log ↔ ∃ id, KeyEvent.removed publicKey id ∈ log := by
  rw [removedKeys, List.mem_filterMap]
  constructor
  · rintro ⟨e, he, hkey⟩
    cases e with
    | opened s => cases hkey
    | removed other id =>
        obtain rfl := Option.some.inj hkey
        exact ⟨id, he⟩
  · rintro ⟨id, he⟩
    exact ⟨_, he, rfl⟩

theorem removedKeys_removed (publicKey : Curve25519PublicKey) (id : Nat) (log : List KeyEvent) :
    removedKeys (.removed publicKey id :: log) = publicKey :: removedKeys log := rfl

/-- An event of a key that is not removed yet. -/
theorem pairwise_notRemovedBy {log : List KeyEvent} (h : log.Pairwise NotRemovedBy) {e : KeyEvent}
    (he : e.oneTimeKey ∉ removedKeys log) : (e :: log).Pairwise NotRemovedBy := by
  refine List.pairwise_cons.mpr ⟨?_, h⟩
  rintro _ hearlier publicKey id rfl rfl
  exact he (mem_removedKeys.mpr ⟨id, hearlier⟩)

/-! ## Calls that find a key -/

/-- What a message opens a session with. -/
theorem newInboundSession_opens {s s' : Session} {account : Account}
    {theirIdentityKey : Option Curve25519PublicKey} {m : Mem} {message messageLength : Nat}
    (hcall : newInboundSession prim s account theirIdentityKey m message messageLength
      = some (s', some 0)) :
    s'.bobOneTimeKey = load 32 m ((outerReader m message messageLength).oneTimeKey.getD 0) ∧
      ∃ key, lookupKey account s'.bobOneTimeKey = some key ∧
        ∃ ratchetKey, s'.ratchet = initialiseAsBob (olmSuite prim) s.ratchet
          (inboundSecret prim account key s'.aliceIdentityKey s'.aliceBaseKey) ratchetKey := by
  obtain ⟨houter, hembedded, hheld, hidentity⟩ := (newInboundSession_succeeds_iff prim s account
    theirIdentityKey m message messageLength).mp ⟨s', hcall⟩
  obtain ⟨key, hkey⟩ := Option.ne_none_iff_exists'.mp hheld
  rw [newInboundSession_accepted prim s account theirIdentityKey m message messageLength houter
    hidentity hembedded hkey, Option.some.injEq, Prod.mk.injEq] at hcall
  obtain ⟨rfl, -⟩ := hcall
  exact ⟨rfl, key, hkey, _, rfl⟩

/-- A removal finds the key, takes it out and returns its number. -/
theorem olmRemoveOneTimeKeys_some {account account' : Account} {s : Session} {id : Nat}
    (hcall : olmRemoveOneTimeKeys account s = (account', some id)) :
    account' = (removeKey account s.bobOneTimeKey).1 ∧
      ∃ key ∈ account.oneTimeKeys.toList, key.key.publicKey = s.bobOneTimeKey ∧
        key.id.toNat = id := by
  rw [olmRemoveOneTimeKeys] at hcall
  rcases hremove : removeKey account s.bobOneTimeKey with ⟨a, _ | n⟩
  · rw [hremove] at hcall
    cases hcall
  · rw [hremove] at hcall
    obtain ⟨rfl, hid⟩ := Prod.mk.inj hcall
    obtain rfl := Option.some.inj hid
    refine ⟨rfl, ?_⟩
    rw [removeKey] at hremove
    cases hi : account.oneTimeKeys.toList.findIdx? (fun key => key.key.publicKey = s.bobOneTimeKey)
      with
    | none =>
        rw [hi] at hremove
        cases hremove
    | some i =>
        rw [hi] at hremove
        obtain ⟨key, hkey, hid⟩ := Option.map_eq_some_iff.mp (Prod.mk.inj hremove).2
        obtain ⟨hlt, hfound, -⟩ := List.findIdx?_eq_some_iff_getElem.mp hi
        obtain ⟨hlt, rfl⟩ := List.getElem?_eq_some_iff.mp hkey
        exact ⟨_, List.getElem_mem hlt, of_decide_eq_true hfound, hid⟩

theorem olmRemoveOneTimeKeys_none {account account' : Account} {s : Session}
    (hcall : olmRemoveOneTimeKeys account s = (account', none)) :
    account' = { account with lastError := .badMessageKeyId } ∧
      ∀ key ∈ account.oneTimeKeys.toList, key.key.publicKey ≠ s.bobOneTimeKey := by
  rw [olmRemoveOneTimeKeys, removeKey] at hcall
  cases hi : account.oneTimeKeys.toList.findIdx? (fun key => key.key.publicKey = s.bobOneTimeKey)
    with
  | none =>
      rw [hi] at hcall
      refine ⟨(Prod.mk.inj hcall).1.symm, ?_⟩
      intro key hkey
      exact of_decide_eq_false (List.findIdx?_eq_none_iff.mp hi key hkey)
  | some i =>
      obtain ⟨hlt, -⟩ := List.findIdx?_eq_some_iff_getElem.mp hi
      simp only [hi, List.getElem?_eq_getElem hlt, Option.map_some] at hcall
      cases hcall

/-! ## One call -/

section Step

variable {d : Device}

theorem Device.Distinct.pairs (h : d.Distinct) : (d.issued.map numberedPair).Nodup := by
  refine List.Nodup.of_map (fun pair : UInt32 × Curve25519KeyPair => pair.2.publicKey) ?_
  rw [List.map_map]
  exact h

theorem lookupKey_mem {account : Account} {publicKey : Curve25519PublicKey} {key : OneTimeKey}
    (h : lookupKey account publicKey = some key) :
    key ∈ account.oneTimeKeys.toList ∧ key.key.publicKey = publicKey := by
  rw [lookupKey] at h
  have hfound := List.find?_some h
  exact ⟨List.mem_of_find?_eq_some h, of_decide_eq_true hfound⟩

/-- A stored key was issued, and is not removed. -/
theorem DeviceInvariant.stored (h : DeviceInvariant prim d) {key : OneTimeKey}
    (hkey : key ∈ d.account.oneTimeKeys.toList) :
    (∃ issued ∈ d.issued, issued.id = key.id ∧ issued.key = key.key) ∧
      key.key.publicKey ∉ removedKeys d.log :=
  ⟨h.store.mem_issued hkey, h.gone key hkey⟩

theorem Genuine.congr {d' : Device} (hissued : ∀ key ∈ d.issued, key ∈ d'.issued)
    (hidentity : d'.account.identityKeys = d.account.identityKeys) {e : KeyEvent}
    (h : Genuine prim d e) : Genuine prim d' e := by
  cases e with
  | opened s =>
      obtain ⟨key, hkey, hpublic, blank, ratchetKey, hratchet⟩ := h
      refine ⟨key, hissued key hkey, hpublic, blank, ratchetKey, ?_⟩
      rw [hratchet, inboundSecret, inboundSecret, hidentity]
  | removed publicKey id =>
      obtain ⟨key, hkey, hpublic, hid⟩ := h
      exact ⟨key, hissued key hkey, hpublic, hid⟩

/-- A call that leaves the keys as they are, but for their flags. -/
theorem DeviceInvariant.same (h : DeviceInvariant prim d) {account : Account}
    (hkeys : account.oneTimeKeys.toList.map numberedPair
      = d.account.oneTimeKeys.toList.map numberedPair)
    (hnext : account.nextOneTimeKeyId = d.account.nextOneTimeKeyId)
    (hidentity : account.identityKeys = d.account.identityKeys) :
    DeviceInvariant prim { d with account } := by
  refine ⟨⟨h.store.numbers, hnext.trans h.store.next, ?_⟩, ?_, ?_, ?_, h.order⟩
  · rw [hkeys]
    exact h.store.stored
  · intro key hkey
    have hpair : numberedPair key ∈ d.account.oneTimeKeys.toList.map numberedPair := by
      rw [← hkeys]
      exact List.mem_map_of_mem hkey
    obtain ⟨key', hkey', hsame⟩ := List.mem_map.mp hpair
    rw [← show key'.key = key.key from (Prod.mk.inj hsame).2]
    exact h.gone key' hkey'
  · intro pair hpair hremoved
    rw [hkeys]
    exact h.recent pair hpair hremoved
  · intro e he
    refine Genuine.congr ?_ hidentity (h.genuine e he)
    intro key hkey
    exact hkey

/-- New keys have no public part that was removed before. -/
theorem DeviceInvariant.generate (h : DeviceInvariant prim d) {n randomLength : Nat} (m : Mem)
    (random : Nat) (hrandom : generateOneTimeKeysRandomLength n ≤ randomLength)
    (hdistinct : ((generatedKeys prim n d.account.nextOneTimeKeyId m random ++ d.issued).map
      (fun key => key.key.publicKey)).Nodup) :
    DeviceInvariant prim { d with
      account := (generateOneTimeKeys prim d.account n m random randomLength).1
      issued := generatedKeys prim n d.account.nextOneTimeKeyId m random ++ d.issued } := by
  have hstored := (generateOneTimeKeys_toList prim d.account m random hrandom).1
  have hpairs := Device.Distinct.pairs (d := ⟨d.account, _, d.log⟩) hdistinct
  have hidentity : (generateOneTimeKeys prim d.account n m random randomLength).1.identityKeys
      = d.account.identityKeys := by
    rw [generateOneTimeKeys, if_neg (Nat.not_lt.mpr hrandom), generateOneTimeKeysLoop_eq]
  refine ⟨h.store.generate m random hrandom, ?_, ?_, ?_, h.order⟩
  · intro key hkey
    rw [hstored] at hkey
    rcases List.mem_append.mp (List.mem_of_mem_take hkey) with hnew | hold
    · -- a removed key was issued before
      intro hremoved
      obtain ⟨id, he⟩ := mem_removedKeys.mp hremoved
      obtain ⟨issued, hissued, hpublic, -⟩ := h.genuine _ he
      rw [List.map_append, List.nodup_append] at hdistinct
      exact hdistinct.2.2 _ (List.mem_map_of_mem hnew) _ (List.mem_map_of_mem hissued)
        hpublic.symm
    · exact h.gone key hold
  · intro pair hpair hremoved
    rw [hstored, List.map_take, List.map_append]
    have hkept : Kept (d.issued.map numberedPair) (d.account.oneTimeKeys.toList.map numberedPair) :=
      ⟨h.store.stored, (List.nodup_append.mp (List.map_append ▸ hpairs)).2.1⟩
    rw [List.map_append] at hpairs hpair
    refine hkept.mem_push hpairs ?_ hpair
    by_cases hnew : pair ∈ (generatedKeys prim n d.account.nextOneTimeKeyId m random).map numberedPair
    · exact Or.inl hnew
    · exact Or.inr (h.recent pair (mem_take_old hnew hpair) hremoved)
  · intro e he
    exact (h.genuine e he).congr (fun _ hkey => List.mem_append_right _ hkey) hidentity

/-- A session is opened with a key that is stored. -/
theorem DeviceInvariant.open (h : DeviceInvariant prim d) {s s' : Session}
    {theirIdentityKey : Option Curve25519PublicKey} {m : Mem} {message messageLength : Nat}
    (hcall : newInboundSession prim s d.account theirIdentityKey m message messageLength
      = some (s', some 0)) :
    DeviceInvariant prim { d with log := .opened s' :: d.log } := by
  obtain ⟨-, key, hkey, ratchetKey, hratchet⟩ := newInboundSession_opens hcall
  obtain ⟨hmem, hpublic⟩ := lookupKey_mem hkey
  obtain ⟨⟨issued, hissued, -, hpair⟩, hgone⟩ := h.stored hmem
  refine ⟨h.store, h.gone, h.recent, ?_, ?_⟩
  · refine List.forall_mem_cons.mpr ⟨?_, h.genuine⟩
    refine ⟨issued, hissued, by rw [hpair]; exact hpublic, s.ratchet, ratchetKey, ?_⟩
    rw [hratchet, inboundSecret, inboundSecret, hpair]
  · refine pairwise_notRemovedBy h.order ?_
    rw [hpublic] at hgone
    exact hgone

/-- A removed key is stored no more; the others are. -/
theorem DeviceInvariant.remove (h : DeviceInvariant prim d) (hdistinct : d.Distinct) {s : Session}
    {account : Account} {id : Nat}
    (hcall : olmRemoveOneTimeKeys d.account s = (account, some id)) :
    DeviceInvariant prim { d with account, log := .removed s.bobOneTimeKey id :: d.log } := by
  obtain ⟨rfl, key, hkey, hpublic, hid⟩ := olmRemoveOneTimeKeys_some hcall
  obtain ⟨⟨issued, hissued, hsame, hpair⟩, hgone⟩ := h.stored hkey
  have hkeys := removeKey_toList (h.store.stored_nodup hdistinct) s.bobOneTimeKey
  have hothers : (removeKey d.account s.bobOneTimeKey).1.nextOneTimeKeyId
        = d.account.nextOneTimeKeyId ∧
      (removeKey d.account s.bobOneTimeKey).1.identityKeys = d.account.identityKeys := by
    rw [removeKey]
    split
    · exact ⟨rfl, rfl⟩
    · exact ⟨rfl, rfl⟩
  refine ⟨⟨h.store.numbers, hothers.1.trans h.store.next, ?_⟩, ?_, ?_, ?_, ?_⟩
  · rw [hkeys]
    exact (List.filter_sublist.map numberedPair).trans h.store.stored
  · intro other hother
    rw [hkeys, List.mem_filter] at hother
    rw [removedKeys_removed, List.mem_cons, not_or]
    exact ⟨of_decide_eq_true hother.2, h.gone other hother.1⟩
  · intro pair hrecent hremoved
    rw [removedKeys_removed, List.mem_cons, not_or] at hremoved
    obtain ⟨other, hother, rfl⟩ := List.mem_map.mp (h.recent pair hrecent hremoved.2)
    rw [hkeys]
    exact List.mem_map_of_mem (List.mem_filter.mpr ⟨hother, decide_eq_true hremoved.1⟩)
  · refine List.forall_mem_cons.mpr ⟨?_, ?_⟩
    · exact ⟨issued, hissued, by rw [hpair]; exact hpublic, by rw [hsame]; exact hid⟩
    · intro e he
      refine Genuine.congr ?_ hothers.2 (h.genuine e he)
      intro key hkey
      exact hkey
  · refine pairwise_notRemovedBy h.order ?_
    rw [hpublic] at hgone
    exact hgone

/-- **STEP**: a call keeps the invariant. -/
theorem DeviceStep.invariant (hinv : prim.AesInverts) {d' : Device} (hstep : DeviceStep prim d d')
    (hdistinct : d'.Distinct) (h : DeviceInvariant prim d) : DeviceInvariant prim d' := by
  cases hstep with
  | generated m random hrandom => exact h.generate m random hrandom hdistinct
  | notGenerated m random hrandom =>
      rw [generateOneTimeKeys, if_pos hrandom]
      exact h.same rfl rfl rfl
  | marked =>
      refine h.same ?_ rfl rfl
      show (d.account.oneTimeKeys.toList.map _).map numberedPair = _
      rw [List.map_map]
      rfl
  | reloaded hreload =>
      rw [hreload.eq hinv]
      exact h.same rfl rfl rfl
  | opened hcall => exact h.open hcall
  | removed hcall => exact h.remove hdistinct hcall
  | notRemoved hcall =>
      obtain ⟨rfl, -⟩ := olmRemoveOneTimeKeys_none hcall
      exact h.same rfl rfl rfl

theorem DeviceStep.distinct {d' : Device} (hstep : DeviceStep prim d d') (h : d'.Distinct) :
    d.Distinct := by
  cases hstep with
  | generated m random hrandom =>
      rw [Device.Distinct, List.map_append] at h
      exact (List.nodup_append.mp h).2.1
  | notGenerated m random hrandom => exact h
  | marked => exact h
  | reloaded hreload => exact h
  | opened hcall => exact h
  | removed hcall => exact h
  | notRemoved hcall => exact h

/-- **RUN**. -/
theorem DeviceRun.invariant (hinv : prim.AesInverts) (hrun : DeviceRun prim d)
    (hdistinct : d.Distinct) : DeviceInvariant prim d := by
  induction hrun with
  | start account hkeys hnext =>
      refine ⟨⟨rfl, hnext, ?_⟩, ?_, ?_, ?_, List.Pairwise.nil⟩
      · rw [hkeys]
        exact List.Sublist.refl []
      · intro key _ hremoved
        cases hremoved
      · intro pair hpair
        cases hpair
      · intro e he
        cases he
  | step hrun hstep ih => exact hstep.invariant hinv hdistinct (ih (hstep.distinct hdistinct))

end Step

/-! ## What follows -/

/-- The one-time key that a message names. -/
def namedKey (m : Mem) (message messageLength : Nat) : Curve25519PublicKey :=
  load 32 m ((outerReader m message messageLength).oneTimeKey.getD 0)

/-- **SINGLE USE**: in every run, nothing is opened with a key that was removed, and no key is
    removed twice; a recent key that was not removed opens a session with every message that is
    well formed, and is removed as the key with its number. -/
theorem oneTimeKeys_singleUse (hinv : prim.AesInverts) {d : Device} (hrun : DeviceRun prim d)
    (hdistinct : d.Distinct) :
    (d.log.Pairwise NotRemovedBy ∧ ∀ e ∈ d.log, Genuine prim d e) ∧
      (∀ (s s' : Session) (theirIdentityKey : Option Curve25519PublicKey) (m : Mem)
        (message messageLength : Nat), namedKey m message messageLength ∈ removedKeys d.log →
        newInboundSession prim s d.account theirIdentityKey m message messageLength
          ≠ some (s', some 0)) ∧
      ∀ key ∈ d.issued.take maxOneTimeKeys, key.key.publicKey ∉ removedKeys d.log →
        (∀ (s : Session) (theirIdentityKey : Option Curve25519PublicKey) (m : Mem)
          (message messageLength : Nat), namedKey m message messageLength = key.key.publicKey →
          ((∃ s', newInboundSession prim s d.account theirIdentityKey m message messageLength
              = some (s', some 0)) ↔
            OuterAccepted (outerReader m message messageLength) m theirIdentityKey ∧
              EmbeddedAccepted (embeddedReader prim m message messageLength) ∧
              (outerReader m message messageLength).identityKey ≠ none)) ∧
          ∀ s : Session, s.bobOneTimeKey = key.key.publicKey →
            (olmRemoveOneTimeKeys d.account s).2 = some key.id.toNat := by
  have h := hrun.invariant hinv hdistinct
  refine ⟨⟨h.order, h.genuine⟩, ?_, ?_⟩
  · intro s s' theirIdentityKey m message messageLength hremoved hcall
    obtain ⟨hnamed, key, hkey, -⟩ := newInboundSession_opens hcall
    obtain ⟨hmem, hpublic⟩ := lookupKey_mem hkey
    refine (h.stored hmem).2 ?_
    rw [hpublic, hnamed]
    exact hremoved
  · intro key hkey hremoved
    have hpair : numberedPair key ∈ (d.issued.map numberedPair).take maxOneTimeKeys := by
      rw [← List.map_take]
      exact List.mem_map_of_mem hkey
    obtain ⟨stored, hstored, hsame⟩ := List.mem_map.mp (h.recent _ hpair hremoved)
    obtain ⟨hid, hpair⟩ := Prod.mk.inj hsame
    have hpair : stored.key = key.key := hpair
    have hkeys := h.store.stored_nodup hdistinct
    refine ⟨?_, ?_⟩
    · intro s theirIdentityKey m message messageLength hnamed
      have hheld : OneTimeKeyHeld d.account (outerReader m message messageLength) m := by
        intro hnone
        have hnone : lookupKey d.account (namedKey m message messageLength) = none := hnone
        rw [hnamed, ← hpair, lookupKey, find?_publicKey hkeys hstored] at hnone
        cases hnone
      rw [newInboundSession_succeeds_iff]
      constructor
      · rintro ⟨houter, hembedded, -, hidentity⟩
        exact ⟨houter, hembedded, hidentity⟩
      · rintro ⟨houter, hembedded, hidentity⟩
        exact ⟨houter, hembedded, hheld, hidentity⟩
    · intro s hs
      cases hcall : olmRemoveOneTimeKeys d.account s with
      | mk account result =>
          cases result with
          | none =>
              refine absurd ?_ ((olmRemoveOneTimeKeys_none hcall).2 stored hstored)
              rw [hpair, hs]
          | some id =>
              -- no other key has the public part
              obtain ⟨-, found, hfound, hpublic, rfl⟩ := olmRemoveOneTimeKeys_some hcall
              have hone := List.inj_on_of_nodup_map hkeys hfound hstored (by
                rw [hpublic, hs, hpair])
              rw [hone, show stored.id = key.id from hid]

/-- The body of a message with a ratchet key. -/
def onceBody : Bytes :=
  messageBytes 3 0 (Vector.replicate 32 (5 : UInt8)).toList [] ++ List.replicate 8 0

/-- An account generates a key, a message opens a session with it, and it is removed. -/
theorem oneTimeKeys_singleUse_demo :
    ∃ d : Device, DeviceRun demoPrimitives d ∧ d.log.length = 2 ∧
      ∀ s s' : Session, newInboundSession demoPrimitives s d.account none
        (handmadeMemory 3 onceBody) 0 (handmadeMessage 3 onceBody).length ≠ some (s', some 0) := by
  have hread := read_handmadeMemory 3 onceBody
  have hsize : (handmadeMessage 3 onceBody).length < 2 ^ 64 := by decide +kernel
  have hnone : ∀ theirKey : Curve25519PublicKey, none = some theirKey →
      theirKey = Vector.replicate 32 1 := by
    intro theirKey h
    cases h
  have hopened := newInboundSession_encoded demoPrimitives (s := newSession) hsize hread rfl hnone
    lookupKey_oneKeyAccount
  generalize hs : ({ newSession with
    aliceIdentityKey := Vector.replicate 32 1
    aliceBaseKey := Vector.replicate 32 2
    bobOneTimeKey := curve25519Basepoint
    ratchet := _ } : Session) = s at hopened
  have hkey : s.bobOneTimeKey = curve25519Basepoint := by rw [← hs]
  have hremoved : (olmRemoveOneTimeKeys oneKeyAccount s).2 = some 1 := by
    rw [olmRemoveOneTimeKeys_snd, hkey]
    exact removeKey_oneKeyAccount.2
  have hgenerated : DeviceStep demoPrimitives ⟨newAccountObject, [], []⟩
      ⟨oneKeyAccount, generatedKeys demoPrimitives 1 0 (fun _ => 0) 0 ++ [], []⟩ :=
    DeviceStep.generated _ (fun _ => 0) 0 (by decide)
  have hrun := (((DeviceRun.start newAccountObject rfl rfl).step hgenerated).step
    (DeviceStep.opened _ hopened)).step (DeviceStep.removed _ (Prod.ext rfl hremoved))
  refine ⟨_, hrun, rfl, ?_⟩
  intro s₁ s₂
  refine (oneTimeKeys_singleUse demoPrimitives_aesInverts hrun ?_).2.1 s₁ s₂ none _ _ _ ?_
  · exact List.nodup_singleton _
  · have hcarries := outerReader_carries hsize hread
    obtain ⟨p, hp, hload⟩ := hcarries.oneTimeKey
    rw [namedKey, hp, Option.getD_some, hload]
    exact mem_removedKeys.mpr ⟨1, by rw [hkey]; exact List.mem_cons_self⟩

end OlmSession
