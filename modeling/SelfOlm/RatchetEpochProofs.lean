import SelfOlm.SkippedKeyProofs
import SelfOlm.Lib.RecentLog

/-! # The chains of a conversation

    An epoch is a sender chain of one of the two sides, from its creation on.  Each is
    created in answer to the one before, so the secret that goes into it is known to both
    sides.  A ratchet sends on one epoch; it has the last five epochs of the other side
    that it has started, each moved to some index, and some of the keys it has passed
    over. -/

namespace OlmRatchet

open ByteMemory OlmCrypto OlmMessage OlmList RecentLog
open OlmSession (SharedKey olmSuite)

/-- A sender chain as it was created, and the root key that was created with it. -/
structure Epoch where
  ratchetKey : Curve25519KeyPair
  rootKey : SharedKey
  chainKey : SharedKey

/-- The ratchet key that the messages of an epoch name. -/
def Epoch.publicKey (e : Epoch) : Curve25519PublicKey := e.ratchetKey.publicKey

/-- The chain key of the first message. -/
def Epoch.firstKey (e : Epoch) : ChainKey SharedKey := { index := 0, key := e.chainKey }

variable (prim : Primitives)

/-- The key of a message of an epoch. -/
def Epoch.messageKey (e : Epoch) (counter : UInt32) : MessageKey SharedKey :=
  messageKeyOf (olmSuite prim) e.firstKey counter.toNat

/-- The chain key behind `k` messages of an epoch. -/
def Epoch.chainKeyAt (e : Epoch) (k : Nat) : ChainKey SharedKey where
  index := UInt32.ofNat k
  key := chainKeyIn (olmSuite prim) k e.chainKey

/-- The second epoch was created in answer to the first one. -/
def Follows (old new : Epoch) : Prop :=
  createChainKey (olmSuite prim) old.rootKey new.ratchetKey old.publicKey
    = (new.rootKey, new.firstKey)

/-- The epochs of the two sides, each with the last one first.  The newest one is of the first
    side; it was created in answer to the newest one of the second side. -/
inductive Exchange : List Epoch → List Epoch → Prop
  | first (e : Epoch) (hmatches : e.ratchetKey.Matches prim) : Exchange [e] []
  | next {e new : Epoch} {mine theirs : List Epoch} (h : Exchange (e :: mine) theirs)
      (hmatches : new.ratchetKey.Matches prim) (hfollows : Follows prim e new) :
      Exchange (new :: theirs) (e :: mine)

variable {prim}

theorem Exchange.matches {mine theirs : List Epoch} (h : Exchange prim mine theirs) :
    ∀ e ∈ mine ++ theirs, e.ratchetKey.Matches prim := by
  induction h with
  | first e hmatches =>
      intro other hother
      rw [List.mem_singleton.mp hother]
      exact hmatches
  | @next e new mine theirs h hmatches hfollows ih =>
      intro other hother
      -- the sides have changed places
      rcases List.mem_cons.mp hother with rfl | hother
      · exact hmatches
      · exact ih other (List.mem_append.mpr (List.mem_append.mp hother).symm)

/-- **THE ANSWERED SIDE** derives the new epoch from its own half of the keys. -/
theorem Exchange.derived (hdh : prim.DhCommutes) {e new : Epoch} {mine theirs : List Epoch}
    (h : Exchange prim (new :: mine) (e :: theirs)) :
    createChainKey (olmSuite prim) e.rootKey e.ratchetKey new.publicKey
      = (new.rootKey, new.firstKey) := by
  have hnew := h.matches new (List.mem_append_left _ List.mem_cons_self)
  have hold := h.matches e (List.mem_append_right _ List.mem_cons_self)
  cases h with
  | next h hmatches hfollows =>
      -- the creator of the new epoch had the public half of the old one
      have hsecret : (olmSuite prim).sharedSecret e.ratchetKey new.publicKey
          = (olmSuite prim).sharedSecret new.ratchetKey e.publicKey :=
        congrArg Vector.toList (sharedSecret_comm prim hdh hold hnew)
      rw [createChainKey, hsecret]
      exact hfollows

/-! ## Sending -/

variable (prim) in
/-- The sender chain is that of an epoch, and `k` messages were sent on it. -/
structure Sends (r : Ratchet SharedKey) (e : Epoch) (k : Nat) : Prop where
  rootKey : r.rootKey = e.rootKey
  chain : r.senderChain.toList = [{ ratchetKey := e.ratchetKey, chainKey := e.chainKeyAt prim k }]
  few : k < 2 ^ 32

variable {r r' : Ratchet SharedKey} {e : Epoch} {k : Nat}

theorem Sends.congr (h : Sends prim r e k) (hroot : r'.rootKey = r.rootKey)
    (hsender : r'.senderChain = r.senderChain) : Sends prim r' e k :=
  ⟨hroot.trans h.rootKey, hsender ▸ h.chain, h.few⟩

theorem createMessageKeys_chainKeyAt (hfew : k < 2 ^ 32) :
    createMessageKeys (olmSuite prim) (e.chainKeyAt prim k)
      = e.messageKey prim (UInt32.ofNat k) := by
  rw [Epoch.messageKey, UInt32.toNat_ofNat_of_lt' hfew]
  rfl

theorem advanceChainKey_chainKeyAt :
    advanceChainKey (olmSuite prim) (e.chainKeyAt prim k) = e.chainKeyAt prim (k + 1) := by
  have hindex : UInt32.ofNat k + 1 = UInt32.ofNat (k + 1) := by
    rw [UInt32.ofNat_add]
    rfl
  rw [advanceChainKey, Epoch.chainKeyAt, Epoch.chainKeyAt, hindex, chainKeyIn, chainKeyIn,
    Function.iterate_succ_apply']

/-- An index that is not zero again. -/
theorem succ_lt_of_index_ne (hfew : k < 2 ^ 32) (hindex : UInt32.ofNat (k + 1) ≠ 0) :
    k + 1 < 2 ^ 32 := by
  by_contra hlast
  obtain rfl : k = 2 ^ 32 - 1 := by omega
  exact hindex rfl

/-- **A MESSAGE** on a chain that is there. -/
theorem Sends.afterSending (h : Sends prim r e k) (random : Vector UInt8 32) :
    (afterSending (olmSuite prim) r random).rootKey = e.rootKey ∧
      (OlmRatchet.afterSending (olmSuite prim) r random).senderChain.toList
        = [{ ratchetKey := e.ratchetKey, chainKey := e.chainKeyAt prim (k + 1) }] ∧
      sendingKey (olmSuite prim) r random = e.messageKey prim (UInt32.ofNat k) := by
  have hsender : senderChainFor (olmSuite prim) r random
      = (e.rootKey, { ratchetKey := e.ratchetKey, chainKey := e.chainKeyAt prim k }) := by
    rw [senderChainFor, h.chain]
    exact congrArg (·, _) h.rootKey
  refine ⟨?_, ?_, ?_⟩
  · rw [OlmRatchet.afterSending, hsender]
  · rw [OlmRatchet.afterSending, hsender]
    show [_] = [_]
    rw [advanceChainKey_chainKeyAt]
  · rw [sendingKey, hsender]
    exact createMessageKeys_chainKeyAt h.few

/-- **THE FIRST MESSAGE** of a new epoch, in answer to the newest receiver chain. -/
theorem afterSending_new {chain : ReceiverChain SharedKey} {rest : List (ReceiverChain SharedKey)}
    (hsender : r.senderChain.toList = []) (hroot : r.rootKey = e.rootKey)
    (hnewest : r.receiverChains.toList = chain :: rest) (hkey : chain.ratchetKey = e.publicKey)
    (random : Vector UInt8 32) :
    ∃ new : Epoch, new.ratchetKey = (olmSuite prim).generateKey random ∧ Follows prim e new ∧
      Sends prim (afterSending (olmSuite prim) r random) new 1 ∧
      sendingKey (olmSuite prim) r random = new.messageKey prim 0 := by
  obtain ⟨created, hcreated⟩ : ∃ created, createChainKey (olmSuite prim) e.rootKey
      ((olmSuite prim).generateKey random) e.publicKey = created := ⟨_, rfl⟩
  obtain ⟨rootKey, index, chainKey⟩ := created
  obtain rfl : index = 0 := (congrArg (fun created => created.2.index) hcreated).symm
  -- a new chain is derived from the key of the first receiver chain
  have hfor : senderChainFor (olmSuite prim) r random
      = (rootKey, { ratchetKey := (olmSuite prim).generateKey random
                    chainKey := { index := 0, key := chainKey } }) := by
    rw [senderChainFor, hsender, hnewest]
    simp only
    rw [hroot, hkey, hcreated]
  refine ⟨{ ratchetKey := (olmSuite prim).generateKey random, rootKey, chainKey }, rfl, hcreated,
    ⟨?_, ?_, by decide⟩, ?_⟩
  · rw [afterSending, hfor]
  · rw [afterSending, hfor]
    rfl
  · rw [sendingKey, hfor]
    rfl

/-! ## Receiving -/

variable (prim)

/-- What a ratchet has of the epochs of the other side that it has started; `passed` has the
    names of all keys that were ever put into its list of skipped keys. -/
structure Receives (theirs : List Epoch) (r : Ratchet SharedKey) (passed : List KeyName) :
    Prop where
  keys : receiverKeys r = (theirs.map Epoch.publicKey).take maxReceiverChains
  chains : ∀ chain ∈ r.receiverChains.toList, ∀ e ∈ theirs, chain.ratchetKey = e.publicKey →
    chain.chainKey.key = chainKeyIn (olmSuite prim) chain.chainKey.index.toNat e.chainKey
  skipped : ∀ skipped ∈ r.skippedMessageKeys.toList, ∀ e ∈ theirs,
    skipped.ratchetKey = e.publicKey →
    skipped.messageKey = e.messageKey prim skipped.messageKey.index
  kept : Kept passed (r.skippedMessageKeys.toList.map skippedName)
  known : ∀ name ∈ passed, name.1 ∈ theirs.map Epoch.publicKey
  behind : ∀ name ∈ passed, ∀ chain ∈ r.receiverChains.toList, chain.ratchetKey = name.1 →
    name.2 < chain.chainKey.index

/-- What a ratchet has for the messages that are still to come: the keys that it has passed
    over, as long as they are recent. -/
structure Waits (r : Ratchet SharedKey) (passed inbox : List KeyName) : Prop where
  distinct : inbox.Nodup
  logged : ∀ name ∈ inbox, ∀ chain ∈ r.receiverChains.toList, chain.ratchetKey = name.1 →
    name.2 < chain.chainKey.index → name ∈ passed
  kept : ∀ name ∈ inbox, name ∈ passed.take maxSkippedMessageKeys →
    name ∈ r.skippedMessageKeys.toList.map skippedName

variable {prim} {theirs : List Epoch} {passed inbox : List KeyName}

theorem chainKeyIn_add (i j : Nat) (key : SharedKey) :
    chainKeyIn (olmSuite prim) i (chainKeyIn (olmSuite prim) j key)
      = chainKeyIn (olmSuite prim) (i + j) key := by
  rw [chainKeyIn, chainKeyIn, chainKeyIn, Function.iterate_add_apply]

/-- A moved chain has the message keys of its epoch. -/
theorem messageKeyOf_chain {chain : ReceiverChain SharedKey} {index : Nat}
    (hchain : chain.chainKey.key
      = chainKeyIn (olmSuite prim) chain.chainKey.index.toNat e.chainKey)
    (hindex : chain.chainKey.index.toNat ≤ index) :
    messageKeyOf (olmSuite prim) chain.chainKey index
      = messageKeyOf (olmSuite prim) e.firstKey index := by
  rw [messageKeyOf, messageKeyOf, hchain, chainKeyIn_add, Nat.sub_add_cancel hindex]
  rfl

/-- Two receiver chains with one ratchet key are the same. -/
theorem Receives.chain_unique (h : Receives prim theirs r passed)
    (hdistinct : (theirs.map Epoch.publicKey).Nodup) {chain chain' : ReceiverChain SharedKey}
    (hchain : chain ∈ r.receiverChains.toList) (hchain' : chain' ∈ r.receiverChains.toList)
    (hkey : chain.ratchetKey = chain'.ratchetKey) : chain = chain' := by
  have hnodup : (receiverKeys r).Nodup := by
    rw [h.keys]
    exact hdistinct.sublist (List.take_sublist _ _)
  exact List.inj_on_of_nodup_map hnodup hchain hchain' hkey

section Moved

variable {before after : List (ReceiverChain SharedKey)} {chain : ReceiverChain SharedKey}
  {counter : UInt32}

/-- The chains behind a message: the one that was moved, and chains with other keys. -/
theorem Receives.mem_moved (h : Receives prim theirs r passed)
    (hdistinct : (theirs.map Epoch.publicKey).Nodup)
    (hlist : r.receiverChains.toList = before ++ chain :: after)
    (hmoved : MovedPast (olmSuite prim) r before chain after counter r')
    {other : ReceiverChain SharedKey} (hother : other ∈ r'.receiverChains.toList) :
    other = chainBehind (olmSuite prim) chain counter ∨
      other ∈ r.receiverChains.toList ∧ other.ratchetKey ≠ chain.ratchetKey := by
  have hnodup : (receiverKeys r).Nodup := by
    rw [h.keys]
    exact hdistinct.sublist (List.take_sublist _ _)
  rw [receiverKeys, hlist, List.map_append, List.map_cons, List.nodup_middle, List.nodup_cons,
    ← List.map_append] at hnodup
  rw [hmoved.receiverChains] at hother
  have hrest : other ∈ before ++ after → other ∈ r.receiverChains.toList ∧
      other.ratchetKey ≠ chain.ratchetKey := by
    intro hmem
    refine ⟨?_, fun hsame => hnodup.1 (hsame ▸ List.mem_map_of_mem hmem)⟩
    rw [hlist]
    rcases List.mem_append.mp hmem with hmem | hmem
    · exact List.mem_append_left _ hmem
    · exact List.mem_append_right _ (List.mem_cons_of_mem _ hmem)
  rcases List.mem_append.mp hother with hbefore | hbehind
  · exact Or.inr (hrest (List.mem_append_left _ hbefore))
  · rcases List.mem_cons.mp hbehind with rfl | hafter
    · exact Or.inl rfl
    · exact Or.inr (hrest (List.mem_append_right _ hafter))

/-- No key is passed over twice. -/
theorem Receives.nodup_passed (h : Receives prim theirs r passed)
    (hchain : chain ∈ r.receiverChains.toList) :
    (passedNames chain.ratchetKey chain.chainKey.index counter ++ passed).Nodup := by
  refine List.Nodup.append (nodup_passedNames _ _ _) h.kept.nodup ?_
  intro name hnew hold
  obtain ⟨hkey, hle, -⟩ := mem_passedNames.mp hnew
  exact absurd (h.behind name hold chain hchain hkey.symm) (UInt32.not_lt.mpr hle)

/-- The names of the skipped keys behind a message. -/
theorem MovedPast.names (hmoved : MovedPast (olmSuite prim) r before chain after counter r') :
    r'.skippedMessageKeys.toList.map skippedName
      = (passedNames chain.ratchetKey chain.chainKey.index counter
          ++ r.skippedMessageKeys.toList.map skippedName).take maxSkippedMessageKeys := by
  rw [hmoved.skippedMessageKeys, List.map_take, List.map_append, map_passedOver]
  rfl

theorem toNat_succ_counter (hlast : counter ≠ 0xFFFFFFFF) :
    (counter + 1).toNat = counter.toNat + 1 := by
  have hlt := UInt32.lt_iff_toNat_lt.mp (lt_succ_counter hlast)
  have hcounter := counter.toNat_lt
  rw [UInt32.toNat_add, show (1 : UInt32).toNat = 1 from rfl] at hlt ⊢
  omega

theorem lt_of_lt_succ_counter {index : UInt32} (h : index < counter + 1) (hne : index ≠ counter) :
    index < counter := by
  have hlt := UInt32.lt_iff_toNat_lt.mp h
  have hne : index.toNat ≠ counter.toNat := fun heq => hne (UInt32.toNat_inj.mp heq)
  rw [UInt32.toNat_add, show (1 : UInt32).toNat = 1 from rfl] at hlt
  rw [UInt32.lt_iff_toNat_lt]
  omega

/-- **A CHAIN IS MOVED** and stays a chain of its epoch. -/
theorem Receives.moved (h : Receives prim theirs r passed)
    (hdistinct : (theirs.map Epoch.publicKey).Nodup)
    (hlist : r.receiverChains.toList = before ++ chain :: after) (he : e ∈ theirs)
    (hkey : chain.ratchetKey = e.publicKey) (hcounter : chain.chainKey.index ≤ counter)
    (hlast : counter ≠ 0xFFFFFFFF)
    (hmoved : MovedPast (olmSuite prim) r before chain after counter r') :
    Receives prim theirs r'
      (passedNames chain.ratchetKey chain.chainKey.index counter ++ passed) := by
  have hchain : chain ∈ r.receiverChains.toList := by
    rw [hlist]
    exact List.mem_append_right _ List.mem_cons_self
  have hepoch := h.chains chain hchain e he hkey
  have hle := UInt32.le_iff_toNat_le.mp hcounter
  refine ⟨?_, ?_, ?_, ?_, ?_, ?_⟩
  · rw [← h.keys, receiverKeys, receiverKeys, hmoved.receiverChains, hlist, List.map_append,
      List.map_append]
    rfl
  · intro other hother e' he' hsame
    rcases h.mem_moved hdistinct hlist hmoved hother with rfl | ⟨hold, -⟩
    · obtain rfl : e' = e := List.inj_on_of_nodup_map hdistinct he' he (hsame.symm.trans hkey)
      show chainKeyIn _ _ chain.chainKey.key = chainKeyIn _ (counter + 1).toNat _
      rw [hepoch, chainKeyIn_add, toNat_succ_counter hlast, Nat.sub_add_cancel (by omega)]
    · exact h.chains other hold e' he' hsame
  · intro skipped hskipped e' he' hsame
    rw [hmoved.skippedMessageKeys] at hskipped
    rcases List.mem_append.mp (List.mem_of_mem_take hskipped) with hnew | hold
    · obtain ⟨index, hindex, rfl⟩ := List.mem_map.mp hnew
      obtain rfl : e' = e := List.inj_on_of_nodup_map hdistinct he' he (hsame.symm.trans hkey)
      rw [List.mem_reverse, List.mem_range'_1] at hindex
      have hlt := counter.toNat_lt
      show messageKeyOf _ _ index = messageKeyOf _ _ (UInt32.ofNat index).toNat
      rw [messageKeyOf_chain hepoch hindex.1,
        UInt32.toNat_ofNat_of_lt' (show index < 2 ^ 32 by omega)]
    · exact h.skipped skipped hold e' he' hsame
  · rw [hmoved.names]
    exact h.kept.push (h.nodup_passed hchain)
  · intro name hname
    rcases List.mem_append.mp hname with hnew | hold
    · rw [(mem_passedNames.mp hnew).1, hkey]
      exact List.mem_map_of_mem he
    · exact h.known name hold
  · intro name hname other hother hsame
    rcases h.mem_moved hdistinct hlist hmoved hother with rfl | ⟨hold, hne⟩
    · refine UInt32.lt_trans ?_ (lt_succ_counter hlast)
      rcases List.mem_append.mp hname with hnew | hname
      · exact (mem_passedNames.mp hnew).2.2
      · exact UInt32.lt_of_lt_of_le (h.behind name hname chain hchain hsame) hcounter
    · rcases List.mem_append.mp hname with hnew | hname
      · exact absurd (hsame.trans (mem_passedNames.mp hnew).1) hne
      · exact h.behind name hname other hold hsame

/-- **A CHAIN IS MOVED**, and the keys that were passed over are there for the messages that are
    still to come. -/
theorem Waits.moved (h : Waits r passed inbox) (hr : Receives prim theirs r passed)
    (hdistinct : (theirs.map Epoch.publicKey).Nodup)
    (hlist : r.receiverChains.toList = before ++ chain :: after)
    (hmoved : MovedPast (olmSuite prim) r before chain after counter r') :
    Waits r' (passedNames chain.ratchetKey chain.chainKey.index counter ++ passed)
      (inbox.erase (chain.ratchetKey, counter)) := by
  have hchain : chain ∈ r.receiverChains.toList := by
    rw [hlist]
    exact List.mem_append_right _ List.mem_cons_self
  refine ⟨h.distinct.erase _, ?_, ?_⟩
  · intro name hname other hother hsame hindex
    obtain ⟨hne, hname⟩ := (List.Nodup.mem_erase_iff h.distinct).mp hname
    rcases hr.mem_moved hdistinct hlist hmoved hother with rfl | ⟨hold, -⟩
    · by_cases hpast : name.2 < chain.chainKey.index
      · exact List.mem_append_right _ (h.logged name hname chain hchain hsame hpast)
      · -- the key was passed over just now
        refine List.mem_append_left _ (mem_passedNames.mpr
          ⟨hsame.symm, UInt32.not_lt.mp hpast, ?_⟩)
        have hother : name.2 ≠ counter := fun heq => hne (Prod.ext hsame.symm heq)
        exact lt_of_lt_succ_counter hindex hother
    · exact List.mem_append_right _ (h.logged name hname other hold hsame hindex)
  · intro name hname hrecent
    have hname := List.mem_of_mem_erase hname
    rw [hmoved.names]
    refine hr.kept.mem_push (hr.nodup_passed hchain) ?_ hrecent
    by_cases hnew : name ∈ passedNames chain.ratchetKey chain.chainKey.index counter
    · exact Or.inl hnew
    · exact Or.inr (h.kept name hname (mem_take_old hnew hrecent))

end Moved

/-- **A SKIPPED KEY** is taken out. -/
theorem Receives.erase (h : Receives prim theirs r passed) (i : Nat) :
    Receives prim theirs { r with skippedMessageKeys := r.skippedMessageKeys.erase i } passed where
  keys := h.keys
  chains := h.chains
  skipped := fun skipped hskipped => h.skipped skipped (BoundedList.mem_erase hskipped)
  kept := by
    show Kept passed ((r.skippedMessageKeys.toList.eraseIdx i).map skippedName)
    rw [← List.eraseIdx_map]
    exact h.kept.erase i
  known := h.known
  behind := h.behind

theorem Waits.erase (h : Waits r passed inbox) {i : Nat} {skipped : SkippedMessageKey SharedKey}
    (hskipped : r.skippedMessageKeys.toList[i]? = some skipped) :
    Waits { r with skippedMessageKeys := r.skippedMessageKeys.erase i } passed
      (inbox.erase (skippedName skipped)) where
  distinct := h.distinct.erase _
  logged := fun name hname => h.logged name (List.mem_of_mem_erase hname)
  kept := by
    intro name hname hrecent
    obtain ⟨hne, hname⟩ := (List.Nodup.mem_erase_iff h.distinct).mp hname
    show name ∈ (r.skippedMessageKeys.toList.eraseIdx i).map skippedName
    rw [← List.eraseIdx_map]
    refine RecentLog.mem_erase (h.kept name hname hrecent) ?_ hne
    rw [List.getElem?_map, hskipped]
    rfl

/-- **A NEW CHAIN** is started, at its first index. -/
theorem Receives.start (h : Receives prim theirs r passed) {chain : ReceiverChain SharedKey}
    (hdistinct : ((e :: theirs).map Epoch.publicKey).Nodup)
    (hchain : chain = { ratchetKey := e.publicKey, chainKey := e.firstKey })
    (hchains : r'.receiverChains = r.receiverChains.insert chain)
    (hskipped : r'.skippedMessageKeys = r.skippedMessageKeys) :
    Receives prim (e :: theirs) r' passed := by
  obtain ⟨hnew, -⟩ := List.nodup_cons.mp hdistinct
  have hkeys : receiverKeys r' = ((e :: theirs).map Epoch.publicKey).take maxReceiverChains := by
    rw [receiverKeys, hchains, BoundedList.toList_insert, List.map_take, List.map_cons, hchain]
    show e.publicKey :: (receiverKeys r).take 4 = e.publicKey :: (theirs.map Epoch.publicKey).take 4
    rw [h.keys, List.take_take]
    rfl
  have hmem : ∀ other ∈ r'.receiverChains.toList,
      other = chain ∨ other ∈ r.receiverChains.toList := by
    intro other hother
    rw [hchains] at hother
    exact BoundedList.mem_insert hother
  have hold : ∀ other ∈ r.receiverChains.toList, other.ratchetKey ∈ theirs.map Epoch.publicKey := by
    intro other hother
    have hkey : other.ratchetKey ∈ receiverKeys r := List.mem_map_of_mem hother
    rw [h.keys] at hkey
    exact List.mem_of_mem_take hkey
  refine ⟨hkeys, ?_, ?_, ?_, ?_, ?_⟩
  · intro other hother e' he' hsame
    rcases hmem other hother with rfl | hother
    · obtain rfl : e' = e := by
        refine List.inj_on_of_nodup_map hdistinct he' List.mem_cons_self ?_
        rw [← hsame, hchain]
      rw [hchain]
      rfl
    · rcases List.mem_cons.mp he' with rfl | he'
      · exact absurd (hsame ▸ hold other hother) hnew
      · exact h.chains other hother e' he' hsame
  · intro skipped hmem' e' he' hsame
    rw [hskipped] at hmem'
    rcases List.mem_cons.mp he' with rfl | he'
    · have hname := h.known _ (h.kept.sublist.subset (List.mem_map_of_mem hmem'))
      exact absurd (hsame ▸ hname) hnew
    · exact h.skipped skipped hmem' e' he' hsame
  · rw [hskipped]
    exact h.kept
  · intro name hname
    exact List.mem_cons_of_mem _ (h.known name hname)
  · intro name hname other hother hsame
    rcases hmem other hother with rfl | hother
    · rw [hchain] at hsame
      have hknown := h.known name hname
      rw [← hsame] at hknown
      exact absurd hknown hnew
    · exact h.behind name hname other hother hsame

theorem Waits.start (h : Waits r passed inbox) {chain : ReceiverChain SharedKey}
    (hindex : chain.chainKey.index = 0)
    (hchains : r'.receiverChains = r.receiverChains.insert chain)
    (hskipped : r'.skippedMessageKeys = r.skippedMessageKeys) : Waits r' passed inbox where
  distinct := h.distinct
  logged := by
    intro name hname other hother hsame hpast
    rw [hchains] at hother
    rcases BoundedList.mem_insert hother with rfl | hold
    · rw [hindex] at hpast
      exact absurd hpast (UInt32.not_lt.mpr (UInt32.le_iff_toNat_le.mpr (Nat.zero_le _)))
    · exact h.logged name hname other hold hsame hpast
  kept := by
    rw [hskipped]
    exact h.kept

/-- Only the receiver chains and the skipped keys matter. -/
theorem Receives.congr (h : Receives prim theirs r passed)
    (hchains : r'.receiverChains = r.receiverChains)
    (hskipped : r'.skippedMessageKeys = r.skippedMessageKeys) : Receives prim theirs r' passed where
  keys := by
    rw [receiverKeys, hchains]
    exact h.keys
  chains := hchains ▸ h.chains
  skipped := hskipped ▸ h.skipped
  kept := hskipped ▸ h.kept
  known := h.known
  behind := hchains ▸ h.behind

theorem Waits.congr (h : Waits r passed inbox) (hchains : r'.receiverChains = r.receiverChains)
    (hskipped : r'.skippedMessageKeys = r.skippedMessageKeys) : Waits r' passed inbox where
  distinct := h.distinct
  logged := hchains ▸ h.logged
  kept := hskipped ▸ h.kept

/-- Fewer messages to come. -/
theorem Waits.subset {fewer : List KeyName} (h : Waits r passed inbox) (hfewer : fewer ⊆ inbox)
    (hdistinct : fewer.Nodup) : Waits r passed fewer where
  distinct := hdistinct
  logged := fun name hname => h.logged name (hfewer hname)
  kept := fun name hname => h.kept name (hfewer hname)

/-- One message more, from the end of its chain. -/
theorem Waits.sent (h : Waits r passed inbox) {name : KeyName} (hnew : name ∉ inbox)
    (hpassed : name ∉ passed)
    (hchains : ∀ chain ∈ r.receiverChains.toList, chain.ratchetKey = name.1 →
      chain.chainKey.index ≤ name.2) : Waits r passed (name :: inbox) where
  distinct := List.nodup_cons.mpr ⟨hnew, h.distinct⟩
  logged := by
    intro other hother chain hchain hkey hpast
    rcases List.mem_cons.mp hother with rfl | hother
    · exact absurd hpast (UInt32.not_lt.mpr (hchains chain hchain hkey))
    · exact h.logged other hother chain hchain hkey hpast
  kept := by
    intro other hother hrecent
    rcases List.mem_cons.mp hother with rfl | hother
    · exact absurd (List.mem_of_mem_take hrecent) hpassed
    · exact h.kept other hother hrecent

/-! ## One call -/

/-- The next index of a chain; 0 for a chain that was not started. -/
def nextIndex (r : Ratchet SharedKey) (key : Curve25519PublicKey) : UInt32 :=
  ((r.receiverChains.toList.find? (fun chain => chain.ratchetKey = key)).map
    (fun chain => chain.chainKey.index)).getD 0

/-- The names of the keys that are passed over where a message is accepted. -/
def passedBy (r : Ratchet SharedKey) (name : KeyName) : List KeyName :=
  passedNames name.1 (nextIndex r name.1) name.2

theorem index_messageKey (e : Epoch) (counter : UInt32) :
    (e.messageKey prim counter).index = counter :=
  UInt32.ofNat_toNat

/-- The chain of an epoch, and its place. -/
theorem Receives.held (h : Receives prim theirs r passed)
    (hdistinct : (theirs.map Epoch.publicKey).Nodup) {key : Curve25519PublicKey}
    (hheld : key ∈ receiverKeys r) :
    ∃ before chain after, r.receiverChains.toList = before ++ chain :: after ∧
      (∀ other ∈ before, other.ratchetKey ≠ key) ∧ chain.ratchetKey = key ∧
      nextIndex r key = chain.chainKey.index := by
  obtain ⟨chain, hchain, rfl⟩ := List.mem_map.mp hheld
  obtain ⟨before, after, hlist⟩ := List.append_of_mem hchain
  have hnodup : (receiverKeys r).Nodup := by
    rw [h.keys]
    exact hdistinct.sublist (List.take_sublist _ _)
  rw [receiverKeys, hlist, List.map_append, List.map_cons, List.nodup_middle, List.nodup_cons]
    at hnodup
  refine ⟨before, chain, after, hlist, ?_, rfl, ?_⟩
  · intro other hother hsame
    exact hnodup.1 (List.mem_append_left _ (hsame ▸ List.mem_map_of_mem hother))
  · rw [nextIndex]
    cases hfind : r.receiverChains.toList.find? (fun other => other.ratchetKey = chain.ratchetKey)
      with
    | none =>
        have hno := List.find?_eq_none.mp hfind chain hchain
        exact absurd (decide_eq_true rfl) hno
    | some other =>
        have hfound := List.find?_some hfind
        have hsame := of_decide_eq_true hfound
        rw [h.chain_unique hdistinct (List.mem_of_find?_eq_some hfind) hchain hsame]
        rfl

/-- The chain of the newest epoch is the first one. -/
theorem Receives.newest (h : Receives prim (e :: theirs) r passed) :
    ∃ chain rest, r.receiverChains.toList = chain :: rest ∧ chain.ratchetKey = e.publicKey := by
  have hkeys := h.keys
  rw [receiverKeys] at hkeys
  cases hlist : r.receiverChains.toList with
  | nil =>
      rw [hlist] at hkeys
      cases hkeys
  | cons chain rest =>
      rw [hlist] at hkeys
      exact ⟨chain, rest, rfl, (List.cons.inj hkeys).1⟩

/-- A new epoch has no chain yet. -/
theorem Receives.notMem_new (h : Receives prim theirs r passed)
    (hdistinct : ((e :: theirs).map Epoch.publicKey).Nodup) : e.publicKey ∉ receiverKeys r := by
  intro hmem
  rw [h.keys] at hmem
  exact (List.nodup_cons.mp hdistinct).1 (List.mem_of_mem_take hmem)

theorem nextIndex_of_notMem {key : Curve25519PublicKey} (h : key ∉ receiverKeys r) :
    nextIndex r key = 0 := by
  rw [nextIndex, List.find?_eq_none.mpr]
  · rfl
  · intro chain hchain hsame
    exact h (List.mem_map.mpr ⟨chain, hchain, of_decide_eq_true hsame⟩)

/-- The parts of a ratchet with a new chain. -/
theorem withDerivedChain_eq {K I : Type} (S : Suite K I) {r opened : Ratchet K}
    {senderChain : SenderChain K} {key : Curve25519PublicKey} {rootKey : K} {chainKey : ChainKey K}
    (h : createChainKey S r.rootKey senderChain.ratchetKey key = (rootKey, chainKey))
    (hopened : withDerivedChain S r senderChain key = opened) :
    derivedChain S r senderChain key = { ratchetKey := key, chainKey } ∧
      opened.rootKey = rootKey ∧ opened.senderChain.toList = [] ∧
      opened.receiverChains = r.receiverChains.insert { ratchetKey := key, chainKey } ∧
      opened.skippedMessageKeys = r.skippedMessageKeys := by
  have hchain : derivedChain S r senderChain key = { ratchetKey := key, chainKey } :=
    congrArg (fun created => ReceiverChain.mk key created.2) h
  subst hopened
  exact ⟨hchain, congrArg Prod.fst h, rfl, congrArg r.receiverChains.insert hchain, rfl⟩

variable (prim) in
/-- What a ratchet is like behind a message that it has accepted. -/
structure Took (theirs : List Epoch) (r r' : Ratchet SharedKey) (passed inbox : List KeyName)
    (name : KeyName) : Prop where
  receives : Receives prim theirs r' (passedBy r name ++ passed)
  waits : Waits r' (passedBy r name ++ passed) (inbox.erase name)
  chains : ∀ chain ∈ r'.receiverChains.toList, chain ∈ r.receiverChains.toList ∨
    chain.ratchetKey = name.1 ∧ chain.chainKey.index = name.2 + 1

section Calls

variable {m m' : Mem} {stack : MessageReader} {counter : UInt32} {bs : Bytes}
  {input inputLength plaintext maxPlaintextLength n : Nat}

/-- **A MESSAGE OF A CHAIN THAT IS THERE** is accepted. -/
theorem Receives.accepted (h : Receives prim theirs r passed) (hw : Waits r passed inbox)
    (hdistinct : (theirs.map Epoch.publicKey).Nodup) (he : e ∈ theirs)
    (hheld : e.publicKey ∈ receiverKeys r) (hlast : counter ≠ 0xFFFFFFFF)
    (hmessage : Holds prim m input inputLength (e.messageKey prim counter) e.publicKey bs)
    (hseparate : Separate plaintext maxPlaintextLength input inputLength)
    (hcall : decrypt (olmSuite prim) r stack m input inputLength plaintext maxPlaintextLength
      = (m', r', some n)) :
    r'.rootKey = r.rootKey ∧ r'.senderChain = r.senderChain ∧
      Took prim theirs r r' passed inbox (e.publicKey, counter) := by
  obtain ⟨before, chain, after, hlist, hfirst, hkey, hnext⟩ := h.held hdistinct hheld
  obtain ⟨hdisjoint, hchecked, key, haccepted⟩ :=
    decrypt_checked (olmSuite prim) (olmSuite_framed prim) hseparate hcall
  have hratchet := hmessage.readerRatchetKey_eq stack
  have hcounter := (hmessage.counter_eq stack).trans (index_messageKey e counter)
  generalize decodeMessage stack m input inputLength (olmSuite prim).ratchetCipher.macLength
    = reader at *
  have hfirst' : ∀ other ∈ before, other.ratchetKey ≠ readerRatchetKey m reader := by
    rw [hratchet]
    exact hfirst
  have hkey' := hkey.trans hratchet.symm
  have hpassed : passedBy r (e.publicKey, counter)
      = passedNames chain.ratchetKey chain.chainKey.index counter := by
    rw [passedBy, hnext, hkey]
  by_cases hindex : chain.chainKey.index ≤ counter
  · obtain ⟨-, hmoved⟩ := haccepted.moved _ hlist hfirst' hkey' (hcounter ▸ hindex)
    rw [hcounter] at hmoved
    refine ⟨hmoved.rootKey, hmoved.senderChain, ?_, ?_, ?_⟩
    · rw [hpassed]
      exact h.moved hdistinct hlist he hkey hindex hlast hmoved
    · rw [hpassed, ← hkey]
      exact hw.moved h hdistinct hlist hmoved
    · intro other hother
      rcases h.mem_moved hdistinct hlist hmoved hother with rfl | ⟨hold, -⟩
      · exact Or.inr ⟨hkey, rfl⟩
      · exact Or.inl hold
  · have hlt := UInt32.not_le.mp hindex
    obtain ⟨i, skipped, m₁, hplace, hname, hsame, -, -, rfl⟩ := decryptChecked_takes _
      (olmSuite_framed prim) hdisjoint hchecked hlist hfirst' hkey' (hcounter ▸ hlt)
    rw [hratchet] at hname
    rw [hcounter] at hsame
    rw [passedNames_of_le (UInt32.le_of_lt hlt)] at hpassed
    refine ⟨rfl, rfl, ?_, ?_, fun other hother => Or.inl hother⟩
    · rw [hpassed]
      exact h.erase i
    · have hwaits := hw.erase hplace
      rw [hpassed]
      rwa [skippedName, hname, hsame] at hwaits

/-- **THE FIRST MESSAGE OF A NEW CHAIN** is accepted. -/
theorem Receives.accepted_new (h : Receives prim theirs r passed) (hw : Waits r passed inbox)
    (hdistinct : ((e :: theirs).map Epoch.publicKey).Nodup) (hlast : counter ≠ 0xFFFFFFFF)
    {senderChain : SenderChain SharedKey} (hsender : r.senderChain.toList = [senderChain])
    (hderived : createChainKey (olmSuite prim) r.rootKey senderChain.ratchetKey e.publicKey
      = (e.rootKey, e.firstKey))
    (hmessage : Holds prim m input inputLength (e.messageKey prim counter) e.publicKey bs)
    (hseparate : Separate plaintext maxPlaintextLength input inputLength)
    (hcall : decrypt (olmSuite prim) r stack m input inputLength plaintext maxPlaintextLength
      = (m', r', some n)) :
    r'.rootKey = e.rootKey ∧ r'.senderChain.toList = [] ∧
      Took prim (e :: theirs) r r' passed inbox (e.publicKey, counter) := by
  have habsent := h.notMem_new hdistinct
  obtain ⟨-, -, key, haccepted⟩ :=
    decrypt_checked (olmSuite prim) (olmSuite_framed prim) hseparate hcall
  have hratchet := hmessage.readerRatchetKey_eq stack
  have hcounter := (hmessage.counter_eq stack).trans (index_messageKey e counter)
  generalize decodeMessage stack m input inputLength (olmSuite prim).ratchetCipher.macLength
    = reader at *
  have habsent' : ∀ chain ∈ r.receiverChains.toList,
      chain.ratchetKey ≠ readerRatchetKey m reader := by
    intro chain hchain hsame
    exact habsent (List.mem_map.mpr ⟨chain, hchain, hsame.trans hratchet⟩)
  obtain ⟨senderChain', hsender', -, hmoved⟩ := haccepted.started _ habsent'
  rw [hratchet, hcounter] at hmoved
  obtain rfl : senderChain' = senderChain := List.singleton_inj.mp (hsender'.symm.trans hsender)
  generalize hopened : withDerivedChain (olmSuite prim) r senderChain' e.publicKey = opened
    at hmoved
  obtain ⟨hchain, hroot, hempty, hchains, hskipped⟩ :=
    withDerivedChain_eq (olmSuite prim) hderived hopened
  rw [hchain] at hmoved
  have hstart : Receives prim (e :: theirs) opened passed :=
    h.start hdistinct rfl hchains hskipped
  have hwaits : Waits opened passed inbox := hw.start rfl hchains hskipped
  have hlist : opened.receiverChains.toList
      = [] ++ { ratchetKey := e.publicKey, chainKey := e.firstKey }
        :: r.receiverChains.toList.take 4 := by
    rw [hchains]
    rfl
  have hpassed : passedBy r (e.publicKey, counter) = passedNames e.publicKey 0 counter := by
    rw [passedBy, nextIndex_of_notMem habsent]
  refine ⟨hmoved.rootKey.trans hroot, ?_, ?_, ?_, ?_⟩
  · rw [hmoved.senderChain]
    exact hempty
  · rw [hpassed]
    exact hstart.moved hdistinct hlist List.mem_cons_self rfl
      (UInt32.le_iff_toNat_le.mpr (Nat.zero_le _)) hlast hmoved
  · rw [hpassed]
    exact hwaits.moved hstart hdistinct hlist hmoved
  · intro other hother
    rcases hstart.mem_moved hdistinct hlist hmoved hother with rfl | ⟨hold, hne⟩
    · exact Or.inr ⟨rfl, rfl⟩
    · rw [hchains] at hold
      rcases BoundedList.mem_insert hold with rfl | hold
      · exact absurd rfl hne
      · exact Or.inl hold

/-! ## Messages that can be read -/

/-- The call has the plaintext in its buffer. -/
def ReadsAs (call : Mem × Ratchet SharedKey × Option Nat) (plaintext : Nat) (bs : Bytes) : Prop :=
  call.2.2 = some bs.length ∧ read call.1 plaintext bs.length = bs

theorem readsAs_write (m : Mem) (plaintext : Nat) (bs padding : Bytes) (r : Ratchet SharedKey) :
    ReadsAs (write m plaintext (bs ++ padding), r, some bs.length) plaintext bs := by
  refine ⟨rfl, ?_⟩
  have hmiddle : read (write m plaintext (bs ++ padding)) plaintext (bs ++ padding).length
      = [] ++ (bs ++ padding) := read_write_self m plaintext _
  have hread := read_middle hmiddle
  rwa [List.length_nil, Nat.add_zero] at hread

/-- The skipped keys before the one of the message are not tried. -/
theorem trySkippedKeys_named {K I : Type} (S : Suite K I) {reader : MessageReader}
    {skipped : SkippedMessageKey K} {after : List (SkippedMessageKey K)}
    (hname : skippedName skipped = (readerRatchetKey m reader, reader.counter))
    (hverify : verifyMacAndDecrypt S skipped.messageKey reader m plaintext maxPlaintextLength
      = (m', some n)) :
    ∀ (before : List (SkippedMessageKey K)) (pos : Nat),
      (∀ other ∈ before, skippedName other ≠ skippedName skipped) →
      trySkippedKeys S reader plaintext maxPlaintextLength pos (before ++ skipped :: after) m
        = (m', some (pos + before.length, n)) := by
  intro before
  induction before with
  | nil =>
      intro pos _
      obtain ⟨hkey, hcounter⟩ := Prod.mk.inj hname
      rw [List.nil_append, trySkippedKeys, if_pos ⟨hcounter.symm, hkey⟩, hverify]
      rfl
  | cons other before ih =>
      intro pos hbefore
      have hother : ¬(reader.counter = other.messageKey.index ∧
          other.ratchetKey = readerRatchetKey m reader) := by
        rintro ⟨hcounter, hkey⟩
        refine hbefore other List.mem_cons_self ?_
        rw [hname, skippedName, hcounter, hkey]
      rw [List.cons_append, trySkippedKeys, if_neg hother,
        ih (pos + 1) (fun skipped hmem => hbefore skipped (List.mem_cons_of_mem other hmem)),
        List.length_cons, Nat.add_right_comm, Nat.add_assoc]

/-- **RECEIVING** a message whose key was skipped. -/
theorem Holds.decrypt_skipped {key : MessageKey SharedKey} {ratchetKey : Curve25519PublicKey}
    (h : Holds prim m input inputLength key ratchetKey bs) (hinverts : prim.AesInverts)
    (hroom : cryptoAesEncryptCbcLength bs.length ≤ maxPlaintextLength)
    (hseparate : Separate plaintext maxPlaintextLength input inputLength)
    {before after : List (ReceiverChain SharedKey)} {chain : ReceiverChain SharedKey}
    (hlist : r.receiverChains.toList = before ++ chain :: after)
    (hfirst : ∀ other ∈ before, other.ratchetKey ≠ ratchetKey)
    (hchain : chain.ratchetKey = ratchetKey) (hcounter : key.index < chain.chainKey.index)
    {earlier later : List (SkippedMessageKey SharedKey)}
    (hskipped : r.skippedMessageKeys.toList
      = earlier ++ { ratchetKey, messageKey := key } :: later)
    (hearlier : ∀ other ∈ earlier, skippedName other ≠ (ratchetKey, key.index)) :
    ReadsAs (decrypt (olmSuite prim) r stack m input inputLength plaintext maxPlaintextLength)
      plaintext bs := by
  have hverify := h.verify hinverts stack hroom hseparate
  have hratchet := h.readerRatchetKey_eq stack
  have hindex := h.counter_eq stack
  rw [decrypt_eq _ (h.header stack hroom)]
  generalize decodeMessage stack m input inputLength (olmSuite prim).ratchetCipher.macLength
    = reader at *
  subst hratchet
  have hplace : r.receiverChains.toList[before.length]? = some chain := by
    rw [hlist, List.getElem?_append_right (Nat.le_refl _), Nat.sub_self]
    rfl
  have hname : skippedName { ratchetKey := readerRatchetKey m reader, messageKey := key }
      = (readerRatchetKey m reader, reader.counter) := by
    rw [skippedName, hindex]
  rw [decryptChecked_skipped _ (findChain_first hlist hfirst hchain) hplace (hindex ▸ hcounter),
    hskipped, trySkippedKeys_named _ hname hverify earlier 0 hearlier]
  exact readsAs_write m plaintext bs _ _

/-- **A MESSAGE OF A CHAIN THAT IS THERE** can be read, as long as the chain is not too far
    behind, and the key was not passed over too long ago. -/
theorem Receives.readsAs (h : Receives prim theirs r passed) (hw : Waits r passed inbox)
    (hdistinct : (theirs.map Epoch.publicKey).Nodup) (he : e ∈ theirs)
    (hheld : e.publicKey ∈ receiverKeys r) (hwaiting : (e.publicKey, counter) ∈ inbox)
    (hgap : counter.toNat ≤ (nextIndex r e.publicKey).toNat + maxMessageGap)
    (hrecent : (e.publicKey, counter) ∈ passed →
      (e.publicKey, counter) ∈ passed.take maxSkippedMessageKeys)
    (hmessage : Holds prim m input inputLength (e.messageKey prim counter) e.publicKey bs)
    (hinverts : prim.AesInverts)
    (hroom : cryptoAesEncryptCbcLength bs.length ≤ maxPlaintextLength)
    (hseparate : Separate plaintext maxPlaintextLength input inputLength) :
    ReadsAs (decrypt (olmSuite prim) r stack m input inputLength plaintext maxPlaintextLength)
      plaintext bs := by
  obtain ⟨before, chain, after, hlist, hfirst, hkey, hnext⟩ := h.held hdistinct hheld
  have hchain : chain ∈ r.receiverChains.toList := by
    rw [hlist]
    exact List.mem_append_right _ List.mem_cons_self
  have hindex : (e.messageKey prim counter).index = counter := index_messageKey e counter
  by_cases hpast : counter < chain.chainKey.index
  · -- the key was put into the list, and is still there
    have hpassed := hw.logged _ hwaiting chain hchain hkey hpast
    obtain ⟨skipped, hskipped, hname⟩ :=
      List.mem_map.mp (hw.kept _ hwaiting (hrecent hpassed))
    obtain ⟨hratchet, hcounter⟩ := Prod.mk.inj hname
    have hopens := h.skipped skipped hskipped e he hratchet
    rw [hcounter] at hopens
    obtain ⟨earlier, later, hplace⟩ := List.append_of_mem hskipped
    have hnodup := h.kept.nodup_kept
    rw [hplace, List.map_append, List.map_cons, List.nodup_middle, List.nodup_cons] at hnodup
    have hearlier : ∀ other ∈ earlier, skippedName other ≠ skippedName skipped := by
      intro other hother hsame
      exact hnodup.1 (List.mem_append_left _ (hsame ▸ List.mem_map_of_mem hother))
    obtain ⟨ratchetKey, messageKey⟩ := skipped
    simp only at hratchet hopens
    subst hratchet hopens
    refine hmessage.decrypt_skipped hinverts hroom hseparate hlist hfirst hkey ?_ hplace hearlier
    rw [hindex]
    exact hpast
  · have hle := UInt32.le_iff_toNat_le.mp (UInt32.not_lt.mp hpast)
    rw [hnext] at hgap
    have hopens : messageKeyOf (olmSuite prim) chain.chainKey
        (e.messageKey prim counter).index.toNat = e.messageKey prim counter := by
      rw [hindex]
      exact messageKeyOf_chain (h.chains chain hchain e he hkey) hle
    rw [hmessage.decrypt_next hinverts stack hroom hseparate hlist hfirst hkey
      (by rw [hindex]; exact hpast) (by rw [hindex]; omega) hopens]
    exact readsAs_write m plaintext bs _ _

/-- **A MESSAGE OF A NEW CHAIN** can be read, up to the message gap. -/
theorem Receives.readsAs_new (h : Receives prim theirs r passed)
    (hdistinct : ((e :: theirs).map Epoch.publicKey).Nodup)
    {senderChain : SenderChain SharedKey} (hsender : r.senderChain.toList = [senderChain])
    (hderived : createChainKey (olmSuite prim) r.rootKey senderChain.ratchetKey e.publicKey
      = (e.rootKey, e.firstKey))
    (hgap : counter.toNat ≤ maxMessageGap)
    (hmessage : Holds prim m input inputLength (e.messageKey prim counter) e.publicKey bs)
    (hinverts : prim.AesInverts)
    (hroom : cryptoAesEncryptCbcLength bs.length ≤ maxPlaintextLength)
    (hseparate : Separate plaintext maxPlaintextLength input inputLength) :
    ReadsAs (decrypt (olmSuite prim) r stack m input inputLength plaintext maxPlaintextLength)
      plaintext bs := by
  have hindex : (e.messageKey prim counter).index = counter := index_messageKey e counter
  have hchain := (withDerivedChain_eq (olmSuite prim) hderived rfl).1
  rw [hmessage.decrypt_new hinverts stack hroom hseparate (h.notMem_new hdistinct) hsender
    (by rw [hindex]; exact hgap) (by rw [hchain, hindex]; rfl)]
  exact readsAs_write m plaintext bs _ _

end Calls

end OlmRatchet
