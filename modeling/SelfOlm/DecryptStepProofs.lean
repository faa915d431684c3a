import SelfOlm.RatchetInvariantProofs

/-! # Decryption is the step of the double ratchet

    What a chain is, without the loops of the code: its `n`-th key is the first
    one hashed `n` times, and message keys and the chain behind a message are
    read off by their index.  `decrypt` computes a chain twice, on a copy to
    check the MAC and on the ratchet to store the keys passed over; both are the
    chain of this description. -/

namespace OlmRatchet

open ByteMemory OlmCrypto OlmMessage OlmList

variable {K I : Type} (S : Suite K I)

/-! ## Chains by index -/

/-- The chain key `n` places on. -/
def chainKeyIn (n : Nat) (key : K) : K := (fun key => S.hmac key chainKeySeed)^[n] key

/-- The message key of this index of a chain. -/
def messageKeyOf (chainKey : ChainKey K) (index : Nat) : MessageKey K where
  index := UInt32.ofNat index
  key := S.hmac (chainKeyIn S (index - chainKey.index.toNat) chainKey.key) messageKeySeed

/-- The keys of the messages before the one with this counter, the last one first. -/
def passedOver (chain : ReceiverChain K) (counter : UInt32) : List (SkippedMessageKey K) :=
  (List.range' chain.chainKey.index.toNat
      (counter.toNat - chain.chainKey.index.toNat)).reverse.map (fun index =>
    { ratchetKey := chain.ratchetKey, messageKey := messageKeyOf S chain.chainKey index })

/-- The chain behind the message with this counter. -/
def chainBehind (chain : ReceiverChain K) (counter : UInt32) : ReceiverChain K where
  ratchetKey := chain.ratchetKey
  chainKey := {
    index := counter + 1
    key := chainKeyIn S (counter.toNat + 1 - chain.chainKey.index.toNat) chain.chainKey.key }

theorem chainKeyAfter_key (n : Nat) (chainKey : ChainKey K) :
    (chainKeyAfter S n chainKey).key = chainKeyIn S n chainKey.key := by
  induction n with
  | zero => rfl
  | succ n ih =>
      rw [chainKeyAfter_succ', chainKeyIn, Function.iterate_succ_apply']
      show S.hmac (chainKeyAfter S n chainKey).key chainKeySeed = _
      rw [ih]
      rfl

theorem createMessageKeys_chainKeyAfter (n : Nat) (chainKey : ChainKey K) :
    createMessageKeys S (chainKeyAfter S n chainKey)
      = messageKeyOf S chainKey (chainKey.index.toNat + n) := by
  have hindex : (chainKeyAfter S n chainKey).index
      = UInt32.ofNat (chainKey.index.toNat + n) := by
    rw [index_chainKeyAfter, UInt32.ofNat_add, UInt32.ofNat_toNat]
  rw [createMessageKeys, messageKeyOf, hindex, chainKeyAfter_key, Nat.add_sub_cancel_left]

theorem nextKeys_eq (n : Nat) (chain : ReceiverChain K) :
    nextKeys S n chain = (List.range' chain.chainKey.index.toNat n).map (fun index =>
      { ratchetKey := chain.ratchetKey, messageKey := messageKeyOf S chain.chainKey index }) := by
  have hkeys : ∀ (n k : Nat),
      nextKeys S n { chain with chainKey := chainKeyAfter S k chain.chainKey }
        = (List.range' (chain.chainKey.index.toNat + k) n).map (fun index =>
          { ratchetKey := chain.ratchetKey
            messageKey := messageKeyOf S chain.chainKey index }) := by
    intro n
    induction n with
    | zero => intro k; rfl
    | succ n ih =>
        intro k
        rw [nextKeys, List.range'_succ, List.map_cons, createMessageKeys_chainKeyAfter]
        show _ :: nextKeys S n { chain with
          chainKey := advanceChainKey S (chainKeyAfter S k chain.chainKey) } = _
        rw [← chainKeyAfter_succ', ih (k + 1), Nat.add_assoc]
  exact hkeys n 0

/-! ## The loops of the code -/

theorem gap_eq {chainKey : ChainKey K} {counter : UInt32} (h : ¬counter < chainKey.index) :
    gap chainKey counter = counter.toNat - chainKey.index.toNat := by
  have hadd := index_add_gap h
  omega

theorem keyAt_eq {chainKey : ChainKey K} {counter : UInt32} (h : ¬counter < chainKey.index) :
    keyAt S chainKey counter = messageKeyOf S chainKey counter.toNat := by
  rw [keyAt, createMessageKeys_chainKeyAfter, index_add_gap h]

theorem chainPast_eq {chain : ReceiverChain K} {counter : UInt32}
    (h : ¬counter < chain.chainKey.index) :
    chainPast S chain counter = chainBehind S chain counter := by
  have hadd := index_add_gap h
  have hindex : (chainKeyAfter S (gap chain.chainKey counter + 1) chain.chainKey).index
      = counter + 1 := by
    rw [index_chainKeyAfter, UInt32.ofNat_add, ← UInt32.add_assoc, gap, UInt32.ofNat_toNat,
      UInt32.add_comm chain.chainKey.index, UInt32.sub_add_cancel]
    rfl
  have hkey := chainKeyAfter_key S (gap chain.chainKey counter + 1) chain.chainKey
  rw [show gap chain.chainKey counter + 1 = counter.toNat + 1 - chain.chainKey.index.toNat by
    omega] at hindex hkey
  rw [chainPast, chainBehind, ← hindex, ← hkey,
    show gap chain.chainKey counter + 1 = counter.toNat + 1 - chain.chainKey.index.toNat by omega]

theorem skippedPast_eq {chain : ReceiverChain K} {counter : UInt32}
    (h : ¬counter < chain.chainKey.index)
    (skipped : BoundedList (SkippedMessageKey K) maxSkippedMessageKeys) :
    (skippedPast S chain counter skipped).toList
      = (passedOver S chain counter ++ skipped.toList).take 40 := by
  rw [skippedPast, BoundedList.toList_foldl_insert, nextKeys_eq, gap_eq h, passedOver,
    List.map_reverse]
  rfl

/-! ## The search for a chain -/

theorem findChain_first {r : Ratchet K} {m : Mem} {reader : MessageReader}
    {before after : List (ReceiverChain K)} {chain : ReceiverChain K}
    (hlist : r.receiverChains.toList = before ++ chain :: after)
    (hfirst : ∀ other ∈ before, other.ratchetKey ≠ readerRatchetKey m reader)
    (hkey : chain.ratchetKey = readerRatchetKey m reader) :
    findChain r m reader = some before.length := by
  rw [findChain, hlist, List.findIdx?_append, List.findIdx?_eq_none_iff.mpr, List.findIdx?_cons,
    decide_eq_true hkey, if_pos rfl]
  · exact congrArg some (Nat.zero_add _)
  · intro other hother
    exact decide_eq_false (hfirst other hother)

theorem findChain_absent {r : Ratchet K} {m : Mem} {reader : MessageReader}
    (h : ∀ chain ∈ r.receiverChains.toList, chain.ratchetKey ≠ readerRatchetKey m reader) :
    findChain r m reader = none := by
  rw [findChain, List.findIdx?_eq_none_iff]
  intro chain hchain
  exact decide_eq_false (h chain hchain)

/-- A message behind its chain is left to the skipped keys. -/
theorem decryptChecked_skipped {r : Ratchet K} {m : Mem} {reader : MessageReader} {pos : Nat}
    {chain : ReceiverChain K} (hfind : findChain r m reader = some pos)
    (hchain : r.receiverChains.toList[pos]? = some chain)
    (hcounter : reader.counter < chain.chainKey.index) (plaintext maxPlaintextLength : Nat) :
    decryptChecked S r m reader plaintext maxPlaintextLength
      = match trySkippedKeys S reader plaintext maxPlaintextLength 0 r.skippedMessageKeys.toList m
          with
        | (m, none) => (m, { r with lastError := .badMessageMac }, none)
        | (m, some (pos, result)) =>
            (m, { r with skippedMessageKeys := r.skippedMessageKeys.erase pos }, some result) := by
  rw [decryptChecked, hfind]
  simp only [hchain]
  exact if_pos hcounter

/-! ## The step -/

/-- A chain is moved behind the message, the keys passed over go to the front of the skipped
    keys, and nothing else changes. -/
structure MovedPast (r : Ratchet K) (before : List (ReceiverChain K)) (chain : ReceiverChain K)
    (after : List (ReceiverChain K)) (counter : UInt32) (r' : Ratchet K) : Prop where
  receiverChains : r'.receiverChains.toList = before ++ chainBehind S chain counter :: after
  skippedMessageKeys : r'.skippedMessageKeys.toList
    = (passedOver S chain counter ++ r.skippedMessageKeys.toList).take 40
  rootKey : r'.rootKey = r.rootKey
  senderChain : r'.senderChain = r.senderChain
  lastError : r'.lastError = r.lastError

/-- The root key and the chain key that follow from the old root key, the sender key and the
    key of the message. -/
def derivedKeys (r : Ratchet K) (senderChain : SenderChain K) (theirKey : Curve25519PublicKey) :
    K × K :=
  S.hkdf (S.sharedSecret senderChain.ratchetKey theirKey) (some r.rootKey) S.kdfInfo.ratchetInfo

/-- The new chain at its start. -/
def derivedChain (r : Ratchet K) (senderChain : SenderChain K) (theirKey : Curve25519PublicKey) :
    ReceiverChain K where
  ratchetKey := theirKey
  chainKey := { index := 0, key := (derivedKeys S r senderChain theirKey).2 }

/-- The ratchet with the new chain in front, before the chain is moved. -/
def withDerivedChain (r : Ratchet K) (senderChain : SenderChain K)
    (theirKey : Curve25519PublicKey) : Ratchet K :=
  { r with
    rootKey := (derivedKeys S r senderChain theirKey).1
    senderChain := .empty
    receiverChains := r.receiverChains.insert (derivedChain S r senderChain theirKey) }

section Steps

variable {r r' : Ratchet K} {m m' : Mem} {reader : MessageReader}
  {plaintext maxPlaintextLength n : Nat} {key : MessageKey K}

/-- A message that its chain has not passed moves the chain. -/
theorem Accepted.moved
    (haccepted : Accepted S r m reader plaintext maxPlaintextLength m' n key r')
    {before after : List (ReceiverChain K)} {chain : ReceiverChain K}
    (hlist : r.receiverChains.toList = before ++ chain :: after)
    (hfirst : ∀ other ∈ before, other.ratchetKey ≠ readerRatchetKey m reader)
    (hkey : chain.ratchetKey = readerRatchetKey m reader)
    (hindex : chain.chainKey.index ≤ reader.counter) :
    verifyMacAndDecrypt S (messageKeyOf S chain.chainKey reader.counter.toNat) reader m plaintext
        maxPlaintextLength = (m', some n) ∧
      MovedPast S r before chain after reader.counter r' := by
  have hfind := findChain_first hlist hfirst hkey
  have hchain : r.receiverChains.toList[before.length]? = some chain := by
    rw [hlist, List.getElem?_append_right (Nat.le_refl _), Nat.sub_self]
    rfl
  cases haccepted with
  | newChain hfind' => exact nomatch hfind'.symm.trans hfind
  | @nextKey pos chain' hfind' hchain' hcounter _ hverify =>
      obtain rfl := Option.some.inj (hfind'.symm.trans hfind)
      obtain rfl := Option.some.inj (hchain'.symm.trans hchain)
      rw [keyAt_eq S hcounter] at hverify
      refine ⟨hverify, ?_, skippedPast_eq S hcounter _, rfl, rfl, rfl⟩
      rw [BoundedList.toList_set, hlist, List.set_append_right _ _ (Nat.le_refl _),
        Nat.sub_self, chainPast_eq S hcounter]
      rfl
  | @skippedKey pos i chain' skipped m₁ hfind' hchain' hcounter =>
      obtain rfl := Option.some.inj (hfind'.symm.trans hfind)
      obtain rfl := Option.some.inj (hchain'.symm.trans hchain)
      exact absurd hcounter (UInt32.not_lt.mpr hindex)

/-- A message that its chain has passed takes its key out of the skipped keys. -/
theorem decryptChecked_takes (hframed : S.ratchetCipher.Framed)
    (hdisjoint : Disjoint plaintext (maxPlaintextLength + 15) (reader.ratchetKey.getD 0) 32)
    (h : decryptChecked S r m reader plaintext maxPlaintextLength = (m', r', some n))
    {before after : List (ReceiverChain K)} {chain : ReceiverChain K}
    (hlist : r.receiverChains.toList = before ++ chain :: after)
    (hfirst : ∀ other ∈ before, other.ratchetKey ≠ readerRatchetKey m reader)
    (hkey : chain.ratchetKey = readerRatchetKey m reader)
    (hcounter : reader.counter < chain.chainKey.index) :
    ∃ i skipped m₁, r.skippedMessageKeys.toList[i]? = some skipped ∧
      skipped.ratchetKey = readerRatchetKey m reader ∧
      skipped.messageKey.index = reader.counter ∧
      SameOutside plaintext (maxPlaintextLength + 15) m m₁ ∧
      verifyMacAndDecrypt S skipped.messageKey reader m₁ plaintext maxPlaintextLength
        = (m', some n) ∧
      r' = { r with skippedMessageKeys := r.skippedMessageKeys.erase i } := by
  have hfind := findChain_first hlist hfirst hkey
  have hchain : r.receiverChains.toList[before.length]? = some chain := by
    rw [hlist, List.getElem?_append_right (Nat.le_refl _), Nat.sub_self]
    rfl
  rw [decryptChecked_skipped S hfind hchain hcounter] at h
  rcases hv : trySkippedKeys S reader plaintext maxPlaintextLength 0
    r.skippedMessageKeys.toList m with ⟨m₁, _ | ⟨i, result⟩⟩
  · rw [hv] at h
    cases (Prod.mk.inj (Prod.mk.inj h).2).2
  · rw [hv] at h
    simp only [Prod.mk.injEq, Option.some.injEq] at h
    obtain ⟨rfl, rfl, rfl⟩ := h
    obtain ⟨k, skipped, m₂, hi, hk, hindex, hratchet, hattempts, hverify⟩ :=
      trySkippedKeys_some S _ 0 m hv
    rw [Nat.zero_add] at hi
    subst hi
    have hframe := hattempts.frame hframed
    -- the failed attempts leave the ratchet key of the message alone
    have hsame : readerRatchetKey m₂ reader = readerRatchetKey m reader :=
      load_congr (hframe.read_eq hdisjoint)
    exact ⟨_, skipped, m₂, hk, hratchet.trans hsame, hindex.symm, hframe, hverify, rfl⟩

/-- A message with a ratchet key without chain starts one. -/
theorem Accepted.started
    (haccepted : Accepted S r m reader plaintext maxPlaintextLength m' n key r')
    (habsent : ∀ chain ∈ r.receiverChains.toList, chain.ratchetKey ≠ readerRatchetKey m reader) :
    ∃ senderChain, r.senderChain.toList = [senderChain] ∧
      verifyMacAndDecrypt S (messageKeyOf S
          (derivedChain S r senderChain (readerRatchetKey m reader)).chainKey reader.counter.toNat)
        reader m plaintext maxPlaintextLength = (m', some n) ∧
      MovedPast S (withDerivedChain S r senderChain (readerRatchetKey m reader)) []
        (derivedChain S r senderChain (readerRatchetKey m reader)) (r.receiverChains.toList.take 4)
        reader.counter r' := by
  have hfind := findChain_absent habsent
  cases haccepted with
  | @newChain senderChain chain rootKey _ hsender hcreate hkey hgap hverify =>
      have hroot : rootKey = (derivedKeys S r senderChain (readerRatchetKey m reader)).1 :=
        (congrArg Prod.fst hcreate).symm
      have hchain : chain = derivedChain S r senderChain (readerRatchetKey m reader) := by
        obtain ⟨ratchetKey, chainKey⟩ := chain
        rw [derivedChain, ReceiverChain.mk.injEq]
        exact ⟨hkey, (congrArg Prod.snd hcreate).symm⟩
      subst hroot hchain
      have hcounter : ¬reader.counter
          < (derivedChain S r senderChain (readerRatchetKey m reader)).chainKey.index :=
        UInt32.not_lt.mpr (UInt32.le_iff_toNat_le.mpr (Nat.zero_le _))
      rw [keyAt_eq S hcounter] at hverify
      refine ⟨senderChain, hsender, hverify, ?_, skippedPast_eq S hcounter _, rfl, rfl, rfl⟩
      rw [BoundedList.toList_insert, chainPast_eq S hcounter]
      rfl
  | nextKey hfind' => exact nomatch hfind.symm.trans hfind'
  | skippedKey hfind' => exact nomatch hfind.symm.trans hfind'

/-- A call that succeeds has passed the checks of the header. -/
theorem decrypt_checked (hframed : S.ratchetCipher.Framed) {stack : MessageReader}
    {input inputLength : Nat} (hseparate : Separate plaintext maxPlaintextLength input inputLength)
    (h : decrypt S r stack m input inputLength plaintext maxPlaintextLength = (m', r', some n)) :
    let reader := decodeMessage stack m input inputLength S.ratchetCipher.macLength
    Disjoint plaintext (maxPlaintextLength + 15) (reader.ratchetKey.getD 0) 32 ∧
      decryptChecked S r m reader plaintext maxPlaintextLength = (m', r', some n) ∧
      ∃ key, Accepted S r m reader plaintext maxPlaintextLength m' n key r' := by
  have hheader := decrypt_header S h
  have haccepted := decrypt_some S hframed hseparate h
  rw [decrypt_eq S hheader] at h
  exact ⟨hheader.ratchetKey_disjoint S hseparate, h, haccepted⟩

end Steps

/-- **THE STEP** of an accepted message: which chain it moves, which keys are stored, and which
    key authenticates the message. -/
theorem decrypt_step (hframed : S.ratchetCipher.Framed) {r r' : Ratchet K}
    {stack : MessageReader} {m m' : Mem} {input inputLength plaintext maxPlaintextLength n : Nat}
    (hseparate : Separate plaintext maxPlaintextLength input inputLength)
    (h : decrypt S r stack m input inputLength plaintext maxPlaintextLength = (m', r', some n)) :
    let reader := decodeMessage stack m input inputLength S.ratchetCipher.macLength
    let theirKey := readerRatchetKey m reader
    let counter := reader.counter
    (∀ before chain after, r.receiverChains.toList = before ++ chain :: after →
      (∀ other ∈ before, other.ratchetKey ≠ theirKey) → chain.ratchetKey = theirKey →
      (chain.chainKey.index ≤ counter →
        verifyMacAndDecrypt S (messageKeyOf S chain.chainKey counter.toNat) reader m plaintext
          maxPlaintextLength = (m', some n) ∧
        MovedPast S r before chain after counter r') ∧
      (counter < chain.chainKey.index →
        ∃ i skipped m₁, r.skippedMessageKeys.toList[i]? = some skipped ∧
          skipped.ratchetKey = theirKey ∧ skipped.messageKey.index = counter ∧
          SameOutside plaintext (maxPlaintextLength + 15) m m₁ ∧
          verifyMacAndDecrypt S skipped.messageKey reader m₁ plaintext maxPlaintextLength
            = (m', some n) ∧
          r' = { r with skippedMessageKeys := r.skippedMessageKeys.erase i })) ∧
    ((∀ chain ∈ r.receiverChains.toList, chain.ratchetKey ≠ theirKey) →
      ∃ senderChain, r.senderChain.toList = [senderChain] ∧
        verifyMacAndDecrypt S
          (messageKeyOf S (derivedChain S r senderChain theirKey).chainKey counter.toNat) reader m
          plaintext maxPlaintextLength = (m', some n) ∧
        MovedPast S (withDerivedChain S r senderChain theirKey) []
          (derivedChain S r senderChain theirKey) (r.receiverChains.toList.take 4) counter r') := by
  obtain ⟨hdisjoint, hchecked, key, haccepted⟩ := decrypt_checked S hframed hseparate h
  generalize decodeMessage stack m input inputLength S.ratchetCipher.macLength = reader at *
  refine ⟨?_, haccepted.started S⟩
  intro before chain after hlist hfirst hkey
  exact ⟨haccepted.moved S hlist hfirst hkey,
    decryptChecked_takes S hframed hdisjoint hchecked hlist hfirst hkey⟩

/-! ## The other way round

    Where the message key opens the message, `decrypt` accepts it. -/

theorem verifyMacAndDecryptForExistingChain_eq {chainKey : ChainKey K} {reader : MessageReader}
    (hcounter : ¬reader.counter < chainKey.index)
    (hgap : reader.counter.toNat - chainKey.index.toNat ≤ maxMessageGap) (m : Mem)
    (plaintext maxPlaintextLength : Nat) :
    verifyMacAndDecryptForExistingChain S chainKey reader m plaintext maxPlaintextLength
      = verifyMacAndDecrypt S (messageKeyOf S chainKey reader.counter.toNat) reader m plaintext
          maxPlaintextLength := by
  have hadvance := advanceWhile_eq S reader.counter _ chainKey (index_add_gap hcounter)
  have hsmall : ¬(reader.counter - chainKey.index).toNat > maxMessageGap := by
    rw [← gap_eq hcounter] at hgap
    exact Nat.not_lt.mpr hgap
  rw [verifyMacAndDecryptForExistingChain, if_neg hcounter, if_neg hsmall]
  show verifyMacAndDecrypt S (createMessageKeys S
    (advanceWhile S reader.counter (gap chainKey reader.counter) chainKey)) reader m plaintext
      maxPlaintextLength = _
  rw [hadvance]
  show verifyMacAndDecrypt S (keyAt S chainKey reader.counter) reader m plaintext
    maxPlaintextLength = _
  rw [keyAt_eq S hcounter]

/-- The message key of a chain that is there opens the message. -/
theorem decryptChecked_next {r : Ratchet K} {m m' : Mem} {reader : MessageReader}
    {plaintext maxPlaintextLength n pos : Nat} {chain : ReceiverChain K}
    (hfind : findChain r m reader = some pos)
    (hchain : r.receiverChains.toList[pos]? = some chain)
    (hcounter : ¬reader.counter < chain.chainKey.index)
    (hgap : reader.counter.toNat - chain.chainKey.index.toNat ≤ maxMessageGap)
    (hverify : verifyMacAndDecrypt S (messageKeyOf S chain.chainKey reader.counter.toNat) reader m
      plaintext maxPlaintextLength = (m', some n)) :
    decryptChecked S r m reader plaintext maxPlaintextLength
      = (m', { r with
          receiverChains := r.receiverChains.set pos (chainBehind S chain reader.counter)
          skippedMessageKeys := skippedPast S chain reader.counter r.skippedMessageKeys },
          some n) := by
  rw [decryptChecked, hfind]
  simp only [hchain]
  rw [if_neg hcounter, verifyMacAndDecryptForExistingChain_eq S hcounter hgap, hverify]
  simp only
  rw [advanceReceiverChain_eq S hchain hcounter, chainPast_eq S hcounter]

/-- The message key of the derived chain opens the message. -/
theorem decryptChecked_new {r : Ratchet K} {m m' : Mem} {reader : MessageReader}
    {plaintext maxPlaintextLength n : Nat} {senderChain : SenderChain K}
    (hfind : findChain r m reader = none) (hsender : r.senderChain.toList = [senderChain])
    (hgap : reader.counter.toNat ≤ maxMessageGap)
    (hverify : verifyMacAndDecrypt S
      (messageKeyOf S (derivedChain S r senderChain (readerRatchetKey m reader)).chainKey
        reader.counter.toNat) reader m plaintext maxPlaintextLength = (m', some n))
    (hsame : readerRatchetKey m' reader = readerRatchetKey m reader) :
    decryptChecked S r m reader plaintext maxPlaintextLength
      = (m', { withDerivedChain S r senderChain (readerRatchetKey m reader) with
          receiverChains := r.receiverChains.insert
            (chainBehind S (derivedChain S r senderChain (readerRatchetKey m reader))
              reader.counter)
          skippedMessageKeys := skippedPast S
            (derivedChain S r senderChain (readerRatchetKey m reader)) reader.counter
            r.skippedMessageKeys },
          some n) := by
  generalize hchain : derivedChain S r senderChain (readerRatchetKey m reader) = chain at hverify ⊢
  have hindex : chain.chainKey.index = 0 := by rw [← hchain]; rfl
  have hratchet : chain.ratchetKey = readerRatchetKey m reader := by rw [← hchain]; rfl
  have hcounter : ¬reader.counter < chain.chainKey.index := by
    rw [hindex]
    exact UInt32.not_lt.mpr (UInt32.le_iff_toNat_le.mpr (Nat.zero_le _))
  have hcreate : createChainKey S r.rootKey senderChain.ratchetKey (readerRatchetKey m reader)
      = ((derivedKeys S r senderChain (readerRatchetKey m reader)).1, chain.chainKey) := by
    rw [← hchain]
    rfl
  have htrial : verifyMacAndDecryptForNewChain S r reader m plaintext maxPlaintextLength
      = (m', some n) := by
    rw [verifyMacAndDecryptForNewChain, hsender]
    simp only
    rw [if_neg (Nat.not_lt.mpr hgap), hcreate]
    simp only
    rw [verifyMacAndDecryptForExistingChain_eq S hcounter (by rw [hindex]; exact hgap), hverify]
  rw [decryptChecked, hfind]
  simp only [htrial]
  rw [hsame, ← hratchet,
    advance_startReceiverChain S hsender (hratchet ▸ hcreate) hcounter, chainPast_eq S hcounter,
    hratchet]
  rfl

/-- The suite of a session over simple primitives. -/
def loopbackSuite : Suite OlmSession.SharedKey Bytes := OlmSession.olmSuite demoPrimitives

/-- Alice's first ratchet key. -/
def loopbackKey : Curve25519KeyPair := loopbackSuite.generateKey (Vector.replicate 32 7)

/-- Bob before he has got anything. -/
def loopbackBob : Ratchet OlmSession.SharedKey :=
  initialiseAsBob loopbackSuite (newRatchet (Vector.replicate 32 0)) [1, 2, 3]
    loopbackKey.publicKey

/-- Alice in front of her first message. -/
def loopbackAlice : Ratchet OlmSession.SharedKey :=
  initialiseAsAlice loopbackSuite (newRatchet (Vector.replicate 32 0)) [1, 2, 3] loopbackKey

/-- The call that sends five bytes, with the message from place 200 on. -/
def loopbackEncrypt (r : Ratchet OlmSession.SharedKey) :
    Mem × Ratchet OlmSession.SharedKey × Option Nat :=
  encrypt loopbackSuite r (fun _ => 0) 0 5 100 0 200 63

/-- Her first message and her third one. -/
def loopbackFirst : Mem := (loopbackEncrypt loopbackAlice).1
def loopbackThird : Mem :=
  (loopbackEncrypt (loopbackEncrypt (loopbackEncrypt loopbackAlice).2.1).2.1).1

/-- Bob gets the third message before the first one. -/
def loopbackAhead : Mem × Ratchet OlmSession.SharedKey × Option Nat :=
  decrypt loopbackSuite loopbackBob OlmSession.messageReader loopbackThird 200 63 400 16
def loopbackLate : Mem × Ratchet OlmSession.SharedKey × Option Nat :=
  decrypt loopbackSuite loopbackAhead.2.1 OlmSession.messageReader loopbackFirst 200 63 400 16

/-- The header of a message of this test. -/
def loopbackReader (m : Mem) : MessageReader :=
  decodeMessage OlmSession.messageReader m 200 63 loopbackSuite.ratchetCipher.macLength

theorem loopback_accepted : loopbackAhead.2.2 = some 5 ∧ loopbackLate.2.2 = some 5 := by
  decide +kernel

theorem loopbackReader_third : (loopbackReader loopbackThird).counter = 2 ∧
    loopbackKey.publicKey = readerRatchetKey loopbackThird (loopbackReader loopbackThird) := by
  decide +kernel

theorem loopbackReader_first : (loopbackReader loopbackFirst).counter = 0 ∧
    loopbackKey.publicKey = readerRatchetKey loopbackFirst (loopbackReader loopbackFirst) := by
  decide +kernel

theorem eq_of_accepted {call : Mem × Ratchet OlmSession.SharedKey × Option Nat} {n : Nat}
    (h : call.2.2 = some n) : call = (call.1, call.2.1, some n) :=
  Prod.ext rfl (Prod.ext rfl h)

/-- Alice's third message moves Bob's chain from index 0 to index 3, with two keys stored; her
    first message then takes one of them and changes nothing else. -/
theorem decrypt_step_demo :
    ∃ chain, loopbackBob.receiverChains.toList = [chain] ∧
      MovedPast loopbackSuite loopbackBob [] chain [] 2 loopbackAhead.2.1 ∧
      ∃ i skipped, loopbackAhead.2.1.skippedMessageKeys.toList[i]? = some skipped ∧
        skipped.messageKey.index = 0 ∧
        loopbackLate.2.1 = { loopbackAhead.2.1 with
          skippedMessageKeys := loopbackAhead.2.1.skippedMessageKeys.erase i } := by
  have hseparate : Separate 400 16 200 63 := Or.inr (by decide)
  obtain ⟨hahead, hlate⟩ := loopback_accepted
  obtain ⟨hthird, hthirdKey⟩ := loopbackReader_third
  obtain ⟨hfirst, hfirstKey⟩ := loopbackReader_first
  obtain ⟨hknown, -⟩ := decrypt_step loopbackSuite (olmSuite_framed demoPrimitives) hseparate
    (eq_of_accepted hahead)
  obtain ⟨hpast, -⟩ := hknown [] _ [] rfl (fun _ hn => nomatch hn) hthirdKey
  rw [← loopbackReader, hthird] at hpast
  have hmoved := (hpast (UInt32.le_iff_toNat_le.mpr (Nat.zero_le _))).2
  refine ⟨_, rfl, hmoved, ?_⟩
  obtain ⟨hknown, -⟩ := decrypt_step loopbackSuite (olmSuite_framed demoPrimitives) hseparate
    (eq_of_accepted hlate)
  obtain ⟨-, hskipped⟩ := hknown [] _ [] hmoved.receiverChains (fun _ hn => nomatch hn) hfirstKey
  rw [← loopbackReader, hfirst] at hskipped
  obtain ⟨i, skipped, -, hmem, -, hindex, -, -, hsame⟩ := hskipped (by decide)
  exact ⟨i, skipped, hmem, hindex, hsame⟩

end OlmRatchet
