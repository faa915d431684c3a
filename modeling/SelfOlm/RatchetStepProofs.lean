import SelfOlm.Ratchet
import SelfOlm.MessageProofs

/-! # What one call of the ratchet does

    One inversion lemma for `encrypt` and one for `decrypt`.  A message is
    decrypted in one of three ways: by a new receiver chain, by the next keys of
    a chain that is there, or by a skipped key.  `Accepted` has a case for each,
    with the message key that opened the message and the ratchet behind the
    call; every result about runs is a case analysis on it. -/

namespace OlmRatchet

open ByteMemory OlmCrypto OlmMessage OlmList

variable {K I : Type} (S : Suite K I)

/-! ## Moving a chain -/

/-- A chain key moved `n` steps. -/
def chainKeyAfter (n : Nat) (chainKey : ChainKey K) : ChainKey K :=
  (advanceChainKey S)^[n] chainKey

theorem chainKeyAfter_zero (chainKey : ChainKey K) : chainKeyAfter S 0 chainKey = chainKey := rfl

theorem chainKeyAfter_succ (n : Nat) (chainKey : ChainKey K) :
    chainKeyAfter S (n + 1) chainKey = chainKeyAfter S n (advanceChainKey S chainKey) := rfl

theorem chainKeyAfter_succ' (n : Nat) (chainKey : ChainKey K) :
    chainKeyAfter S (n + 1) chainKey = advanceChainKey S (chainKeyAfter S n chainKey) :=
  Function.iterate_succ_apply' _ _ _

theorem index_chainKeyAfter (chainKey : ChainKey K) :
    ∀ n, (chainKeyAfter S n chainKey).index = chainKey.index + UInt32.ofNat n := by
  intro n
  induction n with
  | zero =>
      rw [chainKeyAfter_zero]
      exact (UInt32.add_zero _).symm
  | succ n ih =>
      rw [chainKeyAfter_succ']
      show (chainKeyAfter S n chainKey).index + 1 = _
      rw [ih, UInt32.add_assoc, UInt32.ofNat_add]
      rfl

/-- How far the counter of a message is ahead of a chain. -/
def gap (chainKey : ChainKey K) (counter : UInt32) : Nat := (counter - chainKey.index).toNat

theorem index_add_gap {chainKey : ChainKey K} {counter : UInt32}
    (h : ¬counter < chainKey.index) :
    chainKey.index.toNat + gap chainKey counter = counter.toNat := by
  have hle : chainKey.index.toNat ≤ counter.toNat :=
    UInt32.le_iff_toNat_le.mp (UInt32.not_lt.mp h)
  rw [gap, UInt32.toNat_sub_of_le _ _ (UInt32.not_lt.mp h)]
  omega

theorem index_step {chainKey : ChainKey K} {counter : UInt32} {n : Nat}
    (h : chainKey.index.toNat + (n + 1) = counter.toNat) :
    (advanceChainKey S chainKey).index.toNat + n = counter.toNat := by
  have hc := counter.toNat_lt
  show (chainKey.index + 1).toNat + n = _
  rw [UInt32.toNat_add, show (1 : UInt32).toNat = 1 from rfl, Nat.mod_eq_of_lt (by omega)]
  omega

/-- The `while` loop stops at the counter. -/
theorem advanceWhile_eq (counter : UInt32) :
    ∀ (n : Nat) (chainKey : ChainKey K), chainKey.index.toNat + n = counter.toNat →
      advanceWhile S counter n chainKey = chainKeyAfter S n chainKey := by
  intro n
  induction n with
  | zero => intro chainKey _; rfl
  | succ n ih =>
      intro chainKey h
      have hlt : chainKey.index < counter := UInt32.lt_iff_toNat_lt.mpr (by omega)
      rw [advanceWhile, if_pos hlt, chainKeyAfter_succ]
      exact ih _ (index_step S h)

/-- The next `n` message keys of a receiver chain. -/
def nextKeys : Nat → ReceiverChain K → List (SkippedMessageKey K)
  | 0, _ => []
  | n + 1, chain =>
      { ratchetKey := chain.ratchetKey, messageKey := createMessageKeys S chain.chainKey }
        :: nextKeys n { chain with chainKey := advanceChainKey S chain.chainKey }

/-- The loop at the end of `decrypt` moves the chain to the counter and stores
    the keys in between. -/
theorem skipKeys_eq (counter : UInt32) :
    ∀ (n : Nat) (chain : ReceiverChain K)
      (skipped : BoundedList (SkippedMessageKey K) maxSkippedMessageKeys),
      chain.chainKey.index.toNat + n = counter.toNat →
      skipKeys S counter n chain skipped
        = ({ chain with chainKey := chainKeyAfter S n chain.chainKey },
            (nextKeys S n chain).foldl BoundedList.insert skipped) := by
  intro n
  induction n with
  | zero => intro chain skipped _; rfl
  | succ n ih =>
      intro chain skipped h
      have hlt : chain.chainKey.index < counter := UInt32.lt_iff_toNat_lt.mpr (by omega)
      rw [skipKeys, if_pos hlt, ih _ _ (index_step S h)]
      rfl

/-- A receiver chain behind the message with this counter. -/
def chainPast (chain : ReceiverChain K) (counter : UInt32) : ReceiverChain K :=
  { chain with chainKey := chainKeyAfter S (gap chain.chainKey counter + 1) chain.chainKey }

/-- The skipped keys behind the message with this counter. -/
def skippedPast (chain : ReceiverChain K) (counter : UInt32)
    (skipped : BoundedList (SkippedMessageKey K) maxSkippedMessageKeys) :
    BoundedList (SkippedMessageKey K) maxSkippedMessageKeys :=
  (nextKeys S (gap chain.chainKey counter) chain).foldl BoundedList.insert skipped

/-- The message key of the message with this counter. -/
def keyAt (chainKey : ChainKey K) (counter : UInt32) : MessageKey K :=
  createMessageKeys S (chainKeyAfter S (gap chainKey counter) chainKey)

theorem advanceReceiverChain_eq {r : Ratchet K} {pos : Nat} {counter : UInt32}
    {chain : ReceiverChain K} (hchain : r.receiverChains.toList[pos]? = some chain)
    (hcounter : ¬counter < chain.chainKey.index) :
    advanceReceiverChain S r pos counter
      = { r with
          skippedMessageKeys := skippedPast S chain counter r.skippedMessageKeys
          receiverChains := r.receiverChains.set pos (chainPast S chain counter) } := by
  rw [advanceReceiverChain, hchain]
  simp only
  rw [show (counter - chain.chainKey.index).toNat = gap chain.chainKey counter from rfl,
    skipKeys_eq S counter _ chain _ (index_add_gap hcounter)]
  rw [chainPast, chainKeyAfter_succ']
  rfl

theorem verifyMacAndDecryptForExistingChain_some {chainKey : ChainKey K} {reader : MessageReader}
    {m m' : Mem} {plaintext maxPlaintextLength n : Nat}
    (h : verifyMacAndDecryptForExistingChain S chainKey reader m plaintext maxPlaintextLength
      = (m', some n)) :
    ¬reader.counter < chainKey.index ∧ gap chainKey reader.counter ≤ maxMessageGap ∧
      verifyMacAndDecrypt S (keyAt S chainKey reader.counter) reader m plaintext
        maxPlaintextLength = (m', some n) := by
  rw [verifyMacAndDecryptForExistingChain] at h
  by_cases h1 : reader.counter < chainKey.index
  · rw [if_pos h1] at h
    cases (Prod.mk.inj h).2
  · rw [if_neg h1] at h
    by_cases h2 : (reader.counter - chainKey.index).toNat > maxMessageGap
    · rw [if_pos h2] at h
      cases (Prod.mk.inj h).2
    · rw [if_neg h2] at h
      have hadvance := advanceWhile_eq S reader.counter _ chainKey (index_add_gap h1)
      rw [gap] at hadvance
      rw [hadvance] at h
      exact ⟨h1, Nat.le_of_not_lt h2, h⟩

/-! ## Accepting a message -/

/-- Memory behind attempts with keys that failed. -/
inductive FailedAttempts (reader : MessageReader) (plaintext maxPlaintextLength : Nat) :
    Mem → Mem → Prop
  | refl (m : Mem) : FailedAttempts reader plaintext maxPlaintextLength m m
  | attempt {m m₁ m₂ : Mem} (key : MessageKey K)
      (h : verifyMacAndDecrypt S key reader m plaintext maxPlaintextLength = (m₁, none))
      (rest : FailedAttempts reader plaintext maxPlaintextLength m₁ m₂) :
      FailedAttempts reader plaintext maxPlaintextLength m m₂

/-- The message of `reader` is decrypted to `n` bytes: the key that opened it and
    the ratchet behind the call. -/
inductive Accepted (r : Ratchet K) (m : Mem) (reader : MessageReader)
    (plaintext maxPlaintextLength : Nat) (m' : Mem) (n : Nat) : MessageKey K → Ratchet K → Prop
  /-- The first message of a chain that is not there. -/
  | newChain {senderChain : SenderChain K} {chain : ReceiverChain K} {rootKey : K}
      (hfind : findChain r m reader = none)
      (hsender : r.senderChain.toList = [senderChain])
      (hcreate : createChainKey S r.rootKey senderChain.ratchetKey (readerRatchetKey m reader)
        = (rootKey, chain.chainKey))
      (hkey : chain.ratchetKey = readerRatchetKey m reader)
      (hgap : reader.counter.toNat ≤ maxMessageGap)
      (hverify : verifyMacAndDecrypt S (keyAt S chain.chainKey reader.counter) reader m plaintext
        maxPlaintextLength = (m', some n)) :
      Accepted r m reader plaintext maxPlaintextLength m' n (keyAt S chain.chainKey reader.counter)
        { r with
          rootKey
          senderChain := .empty
          receiverChains := r.receiverChains.insert (chainPast S chain reader.counter)
          skippedMessageKeys := skippedPast S chain reader.counter r.skippedMessageKeys }
  /-- A message at or behind the next index of its chain. -/
  | nextKey {pos : Nat} {chain : ReceiverChain K}
      (hfind : findChain r m reader = some pos)
      (hchain : r.receiverChains.toList[pos]? = some chain)
      (hcounter : ¬reader.counter < chain.chainKey.index)
      (hgap : gap chain.chainKey reader.counter ≤ maxMessageGap)
      (hverify : verifyMacAndDecrypt S (keyAt S chain.chainKey reader.counter) reader m plaintext
        maxPlaintextLength = (m', some n)) :
      Accepted r m reader plaintext maxPlaintextLength m' n (keyAt S chain.chainKey reader.counter)
        { r with
          receiverChains := r.receiverChains.set pos (chainPast S chain reader.counter)
          skippedMessageKeys := skippedPast S chain reader.counter r.skippedMessageKeys }
  /-- A message that was skipped over. -/
  | skippedKey {pos i : Nat} {chain : ReceiverChain K} {skipped : SkippedMessageKey K} {m₁ : Mem}
      (hfind : findChain r m reader = some pos)
      (hchain : r.receiverChains.toList[pos]? = some chain)
      (hcounter : reader.counter < chain.chainKey.index)
      (hskipped : r.skippedMessageKeys.toList[i]? = some skipped)
      (hindex : reader.counter = skipped.messageKey.index)
      (hattempts : FailedAttempts S reader plaintext maxPlaintextLength m m₁)
      (hverify : verifyMacAndDecrypt S skipped.messageKey reader m₁ plaintext maxPlaintextLength
        = (m', some n)) :
      Accepted r m reader plaintext maxPlaintextLength m' n skipped.messageKey
        { r with skippedMessageKeys := r.skippedMessageKeys.erase i }

/-- The loop over the receiver chains returns the place of a chain with the key. -/
theorem findChain_some {r : Ratchet K} {m : Mem} {reader : MessageReader} {pos : Nat}
    (h : findChain r m reader = some pos) :
    ∃ chain, r.receiverChains.toList[pos]? = some chain ∧
      chain.ratchetKey = readerRatchetKey m reader := by
  obtain ⟨hpos, hkey, -⟩ := List.findIdx?_eq_some_iff_getElem.mp h
  exact ⟨r.receiverChains.toList[pos], List.getElem?_eq_getElem hpos, of_decide_eq_true hkey⟩

/-- The loop over the skipped keys returns the place of a key that fits and
    decrypts, behind attempts that failed.  The ratchet key is read again for
    every entry. -/
theorem trySkippedKeys_some {reader : MessageReader} {plaintext maxPlaintextLength : Nat}
    {m' : Mem} {i n : Nat} :
    ∀ (keys : List (SkippedMessageKey K)) (pos : Nat) (m : Mem),
      trySkippedKeys S reader plaintext maxPlaintextLength pos keys m = (m', some (i, n)) →
      ∃ k skipped m₁, i = pos + k ∧ keys[k]? = some skipped ∧
        reader.counter = skipped.messageKey.index ∧
        skipped.ratchetKey = readerRatchetKey m₁ reader ∧
        FailedAttempts S reader plaintext maxPlaintextLength m m₁ ∧
        verifyMacAndDecrypt S skipped.messageKey reader m₁ plaintext maxPlaintextLength
          = (m', some n) := by
  intro keys
  induction keys with
  | nil =>
      intro pos m h
      cases (Prod.mk.inj h).2
  | cons skipped keys ih =>
      intro pos m h
      rw [trySkippedKeys] at h
      by_cases hfits : reader.counter = skipped.messageKey.index
          ∧ skipped.ratchetKey = readerRatchetKey m reader
      · rw [if_pos hfits] at h
        rcases hv : verifyMacAndDecrypt S skipped.messageKey reader m plaintext
          maxPlaintextLength with ⟨m₁, _ | result⟩
        · rw [hv] at h
          obtain ⟨k, skipped', m₂, hi, hk, hindex, hkey, hattempts, hverify⟩ := ih (pos + 1) m₁ h
          refine ⟨k + 1, skipped', m₂, by omega, hk, hindex, hkey, ?_, hverify⟩
          exact FailedAttempts.attempt skipped.messageKey hv hattempts
        · rw [hv] at h
          simp only [Prod.mk.injEq, Option.some.injEq] at h
          obtain ⟨rfl, rfl, rfl⟩ := h
          exact ⟨0, skipped, m, rfl, rfl, hfits.1, hfits.2, FailedAttempts.refl m, hv⟩
      · rw [if_neg hfits] at h
        obtain ⟨k, skipped', m₂, hi, hk, hrest⟩ := ih (pos + 1) m h
        exact ⟨k + 1, skipped', m₂, by omega, hk, hrest⟩

/-- Starting a chain and moving it past the message. -/
theorem advance_startReceiverChain {r : Ratchet K} {senderChain : SenderChain K} {rootKey : K}
    {chain : ReceiverChain K} {counter : UInt32}
    (hsender : r.senderChain.toList = [senderChain])
    (hcreate : createChainKey S r.rootKey senderChain.ratchetKey chain.ratchetKey
      = (rootKey, chain.chainKey))
    (hcounter : ¬counter < chain.chainKey.index) :
    advanceReceiverChain S (startReceiverChain S r chain.ratchetKey) 0 counter
      = { r with
          rootKey
          senderChain := .empty
          receiverChains := r.receiverChains.insert (chainPast S chain counter)
          skippedMessageKeys := skippedPast S chain counter r.skippedMessageKeys } := by
  have hstart : startReceiverChain S r chain.ratchetKey
      = { r with
          rootKey
          senderChain := .empty
          receiverChains := r.receiverChains.insert chain } := by
    rw [startReceiverChain, hsender]
    simp only
    rw [hcreate]
    simp only
    congr 1
    apply BoundedList.ext'
    rw [BoundedList.toList_erase, hsender]
    rfl
  have hfirst : (r.receiverChains.insert chain).toList[0]? = some chain := rfl
  rw [hstart, advanceReceiverChain_eq S hfirst hcounter]
  rfl

/-- The plaintext buffer, with room for the rest of its last block, does not touch
    the message. -/
def Separate (plaintext maxPlaintextLength input inputLength : Nat) : Prop :=
  Disjoint plaintext (maxPlaintextLength + 15) input inputLength

theorem verifyMacAndDecrypt_frame {S : Suite K I} (hframed : S.ratchetCipher.Framed)
    {key : MessageKey K} {reader : MessageReader} {plaintext maxPlaintextLength : Nat} {m m' : Mem}
    {result : Option Nat}
    (h : verifyMacAndDecrypt S key reader m plaintext maxPlaintextLength = (m', result)) :
    SameOutside plaintext (maxPlaintextLength + 15) m m' := by
  have hkey := hframed key.key m reader.input reader.inputLength (reader.ciphertext.getD 0)
    reader.ciphertextLength plaintext maxPlaintextLength
  rw [verifyMacAndDecrypt] at h
  rw [h] at hkey
  exact hkey

/-- Attempts that fail leave the message alone. -/
theorem FailedAttempts.frame {S : Suite K I} (hframed : S.ratchetCipher.Framed)
    {reader : MessageReader} {plaintext maxPlaintextLength : Nat} {m m₁ : Mem}
    (h : FailedAttempts S reader plaintext maxPlaintextLength m m₁) :
    SameOutside plaintext (maxPlaintextLength + 15) m m₁ := by
  induction h with
  | refl m => exact SameOutside.refl _ _ m
  | attempt key hv _ ih => exact (verifyMacAndDecrypt_frame hframed hv).trans ih

theorem decryptChecked_some (hframed : S.ratchetCipher.Framed) {r r' : Ratchet K} {m m' : Mem}
    {reader : MessageReader}
    {plaintext maxPlaintextLength n : Nat}
    (hkey : Disjoint plaintext (maxPlaintextLength + 15) (reader.ratchetKey.getD 0) 32)
    (h : decryptChecked S r m reader plaintext maxPlaintextLength = (m', r', some n)) :
    ∃ key, Accepted S r m reader plaintext maxPlaintextLength m' n key r' := by
  rw [decryptChecked] at h
  cases hfind : findChain r m reader with
  | none =>
      rw [hfind] at h
      rcases hv : verifyMacAndDecryptForNewChain S r reader m plaintext maxPlaintextLength
        with ⟨m₁, _ | result⟩
      · rw [hv] at h
        cases (Prod.mk.inj (Prod.mk.inj h).2).2
      · rw [hv] at h
        simp only [Prod.mk.injEq, Option.some.injEq] at h
        obtain ⟨rfl, rfl, rfl⟩ := h
        rw [verifyMacAndDecryptForNewChain] at hv
        cases hsender : r.senderChain.toList with
        | nil =>
            rw [hsender] at hv
            cases (Prod.mk.inj hv).2
        | cons senderChain rest =>
            have hsender' := BoundedList.toList_singleton hsender
            rw [hsender] at hv
            simp only at hv
            by_cases hgap : reader.counter.toNat > maxMessageGap
            · rw [if_pos hgap] at hv
              cases (Prod.mk.inj hv).2
            · rw [if_neg hgap] at hv
              obtain ⟨hcounter, -, hverify⟩ :=
                verifyMacAndDecryptForExistingChain_some S hv
              generalize hcreate : createChainKey S r.rootKey senderChain.ratchetKey
                (readerRatchetKey m reader) = created at hcounter hverify
              obtain ⟨rootKey, chainKey⟩ := created
              generalize hchain : ({ ratchetKey := readerRatchetKey m reader, chainKey } :
                ReceiverChain K) = chain
              have hchainRatchet : chain.ratchetKey = readerRatchetKey m reader := by rw [← hchain]
              have hchainKey : chain.chainKey = chainKey := by rw [← hchain]
              rw [← hchainKey] at hcreate hcounter hverify
              -- the key is read once more behind the decryption
              have hsame : readerRatchetKey m₁ reader = readerRatchetKey m reader :=
                load_congr ((verifyMacAndDecrypt_frame hframed hverify).read_eq hkey)
              rw [hsame, ← hchainRatchet]
              rw [← hchainRatchet] at hcreate
              rw [advance_startReceiverChain S hsender' hcreate hcounter]
              rw [hchainRatchet] at hcreate
              exact ⟨_, Accepted.newChain hfind hsender' hcreate hchainRatchet (Nat.le_of_not_lt hgap)
                hverify⟩
  | some pos =>
      rw [hfind] at h
      simp only at h
      cases hchain : r.receiverChains.toList[pos]? with
      | none =>
          rw [hchain] at h
          cases (Prod.mk.inj (Prod.mk.inj h).2).2
      | some chain =>
          rw [hchain] at h
          simp only at h
          by_cases hindex : chain.chainKey.index > reader.counter
          · rw [if_pos hindex] at h
            rcases hv : trySkippedKeys S reader plaintext maxPlaintextLength 0
              r.skippedMessageKeys.toList m with ⟨m₁, _ | ⟨i, result⟩⟩
            · rw [hv] at h
              cases (Prod.mk.inj (Prod.mk.inj h).2).2
            · rw [hv] at h
              simp only [Prod.mk.injEq, Option.some.injEq] at h
              obtain ⟨rfl, rfl, rfl⟩ := h
              obtain ⟨k, skipped, m₂, hi, hk, hcounter, -, hattempts, hverify⟩ :=
                trySkippedKeys_some S _ 0 m hv
              rw [Nat.zero_add] at hi
              subst hi
              exact ⟨_, Accepted.skippedKey hfind hchain hindex hk hcounter hattempts hverify⟩
          · rw [if_neg hindex] at h
            rcases hv : verifyMacAndDecryptForExistingChain S chain.chainKey reader m plaintext
              maxPlaintextLength with ⟨m₁, _ | result⟩
            · rw [hv] at h
              cases (Prod.mk.inj (Prod.mk.inj h).2).2
            · rw [hv] at h
              simp only [Prod.mk.injEq, Option.some.injEq] at h
              obtain ⟨rfl, rfl, rfl⟩ := h
              obtain ⟨hcounter, hgap, hverify⟩ := verifyMacAndDecryptForExistingChain_some S hv
              rw [advanceReceiverChain_eq S hchain hcounter]
              exact ⟨_, Accepted.nextKey hfind hchain hcounter hgap hverify⟩

/-- The checks of the header that `decrypt` makes before it looks for a chain. -/
structure Header (reader : MessageReader) (maxPlaintextLength : Nat) : Prop where
  version : reader.version = protocolVersion
  hasCounter : reader.hasCounter = true
  ratchetKey : reader.ratchetKey ≠ none
  ciphertext : reader.ciphertext ≠ none
  room : S.ratchetCipher.decryptMaxPlaintextLength reader.ciphertextLength ≤ maxPlaintextLength
  ratchetKeyLength : reader.ratchetKeyLength = curve25519KeyLength

/-- Behind the checks. -/
theorem decrypt_eq {r : Ratchet K} {stack : MessageReader} {m : Mem}
    {input inputLength plaintext maxPlaintextLength : Nat}
    (h : Header S (decodeMessage stack m input inputLength S.ratchetCipher.macLength)
      maxPlaintextLength) :
    decrypt S r stack m input inputLength plaintext maxPlaintextLength
      = decryptChecked S r m (decodeMessage stack m input inputLength S.ratchetCipher.macLength)
          plaintext maxPlaintextLength := by
  simp only [decrypt]
  generalize decodeMessage stack m input inputLength S.ratchetCipher.macLength = reader at *
  rw [if_neg (not_not_intro h.version), if_neg, if_neg (Nat.not_lt.mpr h.room),
    if_neg (not_not_intro h.ratchetKeyLength)]
  rintro (hn | hn | hn)
  · exact absurd (h.hasCounter.symm.trans hn) (by decide)
  · exact h.ratchetKey hn
  · exact h.ciphertext hn

/-- A message that is decrypted passes the checks. -/
theorem decrypt_header {r r' : Ratchet K} {stack : MessageReader}
    {m m' : Mem} {input inputLength plaintext maxPlaintextLength n : Nat}
    (h : decrypt S r stack m input inputLength plaintext maxPlaintextLength
      = (m', r', some n)) :
    Header S (decodeMessage stack m input inputLength S.ratchetCipher.macLength)
      maxPlaintextLength := by
  simp only [decrypt] at h
  generalize decodeMessage stack m input inputLength S.ratchetCipher.macLength = reader at *
  by_cases h1 : reader.version ≠ protocolVersion
  · rw [if_pos h1] at h
    cases (Prod.mk.inj (Prod.mk.inj h).2).2
  rw [if_neg h1] at h
  by_cases h2 : reader.hasCounter = false ∨ reader.ratchetKey = none ∨ reader.ciphertext = none
  · rw [if_pos h2] at h
    cases (Prod.mk.inj (Prod.mk.inj h).2).2
  rw [if_neg h2] at h
  by_cases h3 : maxPlaintextLength
      < S.ratchetCipher.decryptMaxPlaintextLength reader.ciphertextLength
  · rw [if_pos h3] at h
    cases (Prod.mk.inj (Prod.mk.inj h).2).2
  rw [if_neg h3] at h
  by_cases h4 : reader.ratchetKeyLength ≠ curve25519KeyLength
  · rw [if_pos h4] at h
    cases (Prod.mk.inj (Prod.mk.inj h).2).2
  rw [not_or, not_or] at h2
  exact ⟨not_not.mp h1, Bool.not_eq_false _ ▸ h2.1, h2.2.1, h2.2.2, Nat.le_of_not_lt h3,
    not_not.mp h4⟩

/-- The plaintext does not touch the ratchet key of the message either. -/
theorem Header.ratchetKey_disjoint {stack : MessageReader} {m : Mem}
    {input inputLength plaintext maxPlaintextLength : Nat}
    (h : Header S (decodeMessage stack m input inputLength S.ratchetCipher.macLength)
      maxPlaintextLength)
    (hseparate : Separate plaintext maxPlaintextLength input inputLength) :
    Disjoint plaintext (maxPlaintextLength + 15)
      ((decodeMessage stack m input inputLength S.ratchetCipher.macLength).ratchetKey.getD 0)
      32 := by
  obtain ⟨hinside, -⟩ := decodeMessage_strings_inside stack m input inputLength
    S.ratchetCipher.macLength
  generalize decodeMessage stack m input inputLength S.ratchetCipher.macLength = reader at *
  obtain ⟨p, hp⟩ := Option.ne_none_iff_exists'.mp h.ratchetKey
  obtain ⟨hge, hle⟩ := hinside p hp
  rw [h.ratchetKeyLength, show curve25519KeyLength = 32 from rfl] at hle
  rw [hp, Option.getD_some]
  rcases hseparate with hd | hd
  · exact Or.inl (by omega)
  · exact Or.inr (by omega)

/-- **DECRYPTION** that succeeds: the message was accepted in one of three ways. -/
theorem decrypt_some (hframed : S.ratchetCipher.Framed) {r r' : Ratchet K} {stack : MessageReader}
    {m m' : Mem} {input inputLength plaintext maxPlaintextLength n : Nat}
    (hseparate : Separate plaintext maxPlaintextLength input inputLength)
    (h : decrypt S r stack m input inputLength plaintext maxPlaintextLength
      = (m', r', some n)) :
    ∃ key, Accepted S r m (decodeMessage stack m input inputLength S.ratchetCipher.macLength)
      plaintext maxPlaintextLength m' n key r' := by
  have hheader := decrypt_header S h
  rw [decrypt_eq S hheader] at h
  exact decryptChecked_some S hframed (hheader.ratchetKey_disjoint S hseparate) h

/-! ## Sending a message -/

/-- The ratchet behind a message that was sent. -/
def afterSending (r : Ratchet K) (random : Vector UInt8 32) : Ratchet K :=
  { r with
    rootKey := (senderChainFor S r random).1
    senderChain := BoundedList.empty.insert { (senderChainFor S r random).2 with
      chainKey := advanceChainKey S (senderChainFor S r random).2.chainKey } }

/-- The message key of the next message. -/
def sendingKey (r : Ratchet K) (random : Vector UInt8 32) : MessageKey K :=
  createMessageKeys S (senderChainFor S r random).2.chainKey

/-- The memory behind a message that was stored: header, ratchet key, ciphertext and MAC. -/
def afterStoring (chain : SenderChain K) (m : Mem)
    (plaintext plaintextLength output outputLength : Nat) : Mem :=
  let keys := createMessageKeys S chain.chainKey
  let ciphertextLength := S.ratchetCipher.encryptCiphertextLength plaintextLength
  let frame := encodeMessage m protocolVersion keys.index curve25519KeyLength ciphertextLength
    output
  (S.ratchetCipher.encrypt keys.key (store frame.1 frame.2.ratchetKey chain.ratchetKey.publicKey)
    plaintext plaintextLength frame.2.ciphertext ciphertextLength output outputLength).1

/-- **ENCRYPTION** that succeeds stores a message, and moves the sender chain one step. -/
theorem encrypt_stored {r r' : Ratchet K} {m m' : Mem}
    {plaintext plaintextLength random randomLength output maxOutputLength n : Nat}
    (h : encrypt S r m plaintext plaintextLength random randomLength output maxOutputLength
      = (m', r', some n)) :
    n = encryptOutputLength S r plaintextLength ∧ r' = afterSending S r (load 32 m random) ∧
      m' = afterStoring S (senderChainFor S r (load 32 m random)).2 m plaintext plaintextLength
        output n := by
  rw [encrypt] at h
  simp only at h
  by_cases h1 : randomLength < encryptRandomLength r
  · rw [if_pos h1] at h
    cases (Prod.mk.inj (Prod.mk.inj h).2).2
  rw [if_neg h1] at h
  by_cases h2 : maxOutputLength < encryptOutputLength S r plaintextLength
  · rw [if_pos h2] at h
    cases (Prod.mk.inj (Prod.mk.inj h).2).2
  rw [if_neg h2] at h
  obtain ⟨hm, hcall⟩ := Prod.mk.inj h
  obtain ⟨hr, hn⟩ := Prod.mk.inj hcall
  obtain rfl := (Option.some.inj hn).symm
  exact ⟨rfl, hr.symm, hm.symm⟩

theorem encrypt_some {r r' : Ratchet K} {m m' : Mem}
    {plaintext plaintextLength random randomLength output maxOutputLength n : Nat}
    (h : encrypt S r m plaintext plaintextLength random randomLength output maxOutputLength
      = (m', r', some n)) : r' = afterSending S r (load 32 m random) :=
  (encrypt_stored S h).2.1

end OlmRatchet
