import SelfOlm.KeyFreshnessProofs

/-! # No message is accepted twice

    A message can only come back through a key that is still there: a skipped
    key, or a key that a receiver chain has yet to make.  Over derivation terms
    these are new.  A receiver chain that is started, also one that was dropped
    before, is of an epoch of its own; a chain that moves past a message leaves
    its key behind; and a skipped key is taken out when it opens a message.  What
    the index of the chain is does not matter. -/

namespace OlmRatchet

open ByteMemory OlmCrypto OlmMessage OlmList KeyTerms

/-! ## Accepted messages -/

section Accepting

variable {K I : Type} (S : Suite K I)

/-- The key opens a message: decryption with it succeeds, wherever the message is
    and whatever the other arguments are. -/
def Opens (cipher : Cipher K) (key : K) (message : Bytes) : Prop :=
  ∃ m input ciphertext ciphertextLength plaintext maxPlaintextLength m' n,
    read m input message.length = message ∧
      cipher.decrypt key m input message.length ciphertext ciphertextLength plaintext
        maxPlaintextLength = (m', some n)

/-- A message authenticates under at most one key. -/
def OneKey (cipher : Cipher K) : Prop :=
  ∀ message key key', Opens cipher key message → Opens cipher key' message → key = key'

/-- The bytes of the message, where the call accepts one. -/
def RatchetCall.acceptedMessage (call : RatchetCall) (r : Ratchet K) : List Bytes :=
  match call with
  | .decrypt _ m input inputLength _ _ =>
      if (call.run S r).2.2.isSome then [read m input inputLength] else []
  | _ => []

/-- The messages that are accepted over a run, in order. -/
def acceptedMessages : List RatchetCall → Ratchet K → List Bytes
  | [], _ => []
  | call :: calls, r => call.acceptedMessage S r ++ acceptedMessages calls (call.run S r).2.1

/-- A message is `const` in the source: its buffer is not the one for the
    plaintext. -/
def RatchetCall.Separated : RatchetCall → Prop
  | .decrypt _ _ input inputLength plaintext maxPlaintextLength =>
      Separate plaintext maxPlaintextLength input inputLength
  | _ => True

/-- The key of an accepted message opens it. -/
theorem Accepted.opens (hframed : S.ratchetCipher.Framed) {r r' : Ratchet K} {m m' : Mem}
    {reader : MessageReader} {plaintext maxPlaintextLength n : Nat} {key : MessageKey K}
    (hseparate : Separate plaintext maxPlaintextLength reader.input reader.inputLength)
    (h : Accepted S r m reader plaintext maxPlaintextLength m' n key r') :
    Opens S.ratchetCipher key.key (read m reader.input reader.inputLength) := by
  have hopens : ∀ {key : MessageKey K} {m₁ : Mem},
      read m₁ reader.input reader.inputLength = read m reader.input reader.inputLength →
      verifyMacAndDecrypt S key reader m₁ plaintext maxPlaintextLength = (m', some n) →
      Opens S.ratchetCipher key.key (read m reader.input reader.inputLength) := by
    intro key m₁ hread hverify
    refine ⟨m₁, reader.input, reader.ciphertext.getD 0, reader.ciphertextLength, plaintext,
      maxPlaintextLength, m', n, ?_, ?_⟩
    · rw [length_read]
      exact hread
    · rw [length_read]
      exact hverify
  cases h with
  | newChain hfind hsender hcreate hkey hgap hverify => exact hopens rfl hverify
  | nextKey hfind hchain hcounter hgap hverify => exact hopens rfl hverify
  | skippedKey hfind hchain hcounter hskipped hindex hattempts hverify =>
      refine hopens ?_ hverify
      exact (hattempts.frame hframed).read_eq hseparate

end Accepting

/-! ## The invariant -/

/-- The keys of the accepted messages and the skipped keys. -/
def seen (used : List Term) (r : Ratchet Term) : List Term :=
  used ++ r.skippedMessageKeys.toList.map (fun skipped => skipped.messageKey.key)

/-- No two keys are the same of those that were used and those that are stored, and
    the keys that the receiver chains have yet to make are not among them. -/
structure ReplayInv (r : Ratchet Term) (used : List Term) : Prop where
  nodup : (seen used r).Nodup
  bounded : Bounded (seen used r) (epoch r.rootKey)
  chainEpoch : ∀ chain ∈ r.receiverChains.toList, epoch chain.chainKey.key ≤ epoch r.rootKey
  distinct : (r.receiverChains.toList.map (fun chain => epoch chain.chainKey.key)).Nodup
  behind : ∀ chain ∈ r.receiverChains.toList, Behind (seen used r) chain.chainKey.key

/-- The sending side does not matter, as long as root keys go up. -/
theorem ReplayInv.congr {r r' : Ratchet Term} {used : List Term} (h : ReplayInv r used)
    (hroot : epoch r.rootKey ≤ epoch r'.rootKey) (hchains : r'.receiverChains = r.receiverChains)
    (hskipped : r'.skippedMessageKeys = r.skippedMessageKeys) : ReplayInv r' used := by
  have hseen : seen used r' = seen used r := by
    rw [seen, hskipped]
    rfl
  refine ⟨?_, ?_, ?_, ?_, ?_⟩
  · rw [hseen]
    exact h.nodup
  · rw [hseen]
    exact h.bounded.mono hroot
  · rw [hchains]
    intro chain hchain
    exact Nat.le_trans (h.chainEpoch chain hchain) hroot
  · rw [hchains]
    exact h.distinct
  · rw [hchains, hseen]
    exact h.behind

variable (generateKey : Vector UInt8 32 → Curve25519KeyPair) (kdfInfo : KdfInfo)
  (cipher : Cipher Term)

/-- The keys that a chain stores are the first ones that leave it. -/
theorem nextKeys_key (n : Nat) (chain : ReceiverChain Term) :
    (nextKeys (symbolicSuite generateKey kdfInfo cipher) n chain).map
        (fun skipped => skipped.messageKey.key)
      = chainKeys chainKeySeed messageKeySeed chain.chainKey.key n := by
  induction n generalizing chain with
  | zero => rfl
  | succ n ih =>
      rw [nextKeys, List.map_cons, ih, chainKeys_succ]
      rfl

/-- The chain keys and the message keys of the terms behind a message. -/
theorem chainPast_key (chain : ReceiverChain Term) (counter : UInt32) :
    (chainPast (symbolicSuite generateKey kdfInfo cipher) chain counter).chainKey.key
      = chainAfter chainKeySeed (gap chain.chainKey counter + 1) chain.chainKey.key :=
  key_chainKeyAfter generateKey kdfInfo cipher chain.chainKey _

theorem keyAt_key (chainKey : ChainKey Term) (counter : UInt32) :
    (keyAt (symbolicSuite generateKey kdfInfo cipher) chainKey counter).key
      = .hmac (chainAfter chainKeySeed (gap chainKey counter) chainKey.key) messageKeySeed := by
  rw [← key_chainKeyAfter generateKey kdfInfo cipher]
  rfl

open scoped List in
/-- Behind an accepted message of a chain, its key is used and the keys before it may
    be stored: these are the first keys of the chain. -/
theorem seen_past (used : List Term) (r : Ratchet Term) (chain : ReceiverChain Term)
    (counter : UInt32) :
    ((keyAt (symbolicSuite generateKey kdfInfo cipher) chain.chainKey counter).key :: used
        ++ (skippedPast (symbolicSuite generateKey kdfInfo cipher) chain counter
            r.skippedMessageKeys).toList.map (fun skipped => skipped.messageKey.key)).Subperm
      (chainKeys chainKeySeed messageKeySeed chain.chainKey.key (gap chain.chainKey counter + 1)
        ++ seen used r) := by
  rw [skippedPast, BoundedList.toList_foldl_insert, List.map_take, List.map_append,
    List.map_reverse, nextKeys_key, keyAt_key, chainKeys_succ', seen]
  generalize chainKeys chainKeySeed messageKeySeed chain.chainKey.key (gap chain.chainKey counter)
    = keys
  generalize KeyTerm.hmac (chainAfter chainKeySeed (gap chain.chainKey counter) chain.chainKey.key)
    messageKeySeed = key
  generalize r.skippedMessageKeys.toList.map (fun skipped => skipped.messageKey.key) = stored
  have hsub : (key :: used ++ (keys.reverse ++ stored).take maxSkippedMessageKeys).Sublist
      (key :: used ++ (keys.reverse ++ stored)) :=
    (List.take_sublist _ _).append_left _
  refine hsub.subperm.trans (List.Perm.subperm ?_)
  calc key :: used ++ (keys.reverse ++ stored)
      = [key] ++ (used ++ keys.reverse) ++ stored := by
        rw [List.append_assoc, List.append_assoc]
        rfl
    _ ~ [key] ++ (keys ++ used) ++ stored := by
        refine List.Perm.append_right _ (List.Perm.append_left _ ?_)
        exact List.perm_append_comm.trans ((List.reverse_perm keys).append_right _)
    _ ~ keys ++ [key] ++ used ++ stored := by
        rw [← List.append_assoc [key]]
        exact (List.perm_append_comm.append_right _).append_right _
    _ = keys ++ [key] ++ (used ++ stored) := List.append_assoc _ _ _

theorem nodup_of_subperm {T : Type} {xs ys : List T} (h : xs.Subperm ys) (hys : ys.Nodup) :
    xs.Nodup := by
  obtain ⟨zs, hperm, hsub⟩ := h
  exact hperm.nodup_iff.mp (hys.sublist hsub)

/-- The other chains of the list are of other epochs. -/
theorem ReplayInv.other {r : Ratchet Term} {used : List Term} (h : ReplayInv r used)
    {pos : Nat} {chain chain' other : ReceiverChain Term}
    (hchain : r.receiverChains.toList[pos]? = some chain)
    (hother : other ∈ (r.receiverChains.set pos chain').toList) :
    other = chain' ∨ other ∈ r.receiverChains.toList ∧
      epoch chain.chainKey.key ≠ epoch other.chainKey.key := by
  obtain ⟨hpos, -⟩ := List.getElem?_eq_some_iff.mp hchain
  obtain ⟨i, hi⟩ := List.mem_iff_getElem?.mp hother
  rw [BoundedList.toList_set] at hi
  by_cases hsame : pos = i
  · subst hsame
    rw [List.getElem?_set_self hpos] at hi
    exact Or.inl (Option.some.inj hi).symm
  · rw [List.getElem?_set_ne hsame] at hi
    refine Or.inr ⟨List.mem_of_getElem? hi, ?_⟩
    intro hepoch
    have hlength : pos < (r.receiverChains.toList.map
        (fun chain => epoch chain.chainKey.key)).length := by
      rw [List.length_map]
      exact hpos
    refine hsame ((List.getElem?_inj hlength h.distinct).mp ?_)
    rw [List.getElem?_map, List.getElem?_map, hchain, hi]
    exact congrArg some hepoch

/-- **ACCEPTING A MESSAGE** keeps the invariant, with its key among the used ones. -/
theorem Accepted.replayInv {r r' : Ratchet Term} {used : List Term} (h : ReplayInv r used)
    {m m' : Mem} {reader : MessageReader} {plaintext maxPlaintextLength n : Nat}
    {key : MessageKey Term}
    (haccepted : Accepted (symbolicSuite generateKey kdfInfo cipher) r m reader plaintext
      maxPlaintextLength m' n key r') : ReplayInv r' (key.key :: used) := by
  cases haccepted with
  | @newChain senderChain chain rootKey hfind hsender hcreate hkey hgap hverify =>
      -- the chain is of a new epoch, also where its ratchet key was seen before
      obtain ⟨hroot, hchain, -⟩ := createChainKey_epoch generateKey kdfInfo cipher hcreate
      have hpast := seen_past generateKey kdfInfo cipher used r chain reader.counter
      have hbehind : Behind (seen used r) chain.chainKey.key := by
        refine h.bounded.behind ?_
        rw [hchain]
        exact Nat.lt_succ_self _
      have hepoch : epoch (chainPast (symbolicSuite generateKey kdfInfo cipher) chain
          reader.counter).chainKey.key = epoch chain.chainKey.key := by
        rw [chainPast_key, epoch_chainAfter]
      refine ⟨?_, ?_, ?_, ?_, ?_⟩
      · exact nodup_of_subperm hpast (hbehind.nodup h.nodup _)
      · refine Bounded.subset ?_ hpast.subset
        refine (h.bounded.mono ?_).moved ?_ _
        · show epoch r.rootKey ≤ epoch rootKey
          omega
        · show epoch chain.chainKey.key ≤ epoch rootKey
          omega
      · intro c hc
        show epoch c.chainKey.key ≤ epoch rootKey
        rcases BoundedList.mem_insert hc with rfl | hc
        · omega
        · have := h.chainEpoch c hc
          omega
      · rw [BoundedList.toList_insert, List.map_take]
        refine List.Nodup.sublist (List.take_sublist _ _) (List.nodup_cons.mpr ⟨?_, h.distinct⟩)
        intro hmem
        obtain ⟨c, hc, hsame⟩ := List.mem_map.mp hmem
        have hle := h.chainEpoch c hc
        simp only at hsame
        omega
      · intro c hc
        refine Behind.subset ?_ hpast.subset
        rcases BoundedList.mem_insert hc with rfl | hc
        · rw [chainPast_key]
          exact hbehind.moved _
        · have hle := h.chainEpoch c hc
          exact (h.behind c hc).other (by omega) _
  | @nextKey pos chain hfind hchain hcounter hgap hverify =>
      have hmem := List.mem_of_getElem? hchain
      have hpast := seen_past generateKey kdfInfo cipher used r chain reader.counter
      have hepoch : epoch (chainPast (symbolicSuite generateKey kdfInfo cipher) chain
          reader.counter).chainKey.key = epoch chain.chainKey.key := by
        rw [chainPast_key, epoch_chainAfter]
      refine ⟨?_, ?_, ?_, ?_, ?_⟩
      · exact nodup_of_subperm hpast ((h.behind chain hmem).nodup h.nodup _)
      · exact Bounded.subset (h.bounded.moved (h.chainEpoch chain hmem) _) hpast.subset
      · intro c hc
        rcases h.other hchain hc with rfl | ⟨hc, -⟩
        · rw [hepoch]
          exact h.chainEpoch chain hmem
        · exact h.chainEpoch c hc
      · rw [BoundedList.map_toList_set _ hchain hepoch]
        exact h.distinct
      · intro c hc
        refine Behind.subset ?_ hpast.subset
        rcases h.other hchain hc with rfl | ⟨hc, hne⟩
        · rw [chainPast_key]
          exact (h.behind chain hmem).moved _
        · exact (h.behind c hc).other hne _
  | @skippedKey pos i chain skipped m₁ hfind hchain hcounter hskipped hindex hattempts hverify =>
      -- the key moves from the stored ones to the used ones
      have hperm : (seen (skipped.messageKey.key :: used)
          { r with skippedMessageKeys := r.skippedMessageKeys.erase i }).Perm (seen used r) := by
        refine List.Perm.trans List.perm_middle.symm (List.Perm.append_left _ ?_)
        exact (BoundedList.erase_perm hskipped).map (fun skipped => skipped.messageKey.key)
      refine ⟨?_, ?_, h.chainEpoch, h.distinct, ?_⟩
      · exact hperm.nodup_iff.mpr h.nodup
      · exact h.bounded.subset hperm.subset
      · intro c hc
        exact (h.behind c hc).subset hperm.subset

/-! ## Runs -/

/-- Sending does not take the root key back. -/
theorem senderChainFor_epoch (r : Ratchet Term) (random : Vector UInt8 32) :
    epoch r.rootKey
      ≤ epoch (senderChainFor (symbolicSuite generateKey kdfInfo cipher) r random).1 := by
  unfold senderChainFor
  cases r.senderChain.toList with
  | nil => exact Nat.le_succ _
  | cons chain rest => exact Nat.le_refl _

/-- One call: it accepts a message with a key that is used from then on, or it accepts
    none. -/
theorem ReplayInv.step (hframed : cipher.Framed) {r : Ratchet Term} {used : List Term}
    (h : ReplayInv r used) (call : RatchetCall) (hseparated : call.Separated) :
    (call.acceptedMessage (symbolicSuite generateKey kdfInfo cipher) r = [] ∧
      ReplayInv (call.run (symbolicSuite generateKey kdfInfo cipher) r).2.1 used) ∨
    ∃ message key, call.acceptedMessage (symbolicSuite generateKey kdfInfo cipher) r = [message] ∧
      Opens cipher key message ∧
      ReplayInv (call.run (symbolicSuite generateKey kdfInfo cipher) r).2.1 (key :: used) := by
  cases call with
  | encrypt m plaintext plaintextLength random randomLength output maxOutputLength =>
      refine Or.inl ⟨rfl, ?_⟩
      rw [RatchetCall.run]
      rcases hcall : encrypt (symbolicSuite generateKey kdfInfo cipher) r m plaintext
        plaintextLength random randomLength output maxOutputLength with ⟨m', r', _ | n⟩
      · obtain ⟨e, rfl⟩ := encrypt_failed _ hcall
        exact h.congr (Nat.le_refl _) rfl rfl
      · rw [encrypt_some _ hcall]
        exact h.congr (senderChainFor_epoch generateKey kdfInfo cipher r _) rfl rfl
  | decrypt stack m input inputLength plaintext maxPlaintextLength =>
      rw [RatchetCall.acceptedMessage, RatchetCall.run]
      rcases hcall : decrypt (symbolicSuite generateKey kdfInfo cipher) r stack m input inputLength
        plaintext maxPlaintextLength with ⟨m', r', _ | n⟩
      · obtain ⟨e, rfl⟩ := decrypt_failed _ hcall
        exact Or.inl ⟨rfl, h.congr (Nat.le_refl _) rfl rfl⟩
      · obtain ⟨key, haccepted⟩ := decrypt_some _ hframed hseparated hcall
        obtain ⟨hinput, hlength⟩ := decodeMessage_input stack m input inputLength
          (symbolicSuite generateKey kdfInfo cipher).ratchetCipher.macLength
        have hopens := haccepted.opens _ hframed (by rw [hinput, hlength]; exact hseparated)
        rw [hinput, hlength] at hopens
        exact Or.inr ⟨_, key.key, rfl, hopens, haccepted.replayInv generateKey kdfInfo cipher h⟩
  | clearError => exact Or.inl ⟨rfl, h.congr (Nat.le_refl _) rfl rfl⟩

/-- The messages of a run are opened by keys that were not used before, and no message
    is accepted twice. -/
theorem ReplayInv.runCalls (hframed : cipher.Framed) (hone : OneKey cipher)
    (calls : List RatchetCall) :
    ∀ {r : Ratchet Term} {used : List Term}, ReplayInv r used →
      (∀ call ∈ calls, call.Separated) →
      (∀ message ∈ acceptedMessages (symbolicSuite generateKey kdfInfo cipher) calls r,
        ∃ key ∉ used, Opens cipher key message) ∧
        (acceptedMessages (symbolicSuite generateKey kdfInfo cipher) calls r).Nodup := by
  induction calls with
  | nil =>
      intro r used h _
      refine ⟨?_, List.nodup_nil⟩
      intro message hmessage
      cases hmessage
  | cons call calls ih =>
      intro r used h hseparated
      obtain ⟨hcall, hcalls⟩ := List.forall_mem_cons.mp hseparated
      rw [acceptedMessages]
      rcases h.step generateKey kdfInfo cipher hframed call hcall with
        ⟨hnone, hnext⟩ | ⟨message, key, haccepted, hopens, hnext⟩
      · rw [hnone, List.nil_append]
        exact ih hnext hcalls
      · obtain ⟨hkeys, hnodup⟩ := ih hnext hcalls
        have hnew : key ∉ used := by
          have hseen := (List.nodup_cons.mp hnext.nodup).1
          exact fun hused => hseen (List.mem_append_left _ hused)
        rw [haccepted, List.singleton_append]
        constructor
        · intro message' hmessage
          rcases List.mem_cons.mp hmessage with rfl | hmessage
          · exact ⟨key, hnew, hopens⟩
          · obtain ⟨key', hkey', hopens'⟩ := hkeys message' hmessage
            exact ⟨key', fun hused => hkey' (List.mem_cons_of_mem _ hused), hopens'⟩
        · refine List.nodup_cons.mpr ⟨?_, hnodup⟩
          intro hagain
          -- the key that opens it again is the used one
          obtain ⟨key', hkey', hopens'⟩ := hkeys message hagain
          rw [hone message key' key hopens' hopens] at hkey'
          exact hkey' List.mem_cons_self

theorem Initialised.replayInv {r : Ratchet Term}
    (h : Initialised (symbolicSuite generateKey kdfInfo cipher) (.atom ()) r) :
    ReplayInv r [] := by
  cases h with
  | alice sharedSecret ourRatchetKey =>
      refine ⟨List.nodup_nil, ?_, ?_, List.nodup_nil, ?_⟩
      · intro key hkey
        cases hkey
      · intro chain hchain
        cases hchain
      · intro chain hchain
        cases hchain
  | bob sharedSecret theirRatchetKey =>
      refine ⟨List.nodup_nil, ?_, ?_, List.nodup_singleton _, ?_⟩
      · intro key hkey
        cases hkey
      · intro chain hchain
        obtain rfl := List.mem_singleton.mp hchain
        exact Nat.le_refl _
      · intro chain _ key hkey
        cases hkey

/-- **NO MESSAGE IS ACCEPTED TWICE** by a ratchet, in any run of calls and whatever the
    messages are. -/
theorem acceptedMessages_nodup (hframed : cipher.Framed) (hone : OneKey cipher) {r : Ratchet Term}
    (h : Initialised (symbolicSuite generateKey kdfInfo cipher) (.atom ()) r)
    (calls : List RatchetCall) (hseparated : ∀ call ∈ calls, call.Separated) :
    (acceptedMessages (symbolicSuite generateKey kdfInfo cipher) calls r).Nodup :=
  ((h.replayInv generateKey kdfInfo cipher).runCalls generateKey kdfInfo cipher hframed hone calls
    hseparated).2

/-- The first chain key of a session with an empty secret. -/
def demoChainKey : Term := .hkdf true (.handshake []) []

/-- The place of a chain key in the chain. -/
def demoIndex : Term → Option Nat
  | .hkdf true (.handshake secret) info => if secret ++ info = [] then some 0 else none
  | .hmac key seed => if seed = chainKeySeed then (demoIndex key).map (· + 1) else none
  | _ => none

/-- The place of a message key. -/
def demoTag : Term → Option Nat
  | .hmac key seed => if seed = messageKeySeed then demoIndex key else none
  | _ => none

/-- A cipher whose MAC is the place of the message key. -/
def demoTagCipher : Cipher Term where
  macLength := 1
  encryptCiphertextLength := fun n => n
  encrypt := fun _ m _ _ _ _ _ outputLength => (m, some outputLength)
  decryptMaxPlaintextLength := fun _ => 0
  decrypt := fun key m input inputLength _ _ _ _ =>
    (m, match (read m input inputLength).getLast? with
      | some tag => if demoTag key = some tag.toNat then some 0 else none
      | none => none)

theorem demoIndex_some {key : Term} {n : Nat} (h : demoIndex key = some n) :
    key = chainAfter chainKeySeed n demoChainKey := by
  induction key generalizing n with
  | atom a => cases h
  | hmac key seed ih =>
      rw [demoIndex] at h
      by_cases hseed : seed = chainKeySeed
      · rw [if_pos hseed] at h
        obtain ⟨k, hk, rfl⟩ := Option.map_eq_some_iff.mp h
        rw [chainAfter_succ, ← ih hk, hseed]
      · rw [if_neg hseed] at h
        cases h
  | hkdf half secret info =>
      cases half with
      | false => cases h
      | true =>
          cases secret with
          | sharedSecret ourKey theirKey => cases h
          | handshake secret =>
              rw [demoIndex] at h
              by_cases hempty : secret ++ info = []
              · rw [if_pos hempty] at h
                obtain ⟨rfl, rfl⟩ := List.append_eq_nil_iff.mp hempty
                obtain rfl := Option.some.inj h
                rfl
              · rw [if_neg hempty] at h
                cases h
  | hkdfSalted half secret salt info ih => cases h

theorem demoTag_some {key : Term} {n : Nat} (h : demoTag key = some n) :
    key = .hmac (chainAfter chainKeySeed n demoChainKey) messageKeySeed := by
  cases key with
  | hmac key seed =>
      rw [demoTag] at h
      by_cases hseed : seed = messageKeySeed
      · rw [if_pos hseed] at h
        rw [← demoIndex_some h, hseed]
      · rw [if_neg hseed] at h
        cases h
  | atom a => cases h
  | hkdf half secret info => cases h
  | hkdfSalted half secret salt info => cases h

theorem demoTagCipher_opens {key : Term} {message : Bytes} (h : Opens demoTagCipher key message) :
    ∃ tag, message.getLast? = some tag ∧ demoTag key = some tag.toNat := by
  obtain ⟨m, input, _, _, _, _, m', n, hread, hdecrypt⟩ := h
  have hresult := (Prod.mk.inj hdecrypt).2
  rw [hread] at hresult
  cases hlast : message.getLast? with
  | none =>
      rw [hlast] at hresult
      cases hresult
  | some tag =>
      rw [hlast] at hresult
      refine ⟨tag, rfl, ?_⟩
      by_contra hother
      simp only [if_neg hother] at hresult
      cases hresult

theorem demoTagCipher_oneKey : OneKey demoTagCipher := by
  intro message key key' hkey hkey'
  obtain ⟨tag, hlast, htag⟩ := demoTagCipher_opens hkey
  obtain ⟨tag', hlast', htag'⟩ := demoTagCipher_opens hkey'
  obtain rfl := Option.some.inj (hlast.symm.trans hlast')
  rw [demoTag_some htag, demoTag_some htag']

theorem demoTagCipher_framed : demoTagCipher.Framed :=
  fun _ m _ _ _ _ _ _ => SameOutside.refl _ _ m

/-- The message with this counter. -/
def demoMessage (counter : UInt8) : Bytes :=
  [3, 0x0a, 32] ++ List.replicate 32 7 ++ [0x10, counter, 0x22, 1, 0, counter]

def demoDecrypt (counter : UInt8) : RatchetCall :=
  .decrypt ⟨0, false, 0, 0, 0, none, 0, none, 0⟩ (fun p => (demoMessage counter).getD p 0) 0 41
    100 0

def demoBob : Ratchet Term :=
  initialiseAsBob (symbolicSuite (fun key => ⟨key, key⟩) ⟨[], []⟩ demoTagCipher)
    (newRatchet (.atom ())) (.handshake []) (Vector.replicate 32 7)

/-- The first two messages of the chain, the second one first, and both again. -/
theorem acceptedMessages_nodup_demo :
    acceptedMessages (symbolicSuite (fun key => ⟨key, key⟩) ⟨[], []⟩ demoTagCipher)
      [demoDecrypt 1, demoDecrypt 0, demoDecrypt 1, demoDecrypt 0] demoBob
        = [demoMessage 1, demoMessage 0] ∧
    (acceptedMessages (symbolicSuite (fun key => ⟨key, key⟩) ⟨[], []⟩ demoTagCipher)
      [demoDecrypt 1, demoDecrypt 0, demoDecrypt 1, demoDecrypt 0] demoBob).Nodup := by
  refine ⟨by decide +kernel, ?_⟩
  refine acceptedMessages_nodup _ _ _ demoTagCipher_framed demoTagCipher_oneKey
    (Initialised.bob _ _) _ ?_
  have hseparated : ∀ counter, (demoDecrypt counter).Separated :=
    fun counter => Or.inr (by decide)
  intro call hcall
  obtain ⟨counter, -, rfl⟩ : ∃ counter ∈ [1, 0, 1, 0], demoDecrypt counter = call :=
    List.mem_map.mp (show call ∈ [1, 0, 1, 0].map demoDecrypt from hcall)
  exact hseparated counter

end OlmRatchet
