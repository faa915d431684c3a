import SelfOlm.Lib.KeySecrecy
import SelfOlm.NoReplayProofs
import SelfOlm.DecryptStepProofs
import SelfOlm.DecoderBoundsProofs

/-! # Forward secrecy of the ratchet

    Whoever takes a ratchet learns its root key, and the chain keys and skipped keys of
    the live entries of its lists.  Over derivation terms these and the message keys that
    were used are a frontier: a call replaces a key by what it derives from it, uses one
    of the derived keys and stores the others.  So no key of a message that was sent or
    accepted can be derived from the live entries later, not even by someone who knows
    every shared secret of the ratchet, as long as the secret of the handshake is not
    known.  The places behind the end of a list are not entries: `erase` leaves a copy of
    the last item there (`erase_behind_end`), which the code does not wipe. -/

namespace OlmRatchet

open ByteMemory OlmCrypto OlmMessage OlmList KeyTerms

/-! ## Keys that are live and keys that are used -/

section Keys

variable {K I : Type} (S : Suite K I)

/-- The keys of the receiving side: those of the live entries of its two lists. -/
def receivingKeys (r : Ratchet K) : List K :=
  r.receiverChains.toList.map (fun chain => chain.chainKey.key)
    ++ r.skippedMessageKeys.toList.map (fun skipped => skipped.messageKey.key)

/-- The root key and the keys of the live entries of the lists.  What a list holds behind
    its end is not an entry, and not among them. -/
def liveKeys (r : Ratchet K) : List K :=
  r.rootKey :: (r.senderChain.toList.map (fun chain => chain.chainKey.key) ++ receivingKeys r)

/-- The key that `decryptChecked` opens the message of `reader` with. -/
def openingKey (r : Ratchet K) (m : Mem) (reader : MessageReader)
    (plaintext maxPlaintextLength : Nat) : Option K :=
  match findChain r m reader with
  | none =>
      match r.senderChain.toList with
      | [] => none
      | senderChain :: _ =>
          some (keyAt S (createChainKey S r.rootKey senderChain.ratchetKey
            (readerRatchetKey m reader)).2 reader.counter).key
  | some pos =>
      match r.receiverChains.toList[pos]? with
      | none => none
      | some chain =>
          if reader.counter < chain.chainKey.index then
            match trySkippedKeys S reader plaintext maxPlaintextLength 0
              r.skippedMessageKeys.toList m with
            | (_, none) => none
            | (_, some (i, _)) =>
                (r.skippedMessageKeys.toList[i]?).map (fun skipped => skipped.messageKey.key)
          else some (keyAt S chain.chainKey reader.counter).key

/-- The key of the message that the call sends or accepts. -/
def RatchetCall.usedKey (call : RatchetCall) (r : Ratchet K) : List K :=
  match call with
  | .encrypt _ _ _ _ _ _ _ => call.sentKey S r
  | .decrypt stack m input inputLength plaintext maxPlaintextLength =>
      if (call.run S r).2.2.isSome then
        (openingKey S r m (decodeMessage stack m input inputLength S.ratchetCipher.macLength)
          plaintext maxPlaintextLength).toList
      else []
  | .clearError => []

/-- The cipher encrypts or decrypts the message of the call under the key. -/
def RatchetCall.CiphersWith (call : RatchetCall) (r : Ratchet K) (key : K) : Prop :=
  call.EncryptsWith S r key ∨ call.DecryptsWith S r key

/-- The keys of the messages that a run sends and accepts, the last one first. -/
def usedKeys : List RatchetCall → Ratchet K → List K
  | [], _ => []
  | call :: calls, r => usedKeys calls (call.run S r).2.1 ++ call.usedKey S r

variable {S}

/-- A message is accepted with its opening key. -/
theorem decryptChecked_opening (hframed : S.ratchetCipher.Framed) {r r' : Ratchet K} {m m' : Mem}
    {reader : MessageReader} {plaintext maxPlaintextLength n : Nat}
    (hkey : Disjoint plaintext (maxPlaintextLength + 15) (reader.ratchetKey.getD 0) 32)
    (h : decryptChecked S r m reader plaintext maxPlaintextLength = (m', r', some n)) :
    ∃ key, openingKey S r m reader plaintext maxPlaintextLength = some key.key ∧
      Accepted S r m reader plaintext maxPlaintextLength m' n key r' := by
  obtain ⟨key, haccepted⟩ := decryptChecked_some S hframed hkey h
  cases haccepted with
  | newChain hfind hsender hcreate hratchet hgap hverify =>
      refine ⟨_, ?_, Accepted.newChain hfind hsender hcreate hratchet hgap hverify⟩
      simp only [openingKey, hfind, hsender, hcreate]
  | nextKey hfind hchain hcounter hgap hverify =>
      refine ⟨_, ?_, Accepted.nextKey hfind hchain hcounter hgap hverify⟩
      simp only [openingKey, hfind, hchain, if_neg hcounter]
  | skippedKey hfind hchain hcounter =>
      -- more than one stored key may fit; the loop says which one it was
      rw [decryptChecked_skipped S hfind hchain hcounter] at h
      rcases hv : trySkippedKeys S reader plaintext maxPlaintextLength 0
        r.skippedMessageKeys.toList m with ⟨m₁, _ | ⟨i, result⟩⟩
      · rw [hv] at h
        cases (Prod.mk.inj (Prod.mk.inj h).2).2
      · rw [hv] at h
        simp only [Prod.mk.injEq, Option.some.injEq] at h
        obtain ⟨rfl, hr, rfl⟩ := h
        obtain ⟨k, skipped, m₂, hi, hk, hindex, -, hattempts, hverify⟩ :=
          trySkippedKeys_some S _ 0 m hv
        rw [Nat.zero_add] at hi
        subst hi
        rw [← hr]
        refine ⟨_, ?_, Accepted.skippedKey hfind hchain hcounter hk hindex hattempts hverify⟩
        simp only [openingKey, hfind, hchain, if_pos hcounter, hv, hk, Option.map_some]

theorem decrypt_opening (hframed : S.ratchetCipher.Framed) {r r' : Ratchet K}
    {stack : MessageReader} {m m' : Mem} {input inputLength plaintext maxPlaintextLength n : Nat}
    (hseparate : Separate plaintext maxPlaintextLength input inputLength)
    (h : decrypt S r stack m input inputLength plaintext maxPlaintextLength
      = (m', r', some n)) :
    let reader := decodeMessage stack m input inputLength S.ratchetCipher.macLength
    ∃ key, openingKey S r m reader plaintext maxPlaintextLength = some key.key ∧
      Accepted S r m reader plaintext maxPlaintextLength m' n key r' := by
  have hheader := decrypt_header S h
  rw [decrypt_eq S hheader] at h
  exact decryptChecked_opening hframed (hheader.ratchetKey_disjoint S hseparate) h

/-- The key of a message that is accepted is the one that the cipher opens it with. -/
theorem Accepted.decrypts {r r' : Ratchet K} {m m' : Mem} {reader : MessageReader}
    {plaintext maxPlaintextLength n : Nat} {key : MessageKey K}
    (h : Accepted S r m reader plaintext maxPlaintextLength m' n key r') :
    ∃ m₁, verifyMacAndDecrypt S key reader m₁ plaintext maxPlaintextLength = (m', some n) := by
  cases h with
  | newChain _ _ _ _ _ hverify => exact ⟨m, hverify⟩
  | nextKey _ _ _ _ hverify => exact ⟨m, hverify⟩
  | skippedKey _ _ _ _ _ _ hverify => exact ⟨_, hverify⟩

/-- One call: the cipher is called with its key, or with none. -/
theorem RatchetCall.usedKey_cipher (hframed : S.ratchetCipher.Framed) (call : RatchetCall)
    (hseparated : call.Separated) (r : Ratchet K) :
    (∃ key, call.usedKey S r = [key] ∧ call.CiphersWith S r key) ∨
      (call.usedKey S r = [] ∧ ∀ key, ¬call.CiphersWith S r key) := by
  cases call with
  | encrypt m plaintext plaintextLength random randomLength output maxOutputLength =>
      rw [RatchetCall.usedKey, RatchetCall.sentKey]
      rcases hcall : (RatchetCall.encrypt m plaintext plaintextLength random randomLength output
        maxOutputLength).run S r with ⟨m', r', _ | n⟩
      · -- a refused call returns before it reaches the cipher
        refine Or.inr ⟨rfl, ?_⟩
        rintro key (hkey | hkey)
        · exact RatchetCall.not_encryptsWith (congrArg (fun outcome => outcome.2.2) hcall) key hkey
        · exact hkey
      · exact Or.inl ⟨_, rfl, Or.inl (encrypt_cipher hcall)⟩
  | decrypt stack m input inputLength plaintext maxPlaintextLength =>
      rw [RatchetCall.usedKey]
      rcases hcall : (RatchetCall.decrypt stack m input inputLength plaintext
        maxPlaintextLength).run S r with ⟨m', r', _ | n⟩
      · refine Or.inr ⟨rfl, ?_⟩
        rintro key (hkey | ⟨m₁, n, hn, -⟩)
        · exact hkey
        · rw [hcall] at hn
          cases hn
      · -- only the accepting key is used; the others that were tried have opened nothing
        obtain ⟨key, hopening, haccepted⟩ := decrypt_opening hframed hseparated hcall
        obtain ⟨m₁, hcipher⟩ := haccepted.decrypts
        refine Or.inl ⟨key.key, ?_, Or.inr ⟨m₁, n, ?_, ?_⟩⟩
        · rw [hopening]
          rfl
        · rw [hcall]
        · rw [hcall]
          exact hcipher
  | clearError =>
      refine Or.inr ⟨rfl, ?_⟩
      rintro key (hkey | hkey)
      · exact hkey
      · exact hkey

/-- **THE KEYS OF A RUN** are those that the cipher is called with for its messages. -/
theorem usedKeys_cipher (hframed : S.ratchetCipher.Framed) (calls : List RatchetCall) :
    ∀ r : Ratchet K, (∀ call ∈ calls, call.Separated) →
      KeysOf S (RatchetCall.CiphersWith S) calls r (usedKeys S calls r).reverse := by
  induction calls with
  | nil =>
      intro r _
      exact KeysOf.done r
  | cons call calls ih =>
      intro r hseparated
      obtain ⟨hcall, hcalls⟩ := List.forall_mem_cons.mp hseparated
      -- `usedKeys` has the latest key in front, a run lists them as the calls come
      rw [usedKeys, List.reverse_append]
      rcases call.usedKey_cipher hframed hcall r with ⟨key, hused, hkey⟩ | ⟨hused, hnone⟩
      · rw [hused]
        exact KeysOf.key hkey (ih _ hcalls)
      · rw [hused]
        exact KeysOf.none hnone (ih _ hcalls)

end Keys

/-! ## The frontier of a run -/

variable (generateKey : Vector UInt8 32 → Curve25519KeyPair) (kdfInfo : KdfInfo)
  (cipher : Cipher Term) {hidden : Unit ⊕ SecretTerm → Prop}

/-- A root key makes way for the next one and for a chain. -/
theorem Frontier.createChainKey {rootKey rootKey' : Term} {ourKey : Curve25519KeyPair}
    {theirKey : Curve25519PublicKey} {chainKey : ChainKey Term} {keys : List Term}
    (h : Frontier hidden (rootKey :: keys))
    (hcreate : OlmRatchet.createChainKey (symbolicSuite generateKey kdfInfo cipher) rootKey ourKey
      theirKey = (rootKey', chainKey)) :
    Frontier hidden (rootKey' :: chainKey.key :: keys) := by
  obtain ⟨rfl, rfl⟩ := Prod.mk.inj hcreate
  refine h.split rfl rfl ?_
  intro heq
  cases (KeyTerm.hkdfSalted.inj heq).1

/-- A chain is moved past a message: the key of the message and those before it leave
    the chain, and as many of these as there is room for are stored. -/
theorem Frontier.past {keys : List Term} {r : Ratchet Term} {chain : ReceiverChain Term}
    (h : Frontier hidden (chain.chainKey.key :: seen keys r)) (counter : UInt32) :
    Frontier hidden
      ((keyAt (symbolicSuite generateKey kdfInfo cipher) chain.chainKey counter).key ::
        (chainPast (symbolicSuite generateKey kdfInfo cipher) chain counter).chainKey.key ::
        (keys ++ (skippedPast (symbolicSuite generateKey kdfInfo cipher) chain counter
          r.skippedMessageKeys).toList.map (fun skipped => skipped.messageKey.key))) := by
  have hseeds : messageKeySeed ≠ chainKeySeed := by decide
  have hchain := h.chain hseeds (gap chain.chainKey counter + 1)
  rw [← chainPast_key generateKey kdfInfo cipher] at hchain
  have hpast := seen_past generateKey kdfInfo cipher keys r chain counter
  refine (hchain.subperm ((List.subperm_cons _).mpr hpast)).perm ?_
  exact List.Perm.swap _ _ _

/-- **ACCEPTING A MESSAGE** keeps the frontier, with its key among the used ones. -/
theorem Accepted.frontier {r r' : Ratchet Term} {used : List Term}
    (h : Frontier hidden (used ++ liveKeys r)) {m m' : Mem} {reader : MessageReader}
    {plaintext maxPlaintextLength n : Nat} {key : MessageKey Term}
    (haccepted : Accepted (symbolicSuite generateKey kdfInfo cipher) r m reader plaintext
      maxPlaintextLength m' n key r') : Frontier hidden (key.key :: used ++ liveKeys r') := by
  rw [liveKeys, receivingKeys] at h
  cases haccepted with
  | @newChain senderChain chain rootKey hfind hsender hcreate hkey hgap hverify =>
      -- the root key is replaced, and the sender chain is dropped
      have hroot : Frontier hidden (r.rootKey
          :: seen (used ++ r.receiverChains.toList.map (fun chain => chain.chainKey.key)) r) := by
        refine h.subperm ?_
        rw [hsender, seen, ← Multiset.coe_le]
        refine Multiset.le_iff_exists_add.mpr ⟨{senderChain.chainKey.key}, ?_⟩
        simp only [List.map_cons, List.map_nil, ← Multiset.coe_add, ← Multiset.cons_coe,
          ← Multiset.singleton_add]
        rw [Multiset.coe_nil]
        abel
      have hcreated := Frontier.createChainKey generateKey kdfInfo cipher hroot hcreate
      have hstarted : Frontier hidden (chain.chainKey.key :: seen (rootKey ::
          (used ++ r.receiverChains.toList.map (fun chain => chain.chainKey.key))) r) :=
        hcreated.perm (List.Perm.swap _ _ _)
      have hpast := Frontier.past generateKey kdfInfo cipher hstarted reader.counter
      refine hpast.subperm ?_
      rw [liveKeys, receivingKeys, BoundedList.toList_insert, List.map_take, List.map_cons]
      -- the oldest chain is dropped where there is no room
      have hdrop := List.take_sublist maxReceiverChains
        ((chainPast (symbolicSuite generateKey kdfInfo cipher) chain reader.counter).chainKey.key
          :: r.receiverChains.toList.map (fun chain => chain.chainKey.key))
      refine List.Subperm.trans (List.Sublist.subperm ((List.Sublist.append_left
        (List.Sublist.cons_cons _ (List.Sublist.append_right hdrop _)) _))) (List.Perm.subperm ?_)
      rw [← Multiset.coe_eq_coe]
      simp only [← Multiset.coe_add, ← Multiset.cons_coe, ← Multiset.singleton_add]
      abel
  | @nextKey pos chain hfind hchain hcounter hgap hverify =>
      obtain ⟨hpos, hget⟩ := List.getElem?_eq_some_iff.mp hchain
      have hchains := List.getElem_cons_eraseIdx_perm hpos
      rw [hget] at hchains
      have hset := List.set_perm_cons_eraseIdx hpos
        (chainPast (symbolicSuite generateKey kdfInfo cipher) chain reader.counter)
      have hmap := hchains.map (fun chain => chain.chainKey.key)
      have hmap' := hset.map (fun chain => chain.chainKey.key)
      rw [List.map_cons] at hmap hmap'
      rw [← Multiset.coe_eq_coe] at hmap hmap'
      have hat : Frontier hidden (chain.chainKey.key :: seen (used ++ r.rootKey ::
          (r.senderChain.toList.map (fun chain => chain.chainKey.key)
            ++ (r.receiverChains.toList.eraseIdx pos).map (fun chain => chain.chainKey.key)))
          r) := by
        refine h.perm ?_
        rw [seen, ← Multiset.coe_eq_coe]
        simp only [← Multiset.coe_add, ← Multiset.cons_coe, ← Multiset.singleton_add, ← hmap]
        abel
      refine (Frontier.past generateKey kdfInfo cipher hat reader.counter).perm ?_
      rw [liveKeys, receivingKeys, BoundedList.toList_set, ← Multiset.coe_eq_coe]
      simp only [← Multiset.coe_add, ← Multiset.cons_coe, ← Multiset.singleton_add, hmap']
      abel
  | @skippedKey pos i chain skipped m₁ hfind hchain hcounter hskipped hindex hattempts hverify =>
      -- the key moves from the stored ones to the used ones
      have hmap := (BoundedList.erase_perm hskipped).map (fun skipped => skipped.messageKey.key)
      rw [List.map_cons, ← Multiset.coe_eq_coe] at hmap
      refine h.perm ?_
      rw [liveKeys, receivingKeys, ← Multiset.coe_eq_coe]
      simp only [← Multiset.coe_add, ← Multiset.cons_coe, ← hmap, ← Multiset.singleton_add]
      abel

/-- **SENDING** keeps the frontier, with the key of the message among the used ones. -/
theorem afterSending_frontier {r : Ratchet Term} {used : List Term}
    (h : Frontier hidden (used ++ liveKeys r)) (random : Vector UInt8 32) :
    Frontier hidden ((sendingKey (symbolicSuite generateKey kdfInfo cipher) r random).key :: used
      ++ liveKeys (afterSending (symbolicSuite generateKey kdfInfo cipher) r random)) := by
  rw [liveKeys] at h
  have hfor : Frontier hidden
      ((senderChainFor (symbolicSuite generateKey kdfInfo cipher) r random).2.chainKey.key ::
        (senderChainFor (symbolicSuite generateKey kdfInfo cipher) r random).1 ::
        (used ++ receivingKeys r)) := by
    unfold senderChainFor
    cases hsender : r.senderChain.toList with
    | nil =>
        rw [hsender] at h
        have hroot : Frontier hidden (r.rootKey :: (used ++ receivingKeys r)) :=
          h.perm List.perm_middle
        exact (Frontier.createChainKey generateKey kdfInfo cipher hroot rfl).perm
          (List.Perm.swap _ _ _)
    | cons chain rest =>
        obtain rfl : rest = [] :=
          (List.cons.inj (hsender.symm.trans (BoundedList.toList_singleton hsender))).2
        rw [hsender] at h
        refine h.perm ?_
        rw [← Multiset.coe_eq_coe]
        simp only [List.map_cons, List.map_nil, ← Multiset.coe_add, ← Multiset.cons_coe,
          ← Multiset.singleton_add]
        rw [Multiset.coe_nil]
        abel
  have hseeds : messageKeySeed ≠ chainKeySeed := by decide
  have hchain := hfor.chain hseeds 1
  rw [afterSending, sendingKey]
  generalize senderChainFor (symbolicSuite generateKey kdfInfo cipher) r random = sending at hchain
  obtain ⟨rootKey, chain⟩ := sending
  refine hchain.perm ?_
  show (KeyTerm.hmac chain.chainKey.key chainKeySeed :: .hmac chain.chainKey.key messageKeySeed
      :: rootKey :: (used ++ receivingKeys r)).Perm
    (KeyTerm.hmac chain.chainKey.key messageKeySeed :: used
      ++ rootKey :: .hmac chain.chainKey.key chainKeySeed :: receivingKeys r)
  rw [← Multiset.coe_eq_coe]
  simp only [← Multiset.coe_add, ← Multiset.cons_coe, ← Multiset.singleton_add]
  abel

/-! ## Runs -/

/-- Neither a call that fails nor `last_error` touches the keys. -/
theorem SameExceptError.liveKeys {K : Type} {r r' : Ratchet K} (h : SameExceptError r r') :
    liveKeys r' = liveKeys r := by
  obtain ⟨e, rfl⟩ := h
  rfl

/-- **ONE CALL** keeps the frontier. -/
theorem RatchetCall.frontier (hframed : cipher.Framed) {r : Ratchet Term} {used : List Term}
    (h : Frontier hidden (used ++ liveKeys r)) (call : RatchetCall)
    (hseparated : call.Separated) :
    Frontier hidden (call.usedKey (symbolicSuite generateKey kdfInfo cipher) r ++ used
      ++ liveKeys (call.run (symbolicSuite generateKey kdfInfo cipher) r).2.1) := by
  cases call with
  | encrypt m plaintext plaintextLength random randomLength output maxOutputLength =>
      rw [RatchetCall.usedKey, RatchetCall.sentKey, RatchetCall.run]
      rcases hcall : OlmRatchet.encrypt (symbolicSuite generateKey kdfInfo cipher) r m plaintext
        plaintextLength random randomLength output maxOutputLength with ⟨m', r', _ | n⟩
      · rw [(encrypt_failed _ hcall).liveKeys]
        exact h
      · rw [encrypt_some _ hcall]
        exact afterSending_frontier generateKey kdfInfo cipher h _
  | decrypt stack m input inputLength plaintext maxPlaintextLength =>
      rw [RatchetCall.usedKey, RatchetCall.run]
      rcases hcall : OlmRatchet.decrypt (symbolicSuite generateKey kdfInfo cipher) r stack m input
        inputLength plaintext maxPlaintextLength with ⟨m', r', _ | n⟩
      · rw [(decrypt_failed _ hcall).liveKeys]
        exact h
      · obtain ⟨key, hopening, haccepted⟩ := decrypt_opening hframed hseparated hcall
        rw [hopening]
        exact haccepted.frontier generateKey kdfInfo cipher h
  | clearError => exact h

/-- A run keeps the frontier. -/
theorem runCalls_frontier (hframed : cipher.Framed) (calls : List RatchetCall) :
    ∀ {r : Ratchet Term} {used : List Term}, Frontier hidden (used ++ liveKeys r) →
      (∀ call ∈ calls, call.Separated) →
      Frontier hidden (usedKeys (symbolicSuite generateKey kdfInfo cipher) calls r ++ used
        ++ liveKeys (runCalls (symbolicSuite generateKey kdfInfo cipher) calls r).1) := by
  induction calls with
  | nil =>
      intro r used h _
      exact h
  | cons call calls ih =>
      intro r used h hseparated
      obtain ⟨hcall, hcalls⟩ := List.forall_mem_cons.mp hseparated
      have hnext := ih (call.frontier generateKey kdfInfo cipher hframed h hcall) hcalls
      rw [← List.append_assoc] at hnext
      exact hnext

/-- The keys of a ratchet that was initialised come from its secret. -/
theorem Initialised.frontier {r : Ratchet Term}
    (h : Initialised (symbolicSuite generateKey kdfInfo cipher) (.atom ()) r) :
    Frontier (fun s => s = source r.rootKey) (liveKeys r) := by
  have hhalves : ∀ (secret : SecretTerm) (info : List UInt8),
      Frontier (A := Unit) (fun s => s = .inr secret)
        [.hkdf false secret info, .hkdf true secret info] := by
    intro secret info
    refine ⟨List.pairwise_pair.mpr (apart_roots rfl rfl ?_), ?_⟩
    · intro heq
      cases (KeyTerm.hkdf.inj heq).1
    · intro key hkey
      rcases List.mem_cons.mp hkey with rfl | hkey
      · rfl
      · obtain rfl := List.mem_singleton.mp hkey
        rfl
  cases h with
  | alice sharedSecret ourRatchetKey => exact hhalves _ _
  | bob sharedSecret theirRatchetKey => exact hhalves _ _

/-- **FORWARD SECRECY OF A RATCHET**: behind any run, the keys of its messages are
    different from each other and from the live ones, and cannot be derived from these
    without the secret that the ratchet was initialised with. -/
theorem usedKeys_hidden (hframed : cipher.Framed) {r : Ratchet Term}
    (h : Initialised (symbolicSuite generateKey kdfInfo cipher) (.atom ()) r)
    (calls : List RatchetCall) (hseparated : ∀ call ∈ calls, call.Separated) :
    let used := usedKeys (symbolicSuite generateKey kdfInfo cipher) calls r
    let live := liveKeys (runCalls (symbolicSuite generateKey kdfInfo cipher) calls r).1
    (used ++ live).Nodup ∧
      ∀ secrets, ¬secrets (source r.rootKey) → ∀ key ∈ used, ¬Derives secrets live key := by
  have hlive : Frontier (fun s => s = source r.rootKey) ([] ++ liveKeys r) :=
    h.frontier generateKey kdfInfo cipher
  have hrun := runCalls_frontier generateKey kdfInfo cipher hframed calls hlive hseparated
  rw [List.append_nil] at hrun
  refine ⟨hrun.nodup, ?_⟩
  intro secrets hsecret key hkey
  refine hrun.not_derives ?_ hkey
  rintro s rfl
  exact hsecret

/-! ## Translated runs -/

section Translation

variable {K K' I I' : Type} {S : Suite K I} {S' : Suite K' I'} (f : SuiteHom S S')

theorem liveKeys_map (g : K → K') (r : Ratchet K) :
    liveKeys (r.map g) = (liveKeys r).map g := by
  simp only [liveKeys, receivingKeys, Ratchet.map, BoundedList.toList_map, List.map_cons,
    List.map_append, List.map_map]
  rfl

theorem SuiteHom.chainKeyAfter (n : Nat) (chainKey : ChainKey K) :
    chainKeyAfter S' n (chainKey.map f.key) = (chainKeyAfter S n chainKey).map f.key := by
  induction n with
  | zero => rfl
  | succ n ih => rw [chainKeyAfter_succ', chainKeyAfter_succ', ih, f.advanceChainKey]

theorem SuiteHom.keyAt (chainKey : ChainKey K) (counter : UInt32) :
    keyAt S' (chainKey.map f.key) counter = (keyAt S chainKey counter).map f.key := by
  rw [OlmRatchet.keyAt, OlmRatchet.keyAt, ← f.createMessageKeys, ← f.chainKeyAfter]
  rfl

theorem SuiteHom.openingKey (r : Ratchet K) (m : Mem) (reader : MessageReader)
    (plaintext maxPlaintextLength : Nat) :
    openingKey S' (r.map f.key) m reader plaintext maxPlaintextLength
      = (openingKey S r m reader plaintext maxPlaintextLength).map f.key := by
  unfold OlmRatchet.openingKey
  rw [findChain_map]
  cases findChain r m reader with
  | none =>
      simp only [Ratchet.map, BoundedList.toList_map]
      cases r.senderChain.toList with
      | nil => rfl
      | cons chain rest =>
          simp only [List.map_cons, SenderChain.map, f.createChainKey, Prod.map, f.keyAt]
          rfl
  | some pos =>
      simp only [Ratchet.map, BoundedList.toList_map, List.getElem?_map]
      cases r.receiverChains.toList[pos]? with
      | none => rfl
      | some chain =>
          simp only [Option.map_some, ReceiverChain.chainKey_map, ChainKey.index_map, f.keyAt,
            f.trySkippedKeys]
          by_cases hcounter : reader.counter < chain.chainKey.index
          · rw [if_pos hcounter, if_pos hcounter]
            rcases OlmRatchet.trySkippedKeys S reader plaintext maxPlaintextLength 0
              r.skippedMessageKeys.toList m with ⟨m₁, _ | ⟨i, result⟩⟩
            · rfl
            · simp only [Option.map_map]
              rfl
          · rw [if_neg hcounter, if_neg hcounter]
            rfl

theorem SuiteHom.usedKey (call : RatchetCall) (r : Ratchet K) :
    call.usedKey S' (r.map f.key) = (call.usedKey S r).map f.key := by
  cases call with
  | encrypt m plaintext plaintextLength random randomLength output maxOutputLength =>
      exact f.sentKey (.encrypt m plaintext plaintextLength random randomLength output
        maxOutputLength) r
  | decrypt stack m input inputLength plaintext maxPlaintextLength =>
      rw [RatchetCall.usedKey, RatchetCall.usedKey, f.run]
      rcases (RatchetCall.decrypt stack m input inputLength plaintext maxPlaintextLength).run S r
        with ⟨m', r', _ | n⟩
      · rfl
      · simp only [mapCall, Option.isSome_some, if_true]
        rw [f.openingKey, Option.toList_map, f.ratchetCipher]
        rfl
  | clearError => rfl

/-- The keys that a run uses under translated keys are the translated ones. -/
theorem SuiteHom.usedKeys (calls : List RatchetCall) (r : Ratchet K) :
    usedKeys S' calls (r.map f.key) = (usedKeys S calls r).map f.key := by
  induction calls generalizing r with
  | nil => rfl
  | cons call calls ih =>
      rw [OlmRatchet.usedKeys, OlmRatchet.usedKeys, f.run, f.usedKey]
      simp only [mapCall]
      rw [ih, List.map_append]

end Translation

end OlmRatchet

namespace OlmSession

open ByteMemory OlmCrypto OlmMessage OlmRatchet OlmAccount KeyTerms

variable (prim : Primitives)

/-! ## Sessions -/

/-- The buffer for the plaintext is not that of the message. -/
def SessionCall.Separated : SessionCall → Prop
  | .encrypt _ _ _ _ _ _ _ => True
  | .decrypt _ _ _ message messageLength plaintext maxPlaintextLength =>
      Separate plaintext maxPlaintextLength message messageLength

/-- The body of a message is inside of it. -/
theorem messageBody_inside {messageType : MessageType} {m : Mem}
    {message messageLength body bodyLength : Nat}
    (h : messageBody messageType m message messageLength = some (body, bodyLength)) :
    message ≤ body ∧ body + bodyLength ≤ message + messageLength := by
  cases messageType with
  | message =>
      obtain ⟨rfl, rfl⟩ := Prod.mk.inj (Option.some.inj h)
      exact ⟨Nat.le_refl _, Nat.le_refl _⟩
  | preKey =>
      obtain ⟨p, hp, hpair⟩ := Option.map_eq_some_iff.mp h
      obtain ⟨rfl, rfl⟩ := Prod.mk.inj hpair
      obtain ⟨-, -, -, hinside⟩ :=
        decodeOneTimeKeyMessage_strings_inside preKeyReader m message messageLength
      exact hinside _ hp

theorem SessionCall.ratchetCalls_separated {call : SessionCall} (h : call.Separated)
    (s : Session) : ∀ c ∈ call.ratchetCalls prim s, c.Separated := by
  have hreporting : ∀ {r : Ratchet SharedKey} {c : RatchetCall}, c.Separated →
      ∀ c' ∈ reporting prim r c, c'.Separated := by
    intro r c hc c' hc'
    rw [reporting] at hc'
    split at hc'
    · obtain rfl := List.mem_singleton.mp hc'
      exact hc
    · rcases List.mem_cons.mp hc' with rfl | hc'
      · exact hc
      · obtain rfl := List.mem_singleton.mp hc'
        trivial
  cases call with
  | encrypt m plaintext plaintextLength random randomLength message messageLength =>
      rw [SessionCall.ratchetCalls]
      split
      · intro c hc
        cases hc
      · exact hreporting trivial
  | decrypt stack messageType m message messageLength plaintext maxPlaintextLength =>
      rw [SessionCall.ratchetCalls]
      cases hbody : messageBody messageType m message messageLength with
      | none =>
          intro c hc
          cases hc
      | some body =>
          obtain ⟨hfirst, hlast⟩ := messageBody_inside hbody
          refine hreporting (c := .decrypt _ _ _ _ _ _) ?_
          rcases h with hbefore | hbehind
          · exact Or.inl (Nat.le_trans hbefore hfirst)
          · exact Or.inr (Nat.le_trans hlast hbehind)

theorem ratchetCalls_separated (calls : List SessionCall) :
    ∀ s, (∀ call ∈ calls, call.Separated) → ∀ c ∈ ratchetCalls prim calls s, c.Separated := by
  induction calls with
  | nil =>
      intro s _ c hc
      cases hc
  | cons call calls ih =>
      intro s hcalls c hc
      obtain ⟨hcall, hrest⟩ := List.forall_mem_cons.mp hcalls
      rcases List.mem_append.mp hc with hc | hc
      · exact SessionCall.ratchetCalls_separated prim hcall s c hc
      · exact ih _ hrest c hc

/-- A ratchet that was initialised goes back to one secret. -/
theorem Created.secret {s : Session} (h : Created prim s) :
    ∃ r secret, Initialised (symbolicOlmSuite prim) (.atom ()) r ∧
      s.ratchet = r.map (evaluation prim).key ∧
      source r.rootKey = .inr (.handshake secret) := by
  cases h with
  | outbound hnew hcall =>
      obtain ⟨secret, ratchetKey, hratchet⟩ := newOutboundSession_ratchet prim hcall
      refine ⟨_, secret, Initialised.alice (.handshake secret) ratchetKey, ?_, rfl⟩
      rw [hratchet, hnew, ← (evaluation prim).initialiseAsAlice]
      rfl
  | inbound hnew hcall =>
      obtain ⟨secret, ratchetKey, hratchet⟩ := newInboundSession_ratchet prim hcall
      refine ⟨_, secret, Initialised.bob (.handshake secret) ratchetKey, ?_, rfl⟩
      rw [hratchet, hnew, ← (evaluation prim).initialiseAsBob]
      rfl

/-- **FORWARD SECRECY OF A SESSION**: over any run of a session, the keys of the messages
    that it sends and accepts, with which the cipher is called, and the keys in the live
    entries behind the run are the values of a run over terms.  No term of a message is
    the one of a live key, or can be derived from these by someone who knows every secret
    but that of the handshake. -/
theorem session_forward_secrecy {s : Session} (hs : Created prim s) (calls : List SessionCall)
    (hseparated : ∀ call ∈ calls, call.Separated) :
    ∃ r secret, Initialised (symbolicOlmSuite prim) (.atom ()) r ∧
      s.ratchet = r.map (evalTerm prim) ∧ source r.rootKey = .inr (.handshake secret) ∧
      let used := usedKeys (symbolicOlmSuite prim) (ratchetCalls prim calls s) r
      let live := liveKeys (runCalls (symbolicOlmSuite prim) (ratchetCalls prim calls s) r).1
      KeysOf (olmSuite prim) (RatchetCall.CiphersWith (olmSuite prim)) (ratchetCalls prim calls s)
        s.ratchet (usedKeys (olmSuite prim) (ratchetCalls prim calls s) s.ratchet).reverse ∧
      usedKeys (olmSuite prim) (ratchetCalls prim calls s) s.ratchet = used.map (evalTerm prim) ∧
      liveKeys (runSession prim calls s).ratchet = live.map (evalTerm prim) ∧
      (used ++ live).Nodup ∧
      ∀ secrets, ¬secrets (.inr (.handshake secret)) → ∀ key ∈ used,
        ¬Derives secrets live key := by
  obtain ⟨r, secret, hinit, hr, hsource⟩ := hs.secret
  have hseparatedCalls := ratchetCalls_separated prim calls s hseparated
  have hframed := olmSuite_framed prim
  obtain ⟨hnodup, hhidden⟩ :=
    usedKeys_hidden _ _ _ (hframed.onKeys (evalTerm prim)) hinit _ hseparatedCalls
  rw [hsource] at hhidden
  refine ⟨r, secret, hinit, hr, hsource, ?_, ?_, ?_, hnodup, hhidden⟩
  · exact usedKeys_cipher hframed _ _ hseparatedCalls
  · rw [hr]
    exact (evaluation prim).usedKeys _ r
  · rw [ratchet_runSession, hr]
    have hrun := (evaluation prim).runCalls (ratchetCalls prim calls s) r
    rw [hrun]
    exact liveKeys_map _ _

/-- The sending session of the test, over its two messages and the refused one. -/
theorem session_forward_secrecy_demo :
    (usedKeys (olmSuite demoPrimitives) (ratchetCalls demoPrimitives demoCalls demoSession)
      demoSession.ratchet).length = 2 ∧
    ∃ r secret, Initialised (symbolicOlmSuite demoPrimitives) (.atom ()) r ∧
      ∀ key ∈ usedKeys (symbolicOlmSuite demoPrimitives)
          (ratchetCalls demoPrimitives demoCalls demoSession) r,
        ¬Derives (fun s => s ≠ .inr (.handshake secret))
          (liveKeys (runCalls (symbolicOlmSuite demoPrimitives)
            (ratchetCalls demoPrimitives demoCalls demoSession) r).1) key := by
  refine ⟨by decide +kernel, ?_⟩
  have hseparated : ∀ call ∈ demoCalls, call.Separated := by
    intro call hcall
    simp only [demoCalls, List.mem_cons, List.not_mem_nil, or_false] at hcall
    rcases hcall with rfl | rfl | rfl
    · trivial
    · exact Or.inr (by decide)
    · trivial
  obtain ⟨r, secret, hinit, -, -, -, -, -, -, hhidden⟩ :=
    session_forward_secrecy demoPrimitives demoSession_created demoCalls hseparated
  exact ⟨r, secret, hinit, hhidden _ (fun h => h rfl)⟩

end OlmSession
