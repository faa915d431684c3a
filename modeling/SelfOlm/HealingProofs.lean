import SelfOlm.ForwardSecrecyProofs
import SelfOlm.SessionAgreementProofs

/-! # A ratchet heals

    Someone who learned keys of a ratchet can follow its chains, but not past a
    shared secret that is not known.  A new sender chain is made with a ratchet
    key that was generated for it, and the next receiver chain is made with the
    same ratchet key.  So from where there is no sender chain on, no key that a
    message is sent with can be derived from what was known before, and of the
    keys that messages are accepted with only those of the receiver chains that
    were already there. -/

namespace OlmRatchet

open ByteMemory OlmCrypto OlmMessage OlmList KeyTerms

/-- A secret that is out of reach went into the key. -/
def Hidden (lost : SecretTerm → Prop) (key : Term) : Prop := ∃ secret, lost secret ∧ Mixed secret key

theorem Hidden.step {lost : SecretTerm → Prop} {key t : Term} (h : Hidden lost key)
    (ht : parent t = some key) : Hidden lost t := by
  obtain ⟨secret, hlost, hmixed⟩ := h
  exact ⟨secret, hlost, hmixed.parent ht⟩

theorem Hidden.reaches {lost : SecretTerm → Prop} {key t : Term} (h : Hidden lost key)
    (ht : Reaches key t) : Hidden lost t := by
  induction ht using Relation.ReflTransGen.head_induction_on with
  | refl => exact h
  | head hparent _ ih => exact ih.step hparent

/-- A hidden key is not derived from keys that are not. -/
theorem Hidden.not_derives {lost : SecretTerm → Prop} {secrets : Unit ⊕ SecretTerm → Prop}
    {known : List Term} (hlost : ∀ secret, lost secret → ¬secrets (.inr secret))
    (hknown : ∀ key ∈ known, ¬Hidden lost key) {t : Term} (h : Hidden lost t) :
    ¬Derives secrets known t := by
  intro hderives
  obtain ⟨secret, hsecret, hmixed⟩ := h
  obtain ⟨key, hkey, -, hin⟩ := hderives.mixed (hlost secret hsecret) hmixed
  exact hknown key hkey ⟨secret, hsecret, hin⟩

/-- The secrets of a ratchet key that the call generates are out of reach. -/
def RatchetCall.Fresh (generateKey : Vector UInt8 32 → Curve25519KeyPair)
    (lost : SecretTerm → Prop) : RatchetCall → Prop
  | .encrypt m _ _ random _ _ _ =>
      ∀ theirKey, lost (.sharedSecret (generateKey (load 32 m random)) theirKey)
  | _ => True

/-- What was derived since: the sender chain, with the secrets of its ratchet key, and
    the receiving side but for what goes back to `old`. -/
structure Healed (lost : SecretTerm → Prop) (old : List Term) (r : Ratchet Term) : Prop where
  sender : ∀ chain ∈ r.senderChain.toList, Hidden lost chain.chainKey.key ∧
    ∀ theirKey, lost (.sharedSecret chain.ratchetKey theirKey)
  receiver : ∀ key ∈ receivingKeys r, Hidden lost key ∨ ∃ k ∈ old, Reaches k key

/-- Where there is no sender chain. -/
theorem Healed.start {r : Ratchet Term} (h : r.senderChain.toList = [])
    (lost : SecretTerm → Prop) : Healed lost (receivingKeys r) r := by
  refine ⟨?_, ?_⟩
  · rw [h]
    intro chain hchain
    cases hchain
  · intro key hkey
    exact Or.inr ⟨key, hkey, Reaches.refl key⟩

variable {lost : SecretTerm → Prop} {old : List Term}

/-- What is below a key of the receiving side is as the key is. -/
theorem Healed.below {r : Ratchet Term} (h : Healed lost old r) {key t : Term}
    (hkey : key ∈ receivingKeys r) (ht : Reaches key t) :
    Hidden lost t ∨ ∃ k ∈ old, Reaches k t := by
  rcases h.receiver key hkey with hhidden | ⟨k, hk, hreach⟩
  · exact Or.inl (hhidden.reaches ht)
  · exact Or.inr ⟨k, hk, hreach.trans ht⟩

theorem Healed.congr {r r' : Ratchet Term} (h : Healed lost old r)
    (hsender : r'.senderChain = r.senderChain) (hkeys : receivingKeys r' = receivingKeys r) :
    Healed lost old r' := by
  refine ⟨?_, ?_⟩
  · rw [hsender]
    exact h.sender
  · rw [hkeys]
    exact h.receiver

variable (generateKey : Vector UInt8 32 → Curve25519KeyPair) (kdfInfo : KdfInfo)
  (cipher : Cipher Term)

/-- The keys behind a message of a chain are below its chain key, or were there. -/
theorem receivingKeys_past {r : Ratchet Term} {chain : ReceiverChain Term} {counter : UInt32}
    {chains : List (ReceiverChain Term)} {key : Term}
    (hkey : key ∈ chains.map (fun chain => chain.chainKey.key)
      ++ (skippedPast (symbolicSuite generateKey kdfInfo cipher) chain counter
        r.skippedMessageKeys).toList.map (fun skipped => skipped.messageKey.key))
    (hchains : ∀ c ∈ chains, c = chainPast (symbolicSuite generateKey kdfInfo cipher) chain counter
      ∨ c ∈ r.receiverChains.toList) :
    Reaches chain.chainKey.key key ∨ key ∈ receivingKeys r := by
  rcases List.mem_append.mp hkey with hkey | hkey
  · obtain ⟨c, hc, rfl⟩ := List.mem_map.mp hkey
    rcases hchains c hc with rfl | hc
    · rw [chainPast_key]
      exact Or.inl ((Reaches.refl _).chainAfter _ _)
    · exact Or.inr (List.mem_append_left _ (List.mem_map_of_mem hc))
  · have hseen := (seen_past generateKey kdfInfo cipher [] r chain counter).subset
      (List.mem_append_right _ hkey)
    rcases List.mem_append.mp hseen with hseen | hseen
    · obtain ⟨i, -, rfl⟩ := List.mem_map.mp hseen
      exact Or.inl (((Reaches.refl _).chainAfter _ i).hmac _)
    · exact Or.inr (List.mem_append_right _ hseen)

/-- The message key of a chain is below its chain key. -/
theorem reaches_keyAt (chainKey : ChainKey Term) (counter : UInt32) :
    Reaches chainKey.key (keyAt (symbolicSuite generateKey kdfInfo cipher) chainKey counter).key := by
  rw [keyAt_key]
  exact ((Reaches.refl _).chainAfter _ _).hmac _

/-- **ACCEPTING A MESSAGE** stays healed. -/
theorem Accepted.healed {r r' : Ratchet Term} (h : Healed lost old r) {m m' : Mem}
    {reader : MessageReader} {plaintext maxPlaintextLength n : Nat} {key : MessageKey Term}
    (haccepted : Accepted (symbolicSuite generateKey kdfInfo cipher) r m reader plaintext
      maxPlaintextLength m' n key r') :
    (Hidden lost key.key ∨ ∃ k ∈ old, Reaches k key.key) ∧ Healed lost old r' := by
  cases haccepted with
  | @newChain senderChain chain rootKey hfind hsender hcreate hkey hgap hverify =>
      -- our ratchet key was generated since, so the secret of the new chain is out of reach
      have hchain : Hidden lost chain.chainKey.key := by
        have hmem : senderChain ∈ r.senderChain.toList := by
          rw [hsender]
          exact List.mem_singleton_self _
        have hlost := (h.sender senderChain hmem).2 (readerRatchetKey m reader)
        have hkey' := congrArg (fun created => created.2.key) hcreate
        rw [← show _ = chain.chainKey.key from hkey']
        exact ⟨_, hlost, Or.inl rfl⟩
      refine ⟨Or.inl (hchain.reaches (reaches_keyAt ..)), ⟨?_, ?_⟩⟩
      · intro c hc
        cases hc
      · intro k hk
        have hpast := receivingKeys_past generateKey kdfInfo cipher hk
          (fun c hc => BoundedList.mem_insert hc)
        rcases hpast with hpast | hpast
        · exact Or.inl (hchain.reaches hpast)
        · exact h.receiver k hpast
  | @nextKey pos chain hfind hchain hcounter hgap hverify =>
      have hmem : chain.chainKey.key ∈ receivingKeys r :=
        List.mem_append_left _ (List.mem_map_of_mem (List.mem_of_getElem? hchain))
      refine ⟨h.below hmem (reaches_keyAt ..), ⟨h.sender, ?_⟩⟩
      intro k hk
      have hpast := receivingKeys_past generateKey kdfInfo cipher hk (fun c hc =>
        (List.mem_or_eq_of_mem_set hc).symm)
      rcases hpast with hpast | hpast
      · exact h.below hmem hpast
      · exact h.receiver k hpast
  | @skippedKey pos i chain skipped m₁ hfind hchain hcounter hskipped hindex hattempts hverify =>
      have hmem : skipped.messageKey.key ∈ receivingKeys r :=
        List.mem_append_right _ (List.mem_map_of_mem (List.mem_of_getElem? hskipped))
      refine ⟨h.receiver _ hmem, ⟨h.sender, ?_⟩⟩
      intro k hk
      refine h.receiver k ?_
      rcases List.mem_append.mp hk with hk | hk
      · exact List.mem_append_left _ hk
      · obtain ⟨s, hs, rfl⟩ := List.mem_map.mp hk
        exact List.mem_append_right _ (List.mem_map_of_mem (BoundedList.mem_erase hs))

/-- **SENDING** stays healed: a new chain is made with a ratchet key that is generated
    for it. -/
theorem afterSending_healed {r : Ratchet Term} (h : Healed lost old r) {random : Vector UInt8 32}
    (hfresh : ∀ theirKey, lost (.sharedSecret (generateKey random) theirKey)) :
    Hidden lost (sendingKey (symbolicSuite generateKey kdfInfo cipher) r random).key ∧
      Healed lost old (afterSending (symbolicSuite generateKey kdfInfo cipher) r random) := by
  have hfor : Hidden lost
        (senderChainFor (symbolicSuite generateKey kdfInfo cipher) r random).2.chainKey.key ∧
      ∀ theirKey, lost (.sharedSecret
        (senderChainFor (symbolicSuite generateKey kdfInfo cipher) r random).2.ratchetKey
        theirKey) := by
    unfold senderChainFor
    cases hsender : r.senderChain.toList with
    | nil => exact ⟨⟨_, hfresh _, Or.inl rfl⟩, hfresh⟩
    | cons chain rest =>
        refine h.sender chain ?_
        rw [hsender]
        exact List.mem_cons_self
  refine ⟨hfor.1.step rfl, ⟨?_, h.receiver⟩⟩
  intro chain hchain
  obtain rfl := List.mem_singleton.mp hchain
  exact ⟨hfor.1.step rfl, hfor.2⟩

/-! ## Runs -/

theorem SameExceptError.receivingKeys {K : Type} {r r' : Ratchet K} (h : SameExceptError r r') :
    r'.senderChain = r.senderChain ∧ receivingKeys r' = receivingKeys r := by
  obtain ⟨e, rfl⟩ := h
  exact ⟨rfl, rfl⟩

/-- **ONE CALL** stays healed; a key it sends with is hidden, and one it accepts with is
    hidden or goes back to an old key. -/
theorem RatchetCall.healed (hframed : cipher.Framed) {r : Ratchet Term} (h : Healed lost old r)
    (call : RatchetCall) (hseparated : call.Separated) (hfresh : call.Fresh generateKey lost) :
    (∀ key ∈ call.sentKey (symbolicSuite generateKey kdfInfo cipher) r, Hidden lost key) ∧
      (∀ key ∈ call.usedKey (symbolicSuite generateKey kdfInfo cipher) r,
        Hidden lost key ∨ ∃ k ∈ old, Reaches k key) ∧
      Healed lost old (call.run (symbolicSuite generateKey kdfInfo cipher) r).2.1 := by
  cases call with
  | encrypt m plaintext plaintextLength random randomLength output maxOutputLength =>
      rw [RatchetCall.usedKey, RatchetCall.sentKey, RatchetCall.run]
      rcases hcall : OlmRatchet.encrypt (symbolicSuite generateKey kdfInfo cipher) r m plaintext
        plaintextLength random randomLength output maxOutputLength with ⟨m', r', _ | n⟩
      · obtain ⟨hsender, hkeys⟩ := (encrypt_failed _ hcall).receivingKeys
        refine ⟨?_, ?_, h.congr hsender hkeys⟩
        · intro key hkey
          cases hkey
        · intro key hkey
          cases hkey
      · obtain ⟨hhidden, hnext⟩ := afterSending_healed generateKey kdfInfo cipher h hfresh
        rw [encrypt_some _ hcall]
        refine ⟨?_, ?_, hnext⟩
        · intro key hkey
          obtain rfl := List.mem_singleton.mp hkey
          exact hhidden
        · intro key hkey
          obtain rfl := List.mem_singleton.mp hkey
          exact Or.inl hhidden
  | decrypt stack m input inputLength plaintext maxPlaintextLength =>
      refine ⟨?_, ?_⟩
      · intro key hkey
        cases hkey
      rw [RatchetCall.usedKey, RatchetCall.run]
      rcases hcall : OlmRatchet.decrypt (symbolicSuite generateKey kdfInfo cipher) r stack m input
        inputLength plaintext maxPlaintextLength with ⟨m', r', _ | n⟩
      · obtain ⟨hsender, hkeys⟩ := (decrypt_failed _ hcall).receivingKeys
        refine ⟨?_, h.congr hsender hkeys⟩
        intro key hkey
        cases hkey
      · obtain ⟨key, hopening, haccepted⟩ := decrypt_opening hframed hseparated hcall
        obtain ⟨hkey, hnext⟩ := haccepted.healed generateKey kdfInfo cipher h
        rw [hopening]
        refine ⟨?_, hnext⟩
        intro k hk
        obtain rfl := List.mem_singleton.mp hk
        exact hkey
  | clearError =>
      refine ⟨?_, ?_, h.congr rfl rfl⟩
      · intro key hkey
        cases hkey
      · intro key hkey
        cases hkey

/-- A run stays healed. -/
theorem runCalls_healed (hframed : cipher.Framed) (calls : List RatchetCall) :
    ∀ {r : Ratchet Term}, Healed lost old r → (∀ call ∈ calls, call.Separated) →
      (∀ call ∈ calls, call.Fresh generateKey lost) →
      (∀ key ∈ (runCalls (symbolicSuite generateKey kdfInfo cipher) calls r).2,
        Hidden lost key) ∧
      ∀ key ∈ usedKeys (symbolicSuite generateKey kdfInfo cipher) calls r,
        Hidden lost key ∨ ∃ k ∈ old, Reaches k key := by
  induction calls with
  | nil =>
      intro r _ _ _
      refine ⟨?_, ?_⟩
      · intro key hkey
        cases hkey
      · intro key hkey
        cases hkey
  | cons call calls ih =>
      intro r h hseparated hfresh
      obtain ⟨hcall, hcalls⟩ := List.forall_mem_cons.mp hseparated
      obtain ⟨hfreshCall, hfreshCalls⟩ := List.forall_mem_cons.mp hfresh
      obtain ⟨hsent, hused, hnext⟩ :=
        call.healed generateKey kdfInfo cipher hframed h hcall hfreshCall
      obtain ⟨hsents, huseds⟩ := ih hnext hcalls hfreshCalls
      refine ⟨?_, ?_⟩
      · intro key hkey
        rcases List.mem_append.mp hkey with hkey | hkey
        · exact hsent key hkey
        · exact hsents key hkey
      · intro key hkey
        rcases List.mem_append.mp hkey with hkey | hkey
        · exact huseds key hkey
        · exact hused key hkey

/-- **A RATCHET HEALS**: from where it has no sender chain on. -/
theorem sentKeys_healed (hframed : cipher.Framed) {r : Ratchet Term}
    (hsender : r.senderChain.toList = []) (calls : List RatchetCall)
    (hseparated : ∀ call ∈ calls, call.Separated)
    (hfresh : ∀ call ∈ calls, call.Fresh generateKey lost)
    {secrets : Unit ⊕ SecretTerm → Prop} {known : List Term}
    (hlost : ∀ secret, lost secret → ¬secrets (.inr secret))
    (hknown : ∀ key ∈ known, ¬Hidden lost key) :
    (∀ key ∈ (runCalls (symbolicSuite generateKey kdfInfo cipher) calls r).2,
      ¬Derives secrets known key) ∧
    ∀ key ∈ usedKeys (symbolicSuite generateKey kdfInfo cipher) calls r,
      ¬Derives secrets known key ∨ ∃ k ∈ receivingKeys r, Reaches k key := by
  obtain ⟨hsent, hused⟩ := runCalls_healed generateKey kdfInfo cipher hframed calls
    (Healed.start hsender lost) hseparated hfresh
  refine ⟨fun key hkey => (hsent key hkey).not_derives hlost hknown, ?_⟩
  intro key hkey
  rcases hused key hkey with hhidden | hold
  · exact Or.inl (hhidden.not_derives hlost hknown)
  · exact Or.inr hold

end OlmRatchet

namespace OlmSession

open ByteMemory OlmCrypto OlmMessage OlmRatchet OlmAccount KeyTerms

variable (prim : Primitives)

/-- **A SESSION HEALS**: take any run of a session up to where its ratchet has no sender
    chain.  Who knows keys of terms that no secret of a later ratchet key went into, and
    knows every other secret, derives none of the keys that messages are sent with from
    there on, and of those that messages are accepted with only such that go back to the
    receiving side of that moment.  The keys are those that the cipher is called with. -/
theorem session_heals {s : Session} (hs : Created prim s) (before after : List SessionCall)
    (hsender : (runSession prim before s).ratchet.senderChain.toList = [])
    (hseparated : ∀ call ∈ after, call.Separated) :
    ∃ r secret, Initialised (symbolicOlmSuite prim) (.atom ()) r ∧
      s.ratchet = r.map (evalTerm prim) ∧ source r.rootKey = .inr (.handshake secret) ∧
      let taken := (runCalls (symbolicOlmSuite prim) (ratchetCalls prim before s) r).1
      let calls := ratchetCalls prim after (runSession prim before s)
      let sent := (runCalls (symbolicOlmSuite prim) calls taken).2
      let used := usedKeys (symbolicOlmSuite prim) calls taken
      (runSession prim before s).ratchet = taken.map (evalTerm prim) ∧
      sentKeys prim after (runSession prim before s) = sent.map (evalTerm prim) ∧
      usedKeys (olmSuite prim) calls (runSession prim before s).ratchet
        = used.map (evalTerm prim) ∧
      KeysOf (olmSuite prim) (RatchetCall.EncryptsWith (olmSuite prim)) calls
        (runSession prim before s).ratchet (sentKeys prim after (runSession prim before s)) ∧
      KeysOf (olmSuite prim) (RatchetCall.CiphersWith (olmSuite prim)) calls
        (runSession prim before s).ratchet
        (usedKeys (olmSuite prim) calls (runSession prim before s).ratchet).reverse ∧
      ∀ lost secrets known, (∀ secret, lost secret → ¬secrets (.inr secret)) →
        (∀ call ∈ calls, call.Fresh (cryptoCurve25519GenerateKey prim) lost) →
        (∀ key ∈ known, ¬Hidden lost key) →
        (∀ key ∈ sent, ¬Derives secrets known key) ∧
        ∀ key ∈ used, ¬Derives secrets known key ∨ ∃ k ∈ receivingKeys taken, Reaches k key := by
  obtain ⟨r, secret, hinit, hr, hsource⟩ := hs.secret
  have hframed := olmSuite_framed prim
  have hseparatedCalls := ratchetCalls_separated prim after (runSession prim before s) hseparated
  have htaken : (runSession prim before s).ratchet
      = (runCalls (symbolicOlmSuite prim) (ratchetCalls prim before s) r).1.map
          (evaluation prim).key := by
    have hrun := (evaluation prim).runCalls (ratchetCalls prim before s) r
    rw [ratchet_runSession, hr, hrun]
  have hnone : (runCalls (symbolicOlmSuite prim) (ratchetCalls prim before s) r).1.senderChain.toList
      = [] := by
    rw [htaken] at hsender
    exact List.map_eq_nil_iff.mp hsender
  refine ⟨r, secret, hinit, hr, hsource, htaken, ?_, ?_, runCalls_encrypts _ _,
    usedKeys_cipher hframed _ _ hseparatedCalls, ?_⟩
  · have hsent := (evaluation prim).runCalls
      (ratchetCalls prim after (runSession prim before s))
      (runCalls (symbolicOlmSuite prim) (ratchetCalls prim before s) r).1
    rw [← htaken] at hsent
    rw [sentKeys, hsent]
    rfl
  · rw [htaken]
    exact (evaluation prim).usedKeys _ _
  · intro lost secrets known hlost hfresh hknown
    exact sentKeys_healed _ _ _ (hframed.onKeys (evalTerm prim)) hnone _ hseparatedCalls hfresh
      hlost hknown

/-- The session that the first message of the test opens. -/
def demoReceived : Session :=
  match newInboundSession demoPrimitives newSession demoAccount none demoSent.1 300
    (encryptMessageLength demoPrimitives demoStart 2) with
  | some (s, _) => s
  | none => newSession

theorem demoReceived_created : Created demoPrimitives demoReceived := by
  have hresult : (newInboundSession demoPrimitives newSession demoAccount none demoSent.1 300
      (encryptMessageLength demoPrimitives demoStart 2)).map Prod.snd = some (some 0) := by
    decide +kernel
  obtain ⟨⟨s, n⟩, hcall, hzero⟩ := Option.map_eq_some_iff.mp hresult
  have hreceived : demoReceived = s := by
    rw [demoReceived, hcall]
  rw [hreceived]
  exact Created.inbound rfl (hcall.trans (congrArg some (Prod.ext rfl hzero)))

/-- A message of the creator on the wire, with its counter, and its ciphertext and MAC. -/
def demoWire (counter : UInt8) (rest : Bytes) : Bytes :=
  [3, 10, 32, 11] ++ List.replicate 31 2 ++ [18, 32, 12] ++ List.replicate 31 3 ++ [26, 32, 10]
    ++ List.replicate 31 1 ++ [34, 63, 3, 10, 32, 13] ++ List.replicate 31 4
    ++ [16, counter, 34, 16] ++ rest

/-- The call that decrypts it. -/
def demoReceipt (bytes : Bytes) : SessionCall :=
  .decrypt messageReader .preKey (fun address => bytes.getD address 0) 0 bytes.length 1000 100

/-- The third message comes first. -/
def demoBefore : List SessionCall :=
  [demoReceipt (demoWire 2 [2, 142, 150, 158, 142, 70, 118, 46, 59, 164, 164, 164, 164, 164, 164,
    164, 216, 193, 35, 166, 61, 45, 91, 253])]

/-- Two answers, and between them the first message; the second one is lost. -/
def demoAfter : List SessionCall :=
  [.encrypt demoKeyMemory 0 2 224 32 300 200,
    demoReceipt (demoWire 0 [48, 140, 150, 158, 142, 70, 54, 110, 251, 84, 84, 84, 84, 84, 84, 84,
      72, 129, 35, 102, 187, 237, 27, 235]),
    .encrypt demoKeyMemory 0 2 224 32 300 200]

/-- The session behind the third message. -/
def demoTaken : Session := runSession demoPrimitives demoBefore demoReceived

/-- A secret of the ratchet key of the answers. -/
def demoSecret (secret : SecretTerm) : Prop :=
  ∃ theirKey, secret = .sharedSecret
    (cryptoCurve25519GenerateKey demoPrimitives (load 32 demoKeyMemory 224)) theirKey

/-- A ratchet key that the call generates is that of the answers. -/
def demoFresh : RatchetCall → Bool
  | .encrypt m _ _ random _ _ _ => load 32 m random = load 32 demoKeyMemory 224
  | _ => true

theorem demoFresh_fresh {calls : List RatchetCall} (h : calls.all demoFresh = true) :
    ∀ call ∈ calls, call.Fresh (cryptoCurve25519GenerateKey demoPrimitives) demoSecret := by
  intro call hcall
  have hdrawn := List.all_eq_true.mp h call hcall
  cases call with
  | encrypt m _ _ random _ _ _ =>
      rw [demoFresh, decide_eq_true_eq] at hdrawn
      intro theirKey
      rw [hdrawn]
      exact ⟨theirKey, rfl⟩
  | decrypt _ _ _ _ _ _ => trivial
  | clearError => trivial

/-- All messages are accepted, and both answers are sent. -/
theorem demoTaken_run :
    demoTaken.ratchet.senderChain.toList.length = 0 ∧
      (sentKeys demoPrimitives demoAfter demoTaken).length = 2 ∧
      (usedKeys (olmSuite demoPrimitives) (ratchetCalls demoPrimitives demoAfter demoTaken)
        demoTaken.ratchet).length = 3 ∧
      (ratchetCalls demoPrimitives demoAfter demoTaken).all demoFresh = true := by
  decide +kernel

/-- Whoever knows every secret but those of the ratchet key of the answers derives none of the
    keys of the answers. -/
theorem session_heals_demo :
    ∃ r, Initialised (symbolicOlmSuite demoPrimitives) (.atom ()) r ∧
      let taken := (runCalls (symbolicOlmSuite demoPrimitives)
        (ratchetCalls demoPrimitives demoBefore demoReceived) r).1
      let sent := (runCalls (symbolicOlmSuite demoPrimitives)
        (ratchetCalls demoPrimitives demoAfter demoTaken) taken).2
      sent.length = 2 ∧
        ∀ key ∈ sent, ¬Derives (fun s => ∀ secret, demoSecret secret → s ≠ .inr secret) [] key := by
  obtain ⟨hlength, hsent, -, hfresh⟩ := demoTaken_run
  rw [demoTaken] at hlength hsent hfresh ⊢
  have hseparated : ∀ call ∈ demoAfter, call.Separated := by
    intro call hcall
    simp only [demoAfter, List.mem_cons, List.not_mem_nil, or_false] at hcall
    rcases hcall with rfl | rfl | rfl
    · trivial
    · exact Or.inr (by decide +kernel)
    · trivial
  obtain ⟨r, secret, hinit, -, -, -, hkeys, -, -, -, hheals⟩ :=
    session_heals demoPrimitives demoReceived_created demoBefore demoAfter
      (List.length_eq_zero_iff.mp hlength) hseparated
  refine ⟨r, hinit, ?_, ?_⟩
  · rw [← hsent, hkeys, List.length_map]
  · refine (hheals demoSecret _ [] ?_ (demoFresh_fresh hfresh) ?_).1
    · intro s hs hknown
      exact hknown s hs rfl
    · intro key hkey
      cases hkey

end OlmSession
