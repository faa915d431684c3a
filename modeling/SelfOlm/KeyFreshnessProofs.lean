import SelfOlm.SymbolicRatchet
import SelfOlm.RatchetRuns

/-! # A message key is used once for sending

    Key and IV of a message come from its message key alone.  Over derivation
    terms every sender chain has an epoch of its own: it comes with a root key
    one epoch later than all keys before.  Inside a chain the steps go up.  So no
    term is used twice, in any run; and the run of a session is the evaluation
    of a run over terms. -/

namespace OlmRatchet

open ByteMemory OlmCrypto OlmMessage OlmList KeyTerms

variable {K I : Type} (S : Suite K I)

/-! ## The sending side of `decrypt` -/

/-- What `decrypt` does to the sending side: nothing, or it drops the sender chain
    and moves the root key on. -/
inductive Received (r r' : Ratchet K) : Prop
  | kept (hroot : r'.rootKey = r.rootKey) (hsender : r'.senderChain = r.senderChain)
  | dropped (ourKey : Curve25519KeyPair) (theirKey : Curve25519PublicKey)
      (hroot : r'.rootKey = (createChainKey S r.rootKey ourKey theirKey).1)
      (hsender : r'.senderChain.toList = [])

theorem startReceiverChain_received (r : Ratchet K) (theirKey : Curve25519PublicKey) :
    Received S r (startReceiverChain S r theirKey) := by
  unfold startReceiverChain
  cases hsender : r.senderChain.toList with
  | nil => exact Received.kept rfl rfl
  | cons chain rest =>
      refine Received.dropped chain.ratchetKey theirKey rfl ?_
      show r.senderChain.toList.eraseIdx 0 = []
      rw [BoundedList.toList_singleton hsender]
      rfl

theorem advanceReceiverChain_received {r r' : Ratchet K} (pos : Nat) (counter : UInt32)
    (h : Received S r r') : Received S r (advanceReceiverChain S r' pos counter) := by
  unfold advanceReceiverChain
  cases r'.receiverChains.toList[pos]? with
  | none => exact h
  | some chain =>
      cases h with
      | kept hroot hsender => exact Received.kept hroot hsender
      | dropped ourKey theirKey hroot hsender =>
          exact Received.dropped ourKey theirKey hroot hsender

theorem decryptChecked_received (r : Ratchet K) (m : Mem) (reader : MessageReader)
    (plaintext maxPlaintextLength : Nat) :
    Received S r (decryptChecked S r m reader plaintext maxPlaintextLength).2.1 := by
  have hkept : Received S r r := Received.kept rfl rfl
  unfold decryptChecked
  cases findChain r m reader with
  | none =>
      rcases verifyMacAndDecryptForNewChain S r reader m plaintext maxPlaintextLength
        with ⟨m₁, _ | result⟩
      · exact Received.kept rfl rfl
      · exact advanceReceiverChain_received S 0 reader.counter (startReceiverChain_received S r _)
  | some pos =>
      simp only
      cases r.receiverChains.toList[pos]? with
      | none => exact hkept
      | some chain =>
          simp only
          split
          · rcases trySkippedKeys S reader plaintext maxPlaintextLength 0
              r.skippedMessageKeys.toList m with ⟨m₁, _ | ⟨i, result⟩⟩
            · exact Received.kept rfl rfl
            · exact Received.kept rfl rfl
          · rcases verifyMacAndDecryptForExistingChain S chain.chainKey reader m plaintext
              maxPlaintextLength with ⟨m₁, _ | result⟩
            · exact Received.kept rfl rfl
            · exact advanceReceiverChain_received S pos reader.counter hkept

/-- Whatever the message is, and whether it is accepted or not. -/
theorem decrypt_received (r : Ratchet K) (stack : MessageReader) (m : Mem)
    (input inputLength plaintext maxPlaintextLength : Nat) :
    Received S r (decrypt S r stack m input inputLength plaintext maxPlaintextLength).2.1 := by
  rw [decrypt]
  generalize decodeMessage stack m input inputLength S.ratchetCipher.macLength = reader
  by_cases h1 : reader.version ≠ protocolVersion
  · rw [if_pos h1]
    exact Received.kept rfl rfl
  rw [if_neg h1]
  by_cases h2 : reader.hasCounter = false ∨ reader.ratchetKey = none ∨ reader.ciphertext = none
  · rw [if_pos h2]
    exact Received.kept rfl rfl
  rw [if_neg h2]
  by_cases h3 : maxPlaintextLength
      < S.ratchetCipher.decryptMaxPlaintextLength reader.ciphertextLength
  · rw [if_pos h3]
    exact Received.kept rfl rfl
  rw [if_neg h3]
  by_cases h4 : reader.ratchetKeyLength ≠ curve25519KeyLength
  · rw [if_pos h4]
    exact Received.kept rfl rfl
  rw [if_neg h4]
  exact decryptChecked_received S r m reader plaintext maxPlaintextLength

/-! ## The invariant -/

/-- The keys used for sending and the ratchet: no key is from a later epoch than
    the root key, and the sender chain is past those of its own epoch. -/
structure SendInv (r : Ratchet Term) (used : List Term) : Prop where
  bounded : Bounded used (epoch r.rootKey)
  chainEpoch : ∀ chain ∈ r.senderChain.toList, epoch chain.chainKey.key ≤ epoch r.rootKey
  behind : ∀ chain ∈ r.senderChain.toList, Behind used chain.chainKey.key

variable (generateKey : Vector UInt8 32 → Curve25519KeyPair) (kdfInfo : KdfInfo)
  (cipher : Cipher Term)

theorem SendInv.congr {r r' : Ratchet Term} {used : List Term} (h : SendInv r used)
    (hroot : r'.rootKey = r.rootKey) (hsender : r'.senderChain = r.senderChain) :
    SendInv r' used := by
  refine ⟨?_, ?_, ?_⟩
  · rw [hroot]
    exact h.bounded
  · rw [hroot, hsender]
    exact h.chainEpoch
  · rw [hsender]
    exact h.behind

theorem SendInv.received {r r' : Ratchet Term} {used : List Term} (h : SendInv r used)
    (hreceived : Received (symbolicSuite generateKey kdfInfo cipher) r r') : SendInv r' used := by
  cases hreceived with
  | kept hroot hsender => exact h.congr hroot hsender
  | dropped ourKey theirKey hroot hsender =>
      obtain ⟨hepoch, -, -⟩ := createChainKey_epoch generateKey kdfInfo cipher
        (Prod.eta (createChainKey (symbolicSuite generateKey kdfInfo cipher) r.rootKey ourKey
          theirKey)).symm
      refine ⟨?_, ?_, ?_⟩
      · rw [hroot, hepoch]
        exact h.bounded.mono (Nat.le_succ _)
      · rw [hsender]
        intro chain hchain
        cases hchain
      · rw [hsender]
        intro chain hchain
        cases hchain

/-- The chain that sends next has the used keys behind it. -/
theorem SendInv.senderChainFor {r : Ratchet Term} {used : List Term} (h : SendInv r used)
    {random : Vector UInt8 32} {rootKey : Term} {chain : SenderChain Term}
    (hfor : senderChainFor (symbolicSuite generateKey kdfInfo cipher) r random
      = (rootKey, chain)) :
    epoch r.rootKey ≤ epoch rootKey ∧ epoch chain.chainKey.key ≤ epoch rootKey ∧
      Behind used chain.chainKey.key := by
  unfold OlmRatchet.senderChainFor at hfor
  cases hsender : r.senderChain.toList with
  | nil =>
      rw [hsender] at hfor
      obtain ⟨rfl, rfl⟩ := Prod.mk.inj hfor
      refine ⟨Nat.le_succ _, Nat.le_refl _, ?_⟩
      exact h.bounded.behind (Nat.lt_succ_self _)
  | cons first rest =>
      rw [hsender] at hfor
      obtain ⟨rfl, rfl⟩ := Prod.mk.inj hfor
      have hmem : first ∈ r.senderChain.toList := by
        rw [hsender]
        exact List.mem_cons_self
      exact ⟨Nat.le_refl _, h.chainEpoch first hmem, h.behind first hmem⟩

/-- **SENDING** uses a new key and keeps the invariant. -/
theorem SendInv.sending {r : Ratchet Term} {used : List Term} (h : SendInv r used)
    (random : Vector UInt8 32) :
    (sendingKey (symbolicSuite generateKey kdfInfo cipher) r random).key ∉ used ∧
      SendInv (afterSending (symbolicSuite generateKey kdfInfo cipher) r random)
        ((sendingKey (symbolicSuite generateKey kdfInfo cipher) r random).key :: used) := by
  rw [sendingKey, afterSending]
  rcases hfor : OlmRatchet.senderChainFor (symbolicSuite generateKey kdfInfo cipher) r random
    with ⟨rootKey, chain⟩
  obtain ⟨hroot, hchain, hbehind⟩ := h.senderChainFor generateKey kdfInfo cipher hfor
  refine ⟨hbehind.hmac_notMem messageKeySeed, ?_, ?_, ?_⟩
  · exact (h.bounded.mono hroot).cons hchain
  · intro c hc
    obtain rfl := List.mem_singleton.mp hc
    exact hchain
  · intro c hc
    obtain rfl := List.mem_singleton.mp hc
    refine (hbehind.chainAfter chainKeySeed 1).cons ?_
    intro _
    exact Nat.le_refl _

/-- One call: the key it sends with is new, and the invariant is kept. -/
theorem SendInv.run {r : Ratchet Term} {used : List Term} (h : SendInv r used)
    (call : RatchetCall) :
    (∀ key ∈ call.sentKey (symbolicSuite generateKey kdfInfo cipher) r, key ∉ used) ∧
      (call.sentKey (symbolicSuite generateKey kdfInfo cipher) r).Nodup ∧
      SendInv (call.run (symbolicSuite generateKey kdfInfo cipher) r).2.1
        (call.sentKey (symbolicSuite generateKey kdfInfo cipher) r ++ used) := by
  cases call with
  | encrypt m plaintext plaintextLength random randomLength output maxOutputLength =>
      rw [RatchetCall.sentKey, RatchetCall.run]
      rcases hcall : encrypt (symbolicSuite generateKey kdfInfo cipher) r m plaintext
        plaintextLength random randomLength output maxOutputLength with ⟨m', r', _ | n⟩
      · obtain ⟨e, rfl⟩ := encrypt_failed _ hcall
        refine ⟨?_, List.nodup_nil, h.congr rfl rfl⟩
        intro key hkey
        cases hkey
      · obtain ⟨hnew, hinv⟩ := h.sending generateKey kdfInfo cipher (load 32 m random)
        rw [encrypt_some _ hcall]
        refine ⟨?_, List.nodup_singleton _, hinv⟩
        intro key hkey
        obtain rfl := List.mem_singleton.mp hkey
        exact hnew
  | decrypt stack m input inputLength plaintext maxPlaintextLength =>
      refine ⟨?_, List.nodup_nil, ?_⟩
      · intro key hkey
        cases hkey
      · exact h.received generateKey kdfInfo cipher (decrypt_received _ r stack m _ _ _ _)
  | clearError =>
      refine ⟨?_, List.nodup_nil, h.congr rfl rfl⟩
      intro key hkey
      cases hkey

/-- The keys of a run are new and distinct. -/
theorem SendInv.runCalls (calls : List RatchetCall) :
    ∀ {r : Ratchet Term} {used : List Term}, SendInv r used →
      (∀ key ∈ (runCalls (symbolicSuite generateKey kdfInfo cipher) calls r).2, key ∉ used) ∧
        (runCalls (symbolicSuite generateKey kdfInfo cipher) calls r).2.Nodup := by
  induction calls with
  | nil =>
      intro r used h
      refine ⟨?_, List.nodup_nil⟩
      intro key hkey
      cases hkey
  | cons call calls ih =>
      intro r used h
      obtain ⟨hnew, hnodup, hinv⟩ := h.run generateKey kdfInfo cipher call
      obtain ⟨hnew', hnodup'⟩ := ih hinv
      rw [OlmRatchet.runCalls]
      constructor
      · intro key hkey
        rcases List.mem_append.mp hkey with hkey | hkey
        · exact hnew key hkey
        · exact fun hused => hnew' key hkey (List.mem_append_right _ hused)
      · refine List.nodup_append.mpr ⟨hnodup, hnodup', ?_⟩
        rintro key hkey key' hkey' rfl
        exact hnew' key hkey' (List.mem_append_left _ hkey)

/-! ## Ratchets that were initialised -/

/-- A ratchet behind `initialise_as_alice` or `initialise_as_bob`. -/
inductive Initialised (zero : K) : Ratchet K → Prop
  | alice (sharedSecret : I) (ourRatchetKey : Curve25519KeyPair) :
      Initialised zero (initialiseAsAlice S (newRatchet zero) sharedSecret ourRatchetKey)
  | bob (sharedSecret : I) (theirRatchetKey : Curve25519PublicKey) :
      Initialised zero (initialiseAsBob S (newRatchet zero) sharedSecret theirRatchetKey)

theorem Initialised.sendInv {r : Ratchet Term}
    (h : Initialised (symbolicSuite generateKey kdfInfo cipher) (.atom ()) r) : SendInv r [] := by
  cases h with
  | alice sharedSecret ourRatchetKey =>
      refine ⟨?_, ?_, ?_⟩
      · intro key hkey
        cases hkey
      · intro chain hchain
        obtain rfl := List.mem_singleton.mp hchain
        exact Nat.le_refl _
      · intro chain _ key hkey
        cases hkey
  | bob sharedSecret theirRatchetKey =>
      refine ⟨?_, ?_, ?_⟩
      · intro key hkey
        cases hkey
      · intro chain hchain
        cases hchain
      · intro chain hchain
        cases hchain

end OlmRatchet

namespace OlmSession

open ByteMemory OlmCrypto OlmMessage OlmRatchet OlmAccount KeyTerms

variable (prim : Primitives)

/-! ## Evaluating terms -/

/-- The secret behind a term; that of the handshake is its bytes. -/
def evalSecret : SecretTerm → Bytes
  | .sharedSecret ourKey theirKey => (cryptoCurve25519SharedSecret prim ourKey theirKey).toList
  | .handshake secret => secret

/-- The key that a term stands for; the atom is the key of zeros. -/
def evalTerm : Term → SharedKey
  | .atom _ => Vector.replicate 32 0
  | .hmac key seed => cryptoHmacSha256 prim (evalTerm key).toList [seed]
  | .hkdf half secret info =>
      let keys := hkdfSharedKeys prim (evalSecret prim secret) none info
      if half then keys.2 else keys.1
  | .hkdfSalted half secret salt info =>
      let keys := hkdfSharedKeys prim (evalSecret prim secret) (some (evalTerm salt)) info
      if half then keys.2 else keys.1

/-- The suite of a session over terms: a key is only evaluated where it goes to
    the cipher. -/
def symbolicOlmSuite : Suite Term SecretTerm :=
  symbolicSuite (cryptoCurve25519GenerateKey prim) olmKdfInfo
    ((olmSuite prim).ratchetCipher.onKeys (evalTerm prim))

/-- Evaluation is a translation to the suite of a session. -/
def evaluation : SuiteHom (symbolicOlmSuite prim) (olmSuite prim) where
  key := evalTerm prim
  secret := evalSecret prim
  generateKey := rfl
  sharedSecret := fun _ _ => rfl
  hkdf := fun i salt info => by
    cases salt with
    | none => rfl
    | some salt => rfl
  hmac := fun _ _ => rfl
  kdfInfo := rfl
  ratchetCipher := rfl

/-- A session that `new_outbound_session` or `new_inbound_session` created, in an
    object that had no ratchet. -/
inductive Created : Session → Prop
  | outbound {s₀ s : Session} {localAccount : Account} {identityKey oneTimeKey : Curve25519PublicKey}
      {m : Mem} {random randomLength n : Nat}
      (hnew : s₀.ratchet = newRatchet (Vector.replicate 32 0))
      (hcall : newOutboundSession prim s₀ localAccount identityKey oneTimeKey m random randomLength
        = (s, some n)) : Created s
  | inbound {s₀ s : Session} {localAccount : Account}
      {theirIdentityKey : Option Curve25519PublicKey} {m : Mem}
      {oneTimeKeyMessage messageLength n : Nat}
      (hnew : s₀.ratchet = newRatchet (Vector.replicate 32 0))
      (hcall : newInboundSession prim s₀ localAccount theirIdentityKey m oneTimeKeyMessage
        messageLength = some (s, some n)) : Created s

theorem newOutboundSession_ratchet {s₀ s : Session} {localAccount : Account}
    {identityKey oneTimeKey : Curve25519PublicKey} {m : Mem} {random randomLength n : Nat}
    (h : newOutboundSession prim s₀ localAccount identityKey oneTimeKey m random randomLength
      = (s, some n)) :
    ∃ secret ratchetKey,
      s.ratchet = initialiseAsAlice (olmSuite prim) s₀.ratchet secret ratchetKey := by
  rw [newOutboundSession] at h
  by_cases h1 : randomLength < newOutboundSessionRandomLength
  · rw [if_pos h1] at h
    cases (Prod.mk.inj h).2
  · rw [if_neg h1] at h
    obtain ⟨rfl, -⟩ := Prod.mk.inj h
    exact ⟨_, _, rfl⟩

theorem newInboundSession_ratchet {s₀ s : Session} {localAccount : Account}
    {theirIdentityKey : Option Curve25519PublicKey} {m : Mem}
    {oneTimeKeyMessage messageLength n : Nat}
    (h : newInboundSession prim s₀ localAccount theirIdentityKey m oneTimeKeyMessage
      messageLength = some (s, some n)) :
    ∃ secret ratchetKey,
      s.ratchet = initialiseAsBob (olmSuite prim) s₀.ratchet secret ratchetKey := by
  simp only [newInboundSession] at h
  generalize decodeOneTimeKeyMessage preKeyReader m oneTimeKeyMessage messageLength = reader at h
  by_cases h1 : (!checkMessageFields reader theirIdentityKey.isSome) = true
  · rw [if_pos h1] at h
    cases (Prod.mk.inj (Option.some.inj h)).2
  rw [if_neg h1] at h
  by_cases h2 : (!sameIdentityKey reader theirIdentityKey m) = true
  · rw [if_pos h2] at h
    cases (Prod.mk.inj (Option.some.inj h)).2
  rw [if_neg h2] at h
  cases hidentity : reader.identityKey with
  | none =>
      rw [hidentity] at h
      cases h
  | some identityKey =>
      rw [hidentity] at h
      simp only at h
      generalize decodeMessage messageReader m (reader.message.getD 0) reader.messageLength
        (olmSuite prim).ratchetCipher.macLength = inner at h
      by_cases h3 : (inner.ratchetKey.isNone || inner.ratchetKeyLength != curve25519KeyLength)
          = true
      · rw [if_pos h3] at h
        cases (Prod.mk.inj (Option.some.inj h)).2
      rw [if_neg h3] at h
      cases hlookup : lookupKey localAccount (load 32 m (reader.oneTimeKey.getD 0)) with
      | none =>
          rw [hlookup] at h
          cases (Prod.mk.inj (Option.some.inj h)).2
      | some ourOneTimeKey =>
          rw [hlookup] at h
          obtain ⟨rfl, -⟩ := Prod.mk.inj (Option.some.inj h)
          exact ⟨_, _, rfl⟩

/-- The ratchet of a new session is the evaluation of one over terms. -/
theorem Created.ratchet {s : Session} (h : Created prim s) :
    ∃ r, Initialised (symbolicOlmSuite prim) (.atom ()) r ∧
      s.ratchet = r.map (evaluation prim).key := by
  cases h with
  | outbound hnew hcall =>
      obtain ⟨secret, ratchetKey, hratchet⟩ := newOutboundSession_ratchet prim hcall
      refine ⟨_, Initialised.alice (.handshake secret) ratchetKey, ?_⟩
      rw [hratchet, hnew, ← (evaluation prim).initialiseAsAlice]
      rfl
  | inbound hnew hcall =>
      obtain ⟨secret, ratchetKey, hratchet⟩ := newInboundSession_ratchet prim hcall
      refine ⟨_, Initialised.bob (.handshake secret) ratchetKey, ?_⟩
      rw [hratchet, hnew, ← (evaluation prim).initialiseAsBob]
      rfl

/-- The keys of the messages that `Ratchet::encrypt` sent over a run. -/
def sentKeys (calls : List SessionCall) (s : Session) : List SharedKey :=
  (runCalls (olmSuite prim) (ratchetCalls prim calls s) s.ratchet).2

/-- **NO MESSAGE KEY IS USED TWICE FOR SENDING**: over terms the keys of a run, which are
    those that the cipher is called with, are distinct, and what a session does with its
    ratchet is the evaluation of a run over terms. -/
theorem sentKeys_distinct :
    (∀ generateKey kdfInfo cipher r,
      Initialised (symbolicSuite generateKey kdfInfo cipher) (.atom ()) r → ∀ calls,
        let suite := symbolicSuite generateKey kdfInfo cipher
        KeysOf suite (RatchetCall.EncryptsWith suite) calls r (runCalls suite calls r).2 ∧
          (runCalls suite calls r).2.Nodup) ∧
    (∀ prim s, Created prim s →
      ∃ r, Initialised (symbolicOlmSuite prim) (.atom ()) r ∧
        s.ratchet = r.map (evalTerm prim) ∧ ∀ calls,
          (runCalls (symbolicOlmSuite prim) (ratchetCalls prim calls s) r).2.Nodup ∧
          (runSession prim calls s).ratchet
            = (runCalls (symbolicOlmSuite prim) (ratchetCalls prim calls s) r).1.map
                (evalTerm prim) ∧
          KeysOf (olmSuite prim) (RatchetCall.EncryptsWith (olmSuite prim))
            (ratchetCalls prim calls s) s.ratchet (sentKeys prim calls s) ∧
          sentKeys prim calls s
            = (runCalls (symbolicOlmSuite prim) (ratchetCalls prim calls s) r).2.map
                (evalTerm prim)) := by
  constructor
  · intro generateKey kdfInfo cipher r h calls
    exact ⟨runCalls_encrypts calls r,
      ((h.sendInv generateKey kdfInfo cipher).runCalls generateKey kdfInfo cipher calls).2⟩
  · intro prim s hs
    obtain ⟨r, hinit, hr⟩ := hs.ratchet
    refine ⟨r, hinit, hr, ?_⟩
    intro calls
    have heval := (evaluation prim).runCalls (ratchetCalls prim calls s) r
    rw [← hr] at heval
    refine ⟨((hinit.sendInv _ _ _).runCalls _ _ _ _).2, ?_, runCalls_encrypts _ _, ?_⟩
    · rw [ratchet_runSession, heval]
      rfl
    · rw [sentKeys, heval]
      rfl

/-- A new outbound session of an account without keys. -/
def demoSession : Session :=
  (newOutboundSession demoPrimitives newSession newAccountObject (Vector.replicate 32 1)
    (Vector.replicate 32 2) (fun _ => 7) 0 64).1

theorem demoSession_created : Created demoPrimitives demoSession := by
  have hcall : newOutboundSession demoPrimitives newSession newAccountObject
      (Vector.replicate 32 1) (Vector.replicate 32 2) (fun _ => 7) 0 64
      = (demoSession, some 0) := rfl
  exact Created.outbound rfl hcall

/-- Two messages are sent, and one of zeros is refused in between. -/
def demoCalls : List SessionCall :=
  [.encrypt (fun _ => 7) 0 5 100 0 200 500, .decrypt messageReader .message (fun _ => 0) 0 40 100 40,
    .encrypt (fun _ => 7) 0 5 100 0 200 500]

theorem sentKeys_distinct_demo :
    (sentKeys demoPrimitives demoCalls demoSession).length = 2 ∧
    (runCalls (symbolicOlmSuite demoPrimitives) (ratchetCalls demoPrimitives demoCalls demoSession)
      (initialiseAsBob (symbolicOlmSuite demoPrimitives) (newRatchet (.atom ())) (.handshake [1])
        (Vector.replicate 32 7))).2.Nodup ∧
    ∃ r, Initialised (symbolicOlmSuite demoPrimitives) (.atom ()) r ∧
      (runCalls (symbolicOlmSuite demoPrimitives)
        (ratchetCalls demoPrimitives demoCalls demoSession) r).2.Nodup ∧
      sentKeys demoPrimitives demoCalls demoSession
        = (runCalls (symbolicOlmSuite demoPrimitives)
            (ratchetCalls demoPrimitives demoCalls demoSession) r).2.map
              (evalTerm demoPrimitives) := by
  refine ⟨by decide +kernel, ?_, ?_⟩
  · exact (sentKeys_distinct.1 _ _ _ _ (Initialised.bob _ _) _).2
  · obtain ⟨r, hinit, -, hrun⟩ :=
      sentKeys_distinct.2 demoPrimitives demoSession demoSession_created
    obtain ⟨hnodup, -, -, hkeys⟩ := hrun demoCalls
    exact ⟨r, hinit, hnodup, hkeys⟩

end OlmSession
