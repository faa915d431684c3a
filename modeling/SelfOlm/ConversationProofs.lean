import SelfOlm.ConversationMessageProofs

/-! # Messages of a conversation can be read

    Both sides go through the same epochs.  One side leads: it owns the newest epoch.
    The other one has either started that epoch as a receiver and will answer it, or
    still sends on the epoch before.  What is in flight was sent on an epoch of its
    sender, and the receiver has every key for it that is not too old. -/

namespace OlmSession

open ByteMemory OlmCrypto OlmMessage OlmList OlmRatchet OlmAccount

variable {prim : Primitives}

/-! ## One side -/

/-- The names of what is in flight to a side. -/
def Party.names (p : Party) : List KeyName := p.inbox.map Sent.name

/-- What a side has of the epochs of the other one that it has started. -/
structure Side (prim : Primitives) (theirs : List Epoch) (p : Party) : Prop where
  receives : Receives prim theirs p.session.ratchet p.passed
  waits : Waits p.session.ratchet p.passed p.names
  started : p.started = theirs.map Epoch.publicKey

/-- A side knows at most the first `k` counters of a chain. -/
structure Below (p : Party) (key : Curve25519PublicKey) (k : Nat) : Prop where
  names : ∀ name ∈ p.names, name.1 = key → name.2.toNat < k
  passed : ∀ name ∈ p.passed, name.1 = key → name.2.toNat < k
  chains : ∀ chain ∈ p.session.ratchet.receiverChains.toList, chain.ratchetKey = key →
    chain.chainKey.index.toNat ≤ k

section Sides

variable {theirs : List Epoch} {p : Party} {s : Session} {e : Epoch} {msg : Sent}
  {key : Curve25519PublicKey} {k : Nat}

/-- A call that leaves the receiver chains and the skipped keys alone. -/
theorem Side.congr (h : Side prim theirs p)
    (hchains : s.ratchet.receiverChains = p.session.ratchet.receiverChains)
    (hskipped : s.ratchet.skippedMessageKeys = p.session.ratchet.skippedMessageKeys) :
    Side prim theirs { p with session := s } :=
  ⟨h.receives.congr hchains hskipped, h.waits.congr hchains hskipped, h.started⟩

theorem Below.congr (h : Below p key k)
    (hchains : s.ratchet.receiverChains = p.session.ratchet.receiverChains) :
    Below { p with session := s } key k :=
  ⟨h.names, h.passed, hchains ▸ h.chains⟩

/-- What is left in flight behind one message. -/
theorem Side.names_erase (h : Side prim theirs p) (msg : Sent) :
    ((p.inbox.erase msg).map Sent.name).Nodup ∧
      (p.inbox.erase msg).map Sent.name ⊆ p.names ∧
      (msg ∈ p.inbox → (p.inbox.erase msg).map Sent.name ⊆ p.names.erase msg.name) := by
  have hdistinct : (p.inbox.map Sent.name).Nodup := h.waits.distinct
  have hsublist : ((p.inbox.erase msg).map Sent.name).Sublist (p.inbox.map Sent.name) :=
    List.erase_sublist.map Sent.name
  refine ⟨hdistinct.sublist hsublist, hsublist.subset, ?_⟩
  intro hmsg name hname
  obtain ⟨other, hother, rfl⟩ := List.mem_map.mp hname
  obtain ⟨hne, hmem⟩ := (List.Nodup.mem_erase_iff hdistinct.of_map).mp hother
  refine (List.Nodup.mem_erase_iff hdistinct).mpr ⟨?_, List.mem_map_of_mem hmem⟩
  intro hsame
  exact hne (List.inj_on_of_nodup_map hdistinct hmem hmsg hsame)

/-- **A MESSAGE IS LOST**. -/
theorem Side.lost (h : Side prim theirs p) (msg : Sent) :
    Side prim theirs { p with inbox := p.inbox.erase msg } := by
  obtain ⟨hdistinct, hfewer, -⟩ := h.names_erase msg
  exact ⟨h.receives, h.waits.subset hfewer hdistinct, h.started⟩

theorem Below.lost (h : Below p key k) (msg : Sent) :
    Below { p with inbox := p.inbox.erase msg } key k where
  names := by
    intro name hname
    obtain ⟨other, hother, rfl⟩ := List.mem_map.mp hname
    exact h.names _ (List.mem_map_of_mem (List.mem_of_mem_erase hother))
  passed := h.passed
  chains := h.chains

/-- **A MESSAGE COMES IN**, from the end of its chain. -/
theorem Side.sent (h : Side prim theirs p) (hbelow : Below p key k) (hfew : k < 2 ^ 32)
    (hname : msg.name = (key, UInt32.ofNat k)) :
    Side prim theirs { p with inbox := msg :: p.inbox } := by
  have hcounter : msg.name.2.toNat = k := by
    rw [hname]
    exact UInt32.toNat_ofNat_of_lt' hfew
  have hkey : msg.name.1 = key := by rw [hname]
  -- it is the first counter that this side does not know
  refine ⟨h.receives, h.waits.sent ?_ ?_ ?_, h.started⟩
  · intro hmem
    exact absurd (hbelow.names _ hmem hkey) (by omega)
  · intro hmem
    exact absurd (hbelow.passed _ hmem hkey) (by omega)
  · intro chain hchain hsame
    rw [UInt32.le_iff_toNat_le, hcounter]
    exact hbelow.chains chain hchain (hsame.trans hkey)

theorem Below.sent (h : Below p key k) (hfew : k < 2 ^ 32)
    (hname : msg.name = (key, UInt32.ofNat k)) :
    Below { p with inbox := msg :: p.inbox } key (k + 1) where
  names := by
    intro name hmem hkey
    rcases List.mem_cons.mp hmem with rfl | hmem
    · rw [hname, UInt32.toNat_ofNat_of_lt' hfew]
      exact Nat.lt_succ_self k
    · exact Nat.lt_succ_of_lt (h.names name hmem hkey)
  passed := fun name hmem hkey => Nat.lt_succ_of_lt (h.passed name hmem hkey)
  chains := fun chain hchain hkey => Nat.le_succ_of_le (h.chains chain hchain hkey)

/-- **A MESSAGE IS ACCEPTED**. -/
theorem Side.took (h : Side prim theirs p) {theirs' : List Epoch} (hmsg : msg ∈ p.inbox)
    (htook : Took prim theirs' p.session.ratchet s.ratchet p.passed p.names msg.name)
    (hstarted : (p.received msg s).started = theirs'.map Epoch.publicKey) :
    Side prim theirs' (p.received msg s) := by
  obtain ⟨hdistinct, -, hfewer⟩ := h.names_erase msg
  exact ⟨htook.receives, htook.waits.subset (hfewer hmsg) hdistinct, hstarted⟩

theorem Below.took (h : Below p key k) {theirs' : List Epoch} (hmsg : msg ∈ p.inbox)
    (hlast : msg.counter ≠ 0xFFFFFFFF)
    (htook : Took prim theirs' p.session.ratchet s.ratchet p.passed p.names msg.name) :
    Below (p.received msg s) key k where
  names := (h.lost msg).names
  passed := by
    intro name hname hkey
    rcases List.mem_append.mp hname with hnew | hold
    · obtain ⟨hsame, -, hlt⟩ := mem_passedNames.mp hnew
      have hmessage := h.names _ (List.mem_map_of_mem hmsg) (hsame.symm.trans hkey)
      exact Nat.lt_trans (UInt32.lt_iff_toNat_lt.mp hlt) hmessage
    · exact h.passed name hold hkey
  chains := by
    intro chain hchain hkey
    rcases htook.chains chain hchain with hold | ⟨hsame, hindex⟩
    · exact h.chains chain hold hkey
    · have hmessage := h.names _ (List.mem_map_of_mem hmsg) (hsame.symm.trans hkey)
      -- the index behind the last counter would be zero
      have hmax : msg.counter.toNat ≠ 2 ^ 32 - 1 := fun hmax => hlast (UInt32.toNat_inj.mp hmax)
      have hcounter := msg.counter.toNat_lt
      have hnext : (msg.counter + 1).toNat = msg.counter.toNat + 1 := by
        rw [UInt32.toNat_add, show (1 : UInt32).toNat = 1 from rfl, Nat.mod_eq_of_lt (by omega)]
      rw [hindex]
      exact hnext.trans_le hmessage

/-- Nothing is known of a ratchet key that was not there before. -/
theorem Below.fresh (hnames : ∀ name ∈ p.names, name.1 ≠ key)
    (hpassed : ∀ name ∈ p.passed, name.1 ≠ key) (hchains : key ∉ receiverKeys p.session.ratchet) :
    Below p key 0 where
  names := fun name hname hkey => absurd hkey (hnames name hname)
  passed := fun name hname hkey => absurd hkey (hpassed name hname)
  chains := fun chain hchain hkey => absurd (List.mem_map.mpr ⟨chain, hchain, hkey⟩) hchains

end Sides

/-! ## Deliveries -/

section Deliveries

variable {theirs : List Epoch} {p : Party} {s : Session} {e : Epoch} {msg : Sent}
  {stack : MessageReader} {m m' : Mem}
  {message messageLength plaintext maxPlaintextLength n : Nat}

/-- A message of an epoch that was started is accepted. -/
theorem Side.delivered (h : Side prim theirs p) (hdistinct : (theirs.map Epoch.publicKey).Nodup)
    (he : e ∈ theirs) (hsent : SentOn prim e msg) (hmsg : msg ∈ p.inbox)
    (hread : read m message messageLength = msg.bytes)
    (hseparate : Separate plaintext maxPlaintextLength message messageLength)
    (hcall : decrypt prim p.session stack msg.messageType m message messageLength plaintext
      maxPlaintextLength = (m', s, some n))
    (hgenuine : msg.ratchetKey ∈ p.started → msg.ratchetKey ∈ receiverKeys p.session.ratchet) :
    s.ratchet.rootKey = p.session.ratchet.rootKey ∧
      s.ratchet.senderChain = p.session.ratchet.senderChain ∧
      Side prim theirs (p.received msg s) ∧
      ∀ key k, Below p key k → Below (p.received msg s) key k := by
  have hheld : msg.ratchetKey ∈ receiverKeys p.session.ratchet := by
    refine hgenuine ?_
    rw [h.started, hsent.ratchetKey]
    exact List.mem_map_of_mem he
  have hname : msg.name = (e.publicKey, msg.counter) := Prod.ext hsent.ratchetKey rfl
  have hstarted : (p.received msg s).started = theirs.map Epoch.publicKey := by
    rw [Party.received, if_pos hheld]
    exact h.started
  obtain ⟨body, bodyLength, hbody, hholds, hfirst, hlast⟩ := hsent.messageBody hread
  obtain ⟨hroot, hsender, htook⟩ := h.receives.accepted h.waits hdistinct he
    (hsent.ratchetKey ▸ hheld) hsent.counter hholds (Disjoint.part hseparate hfirst hlast)
    (decrypt_some hbody hcall)
  rw [← hname] at htook
  exact ⟨hroot, hsender, h.took hmsg htook hstarted,
    fun key k hbelow => hbelow.took hmsg hsent.counter htook⟩

/-- A message of a new epoch is accepted. -/
theorem Side.delivered_new (h : Side prim theirs p)
    (hdistinct : ((e :: theirs).map Epoch.publicKey).Nodup) (hsent : SentOn prim e msg)
    {senderChain : SenderChain SharedKey}
    (hsender : p.session.ratchet.senderChain.toList = [senderChain])
    (hderived : createChainKey (olmSuite prim) p.session.ratchet.rootKey senderChain.ratchetKey
      e.publicKey = (e.rootKey, e.firstKey))
    (hmsg : msg ∈ p.inbox) (hread : read m message messageLength = msg.bytes)
    (hseparate : Separate plaintext maxPlaintextLength message messageLength)
    (hcall : decrypt prim p.session stack msg.messageType m message messageLength plaintext
      maxPlaintextLength = (m', s, some n)) :
    s.ratchet.rootKey = e.rootKey ∧ s.ratchet.senderChain.toList = [] ∧
      Side prim (e :: theirs) (p.received msg s) ∧
      ∀ key k, Below p key k → Below (p.received msg s) key k := by
  have habsent : msg.ratchetKey ∉ receiverKeys p.session.ratchet := by
    rw [hsent.ratchetKey]
    exact h.receives.notMem_new hdistinct
  have hname : msg.name = (e.publicKey, msg.counter) := Prod.ext hsent.ratchetKey rfl
  have hstarted : (p.received msg s).started = (e :: theirs).map Epoch.publicKey := by
    rw [Party.received, if_neg habsent, hsent.ratchetKey, h.started]
    rfl
  obtain ⟨body, bodyLength, hbody, hholds, hfirst, hlast⟩ := hsent.messageBody hread
  obtain ⟨hroot, hempty, htook⟩ := h.receives.accepted_new h.waits hdistinct hsent.counter hsender
    hderived hholds (Disjoint.part hseparate hfirst hlast) (decrypt_some hbody hcall)
  rw [← hname] at htook
  exact ⟨hroot, hempty, h.took hmsg htook hstarted,
    fun key k hbelow => hbelow.took hmsg hsent.counter htook⟩

/-- The keys of two sessions agree. -/
structure SameKeys (s s' : Session) : Prop where
  rootKey : s'.ratchet.rootKey = s.ratchet.rootKey
  senderChain : s'.ratchet.senderChain = s.ratchet.senderChain
  receiverChains : s'.ratchet.receiverChains = s.ratchet.receiverChains
  skippedMessageKeys : s'.ratchet.skippedMessageKeys = s.ratchet.skippedMessageKeys

/-- A call that fails. -/
theorem SameKeys.of_failed {s s' : Session} (h : s'.withoutErrors = s.withoutErrors) :
    SameKeys s s' where
  rootKey := congrArg (fun s => s.ratchet.rootKey) h
  senderChain := congrArg (fun s => s.ratchet.senderChain) h
  receiverChains := congrArg (fun s => s.ratchet.receiverChains) h
  skippedMessageKeys := congrArg (fun s => s.ratchet.skippedMessageKeys) h

end Deliveries

/-! ## Both sides -/

/-- The side that does not own the newest epoch `e` has started it, and will answer it, or
    still sends on its own last epoch. -/
inductive Trails (prim : Primitives) (e : Epoch) (mine theirs : List Epoch) (p q : Party) : Prop
  | answers (hempty : q.session.ratchet.senderChain.toList = [])
      (hroot : q.session.ratchet.rootKey = e.rootKey) (hside : Side prim (e :: mine) q)
  | sends {last : Epoch} {rest : List Epoch} {k : Nat} (hlast : theirs = last :: rest)
      (hsends : Sends prim q.session.ratchet last k) (hside : Side prim mine q)
      (hbelow : Below p last.publicKey k)

/-- **THE INVARIANT**: `p` owns the newest epoch and has started all of the other side, and what
    is in flight was sent on the epochs of its sender. -/
structure Leads (prim : Primitives) (generated : List Curve25519PublicKey) (e : Epoch)
    (mine theirs : List Epoch) (k : Nat) (p q : Party) : Prop where
  exchange : Exchange prim (e :: mine) theirs
  distinct : ((e :: mine ++ theirs).map Epoch.publicKey).Nodup
  known : ∀ other ∈ e :: mine ++ theirs, other.publicKey ∈ generated
  sends : Sends prim p.session.ratchet e k
  side : Side prim theirs p
  below : Below q e.publicKey k
  trails : Trails prim e mine theirs p q
  toOther : ∀ msg ∈ q.inbox, ∃ sender ∈ e :: mine, SentOn prim sender msg
  toLeader : ∀ msg ∈ p.inbox, ∃ sender ∈ theirs, SentOn prim sender msg

section Steps

variable {generated generated' : List Curve25519PublicKey} {e : Epoch} {mine theirs : List Epoch}
  {k : Nat} {p q p' q' : Party}

theorem Leads.distinct_mine (h : Leads prim generated e mine theirs k p q) :
    ((e :: mine).map Epoch.publicKey).Nodup :=
  h.distinct.sublist ((List.sublist_append_left _ _).map _)

theorem Leads.distinct_theirs (h : Leads prim generated e mine theirs k p q) :
    (theirs.map Epoch.publicKey).Nodup :=
  h.distinct.sublist ((List.sublist_append_right _ _).map _)

/-- A failed call of the leader. -/
theorem Leads.same (h : Leads prim generated e mine theirs k p q) {s : Session}
    (hsame : SameKeys p.session s) :
    Leads prim generated e mine theirs k { p with session := s } q := by
  refine ⟨h.exchange, h.distinct, h.known, h.sends.congr hsame.rootKey hsame.senderChain,
    h.side.congr hsame.receiverChains hsame.skippedMessageKeys, h.below, ?_, h.toOther,
    h.toLeader⟩
  cases h.trails with
  | answers hempty hroot hside => exact Trails.answers hempty hroot hside
  | sends hlast hsends hside hbelow =>
      exact Trails.sends hlast hsends hside (hbelow.congr hsame.receiverChains)

/-- **A STEP OF THE LEADER**. -/
theorem Leads.acts (h : Leads prim generated e mine theirs k p q)
    (hacts : Acts prim generated p q generated' p' q') :
    ∃ k', Leads prim generated' e mine theirs k' p' q' := by
  have hfew := h.sends.few
  cases hacts with
  | @sent m m' s chain plaintext plaintextLength random randomLength message messageLength n
      hcall hsize hdisjoint hchain hindex hnew =>
      have hnext := encrypt_sendsNext h.sends hcall hsize hdisjoint hchain hindex
      refine ⟨k + 1, h.exchange, h.distinct, ?_, hnext.sends,
        h.side.congr hnext.receiverChains hnext.skippedMessageKeys, h.below.sent hfew hnext.name,
        ?_, ?_, h.toLeader⟩
      · intro other hother
        exact List.mem_cons_of_mem _ (h.known other hother)
      · cases h.trails with
        | answers hempty hroot hside =>
            exact Trails.answers hempty hroot (hside.sent h.below hfew hnext.name)
        | sends hlast hsends hside hbelow =>
            exact Trails.sends hlast hsends (hside.sent h.below hfew hnext.name)
              (hbelow.congr hnext.receiverChains)
      · intro msg hmsg
        rcases List.mem_cons.mp hmsg with rfl | hmsg
        · exact ⟨e, List.mem_cons_self, hnext.sentOn⟩
        · exact h.toOther msg hmsg
  | lost msg =>
      refine ⟨k, h.exchange, h.distinct, h.known, h.sends, h.side, h.below.lost msg, ?_, ?_,
        h.toLeader⟩
      · cases h.trails with
        | answers hempty hroot hside => exact Trails.answers hempty hroot (hside.lost msg)
        | sends hlast hsends hside hbelow =>
            exact Trails.sends hlast hsends (hside.lost msg) hbelow
      · intro other hother
        exact h.toOther other (List.mem_of_mem_erase hother)
  | @delivered msg m m' s stack message messageLength plaintext maxPlaintextLength n hmsg hread
      hseparate hcall hgenuine =>
      -- the leader has started every epoch of the other side
      obtain ⟨sender, hsender, hsent⟩ := h.toLeader msg hmsg
      obtain ⟨hroot, hchain, hside, hbelow⟩ := h.side.delivered h.distinct_theirs hsender hsent hmsg
        hread hseparate hcall hgenuine
      refine ⟨k, h.exchange, h.distinct, h.known, h.sends.congr hroot hchain, hside, h.below, ?_,
        h.toOther, ?_⟩
      · cases h.trails with
        | answers hempty hroot hother => exact Trails.answers hempty hroot hother
        | sends hlast hsends hother hknown =>
            exact Trails.sends hlast hsends hother (hbelow _ _ hknown)
      · intro other hother
        exact h.toLeader other (List.mem_of_mem_erase hother)
  | notSent hcall => exact ⟨k, h.same (SameKeys.of_failed (encrypt_failed prim hcall))⟩
  | notDecrypted hcall => exact ⟨k, h.same (SameKeys.of_failed (decrypt_failed prim hcall))⟩

/-- A failed call of the other side. -/
theorem Leads.same_trailing (h : Leads prim generated e mine theirs k p q) {s : Session}
    (hsame : SameKeys q.session s) :
    Leads prim generated e mine theirs k p { q with session := s } := by
  refine ⟨h.exchange, h.distinct, h.known, h.sends, h.side, h.below.congr hsame.receiverChains,
    ?_, h.toOther, h.toLeader⟩
  cases h.trails with
  | answers hempty hroot hside =>
      refine Trails.answers ?_ (hsame.rootKey.trans hroot)
        (hside.congr hsame.receiverChains hsame.skippedMessageKeys)
      rw [hsame.senderChain]
      exact hempty
  | sends hlast hsends hside hbelow =>
      exact Trails.sends hlast (hsends.congr hsame.rootKey hsame.senderChain)
        (hside.congr hsame.receiverChains hsame.skippedMessageKeys) hbelow

/-- **AN ANSWER**: the other side creates a new epoch, and leads from then on. -/
theorem Leads.answered (h : Leads prim generated e mine theirs k p q)
    (hside : Side prim (e :: mine) q) {new : Epoch} {s : Session} {chain : SenderChain SharedKey}
    {msg : Sent} (hmatches : new.ratchetKey.Matches prim) (hfollows : Follows prim e new)
    (hnext : SendsNext prim q.session s chain new 0 msg) (hnew : new.publicKey ∉ generated) :
    Leads prim (new.publicKey :: generated) new theirs (e :: mine) 1 { q with session := s }
      { p with inbox := msg :: p.inbox } := by
  have hfresh : ∀ other ∈ e :: mine ++ theirs, other.publicKey ≠ new.publicKey := by
    intro other hother hsame
    exact hnew (hsame ▸ h.known other hother)
  have htheirs : ∀ key ∈ theirs.map Epoch.publicKey, key ≠ new.publicKey := by
    intro key hkey
    obtain ⟨other, hother, rfl⟩ := List.mem_map.mp hkey
    exact hfresh other (List.mem_append_right _ hother)
  -- what the old leader knows is of epochs that were there before
  have hbelow : Below p new.publicKey 0 := by
    refine Below.fresh ?_ ?_ ?_
    · intro name hname
      obtain ⟨other, hother, rfl⟩ := List.mem_map.mp hname
      obtain ⟨sender, hsender, hsent⟩ := h.toLeader other hother
      refine htheirs _ (List.mem_map.mpr ⟨sender, hsender, hsent.ratchetKey.symm⟩)
    · intro name hname
      exact htheirs _ (h.side.receives.known name hname)
    · intro hkey
      rw [h.side.receives.keys] at hkey
      exact htheirs _ (List.mem_of_mem_take hkey) rfl
  have hfew : 0 < 2 ^ 32 := by decide
  refine ⟨h.exchange.next hmatches hfollows, ?_, ?_, hnext.sends,
    hside.congr hnext.receiverChains hnext.skippedMessageKeys, hbelow.sent hfew hnext.name,
    Trails.sends rfl h.sends (h.side.sent hbelow hfew hnext.name)
      (h.below.congr hnext.receiverChains), ?_, h.toOther⟩
  · rw [List.cons_append, List.map_cons, List.nodup_cons]
    refine ⟨?_, ?_⟩
    · intro hmem
      obtain ⟨other, hother, hsame⟩ := List.mem_map.mp hmem
      exact hfresh other (List.mem_append.mpr (List.mem_append.mp hother).symm) hsame
    · exact (List.perm_append_comm.map Epoch.publicKey).nodup_iff.mp h.distinct
  · intro other hother
    rcases List.mem_cons.mp hother with rfl | hother
    · exact List.mem_cons_self
    · exact List.mem_cons_of_mem _
        (h.known other (List.mem_append.mpr (List.mem_append.mp hother).symm))
  · intro other hother
    rcases List.mem_cons.mp hother with rfl | hother
    · exact ⟨new, List.mem_cons_self, hnext.sentOn⟩
    · obtain ⟨sender, hsender, hsent⟩ := h.toLeader other hother
      exact ⟨sender, List.mem_cons_of_mem _ hsender, hsent⟩

/-- **A STEP OF THE OTHER SIDE**. -/
theorem Leads.acts_trailing (hdh : prim.DhCommutes) (h : Leads prim generated e mine theirs k p q)
    (hacts : Acts prim generated q p generated' q' p') :
    Leads prim generated' e mine theirs k p' q' ∨
      ∃ new, Leads prim generated' new theirs (e :: mine) 1 q' p' := by
  cases hacts with
  | @sent m m' s chain plaintext plaintextLength random randomLength message messageLength n
      hcall hsize hdisjoint hchain hindex hnew =>
      cases h.trails with
      | answers hempty hroot hside =>
          -- the sender chain was dropped when the epoch of the leader was started
          obtain ⟨new, hmatches, hfollows, hnext⟩ := encrypt_sendsFirst hside.receives hempty hroot
            hcall hsize hdisjoint hchain
          have hnew := hnew hempty
          rw [hnext.ratchetKey] at hnew ⊢
          exact Or.inr ⟨new, h.answered hside hmatches hfollows hnext hnew⟩
      | @sends last rest k₁ hlast hsends hside hbelow =>
          have hnext := encrypt_sendsNext hsends hcall hsize hdisjoint hchain hindex
          refine Or.inl ⟨h.exchange, h.distinct, ?_, h.sends,
            h.side.sent hbelow hsends.few hnext.name, h.below.congr hnext.receiverChains,
            Trails.sends hlast hnext.sends
              (hside.congr hnext.receiverChains hnext.skippedMessageKeys)
              (hbelow.sent hsends.few hnext.name), h.toOther, ?_⟩
          · intro other hother
            exact List.mem_cons_of_mem _ (h.known other hother)
          · intro msg hmsg
            rcases List.mem_cons.mp hmsg with rfl | hmsg
            · exact ⟨last, hlast ▸ List.mem_cons_self, hnext.sentOn⟩
            · exact h.toLeader msg hmsg
  | lost msg =>
      refine Or.inl ⟨h.exchange, h.distinct, h.known, h.sends, h.side.lost msg, h.below, ?_,
        h.toOther, ?_⟩
      · cases h.trails with
        | answers hempty hroot hside => exact Trails.answers hempty hroot hside
        | sends hlast hsends hside hbelow =>
            exact Trails.sends hlast hsends hside (hbelow.lost msg)
      · intro other hother
        exact h.toLeader other (List.mem_of_mem_erase hother)
  | @delivered msg m m' s stack message messageLength plaintext maxPlaintextLength n hmsg hread
      hseparate hcall hgenuine =>
      obtain ⟨sender, hsender, hsent⟩ := h.toOther msg hmsg
      have hothers : ∀ other ∈ (q.received msg s).inbox, ∃ sender ∈ e :: mine,
          SentOn prim sender other :=
        fun other hother => h.toOther other (List.mem_of_mem_erase hother)
      cases h.trails with
      | answers hempty hroot hside =>
          obtain ⟨hroot', hchain, hside', hbelow⟩ := hside.delivered h.distinct_mine hsender hsent
            hmsg hread hseparate hcall hgenuine
          refine Or.inl ⟨h.exchange, h.distinct, h.known, h.sends, h.side, hbelow _ _ h.below,
            Trails.answers ?_ (hroot'.trans hroot) hside', hothers, h.toLeader⟩
          show s.ratchet.senderChain.toList = []
          rw [hchain]
          exact hempty
      | @sends last rest k₁ hlast hsends hside hknown =>
          rcases List.mem_cons.mp hsender with rfl | hsender
          · -- the first message of the leader's epoch that arrives starts it
            subst hlast
            have hderived := h.exchange.derived hdh
            rw [← hsends.rootKey] at hderived
            obtain ⟨hroot, hempty, hside', hbelow⟩ := hside.delivered_new h.distinct_mine hsent
              hsends.chain hderived hmsg hread hseparate hcall
            exact Or.inl ⟨h.exchange, h.distinct, h.known, h.sends, h.side, hbelow _ _ h.below,
              Trails.answers hempty hroot hside', hothers, h.toLeader⟩
          · obtain ⟨hroot, hchain, hside', hbelow⟩ := hside.delivered
              (List.nodup_cons.mp h.distinct_mine).2 hsender hsent hmsg hread hseparate hcall
              hgenuine
            exact Or.inl ⟨h.exchange, h.distinct, h.known, h.sends, h.side, hbelow _ _ h.below,
              Trails.sends hlast (hsends.congr hroot hchain) hside' hknown, hothers, h.toLeader⟩
  | notSent hcall =>
      exact Or.inl (h.same_trailing (SameKeys.of_failed (encrypt_failed prim hcall)))
  | notDecrypted hcall =>
      exact Or.inl (h.same_trailing (SameKeys.of_failed (decrypt_failed prim hcall)))

/-! ## What can be read -/

/-- A message of an epoch that was started. -/
theorem Side.readable (hinverts : prim.AesInverts) {msg : Sent} (h : Side prim theirs p)
    (hdistinct : (theirs.map Epoch.publicKey).Nodup) (he : e ∈ theirs) (hsent : SentOn prim e msg)
    (hmsg : msg ∈ p.inbox) (hwindow : InWindow p msg) : Readable prim p msg := by
  have hname : msg.name = (e.publicKey, msg.counter) := Prod.ext hsent.ratchetKey rfl
  have hheld : e.publicKey ∈ receiverKeys p.session.ratchet := by
    rw [h.receives.keys, ← h.started, ← hsent.ratchetKey]
    refine hwindow.chain ?_
    rw [h.started, hsent.ratchetKey]
    exact List.mem_map_of_mem he
  have hwaiting : (e.publicKey, msg.counter) ∈ p.names := hname ▸ List.mem_map_of_mem hmsg
  have hgap := hwindow.gap
  have hskipped := hwindow.skipped
  rw [hsent.ratchetKey] at hgap
  rw [hname] at hskipped
  refine readable_of_readsAs hsent ?_
  intro stack m input inputLength hholds plaintext maxPlaintextLength hroom hseparate
  exact h.receives.readsAs h.waits hdistinct he hheld hwaiting hgap hskipped hholds hinverts hroom
    hseparate

/-- A message of a new epoch. -/
theorem Side.readable_new (hinverts : prim.AesInverts) {msg : Sent} (h : Side prim theirs p)
    (hdistinct : ((e :: theirs).map Epoch.publicKey).Nodup) (hsent : SentOn prim e msg)
    {senderChain : SenderChain SharedKey}
    (hsender : p.session.ratchet.senderChain.toList = [senderChain])
    (hderived : createChainKey (olmSuite prim) p.session.ratchet.rootKey senderChain.ratchetKey
      e.publicKey = (e.rootKey, e.firstKey))
    (hwindow : InWindow p msg) : Readable prim p msg := by
  have hgap := hwindow.gap
  rw [hsent.ratchetKey, nextIndex_of_notMem (h.receives.notMem_new hdistinct)] at hgap
  have hgap : msg.counter.toNat ≤ maxMessageGap := Nat.le_trans hgap (by decide)
  refine readable_of_readsAs hsent ?_
  intro stack m input inputLength hholds plaintext maxPlaintextLength hroom hseparate
  exact h.receives.readsAs_new hdistinct hsender hderived hgap hholds hinverts hroom hseparate

/-- **BOTH SIDES CAN READ** what is in flight to them. -/
theorem Leads.readable (hdh : prim.DhCommutes) (hinverts : prim.AesInverts)
    (h : Leads prim generated e mine theirs k p q) :
    (∀ msg ∈ p.inbox, InWindow p msg → Readable prim p msg) ∧
      (∀ msg ∈ q.inbox, InWindow q msg → Readable prim q msg) := by
  refine ⟨?_, ?_⟩
  · intro msg hmsg hwindow
    obtain ⟨sender, hsender, hsent⟩ := h.toLeader msg hmsg
    exact h.side.readable hinverts h.distinct_theirs hsender hsent hmsg hwindow
  · intro msg hmsg hwindow
    obtain ⟨sender, hsender, hsent⟩ := h.toOther msg hmsg
    cases h.trails with
    | answers hempty hroot hside =>
        exact hside.readable hinverts h.distinct_mine hsender hsent hmsg hwindow
    | sends hlast hsends hside hknown =>
        rcases List.mem_cons.mp hsender with rfl | hsender
        · subst hlast
          have hderived := h.exchange.derived hdh
          rw [← hsends.rootKey] at hderived
          exact hside.readable_new hinverts h.distinct_mine hsent hsends.chain hderived hwindow
        · exact hside.readable hinverts (List.nodup_cons.mp h.distinct_mine).2 hsender hsent hmsg
            hwindow

end Steps

/-! ## Before the other side has a session -/

/-- A ratchet without receiver chains. -/
theorem side_empty {p : Party} (hchains : p.session.ratchet.receiverChains.toList = [])
    (hskipped : p.session.ratchet.skippedMessageKeys.toList = []) (hstarted : p.started = [])
    (hpassed : p.passed = []) (hdistinct : p.names.Nodup) : Side prim [] p := by
  refine ⟨⟨?_, ?_, ?_, ?_, ?_, ?_⟩, ⟨hdistinct, ?_, ?_⟩, hstarted⟩
  · rw [receiverKeys, hchains]
    rfl
  · rw [hchains]
    intro chain hchain
    cases hchain
  · rw [hskipped]
    intro skipped hmem
    cases hmem
  · rw [hskipped, hpassed]
    exact ⟨List.Sublist.refl _, List.nodup_nil⟩
  · rw [hpassed]
    intro name hname
    cases hname
  · rw [hpassed]
    intro name hname
    cases hname
  · rw [hchains]
    intro name _ chain hchain
    cases hchain
  · rw [hpassed]
    intro name _ hname
    cases hname

/-- What the creator of a session hashes. -/
def outboundSecret (prim : Primitives) (account : Account) (baseKey : Curve25519KeyPair)
    (identityKey oneTimeKey : Curve25519PublicKey) : Bytes :=
  (cryptoCurve25519SharedSecret prim account.identityKeys.curve25519Key oneTimeKey).toList
    ++ (cryptoCurve25519SharedSecret prim baseKey identityKey).toList
    ++ (cryptoCurve25519SharedSecret prim baseKey oneTimeKey).toList

/-- How a session was created: its keys, and the epoch of its first chain. -/
structure CreatedOn (prim : Primitives) (account : Account) (identityKey : Curve25519PublicKey)
    (start : Session) (baseKey : Curve25519KeyPair) (e : Epoch) : Prop where
  aliceIdentityKey : start.aliceIdentityKey = account.identityKeys.curve25519Key.publicKey
  aliceBaseKey : start.aliceBaseKey = baseKey.publicKey
  baseKey_matches : baseKey.Matches prim
  ratchetKey_matches : e.ratchetKey.Matches prim
  keys : (olmSuite prim).hkdf (outboundSecret prim account baseKey identityKey start.bobOneTimeKey)
    none (olmSuite prim).kdfInfo.rootInfo = (e.rootKey, e.chainKey)

/-- The ratchet of the other side, on the first epoch. -/
def openedRatchet (e : Epoch) : Ratchet SharedKey :=
  { newSession.ratchet with
    receiverChains := newSession.ratchet.receiverChains.insert
      { ratchetKey := e.publicKey, chainKey := e.firstKey }
    rootKey := e.rootKey }

/-- The creator of a session sends on the first epoch, and nobody has received anything. -/
structure Begins (prim : Primitives) (start : Session) (e : Epoch) (k : Nat)
    (c : Conversation) : Prop where
  known : e.publicKey ∈ c.generated
  outbound : Outbound start e.ratchetKey c.alice.session
  sends : Sends prim c.alice.session.ratchet e k
  side : Side prim [] c.alice
  inbox : c.alice.inbox = []
  session : c.bob.session = newSession
  other : Side prim [] c.bob
  below : Below c.bob e.publicKey k
  sent : ∀ msg ∈ c.bob.inbox, SentOn prim e msg ∧ msg.bytes = sessionPreKeyBytes start
    (ratchetMessage prim (e.messageKey prim msg.counter) e.publicKey msg.plaintext)

section Runs

variable {account : Account} {identityKey : Curve25519PublicKey} {c : Conversation}
  {start : Session} {e : Epoch} {k : Nat}

/-- A failed call. -/
theorem Begins.same (h : Begins prim start e k c) {s : Session}
    (hfailed : s.withoutErrors = c.alice.session.withoutErrors) :
    Begins prim start e k { c with alice := { c.alice with session := s } } := by
  have hsame := SameKeys.of_failed hfailed
  exact ⟨h.known, h.outbound.failed hfailed, h.sends.congr hsame.rootKey hsame.senderChain,
    h.side.congr hsame.receiverChains hsame.skippedMessageKeys, h.inbox, h.session, h.other,
    h.below, h.sent⟩

/-- A step of the creator. -/
theorem Begins.acts (h : Begins prim start e k c) {generated : List Curve25519PublicKey}
    {p q : Party} (hacts : Acts prim c.generated c.alice c.bob generated p q) :
    ∃ k', Begins prim start e k' { generated, alice := p, bob := q } := by
  have hfew := h.sends.few
  cases hacts with
  | @sent m m' s chain plaintext plaintextLength random randomLength message messageLength n
      hcall hsize hdisjoint hchain hindex hnew =>
      have hnext := encrypt_sendsNext h.sends hcall hsize hdisjoint hchain hindex
      refine ⟨k + 1, List.mem_cons_of_mem _ h.known, (h.outbound.sent hsize hcall).1, hnext.sends,
        h.side.congr hnext.receiverChains hnext.skippedMessageKeys, h.inbox, h.session,
        h.other.sent h.below hfew hnext.name, h.below.sent hfew hnext.name, ?_⟩
      intro msg hmsg
      rcases List.mem_cons.mp hmsg with rfl | hmsg
      · refine ⟨hnext.sentOn, hnext.bytes.trans ?_⟩
        rw [framed, if_neg (by rw [h.outbound.receivedMessage]; exact Bool.false_ne_true)]
        exact h.outbound.sessionPreKeyBytes _
      · exact h.sent msg hmsg
  | lost msg =>
      exact ⟨k, h.known, h.outbound, h.sends, h.side, h.inbox, h.session, h.other.lost msg,
        h.below.lost msg, fun other hother => h.sent other (List.mem_of_mem_erase hother)⟩
  | delivered hmsg =>
      rw [h.inbox] at hmsg
      cases hmsg
  | notSent hcall => exact ⟨k, h.same (encrypt_failed prim hcall)⟩
  | notDecrypted hcall => exact ⟨k, h.same (decrypt_failed prim hcall)⟩

/-- **A NEW SESSION**. -/
theorem newOutboundSession_created {oneTimeKey : Curve25519PublicKey} {m : Mem}
    {random randomLength n : Nat}
    (hcall : newOutboundSession prim newSession account identityKey oneTimeKey m random
      randomLength = (start, some n)) :
    ∃ baseKey e, CreatedOn prim account identityKey start baseKey e ∧
      Outbound start e.ratchetKey start ∧ Sends prim start.ratchet e 0 ∧
      start.ratchet.receiverChains.toList = [] ∧ start.ratchet.skippedMessageKeys.toList = [] := by
  rw [newOutboundSession] at hcall
  by_cases hrandom : randomLength < newOutboundSessionRandomLength
  · rw [if_pos hrandom] at hcall
    cases (Prod.mk.inj hcall).2
  rw [if_neg hrandom] at hcall
  obtain ⟨hsession, -⟩ := Prod.mk.inj hcall
  have hbase := cryptoCurve25519GenerateKey_matches prim (load 32 m random)
  have hratchet := cryptoCurve25519GenerateKey_matches prim (load 32 m (random + 32))
  generalize cryptoCurve25519GenerateKey prim (load 32 m random) = baseKey at hsession hbase
  generalize cryptoCurve25519GenerateKey prim (load 32 m (random + 32)) = ratchetKey
    at hsession hratchet
  obtain ⟨keys, hkeys⟩ : ∃ keys, (olmSuite prim).hkdf
      (outboundSecret prim account baseKey identityKey oneTimeKey) none
      (olmSuite prim).kdfInfo.rootInfo = keys := ⟨_, rfl⟩
  obtain ⟨rootKey, chainKey⟩ := keys
  have hratchets := initialiseAsAlice_eq (olmSuite prim) newSession.ratchet ratchetKey hkeys
  rw [outboundSecret] at hratchets
  rw [hratchets] at hsession
  subst hsession
  exact ⟨baseKey, { ratchetKey, rootKey, chainKey }, ⟨rfl, rfl, hbase, hratchet, hkeys⟩,
    ⟨rfl, rfl, rfl, rfl, rfl, _, rfl⟩, ⟨rfl, rfl, by decide⟩, rfl, rfl⟩

/-- **EVERY RUN** before the other side has a session. -/
theorem Opening.begins (hrun : Opening prim account identityKey c) :
    ∃ start baseKey e k, CreatedOn prim account identityKey start baseKey e ∧
      Begins prim start e k c := by
  induction hrun with
  | @created oneTimeKey m random randomLength n start hcall =>
      obtain ⟨baseKey, e, hcreated, houtbound, hsends, hchains, hskipped⟩ :=
        newOutboundSession_created hcall
      refine ⟨start, baseKey, e, 0, hcreated, ?_, houtbound, hsends,
        side_empty hchains hskipped rfl rfl List.nodup_nil, rfl, rfl,
        side_empty rfl rfl rfl rfl List.nodup_nil, Below.fresh ?_ ?_ ?_, ?_⟩
      · show e.publicKey ∈ start.ratchet.senderChain.toList.map _
        rw [hsends.chain]
        exact List.mem_singleton.mpr rfl
      · intro name hname
        cases hname
      · intro name hname
        cases hname
      · intro hkey
        cases hkey
      · intro msg hmsg
        cases hmsg
  | acts hrun hacts ih =>
      obtain ⟨start, baseKey, e, k, hcreated, hbegins⟩ := ih
      obtain ⟨k', hnext⟩ := hbegins.acts hacts
      exact ⟨start, baseKey, e, k', hcreated, hnext⟩

/-- A session that was opened has the secret of its creator. -/
theorem newInboundSession_opened (hdh : prim.DhCommutes) {alice bob : Account}
    (halice : alice.identityKeys.curve25519Key.Matches prim) (hbob : KeysMatch prim bob)
    {baseKey : Curve25519KeyPair}
    (hcreated : CreatedOn prim alice bob.identityKeys.curve25519Key.publicKey start baseKey e)
    {msg : Sent} (hsent : SentOn prim e msg) (hbytes : msg.bytes = sessionPreKeyBytes start
      (ratchetMessage prim (e.messageKey prim msg.counter) e.publicKey msg.plaintext))
    {m : Mem} {message messageLength : Nat} (hread : read m message messageLength = msg.bytes)
    {theirIdentityKey : Option Curve25519PublicKey} {s : Session}
    (hcall : newInboundSession prim newSession bob theirIdentityKey m message messageLength
      = some (s, some 0)) :
    s.ratchet = openedRatchet e := by
  have hsize : messageLength < 2 ^ 64 := by
    have hlength := hsent.size
    rwa [← hread, length_read] at hlength
  obtain ⟨houter, -, hheld, -⟩ := (newInboundSession_succeeds_iff prim newSession bob
    theirIdentityKey m message messageLength).mp ⟨s, hcall⟩
  have hmessage := hread.trans hbytes
  have hcarries := outerReader_carries hsize hmessage
  obtain ⟨p₁, h₁, hl₁⟩ := hcarries.oneTimeKey
  obtain ⟨p₃, h₃, hl₃⟩ := hcarries.identityKey
  have htheirs : ∀ theirKey, theirIdentityKey = some theirKey →
      theirKey = start.aliceIdentityKey := by
    intro theirKey hkey
    exact (houter.identityAgrees p₃ theirKey h₃ hkey).symm.trans hl₃
  rw [OneTimeKeyHeld, h₁, Option.getD_some, hl₁] at hheld
  obtain ⟨ourKey, hlookup⟩ := Option.ne_none_iff_exists'.mp hheld
  -- any one-time key with this public half gives the same secret
  have hmatches : ourKey.key.Matches prim :=
    hbob.oneTimeKeys ourKey (List.mem_of_find?_eq_some hlookup)
  have hour : ourKey.key.publicKey = start.bobOneTimeKey := by
    rw [lookupKey] at hlookup
    have hfound := List.find?_some hlookup
    exact of_decide_eq_true hfound
  have hsecret := inboundSecret_eq hdh halice hbob.identityKey hmatches hcreated.baseKey_matches
  rw [← hcreated.aliceIdentityKey, ← hcreated.aliceBaseKey, hour] at hsecret
  have hkeys := hcreated.keys
  rw [outboundSecret, ← hsecret] at hkeys
  rw [ratchetMessage, ratchetBody] at hmessage
  have hmac := length_cipherMac prim olmCipherInfo (e.messageKey prim msg.counter).key.toList
    (messageBytes protocolVersion (e.messageKey prim msg.counter).index e.publicKey.toList
      (cipherText prim olmCipherInfo (e.messageKey prim msg.counter).key.toList msg.plaintext))
  rw [newInboundSession_encoded prim hsize hmessage hmac htheirs hlookup,
    initialiseAsBob_eq (olmSuite prim) newSession.ratchet e.publicKey hkeys] at hcall
  obtain ⟨rfl, -⟩ := Prod.mk.inj (Option.some.inj hcall)
  rfl

/-- **A SESSION IS OPENED**. -/
theorem Begins.opened (hmatches : e.ratchetKey.Matches prim) (h : Begins prim start e k c)
    {s : Session}
    (hratchet : s.ratchet = openedRatchet e) :
    Leads prim c.generated e [] [] k c.alice
      { c.bob with session := s, started := receiverKeys s.ratchet } := by
  have hchains : s.ratchet.receiverChains = c.bob.session.ratchet.receiverChains.insert
      { ratchetKey := e.publicKey, chainKey := e.firstKey } := by
    rw [hratchet, h.session, openedRatchet]
  have hskipped : s.ratchet.skippedMessageKeys = c.bob.session.ratchet.skippedMessageKeys := by
    rw [hratchet, h.session, openedRatchet]
  have hside : Side prim [e]
      { c.bob with session := s, started := receiverKeys s.ratchet } := by
    refine ⟨h.other.receives.start (List.nodup_singleton _) rfl hchains hskipped,
      h.other.waits.start rfl hchains hskipped, ?_⟩
    rw [hratchet]
    rfl
  have hbelow : Below { c.bob with session := s, started := receiverKeys s.ratchet }
      e.publicKey k := by
    refine ⟨h.below.names, h.below.passed, ?_⟩
    intro chain hchain hkey
    rw [hchains] at hchain
    rcases BoundedList.mem_insert hchain with rfl | hold
    · exact Nat.zero_le k
    · exact h.below.chains chain hold hkey
  refine ⟨Exchange.first e hmatches, List.nodup_singleton _, ?_, h.sends, h.side, hbelow,
    Trails.answers ?_ ?_ hside, ?_, ?_⟩
  · intro other hother
    rw [List.mem_singleton.mp hother]
    exact h.known
  · show s.ratchet.senderChain.toList = []
    rw [hratchet]
    rfl
  · show s.ratchet.rootKey = e.rootKey
    rw [hratchet, openedRatchet]
  · intro msg hmsg
    exact ⟨e, List.mem_cons_self, (h.sent msg hmsg).1⟩
  · intro msg hmsg
    rw [h.inbox] at hmsg
    cases hmsg

/-- **EVERY RUN** of a conversation: one of the two sides leads. -/
theorem Conversing.leads (hdh : prim.DhCommutes) {alice bob : Account}
    (halice : alice.identityKeys.curve25519Key.Matches prim) (hbob : KeysMatch prim bob)
    (hrun : Conversing prim alice bob c) :
    (∃ e mine theirs k, Leads prim c.generated e mine theirs k c.alice c.bob) ∨
      ∃ e mine theirs k, Leads prim c.generated e mine theirs k c.bob c.alice := by
  induction hrun with
  | @opened c msg m message messageLength theirIdentityKey s hrun hmsg hread hcall =>
      obtain ⟨start, baseKey, e, k, hcreated, hbegins⟩ := hrun.begins
      obtain ⟨hsent, hbytes⟩ := hbegins.sent msg hmsg
      have hratchet := newInboundSession_opened hdh halice hbob hcreated hsent hbytes hread hcall
      exact Or.inl ⟨e, [], [], k, hbegins.opened hcreated.ratchetKey_matches hratchet⟩
  | alice hrun hacts ih =>
      rcases ih with ⟨e, mine, theirs, k, h⟩ | ⟨e, mine, theirs, k, h⟩
      · obtain ⟨k', h'⟩ := h.acts hacts
        exact Or.inl ⟨e, mine, theirs, k', h'⟩
      · rcases h.acts_trailing hdh hacts with h' | ⟨new, h'⟩
        · exact Or.inr ⟨e, mine, theirs, k, h'⟩
        · exact Or.inl ⟨new, theirs, e :: mine, 1, h'⟩
  | bob hrun hacts ih =>
      rcases ih with ⟨e, mine, theirs, k, h⟩ | ⟨e, mine, theirs, k, h⟩
      · rcases h.acts_trailing hdh hacts with h' | ⟨new, h'⟩
        · exact Or.inl ⟨e, mine, theirs, k, h'⟩
        · exact Or.inr ⟨new, theirs, e :: mine, 1, h'⟩
      · obtain ⟨k', h'⟩ := h.acts hacts
        exact Or.inr ⟨e, mine, theirs, k', h'⟩

/-- **EVERY MESSAGE CAN BE READ**: whatever was sent, lost and delivered before, a message in
    flight that is in the window of its receiver is decrypted to its plaintext. -/
theorem conversation_readable (hdh : prim.DhCommutes) (hinverts : prim.AesInverts)
    {alice bob : Account} (halice : alice.identityKeys.curve25519Key.Matches prim)
    (hbob : KeysMatch prim bob) (hrun : Conversing prim alice bob c) :
    (∀ msg ∈ c.alice.inbox, InWindow c.alice msg → Readable prim c.alice msg) ∧
      (∀ msg ∈ c.bob.inbox, InWindow c.bob msg → Readable prim c.bob msg) := by
  rcases hrun.leads hdh halice hbob with ⟨e, mine, theirs, k, h⟩ | ⟨e, mine, theirs, k, h⟩
  · exact h.readable hdh hinverts
  · exact (h.readable hdh hinverts).symm

end Runs

/-- A session, before its first message. -/
def demoStarted : Conversation where
  generated := demoStart.ratchet.senderChain.toList.map (fun chain => chain.ratchetKey.publicKey)
  alice := { session := demoStart, started := [], passed := [], inbox := [] }
  bob := { session := newSession, started := [], passed := [], inbox := [] }

/-- The session that is opened by the first message. -/
def demoOpened : Option (Session × Option Nat) :=
  newInboundSession demoPrimitives newSession demoAccount none demoSent.1 300
    (encryptMessageLength demoPrimitives demoStart 2)

/-- A call of the test that sends two bytes of the memory. -/
def demoSends (s : Session) (plaintext : Nat) : Mem × Session × Option Nat :=
  encrypt demoPrimitives s demoKeyMemory plaintext 2 0 0 300 200

/-- The ratchet key of the first chain. -/
def demoChainKey : Curve25519PublicKey :=
  (cryptoCurve25519GenerateKey demoPrimitives (load 32 demoKeyMemory 128)).publicKey

/-- The message that such a call sends on the first chain. -/
def demoMessage (s : Session) (plaintext : Nat) (counter : UInt32) : Sent where
  ratchetKey := demoChainKey
  counter
  messageType := encryptMessageType s
  bytes := read (demoSends s plaintext).1 300 (encryptMessageLength demoPrimitives s 2)
  plaintext := read demoKeyMemory plaintext 2

theorem demoSends_acts {generated : List Curve25519PublicKey} {p q : Party} (plaintext : Nat)
    (counter : UInt32) (hcall : (demoSends p.session plaintext).2.2 = some 63)
    (hsender : p.session.ratchet.senderChain.toList ≠ [])
    (hchain : (demoSends p.session plaintext).2.1.ratchet.senderChain.toList.map
      (fun chain => (chain.ratchetKey.publicKey, chain.chainKey.index))
        = [(demoChainKey, counter + 1)])
    (hfew : counter + 1 ≠ 0) (hplaintext : plaintext + 2 ≤ 300) :
    Acts demoPrimitives generated p q (demoChainKey :: generated)
      { p with session := (demoSends p.session plaintext).2.1 }
      { q with inbox := demoMessage p.session plaintext counter :: q.inbox } := by
  obtain ⟨chain, hlist, hpair⟩ := List.map_eq_singleton_iff.mp hchain
  obtain ⟨hkey, hindex⟩ := Prod.mk.inj hpair
  have hsent : Acts demoPrimitives generated p q _ _ _ := Acts.sent
    (Prod.ext rfl (Prod.ext rfl hcall)) (show 200 < 2 ^ 64 by decide) (Or.inl hplaintext) hlist
    (by rw [hindex]; exact hfew) (fun hempty => absurd hempty hsender)
  rw [sentMessage, hkey, hindex, UInt32.add_sub_cancel] at hsent
  exact hsent

/-- The three messages of the test. -/
def demoFirst : Sent := demoMessage demoStart 0 0
def demoLost : Sent := demoMessage demoSent.2.1 32 1
def demoLast : Sent := demoMessage (demoSends demoSent.2.1 32).2.1 64 2

/-- Three messages were sent, and the second one is lost. -/
def demoFlight : Conversation where
  generated := [demoChainKey, demoChainKey, demoChainKey, demoChainKey]
  alice := {
    session := (demoSends (demoSends demoSent.2.1 32).2.1 64).2.1
    started := []
    passed := []
    inbox := [] }
  bob := { session := newSession, started := [], passed := [], inbox := [demoLast, demoFirst] }

theorem demoFlight_opening :
    Opening demoPrimitives demoAccount demoAccount.identityKeys.curve25519Key.publicKey
      demoFlight := by
  have hcreated : Opening demoPrimitives demoAccount
      demoAccount.identityKeys.curve25519Key.publicKey demoStarted :=
    Opening.created (show newOutboundSession demoPrimitives newSession demoAccount
      demoAccount.identityKeys.curve25519Key.publicKey
      (cryptoCurve25519GenerateKey demoPrimitives (load 32 demoKeyMemory 64)).publicKey
      demoKeyMemory 96 64 = (demoStart, some 0) from rfl)
  have hfirst := hcreated.acts (demoSends_acts 0 0 (by decide +kernel)
    (by decide +kernel) (by decide +kernel) (by decide) (by decide))
  have hsecond := hfirst.acts (demoSends_acts 32 1 (by decide +kernel)
    (by decide +kernel) (by decide +kernel) (by decide) (by decide))
  have hthird := hsecond.acts (demoSends_acts 64 2 (by decide +kernel)
    (by decide +kernel) (by decide +kernel) (by decide) (by decide))
  have hlost := hthird.acts (Acts.lost demoLost)
  have hinbox : [demoLast, demoLost, demoFirst].erase demoLost = [demoLast, demoFirst] := by
    have hne : (demoLast == demoLost) = false := by decide +kernel
    rw [List.erase_cons_tail (by rw [hne]; decide), List.erase_cons_head]
  rw [demoFlight, ← hinbox]
  exact hlost

/-- The session that is opened by the first message, and the names of the keys that the last
    message passes over. -/
theorem demoOpened_some :
    ∃ s, demoOpened = some (s, some 0) ∧ receiverKeys s.ratchet = [demoChainKey] ∧
      passedBy s.ratchet demoLast.name = [(demoChainKey, 1), (demoChainKey, 0)] := by
  have hresult : demoOpened.map (fun call => (call.2, receiverKeys call.1.ratchet,
      passedBy call.1.ratchet demoLast.name))
        = some (some 0, [demoChainKey], [(demoChainKey, 1), (demoChainKey, 0)]) := by
    decide +kernel
  obtain ⟨⟨s, n⟩, hcall, hpairs⟩ := Option.map_eq_some_iff.mp hresult
  obtain ⟨hzero, hpair⟩ := Prod.mk.inj hpairs
  obtain ⟨hnamed, hpassed⟩ := Prod.mk.inj hpair
  exact ⟨s, hcall.trans (congrArg some (Prod.ext rfl hzero)), hnamed, hpassed⟩

/-- The first message opens a session, which accepts the last one first; the one in between is
    lost.  Then the first message can still be read, with a key that was skipped over. -/
theorem conversation_readable_demo :
    ∃ c, Conversing demoPrimitives demoAccount demoAccount c ∧ c.bob.inbox = [demoFirst] ∧
      c.bob.passed = [(demoChainKey, 1), (demoChainKey, 0)] ∧
      Readable demoPrimitives c.bob demoFirst := by
  have hkeys := demoAccount_keysMatch
  obtain ⟨s, hopened, hnamed, hpassed⟩ := demoOpened_some
  have hmem : demoFirst ∈ demoFlight.bob.inbox := List.mem_cons_of_mem _ List.mem_cons_self
  have hconversing := Conversing.opened demoFlight_opening hmem rfl hopened
  -- the last message is two past the next index
  have hfar : InWindow { demoFlight.bob with session := s, started := receiverKeys s.ratchet }
      demoLast := by
    refine ⟨fun hstarted => ?_, ?_, fun hskipped => ?_⟩
    · rwa [hnamed] at hstarted ⊢
    · exact Nat.le_trans (show (2 : UInt32).toNat ≤ 2000 by decide) (Nat.le_add_left _ _)
    · cases hskipped
  obtain ⟨announced, -, hdecrypts⟩ := (conversation_readable demoPrimitives_dhCommutes
    demoPrimitives_aesInverts hkeys.identityKey hkeys hconversing).2 demoLast List.mem_cons_self
    hfar messageReader _ 300 _ rfl
  obtain ⟨m', s', hdecrypt, -⟩ :=
    hdecrypts 1000 announced (Nat.le_refl _) (Or.inr (by decide +kernel))
  have hdelivered := Conversing.bob hconversing (Acts.delivered List.mem_cons_self rfl
    (Or.inr (by decide +kernel)) hdecrypt (fun hstarted => hstarted))
  have hinbox : [demoLast, demoFirst].erase demoLast = [demoFirst] := List.erase_cons_head ..
  refine ⟨_, hdelivered, hinbox, (List.append_nil _).trans hpassed, ?_⟩
  refine (conversation_readable demoPrimitives_dhCommutes demoPrimitives_aesInverts
    hkeys.identityKey hkeys hdelivered).2 demoFirst ?_ ⟨fun _ => ?_, Nat.zero_le _, fun _ => ?_⟩
  · show demoFirst ∈ [demoLast, demoFirst].erase demoLast
    rw [hinbox]
    exact List.mem_cons_self
  · show demoChainKey ∈ (if demoChainKey ∈ receiverKeys s.ratchet then receiverKeys s.ratchet
      else demoChainKey :: receiverKeys s.ratchet).take 5
    rw [hnamed, if_pos (List.mem_singleton_self _)]
    exact List.mem_singleton_self _
  · show (demoChainKey, 0) ∈ (passedBy s.ratchet demoLast.name ++ []).take 40
    rw [hpassed]
    exact List.mem_cons_of_mem _ List.mem_cons_self

end OlmSession
