import SelfOlm.SessionInterface

/-! # Texts of a conversation can be read

    A conversation at the C interface is one of its sessions, with every message in
    base64.  A call that succeeds is a call of the session behind the decoding or before
    the encoding; a call that fails, and a session that is put away and loaded again,
    leave everything but the last errors as it was.  So one side leads here, too. -/

namespace OlmSession

open ByteMemory OlmCrypto OlmMessage OlmBase64 OlmList OlmRatchet OlmAccount OlmPickle

variable {prim : Primitives}

/-! ## Texts -/

/-- The text of a message. -/
def Sent.text (msg : Sent) : Sent := { msg with bytes := base64.encode msg.bytes }

/-- A side, with the texts of what is in flight to it. -/
def Party.texts (p : Party) : Party := { p with inbox := p.inbox.map Sent.text }

/-- A conversation with its messages as texts. -/
def Conversation.texts (c : Conversation) : Conversation :=
  { c with alice := c.alice.texts, bob := c.bob.texts }

theorem Sent.text_injective : Function.Injective Sent.text := by
  intro msg other h
  cases msg
  cases other
  simp only [Sent.text, Sent.mk.injEq] at h ⊢
  obtain ⟨hkey, hcounter, htype, hbytes, hplaintext⟩ := h
  exact ⟨hkey, hcounter, htype, SextetCodec.encode_injective _ hbytes, hplaintext⟩

theorem Party.texts_erase (p : Party) (msg : Sent) :
    { p with inbox := p.inbox.erase msg }.texts
      = { p.texts with inbox := p.texts.inbox.erase msg.text } := by
  simp only [Party.texts, List.map_erase Sent.text_injective]

theorem Party.texts_received (p : Party) (msg : Sent) (s : Session) :
    (p.received msg s).texts = p.texts.received msg.text s := by
  simp only [Party.received, Party.texts, List.map_erase Sent.text_injective]
  rfl

/-- A text is decoded where it lies. -/
theorem b64Input_text {m : Mem} {message messageLength : Nat} {raw : Bytes}
    (h : read m message messageLength = base64.encode raw) :
    ∃ m₁, b64Input m message messageLength = (m₁, some raw.length) ∧
      read m₁ message raw.length = raw ∧ raw.length ≤ messageLength := by
  have hlength := congrArg List.length h
  rw [length_read, length_base64_encode] at hlength
  subst hlength
  refine ⟨write m message raw, ?_, read_write_self m message raw, le_encodeBase64Length _⟩
  rw [b64Input, decodeBase64Length_encode]
  exact congrArg (fun m => (m, some raw.length)) (decodeBase64_encode h (Or.inl (Nat.le_refl _)))

theorem toMessageType_olmEncryptMessageType (s : Session) :
    toMessageType (olmEncryptMessageType s) = encryptMessageType s := by
  rw [olmEncryptMessageType]
  cases encryptMessageType s with
  | preKey => rfl
  | message => rfl

section Sending

variable {s s' : Session} {m m' : Mem}
  {plaintext plaintextLength random randomLength message messageLength n : Nat}

/-- A call of `olm_encrypt` that succeeds encodes the message that its session has made at the
    end of the buffer. -/
theorem olmEncrypt_some
    (h : olmEncrypt prim s m plaintext plaintextLength random randomLength message messageLength
      = (m', s', some n)) (hrandom : Disjoint random randomLength message messageLength) :
    ∃ m₁ k, encrypt prim s m plaintext plaintextLength random randomLength
        (b64OutputPos message (encryptMessageLength prim s plaintextLength))
        (encryptMessageLength prim s plaintextLength) = (m₁, s', some k) ∧
      encodeBase64Length (encryptMessageLength prim s plaintextLength) ≤ messageLength ∧
      read m' message n = base64.encode
        (read m₁ (b64OutputPos message (encryptMessageLength prim s plaintextLength))
          (encryptMessageLength prim s plaintextLength)) := by
  rw [olmEncrypt] at h
  simp only at h
  by_cases hroom : messageLength < encodeBase64Length (encryptMessageLength prim s plaintextLength)
  · rw [if_pos hroom] at h
    cases (Prod.mk.inj (Prod.mk.inj h).2).2
  · rw [if_neg hroom] at h
    have hfits := Nat.not_lt.mp hroom
    generalize encrypt prim s m plaintext plaintextLength random randomLength
      (b64OutputPos message (encryptMessageLength prim s plaintextLength))
      (encryptMessageLength prim s plaintextLength) = call at h ⊢
    obtain ⟨m₁, s₁, _ | k⟩ := call
    · cases (Prod.mk.inj (Prod.mk.inj h).2).2
    · obtain ⟨hm, hcalled⟩ := Prod.mk.inj h
      obtain ⟨hs, hn⟩ := Prod.mk.inj hcalled
      obtain rfl := Option.some.inj hn
      refine ⟨m₁, k, by rw [hs], hfits, ?_⟩
      have hfilled := encodeBase64_filled (unset m₁ random randomLength)
        (encryptMessageLength prim s plaintextLength) message
      have hle := le_encodeBase64Length (encryptMessageLength prim s plaintextLength)
      -- the random bytes that are cleared are not in the message
      have hkept : read (unset m₁ random randomLength)
          (b64OutputPos message (encryptMessageLength prim s plaintextLength))
          (encryptMessageLength prim s plaintextLength)
          = read m₁ (b64OutputPos message (encryptMessageLength prim s plaintextLength))
            (encryptMessageLength prim s plaintextLength) := by
        rw [unset]
        refine read_write_disjoint m₁ ?_
        rw [List.length_replicate, b64OutputPos]
        exact hrandom.part (by omega) (by omega)
      rw [← hkept, ← hm]
      have htext := hfilled.filled
      rw [length_read] at htext
      exact htext

end Sending

/-- A session that is put away and loaded again differs in its last errors only. -/
theorem reloaded_withoutErrors (hinverts : prim.AesInverts) {s s₁ s₂ : Session} {m m₁ m₂ m₃ : Mem}
    {key keyLength pickled pickledLength key₂ keyLength₂ pickled₂ n n' : Nat}
    (hdisjoint : Disjoint key keyLength pickled (olmPickleSessionLength prim s))
    (hpickle : olmPickleSession prim s m key keyLength pickled pickledLength = (m₁, s₁, some n))
    (hkey : read m₂ key₂ keyLength₂ = read m key keyLength)
    (hcopy : read m₂ pickled₂ n = read m₁ pickled n)
    (hdisjoint₂ : Disjoint key₂ keyLength₂ pickled₂ n)
    (hunpickle : olmUnpickleSession prim newSession m₂ key₂ keyLength₂ pickled₂ n
      = (m₃, s₂, some n')) :
    s₂ = s.withoutErrors := by
  have hroom : olmPickleSessionLength prim s ≤ pickledLength := by
    refine Nat.not_lt.mp ?_
    intro hsmall
    rw [olmPickleSessionLength] at hsmall
    rw [olmPickleSession, olmPickle, if_pos hsmall] at hpickle
    cases (Prod.mk.inj (Prod.mk.inj hpickle).2).2
  obtain ⟨text, hlength, hcall, hloads⟩ := session_roundTrips prim hinverts s m key keyLength
    pickled pickledLength hroom hdisjoint
  rw [hcall] at hpickle
  obtain ⟨rfl, hcalled⟩ := Prod.mk.inj hpickle
  obtain rfl := Option.some.inj (Prod.mk.inj hcalled).2
  have htext : read m₂ pickled₂ (olmPickleSessionLength prim s) = text := by
    rw [hcopy, ← hlength]
    exact read_write_self m pickled text
  obtain ⟨m₄, hloaded⟩ := hloads m₂ key₂ keyLength₂ pickled₂ hkey htext hdisjoint₂
  rw [hloaded] at hunpickle
  exact (Prod.mk.inj (Prod.mk.inj hunpickle).2).1.symm

/-! ## One call -/

/-- What a call of the interface is for the sessions: a call of theirs, or nothing but a
    change of the last errors. -/
inductive Step (prim : Primitives) (generated : List Curve25519PublicKey) (p q : Party) :
    List Curve25519PublicKey → Party → Party → Prop
  | acts {generated' : List Curve25519PublicKey} {p' q' : Party}
      (hacts : Acts prim generated p q generated' p' q') : Step prim generated p q generated' p' q'
  | quiet {s : Session} (hsame : s.withoutErrors = p.session.withoutErrors) :
      Step prim generated p q generated { p with session := s } q

/-- **ONE CALL** on texts is a step of the sessions behind them. -/
theorem Calls.step (hinverts : prim.AesInverts) {generated generated' : List Curve25519PublicKey}
    {p q P Q : Party} (h : Calls prim generated p.texts q.texts generated' P Q) :
    ∃ p' q', P = p'.texts ∧ Q = q'.texts ∧ Step prim generated p q generated' p' q' := by
  cases h with
  | @sent m m' s chain plaintext plaintextLength random randomLength message messageLength n hcall
      hsize hdisjoint hrandom hchain hfew hnew =>
      have hcall : olmEncrypt prim p.session m plaintext plaintextLength random randomLength message
        messageLength = (m', s, some n) := hcall
      obtain ⟨m₁, k, hencrypt, hfits, htext⟩ := olmEncrypt_some hcall hrandom
      have hle := le_encodeBase64Length (encryptMessageLength prim p.session plaintextLength)
      have hinside : Disjoint plaintext plaintextLength
          (b64OutputPos message (encryptMessageLength prim p.session plaintextLength))
          (encryptMessageLength prim p.session plaintextLength) := by
        rw [b64OutputPos]
        exact hdisjoint.part (by omega) (Nat.le_trans (by omega) (Nat.add_le_add_left hfits message))
      refine ⟨{ p with session := s }, { q with inbox := (sentMessage prim p.session chain m m₁
        plaintext plaintextLength (b64OutputPos message
          (encryptMessageLength prim p.session plaintextLength))) :: q.inbox }, rfl, ?_,
        Step.acts (Acts.sent hencrypt (Nat.lt_of_le_of_lt (Nat.le_trans hle hfits) hsize) hinside
          hchain hfew hnew)⟩
      have hmessage : sentText p.texts.session chain m m' plaintext plaintextLength message n
          = (sentMessage prim p.session chain m m₁ plaintext plaintextLength (b64OutputPos message
            (encryptMessageLength prim p.session plaintextLength))).text := by
        rw [sentText, sentMessage, Sent.text, htext, toMessageType_olmEncryptMessageType]
        rfl
      rw [hmessage]
      rfl
  | lost msg =>
      by_cases hmsg : msg ∈ q.texts.inbox
      · obtain ⟨raw, -, rfl⟩ := List.mem_map.mp hmsg
        exact ⟨p, { q with inbox := q.inbox.erase raw }, rfl, (q.texts_erase raw).symm,
          Step.acts (Acts.lost raw)⟩
      · rw [List.erase_of_not_mem hmsg]
        exact ⟨p, q, rfl, rfl, Step.quiet (s := p.session) rfl⟩
  | @delivered msg m m' s stack messageType message messageLength plaintext maxPlaintextLength n hmsg
      hread htype hseparate hcall hgenuine =>
      obtain ⟨raw, hraw, rfl⟩ := List.mem_map.mp hmsg
      obtain ⟨m₁, hinput, hbytes, hfits⟩ := b64Input_text hread
      rw [olmDecrypt, hinput] at hcall
      simp only at hcall
      rw [htype] at hcall
      have hinside : Separate plaintext maxPlaintextLength message raw.bytes.length :=
        Disjoint.part hseparate (Nat.le_refl _) (Nat.add_le_add_left hfits message)
      exact ⟨p.received raw s, q, (p.texts_received raw s).symm, rfl,
        Step.acts (Acts.delivered hraw hbytes hinside hcall hgenuine)⟩
  | @notSent m m' s plaintext plaintextLength random randomLength message messageLength hcall =>
      exact ⟨{ p with session := s }, q, rfl, rfl, Step.quiet (olmEncrypt_failed prim hcall)⟩
  | @notDecrypted m m' s stack messageType message messageLength plaintext maxPlaintextLength hcall =>
      exact ⟨{ p with session := s }, q, rfl, rfl, Step.quiet (olmDecrypt_failed prim hcall)⟩
  | @reloaded m m₁ m₂ m₃ s s' key keyLength pickled pickledLength key₂ keyLength₂ pickled₂ n n'
      hdisjoint hpickle hkey hcopy hdisjoint₂ hunpickle =>
      have hloaded := reloaded_withoutErrors hinverts hdisjoint hpickle hkey hcopy hdisjoint₂ hunpickle
      refine ⟨{ p with session := s }, q, rfl, rfl, Step.quiet ?_⟩
      rw [hloaded]
      rfl

/-! ## Runs -/

section Runs

variable {generated generated' : List Curve25519PublicKey} {e : Epoch} {mine theirs : List Epoch}
  {k : Nat} {p q p' q' : Party}

/-- A step of the leader. -/
theorem Leads.step (h : Leads prim generated e mine theirs k p q)
    (hstep : Step prim generated p q generated' p' q') :
    ∃ k', Leads prim generated' e mine theirs k' p' q' := by
  cases hstep with
  | acts hacts => exact h.acts hacts
  | quiet hsame => exact ⟨k, h.same (SameKeys.of_failed hsame)⟩

/-- A step of the other side. -/
theorem Leads.step_trailing (hdh : prim.DhCommutes) (h : Leads prim generated e mine theirs k p q)
    (hstep : Step prim generated q p generated' q' p') :
    Leads prim generated' e mine theirs k p' q' ∨
      ∃ new, Leads prim generated' new theirs (e :: mine) 1 q' p' := by
  cases hstep with
  | acts hacts => exact h.acts_trailing hdh hacts
  | quiet hsame => exact Or.inl (h.same_trailing (SameKeys.of_failed hsame))

variable {account : Account} {identityKey : Curve25519PublicKey} {c d : Conversation}
  {start : Session}

theorem Begins.step (h : Begins prim start e k c)
    (hstep : Step prim c.generated c.alice c.bob generated p q) :
    ∃ k', Begins prim start e k' { generated, alice := p, bob := q } := by
  cases hstep with
  | acts hacts => exact h.acts hacts
  | quiet hsame => exact ⟨k, h.same hsame⟩

/-- The key of the other side is read back from its text. -/
theorem olmCreateOutboundSession_some {s : Session} {m m' : Mem}
    {theirIdentityKey theirOneTimeKey theirOneTimeKeyLength random randomLength n : Nat}
    (hkey : read m theirIdentityKey 43 = base64.encode identityKey.toList)
    (hcall : olmCreateOutboundSession prim newSession account m theirIdentityKey 43 theirOneTimeKey
      theirOneTimeKeyLength random randomLength = (m', s, some n)) :
    ∃ oneTimeKey, newOutboundSession prim newSession account identityKey oneTimeKey m random
      randomLength = (s, some n) := by
  rw [olmCreateOutboundSession] at hcall
  split at hcall
  · cases (Prod.mk.inj (Prod.mk.inj hcall).2).2
  · rw [hkey, SextetCodec.decode_encode, ofBytes_toList] at hcall
    exact ⟨_, (Prod.mk.inj hcall).2⟩

/-- **EVERY RUN** before the other side has a session. -/
theorem CallOpening.begins (hinverts : prim.AesInverts)
    (hrun : CallOpening prim account identityKey d) :
    ∃ (c : Conversation) (start : Session) (baseKey : Curve25519KeyPair) (e : Epoch) (k : Nat),
      d = c.texts ∧ CreatedOn prim account identityKey start baseKey e ∧
      Begins prim start e k c := by
  induction hrun with
  | @created m m' start theirIdentityKey theirOneTimeKey theirOneTimeKeyLength random randomLength n
      hkey hcall =>
      obtain ⟨oneTimeKey, hcreate⟩ := olmCreateOutboundSession_some hkey hcall
      obtain ⟨start, baseKey, e, k, hcreated, hbegins⟩ := (Opening.created hcreate).begins
      exact ⟨_, start, baseKey, e, k, rfl, hcreated, hbegins⟩
  | calls hrun hcalls ih =>
      obtain ⟨c, start, baseKey, e, k, rfl, hcreated, hbegins⟩ := ih
      obtain ⟨p', q', rfl, rfl, hstep⟩ := hcalls.step hinverts
      obtain ⟨k', hnext⟩ := hbegins.step hstep
      exact ⟨_, start, baseKey, e, k', rfl, hcreated, hnext⟩

/-- The session that a text opens is the one that its message opens. -/
theorem Opens.newInboundSession {m : Mem} {message messageLength : Nat} {raw : Bytes} {s : Session}
    (h : Opens prim account m message messageLength s)
    (hread : read m message messageLength = base64.encode raw) :
    ∃ theirIdentityKey m₁, read m₁ message raw.length = raw ∧
      OlmSession.newInboundSession prim newSession account theirIdentityKey m₁ message raw.length
        = some (s, some 0) := by
  obtain ⟨m₁, hinput, hbytes, -⟩ := b64Input_text hread
  cases h with
  | any hcall =>
      rw [olmCreateInboundSession, hinput] at hcall
      exact ⟨none, m₁, hbytes, (Prod.mk.inj hcall).2⟩
  | of hcall =>
      rw [olmCreateInboundSessionFrom] at hcall
      split at hcall
      · cases (Prod.mk.inj (Option.some.inj (Prod.mk.inj hcall).2)).2
      · rw [hinput] at hcall
        exact ⟨some _, m₁, hbytes, (Prod.mk.inj hcall).2⟩

/-- **EVERY RUN** of a conversation: behind the texts, one of the two sides leads. -/
theorem Calling.leads (hdh : prim.DhCommutes) (hinverts : prim.AesInverts) {alice bob : Account}
    (halice : alice.identityKeys.curve25519Key.Matches prim) (hbob : KeysMatch prim bob)
    (hrun : Calling prim alice bob d) :
    ∃ c : Conversation, d = c.texts ∧
      ((∃ e mine theirs k, Leads prim c.generated e mine theirs k c.alice c.bob) ∨
      ∃ e mine theirs k, Leads prim c.generated e mine theirs k c.bob c.alice) := by
  induction hrun with
  | @opened c msg m message messageLength s hrun hmsg hread hopens =>
      obtain ⟨c, start, baseKey, e, k, rfl, hcreated, hbegins⟩ := hrun.begins hinverts
      obtain ⟨raw, hraw, rfl⟩ := List.mem_map.mp hmsg
      obtain ⟨hsent, hbytes⟩ := hbegins.sent raw hraw
      obtain ⟨theirIdentityKey, m₁, hmessage, hcall⟩ := hopens.newInboundSession hread
      have hratchet := newInboundSession_opened hdh halice hbob hcreated hsent hbytes hmessage hcall
      exact ⟨{ c with bob := { c.bob with session := s, started := receiverKeys s.ratchet } }, rfl,
        Or.inl ⟨e, [], [], k, hbegins.opened hcreated.ratchetKey_matches hratchet⟩⟩
  | alice hrun hcalls ih =>
      obtain ⟨c, rfl, hleads⟩ := ih
      obtain ⟨p', q', rfl, rfl, hstep⟩ := hcalls.step hinverts
      refine ⟨{ generated := _, alice := p', bob := q' }, rfl, ?_⟩
      rcases hleads with ⟨e, mine, theirs, k, h⟩ | ⟨e, mine, theirs, k, h⟩
      · obtain ⟨k', h'⟩ := h.step hstep
        exact Or.inl ⟨e, mine, theirs, k', h'⟩
      · rcases h.step_trailing hdh hstep with h' | ⟨new, h'⟩
        · exact Or.inr ⟨e, mine, theirs, k, h'⟩
        · exact Or.inl ⟨new, theirs, e :: mine, 1, h'⟩
  | bob hrun hcalls ih =>
      obtain ⟨c, rfl, hleads⟩ := ih
      obtain ⟨q', p', rfl, rfl, hstep⟩ := hcalls.step hinverts
      refine ⟨{ generated := _, alice := p', bob := q' }, rfl, ?_⟩
      rcases hleads with ⟨e, mine, theirs, k, h⟩ | ⟨e, mine, theirs, k, h⟩
      · rcases h.step_trailing hdh hstep with h' | ⟨new, h'⟩
        · exact Or.inl ⟨e, mine, theirs, k, h'⟩
        · exact Or.inr ⟨new, theirs, e :: mine, 1, h'⟩
      · obtain ⟨k', h'⟩ := h.step hstep
        exact Or.inr ⟨e, mine, theirs, k', h'⟩

/-! ## Reading -/

/-- The size that is announced for a message depends on its plaintext only. -/
theorem SentOn.announced {msg : Sent} {m : Mem} {message messageLength : Nat}
    (h : SentOn prim e msg) (s : Session) (stack : MessageReader)
    (hread : read m message messageLength = msg.bytes) :
    (decryptMaxPlaintextLength prim s stack msg.messageType m message messageLength).2
      = some (cryptoAesEncryptCbcLength msg.plaintext.length) := by
  obtain ⟨body, bodyLength, hbody, hholds, -, -⟩ := h.messageBody hread
  rw [decryptMaxPlaintextLength, hbody]
  simp only
  rw [OlmRatchet.decryptMaxPlaintextLength, hholds.decodeMessage_eq stack]
  rfl

/-- The text of a message that can be read can be read. -/
theorem Readable.text {msg : Sent} (hsent : SentOn prim e msg) (h : Readable prim p msg) :
    TextReadable prim p.texts msg.text := by
  refine ⟨cryptoAesEncryptCbcLength msg.plaintext.length, ?_, ?_⟩
  · intro stack messageType m message htype hread
    obtain ⟨m₁, hinput, hbytes, -⟩ := b64Input_text hread
    have htype : toMessageType messageType = msg.messageType := htype
    rw [olmDecryptMaxPlaintextLength, hinput]
    simp only
    rw [htype]
    exact hsent.announced _ stack hbytes
  · intro stack messageType m message plaintext maxPlaintextLength htype hread hroom hseparate
    obtain ⟨m₁, hinput, hbytes, hfits⟩ := b64Input_text hread
    have htype : toMessageType messageType = msg.messageType := htype
    obtain ⟨announced, hannounced, hreads⟩ := h stack m₁ message msg.bytes.length hbytes
    rw [hsent.announced _ stack hbytes] at hannounced
    obtain rfl := Option.some.inj hannounced
    obtain ⟨m', s, hcall, hplaintext⟩ := hreads plaintext maxPlaintextLength hroom
      (Disjoint.part hseparate (Nat.le_refl _) (Nat.add_le_add_left hfits message))
    refine ⟨m', s, ?_, hplaintext⟩
    rw [olmDecrypt, hinput]
    simp only
    rw [htype]
    exact hcall

/-- **EVERY TEXT CAN BE READ**: whatever was sent, lost, delivered, put away and loaded before,
    `olm_decrypt` makes its plaintext of a text in flight that is in the window of its
    receiver. -/
theorem calling_readable (hdh : prim.DhCommutes) (hinverts : prim.AesInverts) {alice bob : Account}
    (halice : alice.identityKeys.curve25519Key.Matches prim) (hbob : KeysMatch prim bob)
    (hrun : Calling prim alice bob d) :
    (∀ msg ∈ d.alice.inbox, InWindow d.alice msg → TextReadable prim d.alice msg) ∧
      (∀ msg ∈ d.bob.inbox, InWindow d.bob msg → TextReadable prim d.bob msg) := by
  have hside : ∀ {p q : Party} {generated : List Curve25519PublicKey} {e : Epoch}
      {mine theirs : List Epoch} {k : Nat}, Leads prim generated e mine theirs k p q →
      (∀ msg ∈ p.texts.inbox, InWindow p.texts msg → TextReadable prim p.texts msg) ∧
        (∀ msg ∈ q.texts.inbox, InWindow q.texts msg → TextReadable prim q.texts msg) := by
    intro p q generated e mine theirs k h
    obtain ⟨hleader, hother⟩ := h.readable hdh hinverts
    refine ⟨?_, ?_⟩
    · intro msg hmsg hwindow
      obtain ⟨raw, hraw, rfl⟩ := List.mem_map.mp hmsg
      obtain ⟨sender, -, hsent⟩ := h.toLeader raw hraw
      exact (hleader raw hraw ⟨hwindow.chain, hwindow.gap, hwindow.skipped⟩).text hsent
    · intro msg hmsg hwindow
      obtain ⟨raw, hraw, rfl⟩ := List.mem_map.mp hmsg
      obtain ⟨sender, -, hsent⟩ := h.toOther raw hraw
      exact (hother raw hraw ⟨hwindow.chain, hwindow.gap, hwindow.skipped⟩).text hsent
  obtain ⟨c, rfl, ⟨e, mine, theirs, k, h⟩ | ⟨e, mine, theirs, k, h⟩⟩ :=
    hrun.leads hdh hinverts halice hbob
  · exact hside h
  · exact (hside h).symm

end Runs

/-! ## What a session knows of itself -/

/-- The keys that name a session. -/
def sessionIdBytes (prim : Primitives) (s : Session) : Bytes :=
  (cryptoSha256 prim
    (s.aliceIdentityKey.toList ++ s.aliceBaseKey.toList ++ s.bobOneTimeKey.toList)).toList

theorem olmSessionId_eq (s : Session) (m : Mem) (id : Nat) {idLength : Nat}
    (hroom : olmSessionIdLength ≤ idLength) :
    olmSessionId prim s m id idLength
      = (write m id (base64.encode (sessionIdBytes prim s)), s, some olmSessionIdLength) := by
  have hlength : (sessionIdBytes prim s).length = sessionIdLength := Vector.length_toList
  have htail := encodeBase64_tail m id (sessionIdBytes prim s)
  rw [hlength] at htail
  rw [olmSessionId, if_neg (show ¬idLength < encodeBase64Length sessionIdLength from
    Nat.not_lt.mpr hroom), sessionId, if_neg (Nat.lt_irrefl _)]
  simp only [b64Output, b64OutputPos]
  rw [store, ← sessionIdBytes, htail]
  rfl

/-- A call that hands out a plaintext sets the flag, and with it the type of what is sent. -/
theorem olmDecrypt_hasReceivedMessage {s s' : Session} {stack : MessageReader} {messageType : Nat}
    {m m' : Mem} {message messageLength plaintext maxPlaintextLength n : Nat}
    (h : olmDecrypt prim s stack messageType m message messageLength plaintext maxPlaintextLength
      = (m', s', some n)) :
    olmSessionHasReceivedMessage s' = true ∧ olmEncryptMessageType s' = 1 := by
  have hreceived : s'.receivedMessage = true := by
    -- every exit but the last one hands out no length
    rw [olmDecrypt] at h
    split at h
    · cases (Prod.mk.inj (Prod.mk.inj h).2).2
    · rw [OlmSession.decrypt] at h
      split at h
      · cases (Prod.mk.inj (Prod.mk.inj h).2).2
      · split at h
        · cases (Prod.mk.inj (Prod.mk.inj h).2).2
        · obtain ⟨rfl, -⟩ := Prod.mk.inj (Prod.mk.inj h).2
          rfl
  refine ⟨hreceived, ?_⟩
  rw [olmEncryptMessageType, encryptMessageType, if_pos hreceived]
  rfl

/-- **BOTH SIDES AGREE** at the interface: the ids of their sessions are one text, and the
    receiver's session matches the texts of all messages that the creator has sent. -/
theorem Agree.interface {start s s' : Session} {messages : List Bytes}
    (h : Agree prim start messages s s') :
    (∀ {m m' : Mem} (id id' : Nat) {idLength idLength' : Nat}, olmSessionIdLength ≤ idLength →
      olmSessionIdLength ≤ idLength' →
      read (olmSessionId prim s m id idLength).1 id olmSessionIdLength
        = read (olmSessionId prim s' m' id' idLength').1 id' olmSessionIdLength) ∧
    ∀ raw ∈ messages, ∀ {m : Mem} {message messageLength : Nat},
      read m message messageLength = base64.encode raw →
      (olmMatchesInboundSession s' m message messageLength).2.2 = some 1 ∧
        ∀ theirIdentityKey : Nat, read m theirIdentityKey (encodeBase64Length curve25519KeyLength)
            = base64.encode start.aliceIdentityKey.toList →
          (olmMatchesInboundSessionFrom s' m theirIdentityKey
            (encodeBase64Length curve25519KeyLength) message messageLength).2.2 = some 1 := by
  constructor
  · intro m m' id id' idLength idLength' hroom hroom'
    have hids : sessionIdBytes prim s = sessionIdBytes prim s' := by
      have hsame := (h.sessionId (fun _ => 0) 0 sessionIdLength).1
      rw [OlmSession.sessionId, OlmSession.sessionId, if_neg (Nat.lt_irrefl _),
        if_neg (Nat.lt_irrefl _)] at hsame
      simp only at hsame
      rw [sessionIdBytes, sessionIdBytes, ← read_store_self (fun _ => 0) 0, ← hsame,
        read_store_self]
    have hlength : ∀ s : Session,
        (base64.encode (sessionIdBytes prim s)).length = olmSessionIdLength := by
      intro s
      rw [length_base64_encode, sessionIdBytes, Vector.length_toList]
      rfl
    rw [olmSessionId_eq s m id hroom, olmSessionId_eq s' m' id' hroom',
      read_write_of_length _ _ (hlength s), read_write_of_length _ _ (hlength s'), hids]
  · intro raw hraw m message messageLength hread
    -- the text is decoded in place: `m₁` has the bytes where `m` has the text
    obtain ⟨m₁, hinput, hbytes, -⟩ := b64Input_text hread
    constructor
    · rw [olmMatchesInboundSession, hinput]
      simp only
      rw [h.matchesOwn raw hraw m₁ message raw.length none hbytes (Or.inl rfl), if_pos rfl]
    · intro theirIdentityKey hkey
      have hidentity : ofBytes 32 (base64.decode (read m theirIdentityKey
          (encodeBase64Length curve25519KeyLength))) = start.aliceIdentityKey := by
        rw [hkey, SextetCodec.decode_encode]
        exact ofBytes_toList _
      rw [olmMatchesInboundSessionFrom, decodeBase64Length_encode,
        if_neg (not_not_intro rfl), hidentity, hinput]
      simp only
      rw [h.matchesOwn raw hraw m₁ message raw.length _ hbytes (Or.inr rfl), if_pos rfl]

/-- A memory with the keys of an account as texts. -/
def demoKeyTexts : Mem :=
  write (write demoKeyMemory 400
      (base64.encode demoAccount.identityKeys.curve25519Key.publicKey.toList)) 500
    (base64.encode (cryptoCurve25519GenerateKey demoPrimitives
      (load 32 demoKeyMemory 64)).publicKey.toList)

/-- The call that creates a session of the account with itself. -/
def demoCreated : Mem × Session × Option Nat :=
  olmCreateOutboundSession demoPrimitives newSession demoAccount demoKeyTexts 400 43 500 43 96 64

/-- The call that sends two bytes. -/
def demoText : Mem × Session × Option Nat :=
  olmEncrypt demoPrimitives demoCreated.2.1 demoKeyTexts 0 2 0 0 600 300

/-- The call that opens a session with this text. -/
def demoTextOpened : Mem × Option (Session × Option Nat) :=
  olmCreateInboundSession demoPrimitives newSession demoAccount demoText.1 600
    (olmEncryptMessageLength demoPrimitives demoCreated.2.1 2)

/-- The sender is put away and loaded again before its first text opens a session, where it can
    then be read. -/
theorem calling_readable_demo :
    ∃ c msg, Calling demoPrimitives demoAccount demoAccount c ∧ c.bob.inbox = [msg] ∧
      msg.plaintext = read demoKeyTexts 0 2 ∧ TextReadable demoPrimitives c.bob msg := by
  have hkeys := demoAccount_keysMatch
  have hidentity : read demoKeyTexts 400 43
      = base64.encode demoAccount.identityKeys.curve25519Key.publicKey.toList := by
    decide +kernel
  have hcreated : olmCreateOutboundSession demoPrimitives newSession demoAccount demoKeyTexts 400 43
      500 43 96 64 = (demoCreated.1, demoCreated.2.1, some 0) :=
    Prod.ext rfl (Prod.ext rfl (by decide +kernel))
  have hsent : olmEncrypt demoPrimitives demoCreated.2.1 demoKeyTexts 0 2 0 0 600 300
      = (demoText.1, demoText.2.1,
        some (olmEncryptMessageLength demoPrimitives demoCreated.2.1 2)) := by
    have hlength : demoText.2.2
        = some (olmEncryptMessageLength demoPrimitives demoCreated.2.1 2) := by decide +kernel
    rw [← hlength, demoText]
  have hrandom : Disjoint 0 0 600 300 := Or.inl (by decide)
  obtain ⟨oneTimeKey, hnew⟩ := olmCreateOutboundSession_some hidentity hcreated
  obtain ⟨baseKey, e, -, -, hsends, -, -⟩ := newOutboundSession_created hnew
  obtain ⟨chain, hchain, hindex⟩ : ∃ chain : SenderChain SharedKey,
      demoText.2.1.ratchet.senderChain.toList = [chain] ∧ chain.chainKey.index = 1 := by
    obtain ⟨m₁, k, hencrypt, -, -⟩ := olmEncrypt_some hsent hrandom
    obtain ⟨bytes, hs, -⟩ := encrypt_framed hencrypt (Or.inl (by decide +kernel))
    obtain ⟨-, hsender, -⟩ := hsends.afterSending bytes
    rw [hs]
    exact ⟨_, hsender, rfl⟩
  have hnonempty : demoCreated.2.1.ratchet.senderChain.toList ≠ [] := by
    rw [hsends.chain]
    exact List.cons_ne_nil _ _
  have hrun := (CallOpening.created hidentity hcreated).calls (Calls.sent hsent (by decide)
    (Or.inl (by decide)) hrandom hchain (by rw [hindex]; decide)
    (fun hempty => absurd hempty hnonempty))
  -- the pickle is read from where it was written
  obtain ⟨text, hlength, hpickle, hloads⟩ := session_roundTrips demoPrimitives
    demoPrimitives_aesInverts demoText.2.1 demoText.1 0 16 1000 _ (Nat.le_refl _)
    (Or.inl (by decide))
  have hkept : read (write demoText.1 1000 text) 0 16 = read demoText.1 0 16 :=
    read_write_disjoint _ (Or.inr (by decide))
  have hwritten : read (write demoText.1 1000 text) 1000
      (olmPickleSessionLength demoPrimitives demoText.2.1) = text := by
    rw [← hlength]
    exact read_write_self _ _ _
  obtain ⟨m₃, hunpickle⟩ := hloads (write demoText.1 1000 text) 0 16 1000 hkept hwritten
    (Or.inl (by decide))
  have hreloaded := hrun.calls (Calls.reloaded (Or.inl (by decide)) hpickle hkept rfl
    (Or.inl (by decide)) hunpickle)
  obtain ⟨s, hopened⟩ : ∃ s, demoTextOpened = (demoTextOpened.1, some (s, some 0)) := by
    have hresult : demoTextOpened.2.map Prod.snd = some (some 0) := by decide +kernel
    obtain ⟨⟨s, result⟩, hcall, hzero⟩ := Option.map_eq_some_iff.mp hresult
    obtain rfl : result = some 0 := hzero
    have hpair := (Prod.eta demoTextOpened).symm
    rw [hcall] at hpair
    exact ⟨s, hpair⟩
  have hcalling := Calling.opened hreloaded List.mem_cons_self rfl (Opens.any hopened)
  refine ⟨_, _, hcalling, rfl, rfl, (calling_readable demoPrimitives_dhCommutes
    demoPrimitives_aesInverts hkeys.identityKey hkeys hcalling).2 _ List.mem_cons_self ?_⟩
  refine ⟨fun hmem => ?_, ?_, fun hmem => ?_⟩
  · rwa [List.take_of_length_le]
    show (receiverKeys s.ratchet).length ≤ 5
    rw [receiverKeys, List.length_map]
    exact s.ratchet.receiverChains.length_le
  · show (chain.chainKey.index - 1).toNat ≤ _
    rw [hindex]
    exact Nat.zero_le _
  · cases hmem

end OlmSession
