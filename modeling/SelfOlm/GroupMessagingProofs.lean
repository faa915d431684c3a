import SelfOlm.GroupMessageProofs

/-! # Group messaging from end to end

    A sender with any number of messages and session keys, and the receivers
    that come from those keys directly or through a chain of exports and
    imports.  The sender's ratchet in front of message `j` is its first one
    moved on `j` steps; the two ratchets of a receiver are the sender's at two
    indices below `2 ^ 31`, the initial one not behind the latest.  In that range
    the half-range comparisons of `_get_megolm` are the order of the indices. -/

namespace OlmGroupSession

open ByteMemory OlmCrypto OlmMessage OlmBase64 OlmMegolm

variable (prim : Primitives)

/-! ## Runs of the sender and of the receivers -/

/-- A sender that has emitted `messages` (plaintext and encoded message) and
    handed out the session keys `keys`.  The message is written to a buffer of
    its own, and its length fits `size_t`. -/
inductive SenderRun : List (Bytes × Bytes) → List Bytes → OutboundGroupSession → Prop
  | init {session session' : OutboundGroupSession} {m m' : Mem} {random randomLength n : Nat}
      (h : initOutboundGroupSession prim session m random randomLength = (m', session', some n)) :
      SenderRun [] [] session'
  | encrypt {messages : List (Bytes × Bytes)} {keys : List Bytes}
      {session session' : OutboundGroupSession} {m m' : Mem}
      {plaintext plaintextLength message maxMessageLength n : Nat}
      (run : SenderRun messages keys session)
      (hdisj : Disjoint plaintext plaintextLength message maxMessageLength)
      (hsize : rawMessageLength prim session plaintextLength < 2 ^ 64)
      (h : groupEncrypt prim session m plaintext plaintextLength message maxMessageLength
        = (m', session', some n)) :
      SenderRun (messages ++ [(read m plaintext plaintextLength, read m' message n)]) keys session'
  | encryptFailed {messages : List (Bytes × Bytes)} {keys : List Bytes}
      {session session' : OutboundGroupSession} {m m' : Mem}
      {plaintext plaintextLength message maxMessageLength : Nat}
      (run : SenderRun messages keys session)
      (h : groupEncrypt prim session m plaintext plaintextLength message maxMessageLength
        = (m', session', none)) :
      SenderRun messages keys session'
  | sessionKey {messages : List (Bytes × Bytes)} {keys : List Bytes}
      {session session' : OutboundGroupSession} {m m' : Mem} {key keyLength n : Nat}
      (run : SenderRun messages keys session)
      (h : outboundGroupSessionKey prim session m key keyLength = (m', session', some n)) :
      SenderRun messages (keys ++ [read m' key n]) session'
  | sessionKeyFailed {messages : List (Bytes × Bytes)} {keys : List Bytes}
      {session session' : OutboundGroupSession} {m m' : Mem} {key keyLength : Nat}
      (run : SenderRun messages keys session)
      (h : outboundGroupSessionKey prim session m key keyLength = (m', session', none)) :
      SenderRun messages keys session'

/-- A receiver of those messages, behind any row of deliveries and exports. -/
inductive ReceiverRun (messages : List (Bytes × Bytes)) (keys : List Bytes) :
    InboundGroupSession → Prop
  | init (session : InboundGroupSession) {m : Mem} {sessionKey sessionKeyLength : Nat}
      (hkey : read m sessionKey sessionKeyLength ∈ keys) :
      ReceiverRun messages keys
        (initInboundGroupSession prim session m sessionKey sessionKeyLength).1
  | importSession (session : InboundGroupSession) {shared shared' : InboundGroupSession}
      {m m' m'' : Mem} {key keyLength n sessionKey sessionKeyLength : Nat} {messageIndex : UInt32}
      (run : ReceiverRun messages keys shared)
      (hindex : messageIndex < 0x80000000)
      (hexport : exportInboundGroupSession prim shared m key keyLength messageIndex
        = (m', shared', some n))
      (hkey : read m'' sessionKey sessionKeyLength = read m' key n) :
      ReceiverRun messages keys
        (importInboundGroupSession prim session m'' sessionKey sessionKeyLength).1
  | groupDecrypt {session : InboundGroupSession} (stack : DecodeGroupMessageResults) {m : Mem}
      {message messageLength : Nat} (plaintext maxPlaintextLength : Nat) {sent : Bytes × Bytes}
      (run : ReceiverRun messages keys session)
      (hsent : sent ∈ messages)
      (hread : read m message messageLength = sent.2) :
      ReceiverRun messages keys
        (groupDecrypt prim session stack m message messageLength plaintext
          maxPlaintextLength).2.1
  | exportSession {session : InboundGroupSession} (m : Mem) (key keyLength : Nat)
      {messageIndex : UInt32}
      (run : ReceiverRun messages keys session)
      (hindex : messageIndex < 0x80000000) :
      ReceiverRun messages keys
        (exportInboundGroupSession prim session m key keyLength messageIndex).2.1

/-! ## The sender -/

/-- The ratchet of message `j`. -/
def ratchetAt (first : Megolm Part) (j : Nat) : Megolm Part :=
  (megolmAdvance (megolmHmac prim))^[j] first

theorem ratchetAt_succ (first : Megolm Part) (j : Nat) :
    megolmAdvance (megolmHmac prim) (ratchetAt prim first j) = ratchetAt prim first (j + 1) :=
  (Function.iterate_succ_apply' _ _ _).symm

theorem counter_ratchetAt {first : Megolm Part} (hfirst : first.counter = 0) (j : Nat) :
    (ratchetAt prim first j).counter = UInt32.ofNat j := by
  rw [ratchetAt, counter_iterate, hfirst, zero_add]

/-- What a sender has produced, by its first ratchet and its signing key. -/
structure SenderInv (first : Megolm Part) (signingKey : Ed25519KeyPair)
    (messages : List (Bytes × Bytes)) (keys : List Bytes) (session : OutboundGroupSession) :
    Prop where
  ratchet : session.ratchet = ratchetAt prim first messages.length
  signing : session.signingKey = signingKey
  message : ∀ {j : Nat} {sent : Bytes × Bytes}, messages[j]? = some sent →
    sent.2 = base64.encode (rawMessage prim (ratchetAt prim first j) signingKey sent.1) ∧
      (rawMessage prim (ratchetAt prim first j) signingKey sent.1).length < 2 ^ 64
  key : ∀ {k : Bytes}, k ∈ keys →
    ∃ i, i ≤ messages.length ∧
      k = base64.encode (sessionKeyBytes prim (ratchetAt prim first i) signingKey)

/-- A failed encryption leaves ratchet and key alone. -/
theorem groupEncrypt_failed {session session' : OutboundGroupSession} {m m' : Mem}
    {plaintext plaintextLength message maxMessageLength : Nat}
    (h : groupEncrypt prim session m plaintext plaintextLength message maxMessageLength
      = (m', session', none)) :
    session'.ratchet = session.ratchet ∧ session'.signingKey = session.signingKey := by
  rw [groupEncrypt] at h
  by_cases h1 : maxMessageLength < encodeBase64Length (rawMessageLength prim session plaintextLength)
  · rw [if_pos h1, Prod.mk.injEq, Prod.mk.injEq] at h
    obtain ⟨-, rfl, -⟩ := h
    exact ⟨rfl, rfl⟩
  · rw [if_neg h1] at h
    simp only [encrypt] at h
    generalize (megolmCipher prim).encrypt (megolmGetData session.ratchet) _ plaintext
      plaintextLength _ _ _ _ = c at h
    rcases c with ⟨m₁, _ | r⟩
    · rw [Prod.mk.injEq, Prod.mk.injEq] at h
      obtain ⟨-, rfl, -⟩ := h
      exact ⟨rfl, rfl⟩
    · exact absurd (Prod.mk.inj (Prod.mk.inj h).2).2 (by simp)

/-- A successful encryption had room for the message. -/
theorem groupEncrypt_room {session session' : OutboundGroupSession} {m m' : Mem}
    {plaintext plaintextLength message maxMessageLength n : Nat}
    (h : groupEncrypt prim session m plaintext plaintextLength message maxMessageLength
      = (m', session', some n)) :
    encodeBase64Length (rawMessageLength prim session plaintextLength) ≤ maxMessageLength := by
  by_contra hlt
  rw [groupEncrypt, if_pos (by omega)] at h
  exact absurd (Prod.mk.inj (Prod.mk.inj h).2).2 (by simp)

/-- One more message keeps the invariant. -/
theorem SenderInv.encrypt {first : Megolm Part} {signingKey : Ed25519KeyPair}
    {messages : List (Bytes × Bytes)} {keys : List Bytes}
    {session session' : OutboundGroupSession} {m m' : Mem}
    {plaintext plaintextLength message maxMessageLength n : Nat}
    (inv : SenderInv prim first signingKey messages keys session)
    (hdisj : Disjoint plaintext plaintextLength message maxMessageLength)
    (hsize : rawMessageLength prim session plaintextLength < 2 ^ 64)
    (h : groupEncrypt prim session m plaintext plaintextLength message maxMessageLength
      = (m', session', some n)) :
    SenderInv prim first signingKey
      (messages ++ [(read m plaintext plaintextLength, read m' message n)]) keys session' := by
  have hraw := rawMessageLength_eq prim session (read m plaintext plaintextLength)
  rw [length_read] at hraw
  rw [groupEncrypt_eq prim session m (groupEncrypt_room prim h) hdisj, hraw,
    Prod.mk.injEq, Prod.mk.injEq, Option.some.injEq] at h
  obtain ⟨rfl, rfl, hn⟩ := h
  have hwire : read (write m message (base64.encode (rawMessage prim session.ratchet
      session.signingKey (read m plaintext plaintextLength)))) message n
      = base64.encode (rawMessage prim session.ratchet session.signingKey
          (read m plaintext plaintextLength)) := by
    rw [← hn, ← length_base64_encode, read_write_self]
  refine ⟨?_, inv.signing, fun {j sent} hj => ?_, fun {k} hk => ?_⟩
  · rw [List.length_append, List.length_singleton, ← ratchetAt_succ, ← inv.ratchet]
  · -- an old message, or the one that was just written
    rcases Nat.lt_trichotomy j messages.length with hlt | rfl | hgt
    · rw [List.getElem?_append_left hlt] at hj
      exact inv.message hj
    · rw [List.getElem?_concat_length] at hj
      obtain rfl := Option.some.inj hj
      rw [← inv.ratchet, ← inv.signing]
      exact ⟨hwire, by rw [← hraw]; exact hsize⟩
    · rw [List.getElem?_eq_none (by rw [List.length_append, List.length_singleton]; omega)] at hj
      exact absurd hj (by simp)
  · obtain ⟨i, hi, hik⟩ := inv.key hk
    exact ⟨i, by rw [List.length_append]; omega, hik⟩

/-- One more session key keeps the invariant. -/
theorem SenderInv.sessionKey {first : Megolm Part} {signingKey : Ed25519KeyPair}
    {messages : List (Bytes × Bytes)} {keys : List Bytes}
    {session session' : OutboundGroupSession} {m m' : Mem} {key keyLength n : Nat}
    (inv : SenderInv prim first signingKey messages keys session)
    (h : outboundGroupSessionKey prim session m key keyLength = (m', session', some n)) :
    SenderInv prim first signingKey messages (keys ++ [read m' key n]) session' := by
  by_cases hroom : keyLength < encodeBase64Length sessionKeyRawLength
  · rw [outboundGroupSessionKey, if_pos hroom] at h
    exact absurd (Prod.mk.inj (Prod.mk.inj h).2).2 (by simp)
  rw [outboundGroupSessionKey_eq prim session m (Nat.not_lt.mp hroom), Prod.mk.injEq,
    Prod.mk.injEq, Option.some.injEq] at h
  obtain ⟨rfl, rfl, hn⟩ := h
  refine ⟨inv.ratchet, inv.signing, inv.message, fun {k} hk => ?_⟩
  rcases List.mem_append.mp hk with hk | hk
  · exact inv.key hk
  · refine ⟨messages.length, Nat.le_refl _, ?_⟩
    rw [List.mem_singleton.mp hk, ← hn,
      ← length_sessionKeyBytes prim session.ratchet session.signingKey, ← length_base64_encode,
      read_write_self, inv.ratchet, inv.signing]

theorem SenderInv.congr {first : Megolm Part} {signingKey : Ed25519KeyPair}
    {messages : List (Bytes × Bytes)} {keys : List Bytes}
    {session session' : OutboundGroupSession}
    (inv : SenderInv prim first signingKey messages keys session)
    (h : session'.ratchet = session.ratchet ∧ session'.signingKey = session.signingKey) :
    SenderInv prim first signingKey messages keys session' :=
  ⟨h.1.trans inv.ratchet, h.2.trans inv.signing, inv.message, inv.key⟩

/-- **SENDER**: every run has a first ratchet at counter 0 and a generated
    signing key that account for all it has emitted. -/
theorem SenderRun.inv {messages : List (Bytes × Bytes)} {keys : List Bytes}
    {session : OutboundGroupSession} (run : SenderRun prim messages keys session) :
    ∃ first seed, first.counter = 0 ∧
      SenderInv prim first (cryptoEd25519GenerateKey prim seed) messages keys session := by
  induction run with
  | @init session session' m m' random randomLength n h =>
      rw [initOutboundGroupSession] at h
      by_cases h1 : randomLength < initOutboundGroupSessionRandomLength
      · rw [if_pos h1] at h
        exact absurd (Prod.mk.inj (Prod.mk.inj h).2).2 (by simp)
      · rw [if_neg h1, Prod.mk.injEq, Prod.mk.injEq] at h
        obtain ⟨-, rfl, -⟩ := h
        refine ⟨_, _, rfl, rfl, rfl, fun {j sent} hj => ?_, fun {k} hk => ?_⟩
        · exact absurd hj (by simp)
        · exact absurd hk List.not_mem_nil
  | encrypt run hdisj hsize h ih =>
      obtain ⟨first, seed, hfirst, inv⟩ := ih
      exact ⟨first, seed, hfirst, inv.encrypt prim hdisj hsize h⟩
  | encryptFailed run h ih =>
      obtain ⟨first, seed, hfirst, inv⟩ := ih
      exact ⟨first, seed, hfirst, inv.congr prim (groupEncrypt_failed prim h)⟩
  | sessionKey run h ih =>
      obtain ⟨first, seed, hfirst, inv⟩ := ih
      exact ⟨first, seed, hfirst, inv.sessionKey prim h⟩
  | @sessionKeyFailed messages keys session session' m m' key keyLength run h ih =>
      obtain ⟨first, seed, hfirst, inv⟩ := ih
      refine ⟨first, seed, hfirst, inv.congr prim ?_⟩
      by_cases hroom : keyLength < encodeBase64Length sessionKeyRawLength
      · rw [outboundGroupSessionKey, if_pos hroom, Prod.mk.injEq, Prod.mk.injEq] at h
        obtain ⟨-, rfl, -⟩ := h
        exact ⟨rfl, rfl⟩
      · rw [outboundGroupSessionKey_eq prim session m (Nat.not_lt.mp hroom)] at h
        exact absurd (Prod.mk.inj (Prod.mk.inj h).2).2 (by simp)

/-! ## The receivers -/

/-- The two ratchets of a receiver are the sender's, at indices below `2 ^ 31`. -/
structure ReceiverInv (first : Megolm Part) (publicKey : Vector UInt8 32) (known latest : Nat)
    (session : InboundGroupSession) : Prop where
  initialRatchet : session.initialRatchet = ratchetAt prim first known
  latestRatchet : session.latestRatchet = ratchetAt prim first latest
  signing : session.signingKey = publicKey
  order : known ≤ latest
  bound : latest < 2 ^ 31

/-- Below half the index space the comparison of the code is the order. -/
theorem ofNat_sub_lt_half {a b : Nat} (ha : a < 2 ^ 31) (hb : b < 2 ^ 31) :
    UInt32.ofNat a - UInt32.ofNat b < 0x80000000 ↔ b ≤ a := by
  rw [UInt32.lt_iff_toNat_lt, UInt32.toNat_sub, UInt32.toNat_ofNat', UInt32.toNat_ofNat',
    show (0x80000000 : UInt32).toNat = 2 ^ 31 by rfl]
  omega

theorem megolmAdvanceTo_ratchetAt {first : Megolm Part} (hfirst : first.counter = 0) {a j : Nat}
    (haj : a ≤ j) (hj : j < 2 ^ 31) :
    megolmAdvanceTo (megolmHmac prim) (ratchetAt prim first a) (UInt32.ofNat j)
      = ratchetAt prim first j := by
  have hadd := megolmAdvanceTo_add (megolmHmac prim) (ratchetAt prim first a) (n := j - a)
    (by omega)
  rw [counter_ratchetAt prim hfirst, ← UInt32.ofNat_add, Nat.add_sub_cancel' haj] at hadd
  rw [hadd, ratchetAt, ratchetAt, ← Function.iterate_add_apply, Nat.sub_add_cancel haj]

/-- An index from the first known one on is found. -/
theorem ReceiverInv.getMegolm_known {first : Megolm Part} {publicKey : Vector UInt8 32}
    {known latest j : Nat} {session : InboundGroupSession} (hfirst : first.counter = 0)
    (inv : ReceiverInv prim first publicKey known latest session) (hkj : known ≤ j)
    (hj : j < 2 ^ 31) :
    ∃ session', getMegolm prim session (UInt32.ofNat j)
        = (session', some (ratchetAt prim first j)) ∧
      ReceiverInv prim first publicKey known (max latest j) session' := by
  have hbound := inv.bound
  rw [getMegolm, inv.latestRatchet, inv.initialRatchet, counter_ratchetAt prim hfirst,
    counter_ratchetAt prim hfirst]
  by_cases h1 : latest ≤ j
  · rw [if_pos ((ofNat_sub_lt_half hj hbound).mpr h1),
      megolmAdvanceTo_ratchetAt prim hfirst h1 hj]
    refine ⟨_, rfl, rfl, ?_, inv.signing, by omega, by omega⟩
    rw [Nat.max_eq_right h1]
  · rw [if_neg (mt (ofNat_sub_lt_half hj hbound).mp h1),
      if_neg (UInt32.not_le.mpr ((ofNat_sub_lt_half hj (by have := inv.order; omega)).mpr hkj)),
      megolmAdvanceTo_ratchetAt prim hfirst hkj hj]
    refine ⟨session, rfl, ?_⟩
    rw [Nat.max_eq_left (by omega)]
    exact inv

/-- An index before the first known one is refused. -/
theorem ReceiverInv.getMegolm_unknown {first : Megolm Part} {publicKey : Vector UInt8 32}
    {known latest j : Nat} {session : InboundGroupSession} (hfirst : first.counter = 0)
    (inv : ReceiverInv prim first publicKey known latest session) (hkj : j < known) :
    getMegolm prim session (UInt32.ofNat j)
      = ({ session with lastError := .unknownMessageIndex }, none) := by
  have hbound := inv.bound
  have horder := inv.order
  rw [getMegolm, inv.latestRatchet, inv.initialRatchet, counter_ratchetAt prim hfirst,
    counter_ratchetAt prim hfirst]
  rw [if_neg (mt (ofNat_sub_lt_half (by omega) hbound).mp (by omega)),
    if_pos (UInt32.not_lt.mp (mt (ofNat_sub_lt_half (by omega) (by omega)).mp (by omega)))]

/-- The cache access keeps the invariant for every index below `2 ^ 31`. -/
theorem ReceiverInv.getMegolm {first : Megolm Part} {publicKey : Vector UInt8 32}
    {known latest j : Nat} {session : InboundGroupSession} (hfirst : first.counter = 0)
    (inv : ReceiverInv prim first publicKey known latest session) (hj : j < 2 ^ 31) :
    ∃ latest', ReceiverInv prim first publicKey known latest'
      (getMegolm prim session (UInt32.ofNat j)).1 := by
  by_cases hkj : known ≤ j
  · obtain ⟨session', hget, inv'⟩ := inv.getMegolm_known prim hfirst hkj hj
    rw [hget]
    exact ⟨_, inv'⟩
  · rw [inv.getMegolm_unknown prim hfirst (Nat.not_le.mp hkj)]
    exact ⟨latest, inv.initialRatchet, inv.latestRatchet, inv.signing, inv.order, inv.bound⟩

/-- A successful export is the string of the sender's ratchet at that index. -/
theorem ReceiverInv.exported {first : Megolm Part} {publicKey : Vector UInt8 32}
    {known latest j : Nat} {session session' : InboundGroupSession} (hfirst : first.counter = 0)
    (inv : ReceiverInv prim first publicKey known latest session) (hj : j < 2 ^ 31)
    {m m' : Mem} {key keyLength n : Nat}
    (h : exportInboundGroupSession prim session m key keyLength (UInt32.ofNat j)
      = (m', session', some n)) :
    read m' key n = base64.encode (exportBytes (ratchetAt prim first j) publicKey) := by
  by_cases hroom : keyLength < encodeBase64Length sessionExportRawLength
  · rw [exportInboundGroupSession, if_pos hroom] at h
    exact absurd (Prod.mk.inj (Prod.mk.inj h).2).2 (by simp)
  by_cases hkj : known ≤ j
  · obtain ⟨session₁, hget, inv'⟩ := inv.getMegolm_known prim hfirst hkj hj
    rw [← counter_ratchetAt prim hfirst] at hget h
    rw [exportInboundGroupSession_eq prim m (Nat.not_lt.mp hroom) hget, Prod.mk.injEq,
      Prod.mk.injEq, Option.some.injEq] at h
    obtain ⟨rfl, -, hn⟩ := h
    rw [← hn, ← length_exportBytes (ratchetAt prim first j) session₁.signingKey,
      ← length_base64_encode, read_write_self, inv'.signing]
  · rw [exportInboundGroupSession, if_neg hroom,
      inv.getMegolm_unknown prim hfirst (Nat.not_le.mp hkj)] at h
    exact absurd (Prod.mk.inj (Prod.mk.inj h).2).2 (by simp)

/-- **RECEIVERS**: every receiver of a run keeps the invariant. -/
theorem ReceiverRun.inv (hsign : prim.SignVerifies) {messages : List (Bytes × Bytes)}
    {keys : List Bytes} {sender : OutboundGroupSession} {first : Megolm Part}
    {seed : Vector UInt8 32} (hfirst : first.counter = 0)
    (sinv : SenderInv prim first (cryptoEd25519GenerateKey prim seed) messages keys sender)
    (hn : messages.length < 2 ^ 31) {session : InboundGroupSession}
    (run : ReceiverRun prim messages keys session) :
    ∃ known latest, ReceiverInv prim first (cryptoEd25519GenerateKey prim seed).publicKey known
      latest session := by
  induction run with
  | init session hkey =>
      obtain ⟨i, hi, hik⟩ := sinv.key hkey
      rw [initInboundGroupSession_eq prim (hsign seed) session hik]
      exact ⟨i, i, rfl, rfl, rfl, Nat.le_refl _, by omega⟩
  | @importSession session shared shared' m m' m'' key keyLength n sessionKey sessionKeyLength
      messageIndex run hindex hexport hkey ih =>
      obtain ⟨known, latest, inv⟩ := ih
      have hlt : messageIndex.toNat < 2 ^ 31 := UInt32.lt_iff_toNat_lt.mp hindex
      rw [← UInt32.ofNat_toNat (x := messageIndex)] at hexport
      rw [inv.exported prim hfirst hlt hexport] at hkey
      rw [importInboundGroupSession_eq prim session hkey]
      exact ⟨_, _, rfl, rfl, rfl, Nat.le_refl _, hlt⟩
  | @groupDecrypt session stack m message messageLength plaintext maxPlaintextLength sent run
      hsent hread ih =>
      obtain ⟨known, latest, inv⟩ := ih
      obtain ⟨j, hj⟩ := List.mem_iff_getElem?.mp hsent
      obtain ⟨hwire, hsize⟩ := sinv.message hj
      have hjlen : j < messages.length := (List.getElem?_eq_some_iff.mp hj).1
      have hverify := hsign seed (signedMessage prim (ratchetAt prim first j) sent.1)
      rw [← inv.signing] at hverify
      obtain ⟨s₁, e, v, hs₁, heq⟩ := groupDecrypt_ratchets prim stack plaintext
        maxPlaintextLength hverify (hread.trans hwire) hsize
      rw [heq]
      rw [counter_ratchetAt prim hfirst] at hs₁
      rcases hs₁ with rfl | rfl
      · exact ⟨known, latest, inv.initialRatchet, inv.latestRatchet, inv.signing, inv.order,
          inv.bound⟩
      · obtain ⟨latest', inv'⟩ := inv.getMegolm prim hfirst (j := j) (by omega)
        exact ⟨known, latest', inv'.initialRatchet, inv'.latestRatchet, inv'.signing,
          inv'.order, inv'.bound⟩
  | @exportSession session m key keyLength messageIndex run hindex ih =>
      obtain ⟨known, latest, inv⟩ := ih
      have hlt : messageIndex.toNat < 2 ^ 31 := UInt32.lt_iff_toNat_lt.mp hindex
      obtain ⟨latest', inv'⟩ := inv.getMegolm prim hfirst hlt
      rw [UInt32.ofNat_toNat] at inv'
      simp only [exportInboundGroupSession]
      by_cases hroom : keyLength < encodeBase64Length sessionExportRawLength
      · rw [if_pos hroom]
        exact ⟨known, latest, inv.initialRatchet, inv.latestRatchet, inv.signing, inv.order,
          inv.bound⟩
      · rw [if_neg hroom]
        rcases hget : OlmGroupSession.getMegolm prim session messageIndex with ⟨s₁, _ | megolm⟩
        · rw [hget] at inv'
          exact ⟨known, latest', inv'⟩
        · rw [hget] at inv'
          exact ⟨known, latest', inv'⟩

/-- **END TO END**: behind any run of the sender with fewer than `2 ^ 31`
    messages and any row of shares, deliveries and exports, message `j` is
    decrypted, with its index, when `j` is not before the first known index, and
    is otherwise refused as unknown. -/
theorem groupDecrypt_endToEnd (haes : prim.AesInverts) (hsign : prim.SignVerifies)
    {messages : List (Bytes × Bytes)} {keys : List Bytes} {sender : OutboundGroupSession}
    (hsender : SenderRun prim messages keys sender) (hn : messages.length < 2 ^ 31)
    {session : InboundGroupSession} (hreceiver : ReceiverRun prim messages keys session)
    {j : Nat} {bs wire : Bytes} (hj : messages[j]? = some (bs, wire))
    (stack : DecodeGroupMessageResults) {m : Mem}
    {message messageLength plaintext maxPlaintextLength : Nat}
    (hread : read m message messageLength = wire)
    (hmax : cryptoAesEncryptCbcLength bs.length ≤ maxPlaintextLength)
    (hdisj : Disjoint message messageLength plaintext maxPlaintextLength) :
    ((firstKnownIndex session).toNat ≤ j →
      (groupDecrypt prim session stack m message messageLength plaintext
          maxPlaintextLength).2.2 = ⟨some bs.length, some (UInt32.ofNat j)⟩ ∧
      read (groupDecrypt prim session stack m message messageLength plaintext
          maxPlaintextLength).1 plaintext bs.length = bs) ∧
    (j < (firstKnownIndex session).toNat →
      (groupDecrypt prim session stack m message messageLength plaintext
          maxPlaintextLength).2.2.length = none ∧
      (groupDecrypt prim session stack m message messageLength plaintext
          maxPlaintextLength).2.1.lastError = .unknownMessageIndex) := by
  obtain ⟨first, seed, hfirst, sinv⟩ := hsender.inv prim
  obtain ⟨known, latest, inv⟩ := hreceiver.inv prim hsign hfirst sinv hn
  obtain ⟨hwire, hsize⟩ := sinv.message hj
  have hjlen : j < messages.length := (List.getElem?_eq_some_iff.mp hj).1
  have hknown : (firstKnownIndex session).toNat = known := by
    have hbound := inv.bound
    have horder := inv.order
    rw [firstKnownIndex, inv.initialRatchet, counter_ratchetAt prim hfirst, UInt32.toNat_ofNat']
    omega
  have hverify := hsign seed (signedMessage prim (ratchetAt prim first j) bs)
  rw [← inv.signing] at hverify
  rw [hknown]
  constructor
  · intro hkj
    obtain ⟨session', hget, -⟩ := inv.getMegolm_known prim hfirst hkj (by omega)
    rw [← counter_ratchetAt prim hfirst] at hget
    have hdec := groupDecrypt_eq prim haes stack hverify (hread.trans hwire) hsize hmax hdisj hget
    rw [counter_ratchetAt prim hfirst] at hdec
    exact ⟨congrArg Prod.snd hdec.1, hdec.2⟩
  · intro hkj
    have hget := inv.getMegolm_unknown prim hfirst hkj
    rw [← counter_ratchetAt prim hfirst] at hget
    rw [groupDecrypt_refused prim stack hverify (hread.trans hwire) hsize hmax hget]
    exact ⟨rfl, rfl⟩

/-- A delivery does not change the first known index. -/
theorem firstKnownIndex_groupDecrypt (session : InboundGroupSession)
    (stack : DecodeGroupMessageResults) (m : Mem)
    (message messageLength plaintext maxPlaintextLength : Nat) :
    firstKnownIndex (groupDecrypt prim session stack m message messageLength plaintext
      maxPlaintextLength).2.1 = firstKnownIndex session :=
  congrArg Megolm.counter (groupDecrypt_step prim session stack m message messageLength plaintext
    maxPlaintextLength).initial

/-- An object before its initialisation. -/
def newOutboundSession : OutboundGroupSession where
  ratchet := zeroInboundSession.initialRatchet
  signingKey := cryptoEd25519GenerateKey demoPrimitives (Vector.replicate 32 0)
  lastError := .success

/-- A sender from random bytes that are all zero. -/
def zeroOutboundSession : OutboundGroupSession :=
  (initOutboundGroupSession demoPrimitives newOutboundSession (fun _ => 0) 0 160).2.1

theorem initOutboundGroupSession_zero :
    initOutboundGroupSession demoPrimitives newOutboundSession (fun _ => 0) 0 160
      = (write (fun _ => 0) 0 (List.replicate 160 0), zeroOutboundSession, some 0) := rfl

/-- The plaintext `hi` at address 0. -/
def hiMemory : Mem := write (fun _ => 0) 0 (ascii "hi")

/-- The memory behind the encryption of `hi` to address 100. -/
def hiSent : Mem := (groupEncrypt demoPrimitives zeroOutboundSession hiMemory 0 2 100 1000).1

/-- The sender in front of message `j`. -/
def outboundAt (j : Nat) : OutboundGroupSession :=
  { zeroOutboundSession with
    ratchet := ratchetAt demoPrimitives zeroOutboundSession.ratchet j }

/-- A word at address 0. -/
def wordMemory (word : String) : Mem := write (fun _ => 0) 0 (ascii word)

/-- The memory behind the encryption of a word as message `j`. -/
def wordSent (j : Nat) (word : String) : Mem :=
  (groupEncrypt demoPrimitives (outboundAt j) (wordMemory word) 0 2 100 1000).1

theorem rawMessageLength_outboundAt {j : Nat} (hj : j < 3) :
    rawMessageLength demoPrimitives (outboundAt j) 2 = 93 := by
  have hcounter : (outboundAt j).ratchet.counter = UInt32.ofNat j :=
    counter_ratchetAt demoPrimitives rfl j
  rw [rawMessageLength, hcounter]
  interval_cases j <;> decide

theorem groupEncrypt_word {j : Nat} (hj : j < 3) (word : String) :
    groupEncrypt demoPrimitives (outboundAt j) (wordMemory word) 0 2 100 1000
      = (wordSent j word, outboundAt (j + 1), some 124) := by
  have hlen : encodeBase64Length (rawMessageLength demoPrimitives (outboundAt j) 2) = 124 := by
    rw [rawMessageLength_outboundAt hj]
    decide
  rw [wordSent, groupEncrypt_eq demoPrimitives (outboundAt j) (wordMemory word)
    (by rw [hlen]; decide) (Or.inl (by decide)), hlen]
  simp only [outboundAt, ratchetAt_succ]

/-- `hi` takes 124 bytes on the wire. -/
theorem groupEncrypt_hi : groupEncrypt demoPrimitives zeroOutboundSession hiMemory 0 2 100 1000
    = (hiSent, { zeroOutboundSession with
        ratchet := megolmAdvance (megolmHmac demoPrimitives) zeroOutboundSession.ratchet },
        some 124) :=
  groupEncrypt_word (show 0 < 3 by decide) "hi"

/-- The memory with the session key in front of the second message at address 0. -/
def laterSessionKey : Mem :=
  (outboundGroupSessionKey demoPrimitives (outboundAt 1) (fun _ => 0) 0 400).1

theorem outboundGroupSessionKey_later :
    outboundGroupSessionKey demoPrimitives (outboundAt 1) (fun _ => 0) 0 400
      = (laterSessionKey, outboundAt 1, some 306) := by
  have hlen : encodeBase64Length sessionKeyRawLength = 306 := by decide
  rw [laterSessionKey, outboundGroupSessionKey_eq demoPrimitives _ _ (by rw [hlen]; decide), hlen]

/-- The call of a receiver with that session key, and the one that delivers the third message. -/
def laterJoined : InboundGroupSession × Option Nat :=
  initInboundGroupSession demoPrimitives zeroInboundSession laterSessionKey 0 306
def thirdDelivered : Mem × InboundGroupSession × DecryptResult :=
  groupDecrypt demoPrimitives laterJoined.1 ⟨0, 0, false, none, 0⟩ (wordSent 2 "ok") 100 124 2000 16

theorem firstKnownIndex_laterJoined : firstKnownIndex laterJoined.1 = 1 := by
  have hread : read laterSessionKey 0 306 = base64.encode (sessionKeyBytes demoPrimitives
      (outboundAt 1).ratchet (outboundAt 1).signingKey) := by
    have hlen : encodeBase64Length sessionKeyRawLength = 306 := by decide
    rw [laterSessionKey, outboundGroupSessionKey_eq demoPrimitives _ _ (by rw [hlen]; decide),
      ← hlen, ← length_sessionKeyBytes demoPrimitives (outboundAt 1).ratchet
        (outboundAt 1).signingKey, ← length_base64_encode, read_write_self]
  rw [laterJoined, initInboundGroupSession_eq demoPrimitives
    (fun bs => demoPrimitives_signVerifies _ bs) zeroInboundSession hread]
  exact counter_ratchetAt demoPrimitives rfl 1

/-- What the sender has emitted, plaintexts and messages. -/
def wordsSent : List (Bytes × Bytes) :=
  [(ascii "hi", read (wordSent 0 "hi") 100 124), (ascii "yo", read (wordSent 1 "yo") 100 124),
    (ascii "ok", read (wordSent 2 "ok") 100 124)]

theorem wordsSent_run :
    SenderRun demoPrimitives wordsSent [read laterSessionKey 0 306] (outboundAt 3) := by
  have hsize : ∀ j < 3, rawMessageLength demoPrimitives (outboundAt j) 2 < 2 ^ 64 := by
    intro j hj
    rw [rawMessageLength_outboundAt hj]
    decide
  have hinit := SenderRun.init initOutboundGroupSession_zero
  have hfirst := hinit.encrypt (Or.inl (by decide)) (hsize 0 (by decide))
    (groupEncrypt_word (show 0 < 3 by decide) "hi")
  have hshared := hfirst.sessionKey outboundGroupSessionKey_later
  have hsecond := hshared.encrypt (Or.inl (by decide)) (hsize 1 (by decide))
    (groupEncrypt_word (show 1 < 3 by decide) "yo")
  exact hsecond.encrypt (Or.inl (by decide)) (hsize 2 (by decide))
    (groupEncrypt_word (show 2 < 3 by decide) "ok")

theorem thirdDelivered_run :
    ReceiverRun demoPrimitives wordsSent [read laterSessionKey 0 306] thirdDelivered.2.1 := by
  have hjoined : ReceiverRun demoPrimitives wordsSent [read laterSessionKey 0 306] laterJoined.1 :=
    ReceiverRun.init zeroInboundSession (List.mem_singleton_self _)
  exact ReceiverRun.groupDecrypt ⟨0, 0, false, none, 0⟩ 2000 16 hjoined
    (List.mem_cons_of_mem _ (List.mem_cons_of_mem _ List.mem_cons_self)) rfl

theorem firstKnownIndex_thirdDelivered : firstKnownIndex thirdDelivered.2.1 = 1 := by
  rw [thirdDelivered, firstKnownIndex_groupDecrypt, firstKnownIndex_laterJoined]

/-- The calls that deliver the second message and the first one behind the third one. -/
def secondDelivered : Mem × InboundGroupSession × DecryptResult :=
  groupDecrypt demoPrimitives thirdDelivered.2.1 ⟨0, 0, false, none, 0⟩ (wordSent 1 "yo") 100 124
    2000 16
def firstDelivered : Mem × InboundGroupSession × DecryptResult :=
  groupDecrypt demoPrimitives thirdDelivered.2.1 ⟨0, 0, false, none, 0⟩ (wordSent 0 "hi") 100 124
    2000 16

/-- Three messages, with the session key handed out in front of the second one.  The third
    message arrives first; then the second one can still be read, and the first one is refused. -/
theorem groupDecrypt_endToEnd_hi :
    thirdDelivered.2.2 = ⟨some 2, some 2⟩ ∧
    (secondDelivered.2.2 = ⟨some 2, some 1⟩ ∧ read secondDelivered.1 2000 2 = ascii "yo") ∧
    (firstDelivered.2.2.length = none ∧
      firstDelivered.2.1.lastError = .unknownMessageIndex) := by
  have hjoined : ReceiverRun demoPrimitives wordsSent [read laterSessionKey 0 306] laterJoined.1 :=
    ReceiverRun.init zeroInboundSession (List.mem_singleton_self _)
  have hfew : wordsSent.length < 2 ^ 31 := by decide
  have hspace (word : String) (hword : word.toList.length = 2) :
      cryptoAesEncryptCbcLength (ascii word).length ≤ 16 := by
    rw [ascii, List.length_map, hword]
    decide
  have hapart : Disjoint 100 124 2000 16 := Or.inl (by decide)
  -- the window is read off the session in front of each call: it starts at 1 every time
  have hthird := groupDecrypt_endToEnd demoPrimitives demoPrimitives_aesInverts
    demoPrimitives_signVerifies wordsSent_run hfew hjoined (j := 2) rfl ⟨0, 0, false, none, 0⟩
    (m := wordSent 2 "ok") rfl (hspace "ok" rfl) hapart
  have hsecond := groupDecrypt_endToEnd demoPrimitives demoPrimitives_aesInverts
    demoPrimitives_signVerifies wordsSent_run hfew thirdDelivered_run (j := 1) rfl
    ⟨0, 0, false, none, 0⟩ (m := wordSent 1 "yo") rfl (hspace "yo" rfl) hapart
  have hfirst := groupDecrypt_endToEnd demoPrimitives demoPrimitives_aesInverts
    demoPrimitives_signVerifies wordsSent_run hfew thirdDelivered_run (j := 0) rfl
    ⟨0, 0, false, none, 0⟩ (m := wordSent 0 "hi") rfl (hspace "hi" rfl) hapart
  rw [firstKnownIndex_laterJoined] at hthird
  rw [firstKnownIndex_thirdDelivered] at hsecond hfirst
  exact ⟨(hthird.1 (by decide)).1, hsecond.1 (by decide), hfirst.2 (by decide)⟩

end OlmGroupSession
