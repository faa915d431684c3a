import SelfOlm.GroupSession
import SelfOlm.MegolmAdvanceProofs

/-! # The ratchet cache of an inbound group session

    Decryptions and exports move the latest ratchet forward; nothing moves the
    initial one.  Every single move is shorter than half the index space, but a
    row of moves can leave the latest ratchet anywhere.  `drift` counts how far
    it has come; as long as that is less than `2 ^ 32`, what `_get_megolm`
    returns is the ratchet that belongs to the index. -/

namespace OlmGroupSession

open ByteMemory OlmCrypto OlmMessage OlmMegolm

variable (prim : Primitives)

/-- A call that may move the cache. -/
inductive CacheCall where
  | groupDecrypt (stack : DecodeGroupMessageResults) (m : Mem)
      (message messageLength plaintext maxPlaintextLength : Nat)
  | exportSession (m : Mem) (key keyLength : Nat) (messageIndex : UInt32)

/-- The session behind a call. -/
def CacheCall.run (session : InboundGroupSession) : CacheCall → InboundGroupSession
  | .groupDecrypt stack m message messageLength plaintext maxPlaintextLength =>
      (OlmGroupSession.groupDecrypt prim session stack m message messageLength plaintext
        maxPlaintextLength).2.1
  | .exportSession m key keyLength messageIndex =>
      (exportInboundGroupSession prim session m key keyLength messageIndex).2.1

/-- How far the latest ratchet moves from one session to the next. -/
def moved (session session' : InboundGroupSession) : Nat :=
  (session'.latestRatchet.counter - session.latestRatchet.counter).toNat

/-- How far the latest ratchet moves in a row of calls. -/
def drift (session : InboundGroupSession) : List CacheCall → Nat
  | [] => 0
  | call :: calls =>
      moved session (call.run prim session) + drift (call.run prim session) calls

/-- The session behind a row of calls. -/
def runCalls (session : InboundGroupSession) (calls : List CacheCall) : InboundGroupSession :=
  calls.foldl (CacheCall.run prim) session

/-! ## One call -/

/-- What any call does to the ratchets: nothing, or one move of the latest. -/
structure CacheStep (s s' : InboundGroupSession) : Prop where
  initial : s'.initialRatchet = s.initialRatchet
  signing : s'.signingKey = s.signingKey
  latest : s'.latestRatchet = (megolmAdvance (megolmHmac prim))^[moved s s'] s.latestRatchet

theorem CacheStep.refl (s : InboundGroupSession) : CacheStep prim s s where
  initial := rfl
  signing := rfl
  latest := by
    rw [moved, sub_self]
    rfl

/-- Error codes and the verified flag play no part. -/
theorem CacheStep.congr {s s₁ s₂ : InboundGroupSession} (h : CacheStep prim s s₁)
    (h1 : s₂.initialRatchet = s₁.initialRatchet) (h2 : s₂.signingKey = s₁.signingKey)
    (h3 : s₂.latestRatchet = s₁.latestRatchet) : CacheStep prim s s₂ where
  initial := h1.trans h.initial
  signing := h2.trans h.signing
  latest := by
    have : moved s s₂ = moved s s₁ := by rw [moved, moved, h3]
    rw [this, h3, h.latest]

theorem getMegolm_step (s : InboundGroupSession) (messageIndex : UInt32) :
    CacheStep prim s (getMegolm prim s messageIndex).1 := by
  rw [getMegolm]
  by_cases h1 : messageIndex - s.latestRatchet.counter < 0x80000000
  · rw [if_pos h1]
    have hto : megolmAdvanceTo (megolmHmac prim) s.latestRatchet messageIndex
        = (megolmAdvance (megolmHmac prim))^[(messageIndex - s.latestRatchet.counter).toNat]
            s.latestRatchet := by
      rw [← megolmAdvanceTo_add _ _ (UInt32.toNat_lt _), add_ofNat_sub]
    refine ⟨rfl, rfl, ?_⟩
    show megolmAdvanceTo _ _ _ = _
    have hmoved : moved s { s with
        latestRatchet := megolmAdvanceTo (megolmHmac prim) s.latestRatchet messageIndex }
        = (messageIndex - s.latestRatchet.counter).toNat := by
      show ((megolmAdvanceTo (megolmHmac prim) s.latestRatchet messageIndex).counter
        - s.latestRatchet.counter).toNat = _
      rw [hto, counter_iterate, add_ofNat_sub]
    rw [hmoved, hto]
  · rw [if_neg h1]
    by_cases h2 : messageIndex - s.initialRatchet.counter ≥ 0x80000000
    · rw [if_pos h2]
      exact (CacheStep.refl prim s).congr prim rfl rfl rfl
    · rw [if_neg h2]
      exact CacheStep.refl prim s

theorem exportInboundGroupSession_step (s : InboundGroupSession) (m : Mem) (key keyLength : Nat)
    (messageIndex : UInt32) :
    CacheStep prim s (exportInboundGroupSession prim s m key keyLength messageIndex).2.1 := by
  have hget := getMegolm_step prim s messageIndex
  simp only [exportInboundGroupSession]
  by_cases h1 : keyLength < OlmBase64.encodeBase64Length sessionExportRawLength
  · rw [if_pos h1]
    exact (CacheStep.refl prim s).congr prim rfl rfl rfl
  · rw [if_neg h1]
    rcases hg : getMegolm prim s messageIndex with ⟨s₁, _ | megolm⟩
    · rw [hg] at hget
      exact hget
    · rw [hg] at hget
      exact hget

theorem decrypt_cacheStep (s : InboundGroupSession) (stack : DecodeGroupMessageResults) (m : Mem)
    (message messageLength plaintext maxPlaintextLength : Nat) :
    CacheStep prim s
      (decrypt prim s stack m message messageLength plaintext maxPlaintextLength).2.1 := by
  simp only [decrypt]
  generalize decodeGroupMessage stack m message messageLength (megolmCipher prim).macLength
    ed25519SignatureLength = decoded
  have herr : ∀ e, CacheStep prim s { s with lastError := e } := fun e =>
    (CacheStep.refl prim s).congr prim rfl rfl rfl
  by_cases h1 : decoded.version ≠ olmProtocolVersion
  · rw [if_pos h1]; exact herr _
  rw [if_neg h1]
  by_cases h2 : (!decoded.hasMessageIndex || decoded.ciphertext.isNone) = true
  · rw [if_pos h2]; exact herr _
  rw [if_neg h2]
  by_cases h3 : (!cryptoEd25519Verify prim s.signingKey
      (read m message (messageLength - ed25519SignatureLength))
      (load 64 m (message + (messageLength - ed25519SignatureLength)))) = true
  · rw [if_pos h3]; exact herr _
  rw [if_neg h3]
  by_cases h4 : maxPlaintextLength
      < (megolmCipher prim).decryptMaxPlaintextLength decoded.ciphertextLength
  · rw [if_pos h4]; exact herr _
  rw [if_neg h4]
  have hget := getMegolm_step prim s decoded.messageIndex
  rcases hg : getMegolm prim s decoded.messageIndex with ⟨s₁, _ | megolm⟩
  · rw [hg] at hget
    exact hget
  · rw [hg] at hget
    simp only
    rcases hd : (megolmCipher prim).decrypt (megolmGetData megolm) m message
      (messageLength - ed25519SignatureLength) (decoded.ciphertext.getD 0)
      decoded.ciphertextLength plaintext maxPlaintextLength with ⟨m₁, _ | r⟩
    · exact hget.congr prim rfl rfl rfl
    · exact hget.congr prim rfl rfl rfl

theorem groupDecrypt_step (s : InboundGroupSession) (stack : DecodeGroupMessageResults) (m : Mem)
    (message messageLength plaintext maxPlaintextLength : Nat) :
    CacheStep prim s
      (groupDecrypt prim s stack m message messageLength plaintext maxPlaintextLength).2.1 := by
  simp only [groupDecrypt]
  cases OlmBase64.decodeBase64Length messageLength with
  | none => exact (CacheStep.refl prim s).congr prim rfl rfl rfl
  | some rawMessageLength => exact decrypt_cacheStep prim s stack _ message _ plaintext _

/-- **ONE CALL** leaves the initial ratchet alone and moves the latest forward. -/
theorem CacheCall.run_step (s : InboundGroupSession) (call : CacheCall) :
    CacheStep prim s (call.run prim s) := by
  cases call with
  | groupDecrypt stack m message messageLength plaintext maxPlaintextLength =>
      exact groupDecrypt_step prim s stack m message messageLength plaintext maxPlaintextLength
  | exportSession m key keyLength messageIndex =>
      exact exportInboundGroupSession_step prim s m key keyLength messageIndex

/-! ## Runs -/

/-- **RUNS**: the latest ratchet is the one from before, moved on by the drift. -/
theorem runCalls_ratchets (calls : List CacheCall) :
    ∀ s : InboundGroupSession,
      (runCalls prim s calls).initialRatchet = s.initialRatchet ∧
      (runCalls prim s calls).signingKey = s.signingKey ∧
      (runCalls prim s calls).latestRatchet
        = (megolmAdvance (megolmHmac prim))^[drift prim s calls] s.latestRatchet := by
  induction calls with
  | nil => intro s; exact ⟨rfl, rfl, rfl⟩
  | cons call calls ih =>
      intro s
      have hstep := call.run_step prim s
      obtain ⟨h1, h2, h3⟩ := ih (call.run prim s)
      refine ⟨h1.trans hstep.initial, h2.trans hstep.signing, ?_⟩
      show (runCalls prim (call.run prim s) calls).latestRatchet = _
      rw [h3, drift, Nat.add_comm, Function.iterate_add_apply, ← hstep.latest]

/-- When `_get_megolm` refuses. -/
theorem getMegolm_none_iff (s : InboundGroupSession) (i : UInt32) :
    (getMegolm prim s i).2 = none
      ↔ 0x80000000 ≤ i - s.latestRatchet.counter ∧ 0x80000000 ≤ i - s.initialRatchet.counter := by
  rw [getMegolm]
  by_cases h1 : i - s.latestRatchet.counter < 0x80000000
  · rw [if_pos h1]
    constructor
    · intro h
      exact absurd h (by simp)
    · intro h
      exact absurd h1 (UInt32.not_lt.mpr h.1)
  · rw [if_neg h1]
    by_cases h2 : i - s.initialRatchet.counter ≥ 0x80000000
    · rw [if_pos h2]
      exact ⟨fun _ => ⟨UInt32.not_lt.mp h1, h2⟩, fun _ => rfl⟩
    · rw [if_neg h2]
      constructor
      · intro h
        exact absurd h (by simp)
      · intro h
        exact absurd h.2 h2

/-- What a refusal leaves behind. -/
theorem getMegolm_refused {s : InboundGroupSession} {i : UInt32}
    (h : (getMegolm prim s i).2 = none) :
    (getMegolm prim s i).1 = { s with lastError := .unknownMessageIndex } := by
  obtain ⟨h1, h2⟩ := (getMegolm_none_iff prim s i).mp h
  rw [getMegolm, if_neg (UInt32.not_lt.mpr h1), if_pos h2]

/-- The ratchet that `_get_megolm` returns, with the drift of the cache before
    the call. -/
theorem getMegolm_some {s : InboundGroupSession} {d : Nat} {i : UInt32} {megolm : Megolm Part}
    (hlatest : s.latestRatchet
      = (megolmAdvance (megolmHmac prim))^[d] s.initialRatchet)
    (hd : d + moved s (getMegolm prim s i).1 < 2 ^ 32)
    (h : (getMegolm prim s i).2 = some megolm) :
    megolm = (megolmAdvance (megolmHmac prim))^[(i - s.initialRatchet.counter).toNat]
      s.initialRatchet := by
  have hinitial : megolmAdvanceTo (megolmHmac prim) s.initialRatchet i
      = (megolmAdvance (megolmHmac prim))^[(i - s.initialRatchet.counter).toNat]
          s.initialRatchet := by
    rw [← megolmAdvanceTo_add _ _ (UInt32.toNat_lt _), add_ofNat_sub]
  have hstep := getMegolm_step prim s i
  rw [getMegolm] at h hd hstep
  by_cases h1 : i - s.latestRatchet.counter < 0x80000000
  · rw [if_pos h1] at h hd hstep
    have hm : megolm = megolmAdvanceTo (megolmHmac prim) s.latestRatchet i :=
      (Option.some.inj h).symm
    have hadv : megolm = (megolmAdvance (megolmHmac prim))^[d + moved s { s with
        latestRatchet := megolmAdvanceTo (megolmHmac prim) s.latestRatchet i }]
        s.initialRatchet := by
      rw [hm, Nat.add_comm, Function.iterate_add_apply, ← hlatest]
      exact hstep.latest
    generalize d + moved s { s with
      latestRatchet := megolmAdvanceTo (megolmHmac prim) s.latestRatchet i } = n at hd hadv
    -- both numbers of steps lead from the same counter to the same counter
    have hcounter : megolm.counter = i := by
      rw [hm]
      have hto : megolmAdvanceTo (megolmHmac prim) s.latestRatchet i
          = (megolmAdvance (megolmHmac prim))^[(i - s.latestRatchet.counter).toNat]
              s.latestRatchet := by
        rw [← megolmAdvanceTo_add _ _ (UInt32.toNat_lt _), add_ofNat_sub]
      rw [hto, counter_iterate, add_ofNat_sub]
    have hn : i - s.initialRatchet.counter = UInt32.ofNat n := by
      rw [← hcounter, hadv, counter_iterate]
      exact add_sub_cancel_left _ _
    rw [hn, UInt32.toNat_ofNat', Nat.mod_eq_of_lt hd]
    exact hadv
  · rw [if_neg h1] at h
    by_cases h2 : i - s.initialRatchet.counter ≥ 0x80000000
    · rw [if_pos h2] at h
      exact absurd h (by simp)
    · rw [if_neg h2] at h
      rw [← hinitial]
      exact (Option.some.inj h).symm

/-- **CACHE COHERENCE** behind any row of calls, on a session as it was created
    (`d = 0`) or one whose cache has moved `d` steps.  An index is refused when
    it lies half the index space or more beyond both the latest and the initial
    ratchet; a ratchet that is returned is the initial one moved on by the
    distance of the index, unless the cache has drifted all the way round. -/
theorem getMegolm_cache (s : InboundGroupSession) (d : Nat)
    (hs : s.latestRatchet = (megolmAdvance (megolmHmac prim))^[d] s.initialRatchet)
    (calls : List CacheCall) (i : UInt32) :
    ((getMegolm prim (runCalls prim s calls) i).2 = none
      ↔ 0x80000000 ≤ i - (runCalls prim s calls).latestRatchet.counter
        ∧ 0x80000000 ≤ i - s.initialRatchet.counter) ∧
    ((getMegolm prim (runCalls prim s calls) i).2 = none →
      (getMegolm prim (runCalls prim s calls) i).1
        = { runCalls prim s calls with lastError := .unknownMessageIndex }) ∧
    (∀ megolm, (getMegolm prim (runCalls prim s calls) i).2 = some megolm →
      d + drift prim s calls
        + moved (runCalls prim s calls) (getMegolm prim (runCalls prim s calls) i).1 < 2 ^ 32 →
      megolm = (megolmAdvance (megolmHmac prim))^[(i - s.initialRatchet.counter).toNat]
        s.initialRatchet) := by
  obtain ⟨hinitial, -, hlatest⟩ := runCalls_ratchets prim calls s
  rw [hs, ← Function.iterate_add_apply, Nat.add_comm _ d, ← hinitial] at hlatest
  refine ⟨?_, fun h => getMegolm_refused prim h, fun megolm h hd => ?_⟩
  · rw [← hinitial]
    exact getMegolm_none_iff prim _ i
  · rw [← hinitial]
    exact getMegolm_some prim hlatest hd h

/-- A session with a ratchet of zeros at counter 0. -/
def zeroInboundSession : InboundGroupSession where
  initialRatchet := { data := fun _ => Vector.replicate 32 0, counter := 0 }
  latestRatchet := { data := fun _ => Vector.replicate 32 0, counter := 0 }
  signingKey := Vector.replicate 32 0
  signingKeyVerified := false
  lastError := .success

/-- An export to a buffer of 300 bytes. -/
def exportAt (messageIndex : UInt32) : CacheCall := .exportSession (fun _ => 0) 0 300 messageIndex

/-- Exports at the indices 1 and 3, and then the index 5. -/
theorem getMegolm_cache_exports :
    (getMegolm demoPrimitives
        (runCalls demoPrimitives zeroInboundSession [exportAt 1, exportAt 3]) 5).2
      = some ((megolmAdvance (megolmHmac demoPrimitives))^[5]
          zeroInboundSession.initialRatchet) := by
  have h := getMegolm_cache demoPrimitives zeroInboundSession 0 rfl [exportAt 1, exportAt 3] 5
  have hsome : (getMegolm demoPrimitives
      (runCalls demoPrimitives zeroInboundSession [exportAt 1, exportAt 3]) 5).2 ≠ none := by
    intro hnone
    exact absurd (h.1.mp hnone).2 (by decide)
  obtain ⟨megolm, hm⟩ := Option.ne_none_iff_exists'.mp hsome
  rw [hm, h.2.2 megolm hm (by decide)]
  rfl

/-- A hash that counts in its first two bytes. -/
def countingPrimitives : Primitives :=
  { demoPrimitives with
    sha256 := fun input => Vector.ofFn (fun i =>
      let low := (input.getD 0 0 ^^^ 0x5C) + 1
      if i.val = 0 then low
      else if i.val = 1 then (input.getD 1 0 ^^^ 0x5C) + (if low = 0 then 1 else 0)
      else 0) }

/-- **NOT FROM THE INITIAL RATCHET ALONE**: at counter 0 the index `2 ^ 31` lies
    half the index space ahead, and it is found once the cache has moved; and
    exports that take the cache round the index space give the index 5 another
    ratchet. -/
theorem getMegolm_not_coherent :
    (0x80000000 ≤ 0x80000000 - zeroInboundSession.initialRatchet.counter ∧
      (getMegolm demoPrimitives
        (runCalls demoPrimitives zeroInboundSession [exportAt 1]) 0x80000000).2 ≠ none) ∧
    ∃ megolm, (getMegolm countingPrimitives (runCalls countingPrimitives zeroInboundSession
        [exportAt 0x7FFFFFFF, exportAt 0xFFFFFFFE]) 5).2 = some megolm ∧
      megolm.data 0 ≠ ((megolmAdvance (megolmHmac countingPrimitives))^[5]
        zeroInboundSession.initialRatchet).data 0 := by
  refine ⟨⟨by decide, ?_⟩, ?_⟩
  · intro hnone
    exact absurd ((getMegolm_none_iff _ _ _).mp hnone).1 (by decide)
  · refine ⟨_, rfl, ?_⟩
    decide +kernel

end OlmGroupSession
