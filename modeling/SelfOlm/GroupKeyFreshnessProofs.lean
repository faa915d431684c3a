import SelfOlm.Lib.KeyTerms
import SelfOlm.GroupMessagingProofs

/-! # Every group message has a ratchet value of its own

    Key and IV of a group message come from the four parts of the ratchet alone.
    Over derivation terms, take two counters and the most significant byte in
    which they differ: between them the part of that byte was only hashed with
    its own seed, at least once, so it has more steps at the later counter.  What
    the parts below were overwritten with does not matter. -/

namespace OlmMegolm

open CarryRatchet KeyTerms

variable {P Q : Type}

/-! ## Translating the parts -/

/-- The ratchet with every part translated. -/
def Megolm.map (f : P → Q) (megolm : Megolm P) : Megolm Q :=
  ⟨fun i => f (megolm.data i), megolm.counter⟩

variable {hmac : P → UInt8 → P} {hmac' : Q → UInt8 → Q} {f : P → Q}

theorem partBump_map (hf : ∀ part seed, hmac' (f part) seed = f (hmac part seed)) (h : Nat)
    (data : Fin 4 → P) :
    partBump hmac' h (fun i => f (data i)) = fun i => f (partBump hmac h data i) := by
  by_cases hh : h < 4
  · funext i
    rw [partBump_apply _ hh, partBump_apply _ hh]
    by_cases hi : h ≤ i.val
    · rw [if_pos hi, if_pos hi]
      exact hf _ _
    · rw [if_neg hi, if_neg hi]
  · rw [partBump, partBump, dif_neg hh, dif_neg hh]

/-- A translation of the hashes is one of the steps. -/
theorem megolmAdvance_map (hf : ∀ part seed, hmac' (f part) seed = f (hmac part seed))
    (megolm : Megolm P) :
    megolmAdvance hmac' (megolm.map f) = (megolmAdvance hmac megolm).map f := by
  exact Megolm.ext' (partBump_map hf _ megolm.data) rfl

theorem iterate_map (hf : ∀ part seed, hmac' (f part) seed = f (hmac part seed)) (n : Nat)
    (megolm : Megolm P) :
    (megolmAdvance hmac')^[n] (megolm.map f) = ((megolmAdvance hmac)^[n] megolm).map f := by
  induction n with
  | zero => rfl
  | succ n ih =>
      rw [Function.iterate_succ_apply', ih, megolmAdvance_map hf, Function.iterate_succ_apply']

/-! ## Distinct values -/

variable {A D : Type}

/-- Bumping part `j` hashes it with its own seed. -/
theorem partBump_iterate_self (j : Fin 4) (n : Nat) (data : Fin 4 → KeyTerm A D) :
    ((partBump KeyTerm.hmac j.val)^[n] data) j = chainAfter (hashKeySeeds j) n (data j) := by
  induction n with
  | zero => rfl
  | succ n ih =>
      rw [Function.iterate_succ_apply', chainAfter_succ, ← ih, partBump_apply _ j.isLt,
        if_pos (Nat.le_refl _)]

/-- The most significant byte in which two counters differ. -/
theorem first_change {c t : Nat} (h : c < t) :
    ∃ j : Fin 4, c / partBlock j.val < t / partBlock j.val ∧
      ∀ i, i < j.val → t / partBlock i = c / partBlock i := by
  have hlast : ∃ j, c / partBlock j ≠ t / partBlock j := by
    refine ⟨3, ?_⟩
    rw [show partBlock 3 = 1 from rfl, Nat.div_one, Nat.div_one]
    exact Nat.ne_of_lt h
  have hj : Nat.find hlast ≤ 3 := by
    refine Nat.find_min' hlast ?_
    rw [show partBlock 3 = 1 from rfl, Nat.div_one, Nat.div_one]
    exact Nat.ne_of_lt h
  refine ⟨⟨Nat.find hlast, Nat.lt_succ_of_le hj⟩, ?_, ?_⟩
  · exact Nat.lt_of_le_of_ne (Nat.div_le_div_right (Nat.le_of_lt h)) (Nat.find_spec hlast)
  · intro i hi
    exact (not_not.mp (Nat.find_min hlast hi)).symm

/-- A later state differs in some part, wherever the ratchet started. -/
theorem run_data_ne (data : Fin 4 → KeyTerm A D) {c t : Nat} (h : c < t) :
    ((partHierarchy KeyTerm.hmac).run (t - c) (data, c)).1 ≠ data := by
  obtain ⟨j, hlt, hup⟩ := first_change h
  have hdigit := (partHierarchy KeyTerm.hmac).run_digit j.isLt (Nat.le_of_lt h) data hup j
    (Nat.le_refl _)
  intro heq
  rw [heq, show (partHierarchy (P := KeyTerm A D) KeyTerm.hmac).bump = partBump KeyTerm.hmac from rfl,
    partBump_iterate_self] at hdigit
  have hstep := congrArg step hdigit
  rw [step_chainAfter] at hstep
  have hblock : (partHierarchy (P := KeyTerm A D) KeyTerm.hmac).block j.val = partBlock j.val := rfl
  rw [hblock] at hstep
  omega

/-- **DISTINCT RATCHET VALUES**: no two states of a ratchet have the same parts. -/
theorem iterate_data_ne (megolm : Megolm (KeyTerm A D)) {i k : Nat} (h : i < k) :
    ((megolmAdvance KeyTerm.hmac)^[i] megolm).data
      ≠ ((megolmAdvance KeyTerm.hmac)^[k] megolm).data := by
  rw [← wrap_self megolm, megolmAdvance_iterate_wrap, megolmAdvance_iterate_wrap]
  generalize hs : (partHierarchy KeyTerm.hmac).run i (megolm.data, megolm.counter.toNat) = s
  have hsnd : s.2 = megolm.counter.toNat + i := by
    rw [← hs, Hierarchy.run_snd]
  have hsplit : k = i + (s.2 + (k - i) - s.2) := by omega
  rw [hsplit, Hierarchy.run_add, hs]
  intro heq
  exact run_data_ne s.1 (show s.2 < s.2 + (k - i) by omega) heq.symm

end OlmMegolm

namespace OlmGroupSession

open ByteMemory OlmCrypto OlmMessage OlmBase64 OlmMegolm KeyTerms

variable (prim : Primitives)

/-! ## Runs of a sender -/

/-- A call on an outbound session. -/
inductive GroupCall where
  | groupEncrypt (m : Mem) (plaintext plaintextLength message maxMessageLength : Nat)
  | outboundGroupSessionKey (m : Mem) (key keyLength : Nat)

/-- The call: memory, session and result. -/
def GroupCall.run (call : GroupCall) (session : OutboundGroupSession) :
    Mem × OutboundGroupSession × Option Nat :=
  match call with
  | .groupEncrypt m plaintext plaintextLength message maxMessageLength =>
      OlmGroupSession.groupEncrypt prim session m plaintext plaintextLength message
        maxMessageLength
  | .outboundGroupSessionKey m key keyLength =>
      OlmGroupSession.outboundGroupSessionKey prim session m key keyLength

/-- The ratchet that a message was encrypted under, where the call sent one. -/
def GroupCall.sentUnder (call : GroupCall) (session : OutboundGroupSession) :
    List (Megolm Part) :=
  match call with
  | .groupEncrypt _ _ _ _ _ =>
      if (call.run prim session).2.2.isSome then [session.ratchet] else []
  | .outboundGroupSessionKey _ _ _ => []

/-- The ratchets of the messages of a run, in the order of the calls. -/
def sentUnder : List GroupCall → OutboundGroupSession → List (Megolm Part)
  | [], _ => []
  | call :: calls, session =>
      call.sentUnder prim session ++ sentUnder calls (call.run prim session).2.1

/-- A message moves the ratchet one step. -/
theorem groupEncrypt_ratchet {session session' : OutboundGroupSession} {m m' : Mem}
    {plaintext plaintextLength message maxMessageLength n : Nat}
    (h : groupEncrypt prim session m plaintext plaintextLength message maxMessageLength
      = (m', session', some n)) :
    session'.ratchet = megolmAdvance (megolmHmac prim) session.ratchet := by
  rw [groupEncrypt] at h
  by_cases h1 : maxMessageLength < encodeBase64Length (rawMessageLength prim session plaintextLength)
  · rw [if_pos h1] at h
    cases (Prod.mk.inj (Prod.mk.inj h).2).2
  · rw [if_neg h1] at h
    simp only [encrypt] at h
    generalize (megolmCipher prim).encrypt (megolmGetData session.ratchet) _ plaintext
      plaintextLength _ _ _ _ = c at h
    rcases c with ⟨m₁, _ | r⟩
    · cases (Prod.mk.inj (Prod.mk.inj h).2).2
    · obtain ⟨-, hrest⟩ := Prod.mk.inj h
      obtain ⟨rfl, -⟩ := Prod.mk.inj hrest
      rfl

/-- Handing out the key changes nothing but the error code. -/
theorem outboundGroupSessionKey_ratchet (session : OutboundGroupSession) (m : Mem)
    (key keyLength : Nat) :
    (outboundGroupSessionKey prim session m key keyLength).2.1.ratchet = session.ratchet := by
  rw [outboundGroupSessionKey]
  split
  · rfl
  · rfl

/-- One call: the ratchet moves a step for every message. -/
theorem GroupCall.ratchet_run (call : GroupCall) (session : OutboundGroupSession) :
    (call.run prim session).2.1.ratchet
      = (megolmAdvance (megolmHmac prim))^[(call.sentUnder prim session).length]
          session.ratchet := by
  cases call with
  | groupEncrypt m plaintext plaintextLength message maxMessageLength =>
      rw [GroupCall.sentUnder, GroupCall.run]
      rcases hcall : OlmGroupSession.groupEncrypt prim session m plaintext plaintextLength message
        maxMessageLength with ⟨m', session', _ | n⟩
      · exact (groupEncrypt_failed prim hcall).1
      · exact groupEncrypt_ratchet prim hcall
  | outboundGroupSessionKey m key keyLength =>
      exact outboundGroupSessionKey_ratchet prim session m key keyLength

theorem GroupCall.sentUnder_eq (call : GroupCall) (session : OutboundGroupSession) :
    call.sentUnder prim session = [] ∨ call.sentUnder prim session = [session.ratchet] := by
  cases call with
  | groupEncrypt m plaintext plaintextLength message maxMessageLength =>
      rw [GroupCall.sentUnder]
      split
      · exact Or.inr rfl
      · exact Or.inl rfl
  | outboundGroupSessionKey m key keyLength => exact Or.inl rfl

/-- **THE RATCHETS OF A RUN** are the first states of the sender's ratchet, one for
    every message. -/
theorem sentUnder_eq (calls : List GroupCall) (session : OutboundGroupSession) :
    sentUnder prim calls session
      = (List.range (sentUnder prim calls session).length).map
          (ratchetAt prim session.ratchet) := by
  induction calls generalizing session with
  | nil => rfl
  | cons call calls ih =>
      have hrest := ih (call.run prim session).2.1
      rw [call.ratchet_run prim session] at hrest
      rw [sentUnder]
      rcases call.sentUnder_eq prim session with hnone | hone
      · rw [hnone] at hrest ⊢
        exact hrest
      · rw [hone] at hrest ⊢
        rw [List.singleton_append, List.length_cons, List.range_succ_eq_map, List.map_cons,
          List.map_map]
        refine congrArg (List.cons session.ratchet) ?_
        refine hrest.trans (List.map_congr_left ?_)
        intro i _
        rfl

/-! ## Over terms -/

/-- A part as a term over the four parts at the start. -/
abbrev PartTerm := KeyTerm (Fin 4) Empty

/-- The ratchet of a sender over terms: four atoms. -/
def atomRatchet (counter : UInt32) : Megolm PartTerm := megolmInit KeyTerm.atom counter

/-- The part that a term stands for. -/
def evalPart (parts : Fin 4 → Part) : PartTerm → Part
  | .atom i => parts i
  | .hmac part seed => megolmHmac prim (evalPart parts part) seed
  | .hkdf _ secret _ => secret.elim
  | .hkdfSalted _ secret _ _ => secret.elim

/-- The ratchets of the first `n` messages over terms. -/
def sentTerms (counter : UInt32) (n : Nat) : List (Megolm PartTerm) :=
  (List.range n).map (fun i => (megolmAdvance KeyTerm.hmac)^[i] (atomRatchet counter))

/-- Over terms no two of them have the same four parts. -/
theorem sentTerms_nodup (counter : UInt32) (n : Nat) :
    ((sentTerms counter n).map Megolm.data).Nodup := by
  rw [sentTerms, List.map_map]
  refine List.Nodup.map ?_ List.nodup_range
  intro i k heq
  rcases Nat.lt_trichotomy i k with hlt | rfl | hgt
  · exact absurd heq (iterate_data_ne (atomRatchet counter) hlt)
  · rfl
  · exact absurd heq.symm (iterate_data_ne (atomRatchet counter) hgt)

/-- The ratchets of a sender are the evaluation of those over terms. -/
theorem ratchetAt_eval (ratchet : Megolm Part) (i : Nat) :
    ratchetAt prim ratchet i
      = ((megolmAdvance KeyTerm.hmac)^[i] (atomRatchet ratchet.counter)).map
          (evalPart prim ratchet.data) :=
  iterate_map (f := evalPart prim ratchet.data) (fun _ _ => rfl) i (atomRatchet ratchet.counter)

/-! ## Messages, indices and failures -/

/-- A message carries the counter of the ratchet that it is encrypted under. -/
theorem groupEncrypt_message {session session' : OutboundGroupSession} {m m' : Mem}
    {plaintext plaintextLength message maxMessageLength n : Nat}
    (hdisj : Disjoint plaintext plaintextLength message maxMessageLength)
    (h : groupEncrypt prim session m plaintext plaintextLength message maxMessageLength
      = (m', session', some n)) :
    read m' message n = base64.encode (rawMessage prim session.ratchet session.signingKey
      (read m plaintext plaintextLength)) := by
  have hraw := rawMessageLength_eq prim session (read m plaintext plaintextLength)
  rw [length_read] at hraw
  rw [groupEncrypt_eq prim session m (groupEncrypt_room prim h) hdisj, hraw,
    Prod.mk.injEq, Prod.mk.injEq, Option.some.injEq] at h
  obtain ⟨rfl, -, hn⟩ := h
  rw [← hn, ← length_base64_encode, read_write_self]

theorem GroupCall.failed_ratchet {call : GroupCall} {session : OutboundGroupSession}
    (h : (call.run prim session).2.2 = none) :
    (call.run prim session).2.1.ratchet = session.ratchet := by
  cases call with
  | groupEncrypt m plaintext plaintextLength message maxMessageLength =>
      rw [GroupCall.run] at h ⊢
      rcases hcall : OlmGroupSession.groupEncrypt prim session m plaintext plaintextLength message
        maxMessageLength with ⟨m', session', _ | n⟩
      · exact (groupEncrypt_failed prim hcall).1
      · rw [hcall] at h
        cases h
  | outboundGroupSessionKey m key keyLength =>
      exact outboundGroupSessionKey_ratchet prim session m key keyLength

/-- **GROUP MESSAGES NEVER SHARE A RATCHET VALUE**: the messages of a run carry
    consecutive indices and are encrypted under the evaluations of distinct terms;
    a call that fails, or that hands out the session key, does not move the
    ratchet. -/
theorem sentUnder_distinct (session : OutboundGroupSession) (calls : List GroupCall) :
    let sent := sentUnder prim calls session
    let terms := sentTerms session.ratchet.counter sent.length
    sent = terms.map (Megolm.map (evalPart prim session.ratchet.data)) ∧
    (terms.map Megolm.data).Nodup ∧
    (∀ i ratchet, sent[i]? = some ratchet →
      ratchet.counter = session.ratchet.counter + UInt32.ofNat i) ∧
    (∀ (m m' : Mem) (s s' : OutboundGroupSession)
        (plaintext plaintextLength message maxMessageLength n : Nat),
      Disjoint plaintext plaintextLength message maxMessageLength →
      groupEncrypt prim s m plaintext plaintextLength message maxMessageLength
        = (m', s', some n) →
      read m' message n = base64.encode
        (rawMessage prim s.ratchet s.signingKey (read m plaintext plaintextLength))) ∧
    (∀ (call : GroupCall) (s : OutboundGroupSession), (call.run prim s).2.2 = none →
      (call.run prim s).2.1.ratchet = s.ratchet) ∧
    (∀ (s : OutboundGroupSession) (m : Mem) (key keyLength : Nat),
      (outboundGroupSessionKey prim s m key keyLength).2.1.ratchet = s.ratchet) := by
  refine ⟨?_, sentTerms_nodup _ _, ?_, ?_, ?_, outboundGroupSessionKey_ratchet prim⟩
  · refine (sentUnder_eq prim calls session).trans ?_
    rw [sentTerms, List.map_map]
    refine List.map_congr_left ?_
    intro i _
    exact ratchetAt_eval prim session.ratchet i
  · intro i ratchet hget
    rw [sentUnder_eq prim calls session, List.getElem?_map] at hget
    obtain ⟨k, hk, rfl⟩ := Option.map_eq_some_iff.mp hget
    obtain ⟨_, hrange⟩ := List.getElem?_eq_some_iff.mp hk
    rw [List.getElem_range] at hrange
    rw [ratchetAt, counter_iterate, hrange]
  · intro m m' s s' plaintext plaintextLength message maxMessageLength n hdisj h
    exact groupEncrypt_message prim hdisj h
  · intro call s h
    exact call.failed_ratchet prim h

/-- Two messages, with a buffer that is too short in between. -/
def hiCalls : List GroupCall :=
  [.groupEncrypt hiMemory 0 2 100 1000, .groupEncrypt hiMemory 0 2 100 10,
    .outboundGroupSessionKey hiMemory 100 1000, .groupEncrypt hiMemory 0 2 100 1000]

theorem sentUnder_distinct_hi :
    let sent := sentUnder demoPrimitives hiCalls zeroOutboundSession
    sent.length = 2 ∧ ((sentTerms 0 sent.length).map Megolm.data).Nodup ∧
    (∀ ratchet, sent[1]? = some ratchet → ratchet.counter = 1) ∧
    read hiSent 100 124 = base64.encode (rawMessage demoPrimitives zeroOutboundSession.ratchet
      zeroOutboundSession.signingKey (read hiMemory 0 2)) ∧
    (groupEncrypt demoPrimitives zeroOutboundSession hiMemory 0 2 100 10).2.1.ratchet
      = zeroOutboundSession.ratchet := by
  obtain ⟨-, hnodup, hindex, hmessage, hfailed, -⟩ :=
    sentUnder_distinct demoPrimitives zeroOutboundSession hiCalls
  refine ⟨by decide +kernel, hnodup, ?_, ?_, ?_⟩
  · intro ratchet hget
    exact hindex 1 ratchet hget
  · exact hmessage hiMemory _ zeroOutboundSession _ 0 2 100 1000 124 (Or.inl (by decide))
      groupEncrypt_hi
  · refine hfailed (.groupEncrypt hiMemory 0 2 100 10) zeroOutboundSession ?_
    decide +kernel

end OlmGroupSession
