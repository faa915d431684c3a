import SelfOlm.Lib.KeySecrecy
import SelfOlm.GroupKeyFreshnessProofs

/-! # What a group ratchet gives away

    Whoever has the four parts of a ratchet can hash them on, and reaches every
    later message.  Nothing leads back: over derivation terms the parts are never
    above each other, so the last part of a message is above none of the parts
    behind it and below none of them.  What a sender or a receiver holds opens
    exactly the messages from its index on. -/

namespace OlmMegolm

open CarryRatchet KeyTerms

variable {A D : Type}

/-- The four parts as a list. -/
def parts {P : Type} (megolm : Megolm P) : List P :=
  [megolm.data 0, megolm.data 1, megolm.data 2, megolm.data 3]

theorem mem_parts {P : Type} {megolm : Megolm P} {part : P} :
    part ∈ parts megolm ↔ ∃ i, part = megolm.data i := by
  constructor
  · intro h
    simp only [parts, List.mem_cons, List.not_mem_nil, or_false] at h
    rcases h with h | h | h | h
    · exact ⟨0, h⟩
    · exact ⟨1, h⟩
    · exact ⟨2, h⟩
    · exact ⟨3, h⟩
  · rintro ⟨i, rfl⟩
    fin_cases i
    · exact List.mem_cons_self
    · exact List.mem_cons_of_mem _ List.mem_cons_self
    · exact List.mem_cons_of_mem _ (List.mem_cons_of_mem _ List.mem_cons_self)
    · exact List.mem_cons_of_mem _ (List.mem_cons_of_mem _ (List.mem_cons_of_mem _
        List.mem_cons_self))

theorem parts_map {P Q : Type} (f : P → Q) (megolm : Megolm P) :
    parts (megolm.map f) = (parts megolm).map f := rfl

/-- One step rehashes everything from some part on. -/
theorem megolmAdvance_data {P : Type} (hmac : P → UInt8 → P) (megolm : Megolm P) :
    ∃ h : Fin 4, ∀ i, (megolmAdvance hmac megolm).data i
      = if h ≤ i then hmac (megolm.data h) (hashKeySeeds i) else megolm.data i := by
  have hstep := megolmAdvance_wrap hmac (megolm.data, megolm.counter.toNat)
  rw [wrap_self] at hstep
  have hlt := (partHierarchy hmac).level_lt (megolm.counter.toNat + 1)
  refine ⟨⟨_, hlt⟩, ?_⟩
  intro i
  rw [hstep]
  exact partBump_apply hmac hlt megolm.data i

theorem hashKeySeeds_injective {i j : Fin 4} (h : hashKeySeeds i = hashKeySeeds j) : i = j := by
  fin_cases i <;> fin_cases j <;> first | rfl | cases h

/-- No part is above another one. -/
def PartsApart (megolm : Megolm (KeyTerm A D)) : Prop :=
  ∀ i j, i ≠ j → Apart (megolm.data i) (megolm.data j)

/-- **ONE STEP** keeps the parts apart. -/
theorem PartsApart.advance {megolm : Megolm (KeyTerm A D)} (h : PartsApart megolm) :
    PartsApart (megolmAdvance KeyTerm.hmac megolm) := by
  obtain ⟨level, hdata⟩ := megolmAdvance_data KeyTerm.hmac megolm
  intro i j hij
  rw [hdata i, hdata j]
  by_cases hi : level ≤ i
  · rw [if_pos hi]
    by_cases hj : level ≤ j
    · rw [if_pos hj]
      refine apart_siblings rfl rfl ?_
      intro heq
      exact hij (hashKeySeeds_injective (KeyTerm.hmac.inj heq).2)
    · rw [if_neg hj]
      have hne : level ≠ j := by
        rintro rfl
        exact hj (le_refl _)
      exact (h level j hne).below ((Reaches.refl _).hmac _)
  · rw [if_neg hi]
    by_cases hj : level ≤ j
    · rw [if_pos hj]
      have hne : level ≠ i := by
        rintro rfl
        exact hi (le_refl _)
      exact ((h level i hne).below ((Reaches.refl _).hmac _)).symm
    · rw [if_neg hj]
      exact h i j hij

/-- Every part behind a step leads back to one in front of it. -/
theorem reaches_advance (megolm : Megolm (KeyTerm A D)) (i : Fin 4) :
    ∃ k, Reaches (megolm.data k) ((megolmAdvance KeyTerm.hmac megolm).data i) := by
  obtain ⟨level, hdata⟩ := megolmAdvance_data KeyTerm.hmac megolm
  rw [hdata i]
  by_cases hi : level ≤ i
  · rw [if_pos hi]
    exact ⟨level, (Reaches.refl _).hmac _⟩
  · rw [if_neg hi]
    exact ⟨i, Reaches.refl _⟩

/-- **THE LAST PART IS LOST IN A STEP**: no part behind it is above the last one. -/
theorem last_lost {megolm : Megolm (KeyTerm A D)} (h : PartsApart megolm) (i : Fin 4) :
    ¬Reaches ((megolmAdvance KeyTerm.hmac megolm).data i) (megolm.data 3) := by
  obtain ⟨level, hdata⟩ := megolmAdvance_data KeyTerm.hmac megolm
  rw [hdata i]
  intro hreach
  by_cases hi : level ≤ i
  · rw [if_pos hi] at hreach
    have habove : Reaches (megolm.data level) (megolm.data 3) :=
      ((Reaches.refl _).hmac _).trans hreach
    by_cases hlast : level = 3
    · subst hlast
      exact not_reaches_parent rfl hreach
    · exact (h level 3 hlast).1 habove
  · rw [if_neg hi] at hreach
    have hne : i ≠ 3 := by
      rintro rfl
      exact hi (Fin.le_last level)
    exact (h i 3 hne).1 hreach

theorem PartsApart.iterate {megolm : Megolm (KeyTerm A D)} (h : PartsApart megolm) (n : Nat) :
    PartsApart ((megolmAdvance KeyTerm.hmac)^[n] megolm) := by
  induction n with
  | zero => exact h
  | succ n ih =>
      rw [Function.iterate_succ_apply']
      exact ih.advance

/-- What no part is above stays so. -/
theorem not_reaches_iterate {megolm : Megolm (KeyTerm A D)} {t : KeyTerm A D}
    (h : ∀ i, ¬Reaches (megolm.data i) t) (n : Nat) (i : Fin 4) :
    ¬Reaches (((megolmAdvance KeyTerm.hmac)^[n] megolm).data i) t := by
  induction n generalizing i with
  | zero => exact h i
  | succ n ih =>
      intro hreach
      rw [Function.iterate_succ_apply'] at hreach
      obtain ⟨k, hk⟩ := reaches_advance ((megolmAdvance KeyTerm.hmac)^[n] megolm) i
      exact ih k (hk.trans hreach)

/-- Nothing is known but the parts. -/
abbrev NoSecrets : A ⊕ D → Prop := fun _ => False

/-- **FROM HERE ON**: the ratchet of a later message can be derived. -/
theorem derives_iterate {megolm : Megolm (KeyTerm A D)} {known : List (KeyTerm A D)}
    (h : ∀ i, Derives NoSecrets known (megolm.data i)) (n : Nat) (i : Fin 4) :
    Derives NoSecrets known (((megolmAdvance KeyTerm.hmac)^[n] megolm).data i) := by
  induction n generalizing i with
  | zero => exact h i
  | succ n ih =>
      rw [Function.iterate_succ_apply']
      obtain ⟨level, hdata⟩ :=
        megolmAdvance_data KeyTerm.hmac ((megolmAdvance KeyTerm.hmac)^[n] megolm)
      rw [hdata i]
      by_cases hi : level ≤ i
      · rw [if_pos hi]
        exact (ih level).hmac _
      · rw [if_neg hi]
        exact ih i

/-- **NOT BEFORE**: the last part of an earlier message cannot be derived. -/
theorem not_derives_iterate {megolm : Megolm (KeyTerm A D)} (h : PartsApart megolm) {j i : Nat}
    (hji : j < i) {known : List (KeyTerm A D)}
    (hknown : ∀ key ∈ known, ∃ n k, i ≤ n ∧
      key = ((megolmAdvance KeyTerm.hmac)^[n] megolm).data k) :
    ¬Derives NoSecrets known (((megolmAdvance KeyTerm.hmac)^[j] megolm).data 3) := by
  intro hderives
  rcases hderives.reaches with ⟨key, hkey, hreach⟩ | hsource
  · obtain ⟨n, k, hin, rfl⟩ := hknown key hkey
    obtain ⟨d, rfl⟩ := Nat.exists_eq_add_of_lt (Nat.lt_of_lt_of_le hji hin)
    have hlost := last_lost (h.iterate j)
    rw [show j + d + 1 = d + (j + 1) by omega, Function.iterate_add_apply,
      Function.iterate_succ_apply' _ j] at hreach
    exact not_reaches_iterate hlost d k hreach
  · exact hsource

end OlmMegolm

namespace OlmGroupSession

open ByteMemory OlmCrypto OlmMessage OlmBase64 OlmMegolm KeyTerms

variable (prim : Primitives)

/-- The ratchet of message `j` over terms. -/
def ratchetTerm (j : Nat) : Megolm PartTerm :=
  (megolmAdvance KeyTerm.hmac)^[j] (atomRatchet 0)

/-- The parts of a receiver. -/
def knownParts (session : InboundGroupSession) : List Part :=
  parts session.initialRatchet ++ parts session.latestRatchet

theorem atomRatchet_apart : PartsApart (atomRatchet 0) := by
  intro i j hij
  refine apart_roots rfl rfl ?_
  intro heq
  exact hij (KeyTerm.atom.inj heq)

/-- The parts at an index open the messages from this index on, and no others. -/
theorem ratchetTerm_derives {known : List PartTerm} {i j : Nat}
    (hfirst : ∀ k, (ratchetTerm i).data k ∈ known)
    (hknown : ∀ key ∈ known, ∃ n k, i ≤ n ∧ key = (ratchetTerm n).data k) :
    (i ≤ j → ∀ k, Derives NoSecrets known ((ratchetTerm j).data k)) ∧
      (j < i → ¬Derives NoSecrets known ((ratchetTerm j).data 3)) := by
  constructor
  · intro hij k
    have hparts : ∀ k, Derives NoSecrets known ((ratchetTerm i).data k) := by
      intro k
      exact Derives.known (hfirst k)
    have hlater := derives_iterate hparts (j - i) k
    rw [ratchetTerm, ← Function.iterate_add_apply, Nat.sub_add_cancel hij] at hlater
    exact hlater
  · intro hji
    exact not_derives_iterate atomRatchet_apart hji hknown

theorem ratchetAt_term {first : Megolm Part} (hfirst : first.counter = 0) (j : Nat) :
    ratchetAt prim first j = (ratchetTerm j).map (evalPart prim first.data) := by
  rw [ratchetAt_eval, hfirst]
  rfl

/-- **FORWARD SECRECY OF A GROUP SESSION**: every message of a run is encrypted under the
    value of a term.  From what the sender holds, no message that was sent can be opened;
    from what a receiver holds, the messages from its first known index on can, and no
    others. -/
theorem group_forward_secrecy (hsign : prim.SignVerifies) {messages : List (Bytes × Bytes)}
    {keys : List Bytes} {sender : OutboundGroupSession}
    (hsender : SenderRun prim messages keys sender) (hn : messages.length < 2 ^ 31) :
    ∃ first : Megolm Part,
      (∀ j sent, messages[j]? = some sent →
        sent.2 = base64.encode (rawMessage prim
          ((ratchetTerm j).map (evalPart prim first.data)) sender.signingKey sent.1)) ∧
      parts sender.ratchet
        = (parts (ratchetTerm messages.length)).map (evalPart prim first.data) ∧
      (∀ j < messages.length,
        ¬Derives NoSecrets (parts (ratchetTerm messages.length)) ((ratchetTerm j).data 3)) ∧
      ∀ receiver, ReceiverRun prim messages keys receiver → ∃ known : List PartTerm,
        knownParts receiver = known.map (evalPart prim first.data) ∧
        ∀ j, ((firstKnownIndex receiver).toNat ≤ j →
            ∀ k, Derives NoSecrets known ((ratchetTerm j).data k)) ∧
          (j < (firstKnownIndex receiver).toNat →
            ¬Derives NoSecrets known ((ratchetTerm j).data 3)) := by
  obtain ⟨first, seed, hfirst, sinv⟩ := hsender.inv prim
  refine ⟨first, ?_, ?_, ?_, ?_⟩
  · intro j sent hj
    rw [← ratchetAt_term prim hfirst, sinv.signing]
    exact (sinv.message hj).1
  · rw [sinv.ratchet, ratchetAt_term prim hfirst, parts_map]
  · intro j hj
    refine (ratchetTerm_derives (fun k => mem_parts.mpr ⟨k, rfl⟩) ?_).2 hj
    intro key hkey
    obtain ⟨k, rfl⟩ := mem_parts.mp hkey
    exact ⟨_, k, Nat.le_refl _, rfl⟩
  · intro receiver hreceiver
    obtain ⟨known, latest, inv⟩ := hreceiver.inv prim hsign hfirst sinv hn
    have horder := inv.order
    have hbound := inv.bound
    have hindex : (firstKnownIndex receiver).toNat = known := by
      rw [firstKnownIndex, inv.initialRatchet, counter_ratchetAt prim hfirst,
        UInt32.toNat_ofNat']
      omega
    refine ⟨parts (ratchetTerm known) ++ parts (ratchetTerm latest), ?_, ?_⟩
    · rw [knownParts, inv.initialRatchet, inv.latestRatchet, ratchetAt_term prim hfirst,
        ratchetAt_term prim hfirst, parts_map, parts_map, List.map_append]
    · intro j
      rw [hindex]
      refine ratchetTerm_derives (fun k => List.mem_append_left _ (mem_parts.mpr ⟨k, rfl⟩)) ?_
      intro key hkey
      rcases List.mem_append.mp hkey with hkey | hkey
      · obtain ⟨k, rfl⟩ := mem_parts.mp hkey
        exact ⟨known, k, Nat.le_refl _, rfl⟩
      · obtain ⟨k, rfl⟩ := mem_parts.mp hkey
        exact ⟨latest, k, horder, rfl⟩

/-- A sender behind three messages, and a receiver that joined in front of the second one and
    has read the third one. -/
theorem group_forward_secrecy_words :
    (∀ j < 3, ¬Derives NoSecrets (parts (ratchetTerm 3)) ((ratchetTerm j).data 3)) ∧
    ∃ known : List PartTerm, ∃ f : PartTerm → Part,
      knownParts thirdDelivered.2.1 = known.map f ∧
      (∀ j, 1 ≤ j → ∀ k, Derives NoSecrets known ((ratchetTerm j).data k)) ∧
      ¬Derives NoSecrets known ((ratchetTerm 0).data 3) := by
  obtain ⟨first, -, -, hsent, hreceivers⟩ :=
    group_forward_secrecy demoPrimitives demoPrimitives_signVerifies wordsSent_run (by decide)
  obtain ⟨known, heval, hderives⟩ := hreceivers _ thirdDelivered_run
  rw [firstKnownIndex_thirdDelivered] at hderives
  refine ⟨hsent, known, _, heval, ?_, ?_⟩
  · intro j hj
    exact (hderives j).1 hj
  · exact (hderives 0).2 Nat.one_pos

end OlmGroupSession
