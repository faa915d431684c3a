import SelfOlm.StrictPickle

/-! # Reading the pickles of group sessions

    The two calls give their readers the real end of the raw pickle.  A reader
    that runs out of bytes returns that end too, so the last comparison, which is
    there for "the wrong number of bytes in the input", does not see a pickle that
    is too short. -/

namespace OlmPickle

open ByteMemory OlmCrypto OlmBase64 OlmList OlmAccount OlmRatchet OlmSession OlmMegolm
open OlmGroupSession (Part OutboundGroupSession InboundGroupSession megolmGetData partsOfBytes)

variable (prim : Primitives)

/-! ## Formats -/

/-- The version word of a raw pickle. -/
def declaredVersion (raw : Bytes) : Option UInt32 := (decodeField UInt32 raw).map Prod.fst

/-- Version word, ratchet data, counter and key pair. -/
def outboundFormatLength (version : UInt32) : Option Nat :=
  if version = outboundPickleVersion then some (4 + ((128 + 4) + (32 + 64))) else none

/-- Version word, ratchet data and counter twice, public key, and a flag from
    version 2 on. -/
def inboundFormatLength (version : UInt32) : Option Nat :=
  if version = 1 then some (4 + ((128 + 4) + ((128 + 4) + 32)))
  else if version = 2 then some (4 + ((128 + 4) + ((128 + 4) + (32 + 1))))
  else none

/-- The length of the format that a raw pickle declares. -/
def declaredLength (formatLength : UInt32 → Option Nat) (raw : Bytes) : Option Nat :=
  (declaredVersion raw).bind formatLength

/-- The outbound session in a complete raw pickle. -/
def decodeOutbound (raw : Bytes) (session : OutboundGroupSession) : Option OutboundGroupSession :=
  match decodeField UInt32 raw with
  | none => none
  | some (version, bs) =>
      if version ≠ outboundPickleVersion then none
      else
        match decodeField (Megolm Part) bs with
        | none => none
        | some (ratchet, bs) =>
            match decodeField Ed25519KeyPair bs with
            | some (signingKey, []) => some { session with ratchet, signingKey }
            | _ => none

/-- The flag of version 2; version 1 has none, and its keys were verified. -/
def decodeVerified (version : UInt32) (bs : Bytes) : Option (Bool × Bytes) :=
  if version = 1 then some (true, bs) else decodeField Bool bs

/-- The inbound session in a complete raw pickle. -/
def decodeInbound (raw : Bytes) (session : InboundGroupSession) : Option InboundGroupSession :=
  match decodeField UInt32 raw with
  | none => none
  | some (version, bs) =>
      if version < 1 ∨ version > inboundPickleVersion then none
      else
        match decodeField (Megolm Part) bs with
        | none => none
        | some (initialRatchet, bs) =>
            match decodeField (Megolm Part) bs with
            | none => none
            | some (latestRatchet, bs) =>
                match decodeField (Vector UInt8 32) bs with
                | none => none
                | some (signingKey, bs) =>
                    match decodeVerified version bs with
                    | some (signingKeyVerified, []) =>
                        some { session with
                          initialRatchet, latestRatchet, signingKey, signingKeyVerified }
                    | _ => none

/-- A load is strict: where it succeeds, the raw pickle has the length of its
    format, and every field was decoded from its bytes. -/
def ReadStrictly {X : Type} (formatLength : UInt32 → Option Nat)
    (decode : Bytes → X → Option X) (raw : Bytes) (object : X)
    (call : Mem × X × Option Nat) : Prop :=
  ∀ n, call.2.2 = some n →
    declaredLength formatLength raw = some raw.length ∧ decode raw object = some call.2.1

/-- An accepted version with fewer bytes than its format has. -/
def Truncated (formatLength : UInt32 → Option Nat) (raw : Bytes) : Prop :=
  ∃ length, declaredLength formatLength raw = some length ∧ raw.length < length

/-! ## A field at the end -/

/-- A raw pickle without a version word is read as version 0. -/
theorem Remaining.version_none {m : Mem} {pos stop : Nat} {bs : Bytes}
    (h : Remaining m pos stop stop bs) (hversion : decodeField UInt32 bs = none) :
    (unpickle m pos stop (0 : UInt32)).1 = 0 := by
  have hstop := h.stops
  have hlen : bs.length < 4 := decodeField_eq_none.mp hversion
  show (if stop < pos + 4 then (0, stop) else (unpickleLoop (read m pos 4), pos + 4)).1 = 0
  rw [if_pos (by omega)]

/-- Behind the last field the position is the end exactly if nothing is left. -/
theorem Remaining.eq_stop_iff {m : Mem} {pos stop fin : Nat} {bs : Bytes}
    (h : Remaining m pos stop fin bs) : stop = pos ↔ bs = [] := by
  have hstop := h.stops
  constructor
  · intro heq
    exact List.length_eq_zero_iff.mp (by omega)
  · rintro rfl
    exact hstop.symm

theorem remaining_raw (m : Mem) (pos length : Nat) :
    Remaining m pos (pos + length) (pos + length) (read m pos length) := by
  have hlen := length_read m pos length
  refine ⟨?_, ?_, Nat.le_refl _, Nat.le_succ _⟩
  · rw [hlen]
  · rw [hlen]

section Strictness

variable {X : Type} {formatLength : UInt32 → Option Nat} {decode : Bytes → X → Option X}
  {raw bs : Bytes} {object object' : X} {m : Mem} {version : UInt32} {length n : Nat}

/-- A load that fails is strict. -/
theorem readStrictly_of_failed :
    ReadStrictly formatLength decode raw object (m, object', none) := by
  intro n h
  cases h

/-- A load of what cannot be decoded is not, where it succeeds. -/
theorem not_readStrictly (h : decode raw object = none) :
    ¬ReadStrictly formatLength decode raw object (m, object', some n) := by
  intro hstrict
  have hdecode := (hstrict n rfl).2
  rw [h] at hdecode
  cases hdecode

theorem declaredLength_eq (h : decodeField UInt32 raw = some (version, bs)) :
    declaredLength formatLength raw = formatLength version := by
  rw [declaredLength, declaredVersion, h]
  rfl

theorem not_truncated_of_none (h : declaredLength formatLength raw = none) :
    ¬Truncated formatLength raw := by
  rintro ⟨length, hlength, -⟩
  rw [h] at hlength
  cases hlength

theorem truncated_iff (h : declaredLength formatLength raw = some length) :
    Truncated formatLength raw ↔ raw.length < length := by
  constructor
  · rintro ⟨length', hlength', hlt⟩
    rw [h] at hlength'
    obtain rfl := Option.some.inj hlength'
    exact hlt
  · intro hlt
    exact ⟨length, h, hlt⟩

/-- Running out of bytes does not show in the result. -/
theorem strict_iff_exhausted (hdecode : decode raw object = none)
    (hlength : declaredLength formatLength raw = some length) (hlt : raw.length < length) :
    ReadStrictly formatLength decode raw object (m, object', some n)
      ↔ ¬Truncated formatLength raw :=
  iff_of_false (not_readStrictly hdecode) (not_not_intro ((truncated_iff hlength).mpr hlt))

end Strictness

/-! ## Outbound sessions -/

/-- **OUTBOUND SESSIONS** are loaded strictly except from truncated pickles. -/
theorem olmUnpickleOutbound_strict_iff {session : OutboundGroupSession} {m m' : Mem}
    {key keyLength pickled pickledLength rawLength : Nat}
    (hinput : encInput prim m key keyLength pickled pickledLength = (m', .ok rawLength)) :
    ReadStrictly outboundFormatLength decodeOutbound (read m' pickled rawLength) session
        (olmUnpickleOutboundGroupSession prim session m key keyLength pickled pickledLength)
      ↔ ¬Truncated outboundFormatLength (read m' pickled rawLength) := by
  have hraw := remaining_raw m' pickled rawLength
  rw [olmUnpickleOutboundGroupSession, hinput]
  simp only
  generalize read m' pickled rawLength = raw at hraw
  generalize pickled + rawLength = fin at hraw
  cases hversion : decodeField UInt32 raw with
  | none =>
      rw [hraw.version_none hversion, if_pos (by decide)]
      refine iff_of_true readStrictly_of_failed (not_truncated_of_none ?_)
      rw [declaredLength, declaredVersion, hversion]
      rfl
  | some field =>
      obtain ⟨version, bs⟩ := field
      have hlength : declaredLength outboundFormatLength raw = outboundFormatLength version :=
        declaredLength_eq hversion
      have hsize := length_of_decodeField hversion
      obtain ⟨hread, hbs⟩ := hraw.field_some hversion (0 : UInt32)
      rw [hread]
      by_cases haccepted : version ≠ outboundPickleVersion
      · rw [if_pos haccepted]
        refine iff_of_true readStrictly_of_failed (not_truncated_of_none ?_)
        rw [hlength, outboundFormatLength, if_neg haccepted]
      rw [if_neg haccepted]
      rw [outboundFormatLength, if_pos (not_not.mp haccepted)] at hlength
      cases hratchet : decodeField (Megolm Part) bs with
      | none =>
          have hlt : bs.length < 128 + 4 := decodeField_eq_none.mp hratchet
          rw [hbs.field_none hratchet session.ratchet, unpickle_exhausted,
            if_neg (not_not_intro rfl)]
          refine strict_iff_exhausted ?_ hlength ?_
          · simp only [decodeOutbound, hversion, hratchet, if_neg haccepted]
          · rw [hsize]
            show 4 + bs.length < _
            omega
      | some field =>
          obtain ⟨ratchet, bs₂⟩ := field
          have hsize₂ := length_of_decodeField hratchet
          obtain ⟨hread₂, hbs₂⟩ := hbs.field_some hratchet session.ratchet
          rw [hread₂]
          cases hkey : decodeField Ed25519KeyPair bs₂ with
          | none =>
              have hlt : bs₂.length < 32 + 64 := decodeField_eq_none.mp hkey
              simp only
              rw [hbs₂.field_none hkey session.signingKey, if_neg (not_not_intro rfl)]
              refine strict_iff_exhausted ?_ hlength ?_
              · simp only [decodeOutbound, hversion, hratchet, hkey, if_neg haccepted]
              · rw [hsize, hsize₂]
                show 4 + (128 + 4 + bs₂.length) < _
                omega
          | some field =>
              obtain ⟨signingKey, bs₃⟩ := field
              have hsize₃ := length_of_decodeField hkey
              obtain ⟨hread₃, hbs₃⟩ := hbs₂.field_some hkey session.signingKey
              have htotal : raw.length = 4 + ((128 + 4) + (32 + 64)) + bs₃.length := by
                rw [hsize, hsize₂, hsize₃]
                show 4 + (128 + 4 + (32 + 64 + bs₃.length)) = _
                omega
              have hlong : ¬Truncated outboundFormatLength raw := by
                rw [truncated_iff hlength]
                omega
              rw [hread₃]
              simp only
              by_cases hnil : bs₃ = []
              · rw [if_neg (not_not_intro (hbs₃.eq_stop_iff.mpr hnil))]
                subst hnil
                rw [List.length_nil, Nat.add_zero] at htotal
                refine iff_of_true ?_ hlong
                intro n _
                refine ⟨?_, ?_⟩
                · rw [hlength, htotal]
                · simp only [decodeOutbound, hversion, hratchet, hkey, if_neg haccepted]
              · rw [if_pos (fun h => hnil (hbs₃.eq_stop_iff.mp h))]
                exact iff_of_true readStrictly_of_failed hlong

/-! ## Inbound sessions -/

section Verified

variable {version : UInt32} {m : Mem} {pos stop fin : Nat} {bs rest : Bytes}

/-- The bytes of the flag. -/
def verifiedSize (version : UInt32) : Nat := if version = 1 then 0 else 1

theorem length_of_decodeVerified {verified : Bool}
    (h : decodeVerified version bs = some (verified, rest)) :
    bs.length = verifiedSize version + rest.length := by
  rw [decodeVerified] at h
  rw [verifiedSize]
  by_cases h1 : version = 1
  · rw [if_pos h1, Option.some.injEq, Prod.mk.injEq] at h
    rw [if_pos h1, h.2, Nat.zero_add]
  · rw [if_neg h1] at h
    rw [if_neg h1]
    exact length_of_decodeField h

theorem decodeVerified_eq_none (h : decodeVerified version bs = none) :
    bs.length < verifiedSize version := by
  rw [decodeVerified] at h
  rw [verifiedSize]
  by_cases h1 : version = 1
  · rw [if_pos h1] at h
    cases h
  · rw [if_neg h1] at h ⊢
    exact decodeField_eq_none.mp h

theorem Remaining.verified_some (h : Remaining m pos stop fin bs) {verified : Bool}
    (hflag : decodeVerified version bs = some (verified, rest)) (old : Bool) :
    (if version = 1 then (true, pos) else unpickle m pos fin old)
        = (verified, pos + verifiedSize version) ∧
      Remaining m (pos + verifiedSize version) stop fin rest := by
  rw [decodeVerified] at hflag
  rw [verifiedSize]
  by_cases h1 : version = 1
  · rw [if_pos h1, Option.some.injEq, Prod.mk.injEq] at hflag
    obtain ⟨rfl, rfl⟩ := hflag
    rw [if_pos h1, if_pos h1]
    exact ⟨rfl, h⟩
  · rw [if_neg h1] at hflag
    rw [if_neg h1, if_neg h1]
    exact h.field_some hflag old

theorem Remaining.verified_none (h : Remaining m pos stop fin bs)
    (hflag : decodeVerified version bs = none) (old : Bool) :
    (if version = 1 then (true, pos) else unpickle m pos fin old).2 = fin := by
  rw [decodeVerified] at hflag
  by_cases h1 : version = 1
  · rw [if_pos h1] at hflag
    cases hflag
  · rw [if_neg h1] at hflag ⊢
    exact h.field_none hflag old

theorem verified_exhausted (version : UInt32) (m : Mem) (fin : Nat) (old : Bool) :
    (if version = 1 then (true, fin) else unpickle m fin fin old).2 = fin := by
  split
  · rfl
  · exact unpickle_exhausted m fin old

theorem inboundFormatLength_eq (h : ¬(version < 1 ∨ version > inboundPickleVersion)) :
    inboundFormatLength version
      = some (4 + ((128 + 4) + ((128 + 4) + (32 + verifiedSize version)))) := by
  rw [inboundFormatLength, verifiedSize]
  by_cases h1 : version = 1
  · rw [if_pos h1, if_pos h1]
  · have h2 : version = 2 := by
      have hge : ¬version.toNat < 1 := fun hlt => h (Or.inl (UInt32.lt_iff_toNat_lt.mpr hlt))
      have hle : ¬2 < version.toNat := fun hlt => h (Or.inr (UInt32.lt_iff_toNat_lt.mpr hlt))
      have hne : version.toNat ≠ 1 := fun heq => h1 (UInt32.toNat_inj.mp heq)
      apply UInt32.toNat_inj.mp
      show version.toNat = 2
      omega
    rw [if_neg h1, if_neg h1, if_pos h2]

theorem inboundFormatLength_none (h : version < 1 ∨ version > inboundPickleVersion) :
    inboundFormatLength version = none := by
  have h1 : version ≠ 1 := by
    rintro rfl
    exact absurd h (by decide)
  have h2 : version ≠ 2 := by
    rintro rfl
    exact absurd h (by decide)
  rw [inboundFormatLength, if_neg h1, if_neg h2]

end Verified

/-- **INBOUND SESSIONS** are loaded strictly except from truncated pickles. -/
theorem olmUnpickleInbound_strict_iff {session : InboundGroupSession} {m m' : Mem}
    {key keyLength pickled pickledLength rawLength : Nat}
    (hinput : encInput prim m key keyLength pickled pickledLength = (m', .ok rawLength)) :
    ReadStrictly inboundFormatLength decodeInbound (read m' pickled rawLength) session
        (olmUnpickleInboundGroupSession prim session m key keyLength pickled pickledLength)
      ↔ ¬Truncated inboundFormatLength (read m' pickled rawLength) := by
  have hraw := remaining_raw m' pickled rawLength
  rw [olmUnpickleInboundGroupSession, hinput]
  simp only
  generalize read m' pickled rawLength = raw at hraw
  generalize pickled + rawLength = fin at hraw
  cases hversion : decodeField UInt32 raw with
  | none =>
      rw [hraw.version_none hversion, if_pos (by decide)]
      refine iff_of_true readStrictly_of_failed (not_truncated_of_none ?_)
      rw [declaredLength, declaredVersion, hversion]
      rfl
  | some field =>
      obtain ⟨version, bs⟩ := field
      have hlength : declaredLength inboundFormatLength raw = inboundFormatLength version :=
        declaredLength_eq hversion
      have hsize : raw.length = 4 + bs.length := length_of_decodeField hversion
      obtain ⟨hread, hbs⟩ := hraw.field_some hversion (0 : UInt32)
      rw [hread]
      simp only
      by_cases haccepted : version < 1 ∨ version > inboundPickleVersion
      · rw [if_pos haccepted]
        refine iff_of_true readStrictly_of_failed (not_truncated_of_none ?_)
        rw [hlength, inboundFormatLength_none haccepted]
      rw [if_neg haccepted]
      rw [inboundFormatLength_eq haccepted] at hlength
      cases hinitial : decodeField (Megolm Part) bs with
      | none =>
          have hlt : bs.length < 128 + 4 := decodeField_eq_none.mp hinitial
          rw [hbs.field_none hinitial session.initialRatchet, unpickle_exhausted,
            unpickle_exhausted, verified_exhausted, if_neg (not_not_intro rfl)]
          refine strict_iff_exhausted ?_ hlength (by omega)
          simp only [decodeInbound, hversion, hinitial, if_neg haccepted]
      | some field =>
          obtain ⟨initialRatchet, bs₂⟩ := field
          have hsize₂ : bs.length = 128 + 4 + bs₂.length := length_of_decodeField hinitial
          obtain ⟨hread₂, hbs₂⟩ := hbs.field_some hinitial session.initialRatchet
          rw [hread₂]
          simp only
          cases hlatest : decodeField (Megolm Part) bs₂ with
          | none =>
              have hlt : bs₂.length < 128 + 4 := decodeField_eq_none.mp hlatest
              rw [hbs₂.field_none hlatest session.latestRatchet, unpickle_exhausted,
                verified_exhausted, if_neg (not_not_intro rfl)]
              refine strict_iff_exhausted ?_ hlength (by omega)
              simp only [decodeInbound, hversion, hinitial, hlatest, if_neg haccepted]
          | some field =>
              obtain ⟨latestRatchet, bs₃⟩ := field
              have hsize₃ : bs₂.length = 128 + 4 + bs₃.length := length_of_decodeField hlatest
              obtain ⟨hread₃, hbs₃⟩ := hbs₂.field_some hlatest session.latestRatchet
              rw [hread₃]
              simp only
              cases hkey : decodeField (Vector UInt8 32) bs₃ with
              | none =>
                  have hlt : bs₃.length < 32 := decodeField_eq_none.mp hkey
                  rw [hbs₃.field_none hkey session.signingKey, verified_exhausted,
                    if_neg (not_not_intro rfl)]
                  refine strict_iff_exhausted ?_ hlength (by omega)
                  simp only [decodeInbound, hversion, hinitial, hlatest, hkey, if_neg haccepted]
              | some field =>
                  obtain ⟨signingKey, bs₄⟩ := field
                  have hsize₄ : bs₃.length = 32 + bs₄.length := length_of_decodeField hkey
                  obtain ⟨hread₄, hbs₄⟩ := hbs₃.field_some hkey session.signingKey
                  rw [hread₄]
                  simp only
                  cases hflag : decodeVerified version bs₄ with
                  | none =>
                      have hlt := decodeVerified_eq_none hflag
                      rw [hbs₄.verified_none hflag session.signingKeyVerified,
                        if_neg (not_not_intro rfl)]
                      refine strict_iff_exhausted ?_ hlength (by omega)
                      simp only [decodeInbound, hversion, hinitial, hlatest, hkey, hflag,
                        if_neg haccepted]
                  | some field =>
                      obtain ⟨signingKeyVerified, bs₅⟩ := field
                      have hsize₅ := length_of_decodeVerified hflag
                      obtain ⟨hread₅, hbs₅⟩ :=
                        hbs₄.verified_some hflag session.signingKeyVerified
                      have hlong : ¬Truncated inboundFormatLength raw := by
                        rw [truncated_iff hlength]
                        omega
                      rw [hread₅]
                      simp only
                      by_cases hnil : bs₅ = []
                      · rw [if_neg (not_not_intro (hbs₅.eq_stop_iff.mpr hnil))]
                        subst hnil
                        rw [List.length_nil] at hsize₅
                        refine iff_of_true ?_ hlong
                        intro n _
                        refine ⟨?_, ?_⟩
                        · rw [hlength]
                          congr 1
                          omega
                        · simp only [decodeInbound, hversion, hinitial, hlatest, hkey, hflag,
                            if_neg haccepted]
                      · rw [if_pos (fun h => hnil (hbs₅.eq_stop_iff.mp h))]
                        exact iff_of_true readStrictly_of_failed hlong

/-! ## Both calls -/

/-- **GROUP PICKLES ARE READ STRICTLY EXCEPT WHERE THEY ARE TRUNCATED**: of an accepted
    version, with fewer bytes than its format has. -/
theorem groupUnpickle_strict_iff {m m' : Mem}
    {key keyLength pickled pickledLength rawLength : Nat}
    (hinput : encInput prim m key keyLength pickled pickledLength = (m', .ok rawLength)) :
    (∀ session : OutboundGroupSession,
      ReadStrictly outboundFormatLength decodeOutbound (read m' pickled rawLength) session
          (olmUnpickleOutboundGroupSession prim session m key keyLength pickled pickledLength)
        ↔ ¬Truncated outboundFormatLength (read m' pickled rawLength)) ∧
    (∀ session : InboundGroupSession,
      ReadStrictly inboundFormatLength decodeInbound (read m' pickled rawLength) session
          (olmUnpickleInboundGroupSession prim session m key keyLength pickled pickledLength)
        ↔ ¬Truncated inboundFormatLength (read m' pickled rawLength)) :=
  ⟨fun _ => olmUnpickleOutbound_strict_iff prim hinput,
    fun _ => olmUnpickleInbound_strict_iff prim hinput⟩

/-- Sessions with a counter of their own. -/
def demoOutbound : OutboundGroupSession :=
  { newOutboundGroupSession with ratchet := { newOutboundGroupSession.ratchet with counter := 258 } }

def demoInbound : InboundGroupSession :=
  { newInboundGroupSession with
    latestRatchet := { newInboundGroupSession.latestRatchet with counter := 258 }
    signingKeyVerified := true }

/-- Whole pickles are loaded, and strictly. -/
theorem groupUnpickle_strict_iff_whole :
    (∃ m', (olmUnpickleOutboundGroupSession demoPrimitives newOutboundGroupSession
        (pickledMemory (outboundPickle demoOutbound)) 0 0 100 (encOutputLength demoPrimitives 232))
          = (m', demoOutbound, some (encOutputLength demoPrimitives 232)) ∧
      ReadStrictly outboundFormatLength decodeOutbound (read m' 100 232) newOutboundGroupSession
        (m', demoOutbound, some (encOutputLength demoPrimitives 232))) ∧
    ∃ m', (olmUnpickleInboundGroupSession demoPrimitives newInboundGroupSession
        (pickledMemory (inboundPickle demoInbound)) 0 0 100 (encOutputLength demoPrimitives 301))
          = (m', demoInbound, some (encOutputLength demoPrimitives 301)) ∧
      ReadStrictly inboundFormatLength decodeInbound (read m' 100 301) newInboundGroupSession
        (m', demoInbound, some (encOutputLength demoPrimitives 301)) := by
  have houtbound : (outboundPickle demoOutbound).length = 232 := length_outboundPickle demoOutbound
  have hinbound : (inboundPickle demoInbound).length = 301 := length_inboundPickle demoInbound
  obtain ⟨m₁, hinput₁, hread₁⟩ := encInput_pickledMemory (outboundPickle demoOutbound)
  obtain ⟨m₂, hinput₂, hread₂⟩ := encInput_pickledMemory (inboundPickle demoInbound)
  have hcall₁ := olmUnpickleOutbound_pickle demoPrimitives demoOutbound
    (hinput₁.trans (by rw [length_outboundPickle])) hread₁
  have hcall₂ := olmUnpickleInbound_pickle demoPrimitives demoInbound
    (hinput₂.trans (by rw [length_inboundPickle])) hread₂
  rw [houtbound] at hinput₁ hread₁ hcall₁
  rw [hinbound] at hinput₂ hread₂ hcall₂
  have hdeclared₁ : declaredLength outboundFormatLength (outboundPickle demoOutbound)
      = some 232 := by decide +kernel
  have hdeclared₂ : declaredLength inboundFormatLength (inboundPickle demoInbound)
      = some 301 := by decide +kernel
  refine ⟨⟨m₁, hcall₁, ?_⟩, ⟨m₂, hcall₂, ?_⟩⟩
  · have hstrict := (groupUnpickle_strict_iff demoPrimitives hinput₁).1 newOutboundGroupSession
    rw [hcall₁, hread₁, truncated_iff hdeclared₁, houtbound] at hstrict
    rw [hread₁]
    exact hstrict.mpr (Nat.lt_irrefl _)
  · have hstrict := (groupUnpickle_strict_iff demoPrimitives hinput₂).2 newInboundGroupSession
    rw [hcall₂, hread₂, truncated_iff hdeclared₂, hinbound] at hstrict
    rw [hread₂]
    exact hstrict.mpr (Nat.lt_irrefl _)

/-- A raw pickle that is only a version word. -/
def versionOnly : Bytes := [0, 0, 0, 1]

/-- Memory with its text at 100; the key is empty. -/
def versionOnlyMemory : Mem :=
  write (fun _ => 0) 100 (pickledText demoPrimitives [] versionOnly)

theorem encInput_versionOnly :
    ∃ m', encInput demoPrimitives versionOnlyMemory 0 0 100 (encOutputLength demoPrimitives 4)
        = (m', .ok 4) ∧ read m' 100 4 = versionOnly :=
  encInput_pickledMemory versionOnly

theorem truncated_versionOnly :
    Truncated outboundFormatLength versionOnly ∧ Truncated inboundFormatLength versionOnly :=
  ⟨⟨232, by decide, by decide⟩, ⟨300, by decide, by decide⟩⟩

/-- Where a load is not strict, it succeeded. -/
theorem succeeds_of_not_strict {X : Type} {formatLength : UInt32 → Option Nat}
    {decode : Bytes → X → Option X} {raw : Bytes} {object : X} {call : Mem × X × Option Nat}
    (h : ¬ReadStrictly formatLength decode raw object call) : call.2.2.isSome := by
  cases hcall : call.2.2 with
  | some n => rfl
  | none =>
      refine absurd ?_ h
      intro n hn
      rw [hcall] at hn
      cases hn

/-- Four bytes are loaded as a session that takes 232 or 300 bytes. -/
theorem groupUnpickle_versionOnly :
    ∃ m', encInput demoPrimitives versionOnlyMemory 0 0 100 (encOutputLength demoPrimitives 4)
        = (m', .ok 4) ∧ read m' 100 4 = versionOnly ∧
      declaredLength outboundFormatLength versionOnly = some 232 ∧
      declaredLength inboundFormatLength versionOnly = some 300 ∧
      (olmUnpickleOutboundGroupSession demoPrimitives newOutboundGroupSession versionOnlyMemory
        0 0 100 (encOutputLength demoPrimitives 4)).2.2.isSome ∧
      (olmUnpickleInboundGroupSession demoPrimitives newInboundGroupSession versionOnlyMemory
        0 0 100 (encOutputLength demoPrimitives 4)).2.2.isSome := by
  obtain ⟨m', hinput, hread⟩ := encInput_versionOnly
  obtain ⟨houtbound, hinbound⟩ := truncated_versionOnly
  refine ⟨m', hinput, hread, by decide, by decide, ?_, ?_⟩
  · have hstrict : ¬ReadStrictly outboundFormatLength decodeOutbound (read m' 100 4)
        newOutboundGroupSession (olmUnpickleOutboundGroupSession demoPrimitives newOutboundGroupSession
          versionOnlyMemory 0 0 100 (encOutputLength demoPrimitives 4)) := by
      rw [olmUnpickleOutbound_strict_iff demoPrimitives hinput, hread]
      exact not_not_intro houtbound
    exact succeeds_of_not_strict hstrict
  · have hstrict : ¬ReadStrictly inboundFormatLength decodeInbound (read m' 100 4)
        newInboundGroupSession (olmUnpickleInboundGroupSession demoPrimitives newInboundGroupSession
          versionOnlyMemory 0 0 100 (encOutputLength demoPrimitives 4)) := by
      rw [olmUnpickleInbound_strict_iff demoPrimitives hinput, hread]
      exact not_not_intro hinbound
    exact succeeds_of_not_strict hstrict

end OlmPickle
