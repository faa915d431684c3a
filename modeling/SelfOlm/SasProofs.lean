import SelfOlm.Sas

/-! # The MACs of short authentication strings

    The encoder is given its output as input, and base64 is longer than what it encodes:
    from the second group on it reads characters instead of the HMAC.  The MAC is the
    encoded HMAC only where these are the same. -/

namespace OlmBase64

open ByteMemory OlmCrypto

/-! ## What the encoder reads -/

/-- The bytes that `encode_base64` reads, one group after another. -/
def encodeReads : Nat → Mem → Nat → Nat → Bytes
  | n + 3, m, input, output =>
      m input :: m (input + 1) :: m (input + 2)
        :: encodeReads n (write m output (base64.encodeGroup (SextetCodec.pack (m input)
          (m (input + 1)) (m (input + 2))))) (input + 3) (output + 4)
  | 2, m, input, _ => [m input, m (input + 1)]
  | 1, m, input, _ => [m input]
  | 0, _, _, _ => []

/-- **ENCODING** of what is read, wherever the buffers are. -/
theorem encodeBase64_reads :
    ∀ (n : Nat) (m : Mem) (input output : Nat),
      encodeBase64 m input n output
        = write m output (base64.encode (encodeReads n m input output)) := by
  intro n
  induction n using Nat.strongRecOn with
  | ind n ih =>
      intro m input output
      match n, ih with
      | 0, _ =>
          rw [encodeBase64]
          simp only [show input + 0 - (input + 0 / 3 * 3) = 0 by omega]
          rw [if_neg (not_not_intro rfl), encodeReads, SextetCodec.encode, write_nil]
          rfl
      | 1, _ =>
          rw [encodeBase64]
          simp only [show input + 1 - (input + 1 / 3 * 3) = 1 by omega]
          rw [if_pos (by decide), if_neg (by decide)]
          rfl
      | 2, _ =>
          rw [encodeBase64]
          simp only [show input + 2 - (input + 2 / 3 * 3) = 2 by omega]
          rw [if_pos (by decide), if_pos trivial]
          rfl
      | n + 3, ih =>
          rw [encodeBase64_succ, ih n (by omega), encodeReads, SextetCodec.encode, write_append]
          rfl

theorem length_encodeReads :
    ∀ (n : Nat) (m : Mem) (input output : Nat), (encodeReads n m input output).length = n := by
  intro n
  induction n using Nat.strongRecOn with
  | ind n ih =>
      intro m input output
      match n, ih with
      | 0, _ => rfl
      | 1, _ => rfl
      | 2, _ => rfl
      | n + 3, ih =>
          rw [encodeReads, List.length_cons, List.length_cons, List.length_cons, ih n (by omega)]

/-- Inside the part of the output that is stored already, a character is read. -/
theorem getElem?_encodeReads :
    ∀ (n : Nat) (m : Mem) (input output : Nat), ∀ i < n,
      (encodeReads n m input output)[i]?
        = if output ≤ input + i ∧ input + i < output + i / 3 * 4
          then (base64.encode (encodeReads n m input output))[input + i - output]?
          else some (m (input + i)) := by
  intro n
  induction n using Nat.strongRecOn with
  | ind n ih =>
      intro m input output i hi
      by_cases hfirst : i < 3
      · rw [if_neg (by omega)]
        match n, i, hi, hfirst with
        | 1, 0, _, _ => rfl
        | 2, 0, _, _ => rfl
        | 2, 1, _, _ => rfl
        | n + 3, 0, _, _ => rfl
        | n + 3, 1, _, _ => rfl
        | n + 3, 2, _, _ => rfl
      · obtain ⟨k, rfl⟩ := Nat.exists_eq_add_of_le' (Nat.le_of_not_lt hfirst)
        obtain ⟨n, rfl⟩ : ∃ n', n = n' + 3 := ⟨n - 3, by omega⟩
        have hgroups : (k + 3) / 3 * 4 = k / 3 * 4 + 4 := by omega
        rw [encodeReads, SextetCodec.encode]
        show (encodeReads n _ (input + 3) (output + 4))[k]? = _
        rw [ih n (by omega) _ _ _ k (by omega), hgroups]
        generalize hgroup : base64.encodeGroup (SextetCodec.pack (m input) (m (input + 1))
          (m (input + 2))) = group
        have hlength : group.length = 4 := by
          rw [← hgroup]
          rfl
        -- before the group, in it, behind it in the stored part, and behind that part
        by_cases hbehind : output + 4 ≤ input + 3 + k
        · have hindex : input + (k + 3) - output
              = group.length + (input + 3 + k - (output + 4)) := by omega
          rw [hindex, List.getElem?_append_right (by omega), Nat.add_sub_cancel_left,
            write_outside _ (Or.inr (by omega)), Nat.add_right_comm input 3 k,
            Nat.add_assoc input k 3]
          by_cases hstored : input + (k + 3) < output + 4 + k / 3 * 4
          · rw [if_pos ⟨by omega, by omega⟩, if_pos ⟨by omega, by omega⟩]
          · rw [if_neg (by omega), if_neg (by omega)]
        · rw [if_neg (by omega)]
          by_cases hbefore : output ≤ input + (k + 3)
          · rw [if_pos ⟨hbefore, by omega⟩, List.getElem?_append_left (by omega)]
            have haddress : input + 3 + k = output + (input + (k + 3) - output) := by omega
            rw [haddress, write_inside _ _ _ (by omega), List.getElem?_eq_getElem (by omega)]
          · rw [if_neg (by omega), write_outside _ (Or.inl (by omega)),
              Nat.add_right_comm input 3 k, Nat.add_assoc input k 3]

/-- An input that is the output is read over. -/
theorem readsOver_encodeReads (n : Nat) (m : Mem) (p : Nat) :
    base64.ReadsOver (read m p n) (encodeReads n m p p) := by
  refine ⟨by rw [length_encodeReads, length_read], fun i hi => ?_⟩
  rw [length_read] at hi
  rw [getElem?_encodeReads n m p p i hi, getElem?_read, if_pos hi, Nat.add_sub_cancel_left]
  by_cases hover : SextetCodec.Overwritten i
  · have hstored : i < i / 3 * 4 := hover
    rw [if_pos ⟨by omega, by omega⟩, if_pos hover]
  · rw [if_neg hover, if_neg]
    rw [SextetCodec.Overwritten] at hover
    omega

/-- **IN PLACE** from the first byte on, the text is the encoded input just where every byte
    that is overwritten before it is read is the character that is stored there. -/
theorem read_encodeBase64_inPlace_iff (n : Nat) (m : Mem) (p : Nat) :
    read (encodeBase64 m p n p) p (encodeBase64Length n) = base64.encode (read m p n)
      ↔ ∀ i < n, SextetCodec.Overwritten i →
          (read m p n)[i]? = (base64.encode (read m p n))[i]? := by
  have hlength : (base64.encode (encodeReads n m p p)).length = encodeBase64Length n := by
    rw [SextetCodec.length_encode, length_encodeReads]
    rfl
  rw [encodeBase64_reads, read_write_of_length _ _ hlength,
    (readsOver_encodeReads n m p).encode_eq_iff, length_read]

end OlmBase64

namespace OlmSas

open ByteMemory OlmCrypto OlmBase64

variable (prim : Primitives)

/-! ## The MAC -/

/-- The HMAC that the two functions encode. -/
def sasHmac (keyLength : Nat) (sas : SAS) (m : Mem) (input inputLength info infoLength : Nat) :
    Bytes :=
  (cryptoHmacSha256 prim
    (cryptoHkdfSha256 prim sas.secret.toList none (read m info infoLength) keyLength)
    (read m input inputLength)).toList

/-- Every byte that the encoder overwrites before it reads it is the character that it
    stores there: bytes 3, 6, 7 and all from 9 on. -/
def Undisturbed (hmac : Bytes) : Prop :=
  ∀ i < 32, SextetCodec.Overwritten i → hmac[i]? = (base64.encode hmac)[i]?

theorem calculateMac_encoded_iff (keyLength : Nat) (sas : SAS) (m : Mem)
    (input inputLength info infoLength mac : Nat) {macLength : Nat}
    (hroom : olmSasMacLength ≤ macLength) :
    read (calculateMac prim keyLength sas m input inputLength info infoLength mac macLength).1 mac 43
        = base64.encode (sasHmac prim keyLength sas m input inputLength info infoLength)
      ↔ Undisturbed (sasHmac prim keyLength sas m input inputLength info infoLength) := by
  rw [calculateMac, if_neg (Nat.not_lt.mpr hroom), sasHmac]
  simp only
  generalize cryptoHmacSha256 prim (cryptoHkdfSha256 prim sas.secret.toList none
    (read m info infoLength) keyLength) (read m input inputLength) = hmac
  have hinPlace := read_encodeBase64_inPlace_iff 32 (store m mac hmac) mac
  rw [read_store_self, show encodeBase64Length 32 = 43 by decide] at hinPlace
  exact hinPlace

/-- **THE MAC** of both functions is the encoded HMAC just where that is undisturbed. -/
theorem olmSasCalculateMac_encoded_iff (sas : SAS) (m : Mem)
    (input inputLength info infoLength mac macLength : Nat) :
    ((olmSasMacLength ≤ macLength →
        read (olmSasCalculateMac prim sas m input inputLength info infoLength mac macLength).1 mac 43
          = base64.encode (sasHmac prim 32 sas m input inputLength info infoLength))
      ↔ (olmSasMacLength ≤ macLength →
          Undisturbed (sasHmac prim 32 sas m input inputLength info infoLength))) ∧
    ((olmSasMacLength ≤ macLength →
        read (olmSasCalculateMacLongKdf prim sas m input inputLength info infoLength mac
          macLength).1 mac 43
          = base64.encode (sasHmac prim 256 sas m input inputLength info infoLength))
      ↔ (olmSasMacLength ≤ macLength →
          Undisturbed (sasHmac prim 256 sas m input inputLength info infoLength))) := by
  rw [olmSasCalculateMac, olmSasCalculateMacLongKdf]
  constructor
  · refine imp_congr_right (fun hroom => ?_)
    exact calculateMac_encoded_iff prim 32 sas m input inputLength info infoLength mac hroom
  · refine imp_congr_right (fun hroom => ?_)
    exact calculateMac_encoded_iff prim 256 sas m input inputLength info infoLength mac hroom

/-- The MAC string of the HMAC of no bytes under the secret of a new object. -/
theorem olmSasCalculateMac_disturbed :
    read (olmSasCalculateMac demoPrimitives newSas (fun _ => 0) 0 0 0 0 100 43).1 100 43
      ≠ base64.encode (sasHmac demoPrimitives 32 newSas (fun _ => 0) 0 0 0 0) := by
  intro h
  have hundisturbed := (calculateMac_encoded_iff demoPrimitives 32 newSas (fun _ => 0) 0 0 0 0 100
    (by decide)).mp h
  revert hundisturbed
  rw [Undisturbed]
  decide +kernel

/-! ## The two parties -/

/-- The MAC string depends on six bytes of the HMAC alone. -/
theorem calculateMac_congr {keyLength keyLength' : Nat} {sas sas' : SAS} {m m' : Mem}
    {input inputLength info infoLength mac macLength input' inputLength' info' infoLength' mac'
      macLength' : Nat} (hroom : olmSasMacLength ≤ macLength) (hroom' : olmSasMacLength ≤ macLength')
    (hbytes : ∀ i ∈ [0, 1, 2, 4, 5, 8],
      (sasHmac prim keyLength sas m input inputLength info infoLength)[i]?
        = (sasHmac prim keyLength' sas' m' input' inputLength' info' infoLength')[i]?) :
    read (calculateMac prim keyLength sas m input inputLength info infoLength mac macLength).1 mac 43
      = read (calculateMac prim keyLength' sas' m' input' inputLength' info' infoLength' mac'
          macLength').1 mac' 43 := by
  have htext : ∀ (m : Mem) (p : Nat),
      read (encodeBase64 m p 32 p) p 43 = base64.encode (encodeReads 32 m p p) := by
    intro m p
    have hlength : (base64.encode (encodeReads 32 m p p)).length = 43 := by
      rw [SextetCodec.length_encode, length_encodeReads]
      decide
    rw [encodeBase64_reads, read_write_of_length _ _ hlength]
  rw [calculateMac, calculateMac, if_neg (Nat.not_lt.mpr hroom), if_neg (Nat.not_lt.mpr hroom')]
  simp only
  rw [htext, htext]
  have hreads := readsOver_encodeReads 32 (store m mac (cryptoHmacSha256 prim (cryptoHkdfSha256 prim
    sas.secret.toList none (read m info infoLength) keyLength) (read m input inputLength))) mac
  have hreads' := readsOver_encodeReads 32 (store m' mac' (cryptoHmacSha256 prim (cryptoHkdfSha256
    prim sas'.secret.toList none (read m' info' infoLength') keyLength')
    (read m' input' inputLength'))) mac'
  rw [read_store_self] at hreads hreads'
  refine congrArg base64.encode (hreads.unique hreads' ?_ ?_)
  · rw [Vector.length_toList, Vector.length_toList]
  · intro i hkept
    by_cases hi : i < 32
    · refine hbytes i ?_
      revert hkept
      revert i
      decide
    · rw [List.getElem?_eq_none (by rw [Vector.length_toList]; omega),
        List.getElem?_eq_none (by rw [Vector.length_toList]; omega)]

/-- The public key of `a`, as a text, has reached `b`, which is then `b'`. -/
inductive TheirKeySet (a b b' : SAS) : Prop
  | intro {m m₁ m₂ m₃ : Mem} {a' : SAS} {pubkey pubkeyLength theirKey n k : Nat}
      (hget : olmSasGetPubkey a m pubkey pubkeyLength = (m₁, a', some n))
      (hread : read m₂ theirKey olmSasPubkeyLength = read m₁ pubkey olmSasPubkeyLength)
      (hset : olmSasSetTheirKey prim b m₂ theirKey olmSasPubkeyLength = (m₃, b', some k))

variable {prim}

theorem olmCreateSas_matches {sas a : SAS} {m : Mem} {random randomLength n : Nat}
    (h : olmCreateSas prim sas m random randomLength = (a, some n)) :
    a.curve25519Key.Matches prim := by
  rw [olmCreateSas] at h
  split at h
  · cases (Prod.mk.inj h).2
  · obtain ⟨rfl, -⟩ := Prod.mk.inj h
    exact cryptoCurve25519GenerateKey_matches prim _

/-- The secret of `b` is then that of its key and the key of `a`. -/
theorem TheirKeySet.eq {a b b' : SAS} (h : TheirKeySet prim a b b') :
    b' = { b with
      secret := cryptoCurve25519SharedSecret prim b.curve25519Key a.curve25519Key.publicKey } := by
  obtain ⟨hget, hread, hset⟩ := h
  rw [olmSasGetPubkey] at hget
  split at hget
  · cases (Prod.mk.inj (Prod.mk.inj hget).2).2
  obtain ⟨rfl, -⟩ := Prod.mk.inj hget
  have hpublic : a.curve25519Key.publicKey.toList.length = curve25519KeyLength :=
    Vector.length_toList
  have htext : olmSasPubkeyLength = encodeBase64Length a.curve25519Key.publicKey.toList.length := by
    rw [hpublic, olmSasPubkeyLength]
  rw [htext, ← length_base64_encode, read_write_self, length_base64_encode] at hread
  rw [olmSasSetTheirKey, if_neg (Nat.lt_irrefl _), htext] at hset
  simp only at hset
  rw [decodeBase64_encode hread (Or.inl (Nat.le_refl _))] at hset
  obtain ⟨rfl, -⟩ := Prod.mk.inj (Prod.mk.inj hset).2
  rw [load_eq_of_read (read_write_of_length _ _ hpublic)]

/-- **THE TWO PARTIES** of an exchange derive the same bytes and the same MAC strings, from the
    same info and input in the memory of each. -/
theorem sas_agree (hdh : prim.DhCommutes) {sasA sasB a b a' b' : SAS} {mA mB : Mem}
    {randomA randomLengthA randomB randomLengthB nA nB : Nat}
    (hcreateA : olmCreateSas prim sasA mA randomA randomLengthA = (a, some nA))
    (hcreateB : olmCreateSas prim sasB mB randomB randomLengthB = (b, some nB))
    (hgivenA : TheirKeySet prim b a a') (hgivenB : TheirKeySet prim a b b') {m m' : Mem}
    {info infoLength info' input inputLength input' : Nat}
    (hinfo : read m info infoLength = read m' info' infoLength)
    (hinput : read m input inputLength = read m' input' inputLength) :
    (∀ output output' outputLength : Nat, Disjoint info infoLength output outputLength →
      Disjoint info' infoLength output' outputLength →
      read (olmSasGenerateBytes prim a' m info infoLength output outputLength).1 output outputLength
        = read (olmSasGenerateBytes prim b' m' info' infoLength output' outputLength).1 output'
            outputLength) ∧
    ∀ mac macLength mac' macLength' : Nat, olmSasMacLength ≤ macLength →
      olmSasMacLength ≤ macLength' →
      read (olmSasCalculateMac prim a' m input inputLength info infoLength mac macLength).1 mac 43
          = read (olmSasCalculateMac prim b' m' input' inputLength info' infoLength mac'
              macLength').1 mac' 43 ∧
        read (olmSasCalculateMacLongKdf prim a' m input inputLength info infoLength mac
            macLength).1 mac 43
          = read (olmSasCalculateMacLongKdf prim b' m' input' inputLength info' infoLength mac'
              macLength').1 mac' 43 := by
  have hsecret : a'.secret = b'.secret := by
    rw [hgivenA.eq, hgivenB.eq]
    exact sharedSecret_comm prim hdh (olmCreateSas_matches hcreateA) (olmCreateSas_matches hcreateB)
  constructor
  · -- the buffers are apart since HKDF reads the info again for each block that it writes
    intro output output' outputLength _ _
    rw [olmSasGenerateBytes, olmSasGenerateBytes, hsecret, hinfo,
      read_write_of_length _ _ (length_cryptoHkdfSha256 prim _ _ _ _),
      read_write_of_length _ _ (length_cryptoHkdfSha256 prim _ _ _ _)]
  · intro mac macLength mac' macLength' hroom hroom'
    -- the two functions differ in the length of the key that they derive, nothing else
    have hhmac : ∀ keyLength : Nat,
        sasHmac prim keyLength a' m input inputLength info infoLength
          = sasHmac prim keyLength b' m' input' inputLength info' infoLength := by
      intro keyLength
      rw [sasHmac, sasHmac, hsecret, hinfo, hinput]
    have hmacs : ∀ keyLength : Nat,
        read (calculateMac prim keyLength a' m input inputLength info infoLength mac
            macLength).1 mac 43
          = read (calculateMac prim keyLength b' m' input' inputLength info' infoLength mac'
              macLength').1 mac' 43 :=
      fun keyLength => calculateMac_congr prim hroom hroom' (fun i _ => by rw [hhmac keyLength])
    exact ⟨hmacs 32, hmacs 256⟩

/-- A party whose random bytes are all the same, and its public key at address 0. -/
def demoParty (byte : UInt8) : SAS := (olmCreateSas demoPrimitives newSas (fun _ => byte) 0 32).1
def demoPubkey (byte : UInt8) : Mem := (olmSasGetPubkey (demoParty byte) (fun _ => 0) 0 43).1

/-- The party with the public key of another one. -/
def demoPaired (byte other : UInt8) : SAS :=
  (olmSasSetTheirKey demoPrimitives (demoParty byte) (demoPubkey other) 0 43).2.1

theorem demoPaired_set (byte other : UInt8) :
    TheirKeySet demoPrimitives (demoParty other) (demoParty byte) (demoPaired byte other) := by
  have hget : olmSasGetPubkey (demoParty other) (fun _ => 0) 0 43
      = (demoPubkey other, demoParty other, some 0) := rfl
  exact TheirKeySet.intro hget rfl rfl

/-- Six bytes to compare, and the MAC of an input that is elsewhere for the second party. -/
theorem sas_agree_demo :
    read (olmSasGenerateBytes demoPrimitives (demoPaired 1 2) (write (fun _ => 0) 0 (ascii "info"))
        0 4 200 6).1 200 6
      = read (olmSasGenerateBytes demoPrimitives (demoPaired 2 1)
          (write (fun _ => 0) 60 (ascii "info")) 60 4 300 6).1 300 6 ∧
    read (olmSasCalculateMac demoPrimitives (demoPaired 1 2) (write (fun _ => 0) 0 (ascii "info"))
        0 4 0 4 200 43).1 200 43
      = read (olmSasCalculateMac demoPrimitives (demoPaired 2 1)
          (write (fun _ => 0) 60 (ascii "info")) 60 4 60 4 300 50).1 300 43 := by
  have hcreate : ∀ byte : UInt8, olmCreateSas demoPrimitives newSas (fun _ => byte) 0 32
      = (demoParty byte, some 0) := fun _ => rfl
  have hinfo : read (write (fun _ => 0) 0 (ascii "info")) 0 4
      = read (write (fun _ => 0) 60 (ascii "info")) 60 4 := by decide
  obtain ⟨hbytes, hmacs⟩ := sas_agree demoPrimitives_dhCommutes (hcreate 1) (hcreate 2)
    (demoPaired_set 1 2) (demoPaired_set 2 1) hinfo hinfo
  exact ⟨hbytes 200 300 6 (Or.inl (by decide)) (Or.inl (by decide)),
    (hmacs 200 43 300 50 (by decide) (by decide)).1⟩

end OlmSas
