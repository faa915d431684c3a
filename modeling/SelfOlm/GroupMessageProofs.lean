import SelfOlm.InboundCacheProofs
import SelfOlm.MessageProofs

/-! # Group messages, session keys and exports as byte strings

    What one call of the sender writes, and what one call of a receiver does
    with it.  `rawMessage` and `sessionKeyBytes` are the strings before base64;
    every call builds its string at the end of the output buffer and encodes it
    in place. -/

namespace OlmGroupSession

open ByteMemory OlmCrypto OlmMessage OlmBase64 OlmMegolm

variable (prim : Primitives)

/-! ## Counters and ratchet data -/

theorem pushByte_toNat (c : UInt32) (b : UInt8) :
    ((c <<< 8) ||| b.toUInt32).toNat = (c.toNat * 256 + b.toNat) % 2 ^ 32 := by
  have hb : b.toNat < 2 ^ 8 := b.toNat_lt
  rw [UInt32.toNat_or, UInt32.toNat_shiftLeft, UInt8.toNat_toUInt32,
    show (8 : UInt32).toNat % 32 = 8 by rfl, Nat.shiftLeft_eq]
  have hmod : c.toNat * 2 ^ 8 % 2 ^ 32 = 2 ^ 8 * (c.toNat % 2 ^ 24) := by
    rw [Nat.mul_comm, show (2 : Nat) ^ 32 = 2 ^ 8 * 2 ^ 24 by rfl, Nat.mul_mod_mul_left]
  rw [hmod, ← Nat.two_pow_add_eq_or_of_lt hb]
  omega

theorem topByte_toNat (c : UInt32) :
    ((0xFF : UInt32) &&& (c >>> 24)).toUInt8.toNat = c.toNat / 2 ^ 24 := by
  have hc := c.toNat_lt
  rw [UInt32.toNat_toUInt8, UInt32.toNat_and, UInt32.toNat_shiftRight,
    show (24 : UInt32).toNat % 32 = 24 by rfl, show (0xFF : UInt32).toNat = 2 ^ 8 - 1 by rfl,
    Nat.and_comm, Nat.and_two_pow_sub_one_eq_mod, Nat.shiftRight_eq_div_pow]
  omega

theorem shl8_toNat (c : UInt32) : (c <<< 8).toNat = c.toNat * 256 % 2 ^ 32 := by
  rw [UInt32.toNat_shiftLeft, show (8 : UInt32).toNat % 32 = 8 by rfl, Nat.shiftLeft_eq]

/-- The big endian counter is read back. -/
theorem decodeCounter_encodeCounter (c : UInt32) : decodeCounter (encodeCounter c) = c := by
  have hc := c.toNat_lt
  apply UInt32.toNat_inj.mp
  simp only [encodeCounter, encodeCounterLoop, decodeCounter, List.foldl_cons, List.foldl_nil,
    pushByte_toNat, topByte_toNat, shl8_toNat, show (0 : UInt32).toNat = 0 by rfl]
  omega

theorem length_encodeCounter (c : UInt32) : (encodeCounter c).length = 4 := rfl

theorem length_megolmGetData (r : Megolm Part) : (megolmGetData r).length = 128 := by
  simp only [megolmGetData, List.length_append, Vector.length_toList]

/-- The ratchet data is read back. -/
theorem partsOfBytes_getData (r : Megolm Part) (rest : Bytes) :
    partsOfBytes (megolmGetData r ++ rest) = r.data := by
  have hdrop : ∀ (a : Part) (bs : Bytes), (a.toList ++ bs).drop 32 = bs := fun a bs =>
    List.drop_left' Vector.length_toList
  have h32 : ∀ (bs : Bytes) (k : Nat), bs.drop (32 * (k + 1)) = (bs.drop 32).drop (32 * k) := by
    intro bs k
    rw [List.drop_drop]
    congr 1
    omega
  have hdata : megolmGetData r ++ rest = (r.data 0).toList ++ ((r.data 1).toList
      ++ ((r.data 2).toList ++ ((r.data 3).toList ++ rest))) := by
    simp only [megolmGetData, List.append_assoc]
  funext i
  rw [partsOfBytes, hdata]
  fin_cases i
  · exact ofBytes_append _ _
  · show ofBytes 32 (List.drop (32 * (0 + 1)) _) = _
    rw [h32, hdrop, Nat.mul_zero, List.drop_zero]
    exact ofBytes_append _ _
  · show ofBytes 32 (List.drop (32 * (1 + 1)) _) = _
    rw [h32, hdrop, h32, hdrop, Nat.mul_zero, List.drop_zero]
    exact ofBytes_append _ _
  · show ofBytes 32 (List.drop (32 * (2 + 1)) _) = _
    rw [h32, hdrop, h32, hdrop, h32, hdrop, Nat.mul_zero, List.drop_zero]
    exact ofBytes_append _ _

/-! ## Messages -/

/-- `MEGOLM_KEYS`. -/
def megolmKdfInfo : Bytes := ascii "MEGOLM_KEYS"

theorem megolmCipher_encrypt :
    (megolmCipher prim).encrypt = aesSha256CipherEncrypt prim megolmKdfInfo := rfl

/-- The part of a message that the MAC covers. -/
def messageBody (ratchet : Megolm Part) (plaintext : Bytes) : Bytes :=
  groupMessageBytes olmProtocolVersion ratchet.counter
    (cipherText prim megolmKdfInfo (megolmGetData ratchet) plaintext)

/-- The part of a message that the signature covers. -/
def signedMessage (ratchet : Megolm Part) (plaintext : Bytes) : Bytes :=
  messageBody prim ratchet plaintext
    ++ cipherMac prim megolmKdfInfo (megolmGetData ratchet) (messageBody prim ratchet plaintext)

/-- A message before base64. -/
def rawMessage (ratchet : Megolm Part) (signingKey : Ed25519KeyPair) (plaintext : Bytes) : Bytes :=
  signedMessage prim ratchet plaintext
    ++ (cryptoEd25519Sign prim signingKey (signedMessage prim ratchet plaintext)).toList

theorem length_signedMessage (ratchet : Megolm Part) (plaintext : Bytes) :
    (signedMessage prim ratchet plaintext).length
      = (messageBody prim ratchet plaintext).length + 8 := by
  rw [signedMessage, List.length_append, length_cipherMac]
  rfl

theorem length_rawMessage (ratchet : Megolm Part) (signingKey : Ed25519KeyPair)
    (plaintext : Bytes) :
    (rawMessage prim ratchet signingKey plaintext).length
      = (messageBody prim ratchet plaintext).length + 8 + 64 := by
  rw [rawMessage, List.length_append, Vector.length_toList, length_signedMessage]

theorem rawMessageLength_eq (o : OutboundGroupSession) (plaintext : Bytes) :
    rawMessageLength prim o plaintext.length
      = (rawMessage prim o.ratchet o.signingKey plaintext).length := by
  have := encodeGroupMessageLength_eq olmProtocolVersion o.ratchet.counter
    (cipherText prim megolmKdfInfo (megolmGetData o.ratchet) plaintext) cipherMacLength
    ed25519SignatureLength
  rw [length_cipherText] at this
  rw [length_rawMessage]
  exact this

/-- **SENDING**: `_encrypt` writes the raw message and moves the ratchet. -/
theorem encrypt_eq (o : OutboundGroupSession) (m : Mem) {plaintext plaintextLength buffer : Nat}
    (hdisj : Disjoint plaintext plaintextLength buffer (rawMessageLength prim o plaintextLength)) :
    encrypt prim o m plaintext plaintextLength buffer
      = (write m buffer (rawMessage prim o.ratchet o.signingKey (read m plaintext plaintextLength)),
          { o with ratchet := megolmAdvance (megolmHmac prim) o.ratchet },
          some ((messageBody prim o.ratchet (read m plaintext plaintextLength)).length + 8)) := by
  generalize hpt : read m plaintext plaintextLength = pt
  have hptlen : plaintextLength = pt.length := by rw [← hpt, length_read]
  subst hptlen
  have hraw := rawMessageLength_eq prim o pt
  rw [length_rawMessage] at hraw
  rw [hraw] at hdisj
  generalize hct : cipherText prim megolmKdfInfo (megolmGetData o.ratchet) pt = ct
  have hctlen : ct.length = cryptoAesEncryptCbcLength pt.length := by
    rw [← hct, length_cipherText]
  have hbody : messageBody prim o.ratchet pt
      = groupMessageBytes olmProtocolVersion o.ratchet.counter ct := by
    rw [messageBody, hct]
  have hlen : (messageBody prim o.ratchet pt).length
      = groupCiphertextOffset o.ratchet.counter ct.length + ct.length := by
    rw [hbody, length_groupMessageBytes]
  obtain ⟨gap, hgap, henc⟩ := encodeGroupMessage_eq m olmProtocolVersion o.ratchet.counter
    ct.length buffer
  have hstore := encodeGroupMessage_store m olmProtocolVersion o.ratchet.counter ct buffer
  rw [henc] at hstore
  -- the plaintext is still there when the header has been written
  have hread : read (write m buffer (groupMessageBytes olmProtocolVersion o.ratchet.counter gap))
      plaintext pt.length = pt := by
    rw [read_write_disjoint, hpt]
    rw [length_groupMessageBytes, hgap, ← hlen]
    rcases hdisj with h | h
    · right; omega
    · left; omega
  have hs : Streamable plaintext pt.length
      (buffer + groupCiphertextOffset o.ratchet.counter ct.length) := by
    rcases hdisj with h | h
    · right; omega
    · left; omega
  rw [encrypt, show (megolmCipher prim).encryptCiphertextLength pt.length = ct.length from
    hctlen.symm, henc]
  simp only [megolmCipher_encrypt, show (megolmCipher prim).macLength = 8 from rfl]
  rw [aesSha256CipherEncrypt_eq prim _ _ _ (by rw [hctlen]) (by show 8 ≤ _; omega) hs]
  simp only [hread, hct, show cipherMacLength = 8 from rfl, Nat.add_sub_cancel]
  rw [hstore, ← hlen, ← hbody, read_write_self, ← write_append]
  have hsigned : messageBody prim o.ratchet pt
      ++ cipherMac prim megolmKdfInfo (megolmGetData o.ratchet) (messageBody prim o.ratchet pt)
      = signedMessage prim o.ratchet pt := rfl
  rw [hsigned, ← length_signedMessage, read_write_self, store, ← write_append]
  rfl

/-- **SENDING** through the C interface: the encoded message. -/
theorem groupEncrypt_eq (o : OutboundGroupSession) (m : Mem)
    {plaintext plaintextLength message maxMessageLength : Nat}
    (hmax : encodeBase64Length (rawMessageLength prim o plaintextLength) ≤ maxMessageLength)
    (hdisj : Disjoint plaintext plaintextLength message maxMessageLength) :
    groupEncrypt prim o m plaintext plaintextLength message maxMessageLength
      = (write m message (base64.encode
            (rawMessage prim o.ratchet o.signingKey (read m plaintext plaintextLength))),
          { o with ratchet := megolmAdvance (megolmHmac prim) o.ratchet },
          some (encodeBase64Length (rawMessageLength prim o plaintextLength))) := by
  have hraw := rawMessageLength_eq prim o (read m plaintext plaintextLength)
  rw [length_read] at hraw
  have hle : rawMessageLength prim o plaintextLength
      ≤ encodeBase64Length (rawMessageLength prim o plaintextLength) := by
    have := SextetCodec.add_div_le_encodedLength (rawMessageLength prim o plaintextLength)
    rw [encodeBase64Length_eq]
    omega
  rw [groupEncrypt, if_neg (by omega)]
  simp only
  rw [encrypt_eq prim o m (by rcases hdisj with h | h
                              · left; omega
                              · right; omega)]
  simp only
  rw [hraw, encodeBase64_tail]

/-- **RECEIVING**: the checks before the cache is asked all pass on a message
    of the sender. -/
theorem groupDecrypt_open {s : InboundGroupSession} (stack : DecodeGroupMessageResults) {m : Mem}
    {ratchet : Megolm Part} {signingKey : Ed25519KeyPair} {bs : Bytes}
    {message messageLength : Nat} (plaintext maxPlaintextLength : Nat)
    (hverify : cryptoEd25519Verify prim s.signingKey (signedMessage prim ratchet bs)
      (cryptoEd25519Sign prim signingKey (signedMessage prim ratchet bs)) = true)
    (hread : read m message messageLength
      = base64.encode (rawMessage prim ratchet signingKey bs))
    (hsize : (rawMessage prim ratchet signingKey bs).length < 2 ^ 64) :
    groupDecrypt prim s stack m message messageLength plaintext maxPlaintextLength
      = (let m₁ := write m message (rawMessage prim ratchet signingKey bs)
        if maxPlaintextLength < cryptoAesEncryptCbcLength bs.length then
          (m₁, { s with lastError := .outputBufferTooSmall }, ⟨none, some ratchet.counter⟩)
        else
          match getMegolm prim s ratchet.counter with
          | (session, none) => (m₁, session, ⟨none, some ratchet.counter⟩)
          | (session, some megolm) =>
              match aesSha256CipherDecrypt prim megolmKdfInfo (megolmGetData megolm) m₁ message
                (signedMessage prim ratchet bs).length
                (message + groupCiphertextOffset ratchet.counter
                  (cryptoAesEncryptCbcLength bs.length))
                (cryptoAesEncryptCbcLength bs.length) plaintext maxPlaintextLength with
              | (m, none) =>
                  (m, { session with lastError := .badMessageMac }, ⟨none, some ratchet.counter⟩)
              | (m, some r) =>
                  (m, { session with signingKeyVerified := true },
                    ⟨some r, some ratchet.counter⟩)) := by
  have hlen : messageLength
      = encodeBase64Length (rawMessage prim ratchet signingKey bs).length := by
    rw [← length_read m message messageLength, hread, length_base64_encode]
  subst hlen
  have hdec := decodeBase64_encode hread (Or.inl (Nat.le_refl message))
  have hrawlen := length_rawMessage prim ratchet signingKey bs
  have hsl := length_signedMessage prim ratchet bs
  generalize hm₁ : write m message (rawMessage prim ratchet signingKey bs) = m₁ at hdec ⊢
  have hr₁ : read m₁ message (rawMessage prim ratchet signingKey bs).length
      = rawMessage prim ratchet signingKey bs := by rw [← hm₁, read_write_self]
  -- the decoded fields
  have htrailer : (cipherMac prim megolmKdfInfo (megolmGetData ratchet)
      (messageBody prim ratchet bs)
        ++ (cryptoEd25519Sign prim signingKey (signedMessage prim ratchet bs)).toList).length
      = 8 + 64 := by
    rw [List.length_append, length_cipherMac, Vector.length_toList]
    rfl
  have hfields := decodeGroupMessage_eq
    (by show (messageBody prim ratchet bs).length < _; omega) htrailer
    (by rw [hr₁, rawMessage, signedMessage, List.append_assoc]; rfl) stack
  rw [length_cipherText prim megolmKdfInfo (megolmGetData ratchet) bs] at hfields
  have hsigned : read m₁ message (signedMessage prim ratchet bs).length
      = signedMessage prim ratchet bs := read_prefix (hr₁.trans rfl)
  have hsignature : load 64 m₁ (message + (signedMessage prim ratchet bs).length)
      = cryptoEd25519Sign prim signingKey (signedMessage prim ratchet bs) :=
    load_middle (c := []) (by rw [List.append_nil]; exact hr₁)
  have hsub : (rawMessage prim ratchet signingKey bs).length - 64
      = (signedMessage prim ratchet bs).length := by omega
  rw [groupDecrypt, hdec, decodeBase64Length_encode]
  simp only
  rw [decrypt, show (megolmCipher prim).macLength = 8 from rfl,
    show ed25519SignatureLength = 64 from rfl, hfields]
  simp only
  rw [if_neg (by exact not_not_intro rfl), if_neg (by simp), hsub, hsigned, hsignature, hverify,
    if_neg (by decide)]
  rfl

/-- The part of the encoded message with the ciphertext, once it is decoded. -/
theorem read_ciphertext (m : Mem) (message : Nat) (ratchet : Megolm Part)
    (signingKey : Ed25519KeyPair) (bs : Bytes) :
    read (write m message (rawMessage prim ratchet signingKey bs))
        (message + groupCiphertextOffset ratchet.counter (cryptoAesEncryptCbcLength bs.length))
        (cryptoAesEncryptCbcLength bs.length)
      = cipherText prim megolmKdfInfo (megolmGetData ratchet) bs := by
  obtain ⟨a, ha, hac⟩ := groupMessageBytes_ciphertext olmProtocolVersion ratchet.counter
    (cipherText prim megolmKdfInfo (megolmGetData ratchet) bs)
  have hbody : messageBody prim ratchet bs = _ := hac _ rfl
  have := read_write_middle m message hbody
    (cipherMac prim megolmKdfInfo (megolmGetData ratchet) (messageBody prim ratchet bs)
      ++ (cryptoEd25519Sign prim signingKey (signedMessage prim ratchet bs)).toList)
  rwa [ha, length_cipherText, ← List.append_assoc] at this

/-- **RECEIVING**: a message of ratchet `ratchet` is decrypted when that ratchet
    is found in the cache. -/
theorem groupDecrypt_eq (haes : prim.AesInverts) {s s' : InboundGroupSession}
    (stack : DecodeGroupMessageResults) {m : Mem} {ratchet : Megolm Part}
    {signingKey : Ed25519KeyPair} {bs : Bytes}
    {message messageLength plaintext maxPlaintextLength : Nat}
    (hverify : cryptoEd25519Verify prim s.signingKey (signedMessage prim ratchet bs)
      (cryptoEd25519Sign prim signingKey (signedMessage prim ratchet bs)) = true)
    (hread : read m message messageLength
      = base64.encode (rawMessage prim ratchet signingKey bs))
    (hsize : (rawMessage prim ratchet signingKey bs).length < 2 ^ 64)
    (hmax : cryptoAesEncryptCbcLength bs.length ≤ maxPlaintextLength)
    (hdisj : Disjoint message messageLength plaintext maxPlaintextLength)
    (hget : getMegolm prim s ratchet.counter = (s', some ratchet)) :
    (groupDecrypt prim s stack m message messageLength plaintext maxPlaintextLength).2
        = ({ s' with signingKeyVerified := true }, ⟨some bs.length, some ratchet.counter⟩) ∧
      read (groupDecrypt prim s stack m message messageLength plaintext maxPlaintextLength).1
        plaintext bs.length = bs := by
  have hlen : messageLength
      = encodeBase64Length (rawMessage prim ratchet signingKey bs).length := by
    rw [← length_read m message messageLength, hread, length_base64_encode]
  have hle : (rawMessage prim ratchet signingKey bs).length
      ≤ encodeBase64Length (rawMessage prim ratchet signingKey bs).length := by
    have := SextetCodec.add_div_le_encodedLength (rawMessage prim ratchet signingKey bs).length
    rw [encodeBase64Length_eq]
    omega
  have hrawlen := length_rawMessage prim ratchet signingKey bs
  have hbodylen : (messageBody prim ratchet bs).length
      = groupCiphertextOffset ratchet.counter (cryptoAesEncryptCbcLength bs.length)
        + cryptoAesEncryptCbcLength bs.length := by
    rw [messageBody, length_groupMessageBytes, length_cipherText]
  have hsigned : read (write m message (rawMessage prim ratchet signingKey bs)) message
      (signedMessage prim ratchet bs).length = signedMessage prim ratchet bs :=
    read_prefix (read_write_self m message _)
  have hs : Streamable (message + groupCiphertextOffset ratchet.counter
      (cryptoAesEncryptCbcLength bs.length)) (cryptoAesEncryptCbcLength bs.length) plaintext := by
    rcases hdisj with h | h
    · right; omega
    · left; omega
  rw [groupDecrypt_open prim stack plaintext maxPlaintextLength hverify hread hsize]
  simp only
  rw [if_neg (Nat.not_lt.mpr hmax), hget]
  simp only
  rw [aesSha256CipherDecrypt_eq prim haes hmax hsigned (read_ciphertext prim m message ratchet
    signingKey bs) hs]
  exact ⟨rfl, read_prefix (read_write_self _ plaintext (bs ++ cbcPadding bs.length))⟩

/-- A message whose index is not known is refused. -/
theorem groupDecrypt_refused {s s' : InboundGroupSession} (stack : DecodeGroupMessageResults)
    {m : Mem} {ratchet : Megolm Part} {signingKey : Ed25519KeyPair} {bs : Bytes}
    {message messageLength plaintext maxPlaintextLength : Nat}
    (hverify : cryptoEd25519Verify prim s.signingKey (signedMessage prim ratchet bs)
      (cryptoEd25519Sign prim signingKey (signedMessage prim ratchet bs)) = true)
    (hread : read m message messageLength
      = base64.encode (rawMessage prim ratchet signingKey bs))
    (hsize : (rawMessage prim ratchet signingKey bs).length < 2 ^ 64)
    (hmax : cryptoAesEncryptCbcLength bs.length ≤ maxPlaintextLength)
    (hget : getMegolm prim s ratchet.counter = (s', none)) :
    (groupDecrypt prim s stack m message messageLength plaintext maxPlaintextLength).2
      = (s', ⟨none, some ratchet.counter⟩) := by
  rw [groupDecrypt_open prim stack plaintext maxPlaintextLength hverify hread hsize]
  simp only
  rw [if_neg (Nat.not_lt.mpr hmax), hget]

/-- Whatever the buffers are, the ratchets and the signing key behind a message
    of the sender are those from before or those behind the cache access. -/
theorem groupDecrypt_ratchets {s : InboundGroupSession} (stack : DecodeGroupMessageResults)
    {m : Mem} {ratchet : Megolm Part} {signingKey : Ed25519KeyPair} {bs : Bytes}
    {message messageLength : Nat} (plaintext maxPlaintextLength : Nat)
    (hverify : cryptoEd25519Verify prim s.signingKey (signedMessage prim ratchet bs)
      (cryptoEd25519Sign prim signingKey (signedMessage prim ratchet bs)) = true)
    (hread : read m message messageLength
      = base64.encode (rawMessage prim ratchet signingKey bs))
    (hsize : (rawMessage prim ratchet signingKey bs).length < 2 ^ 64) :
    ∃ s₁ e v, (s₁ = s ∨ s₁ = (getMegolm prim s ratchet.counter).1) ∧
      (groupDecrypt prim s stack m message messageLength plaintext maxPlaintextLength).2.1
        = { s₁ with lastError := e, signingKeyVerified := v } := by
  rw [groupDecrypt_open prim stack plaintext maxPlaintextLength hverify hread hsize]
  simp only
  by_cases hmax : maxPlaintextLength < cryptoAesEncryptCbcLength bs.length
  · rw [if_pos hmax]
    exact ⟨s, _, _, Or.inl rfl, rfl⟩
  · rw [if_neg hmax]
    rcases hget : getMegolm prim s ratchet.counter with ⟨s', _ | megolm⟩
    · exact ⟨s', _, _, Or.inr rfl, rfl⟩
    · simp only
      generalize aesSha256CipherDecrypt prim megolmKdfInfo (megolmGetData megolm)
        (write m message (rawMessage prim ratchet signingKey bs)) message
        (signedMessage prim ratchet bs).length _ _ plaintext maxPlaintextLength = d
      rcases d with ⟨m₂, _ | r⟩
      · exact ⟨s', _, _, Or.inr rfl, rfl⟩
      · exact ⟨s', _, _, Or.inr rfl, rfl⟩

/-! ## Session keys and exports -/

/-- A session key before base64. -/
def sessionKeyBytes (ratchet : Megolm Part) (signingKey : Ed25519KeyPair) : Bytes :=
  let body := sessionKeyBody sessionKeyVersion ratchet ratchet.counter signingKey.publicKey
  body ++ (cryptoEd25519Sign prim signingKey body).toList

/-- An exported session before base64. -/
def exportBytes (ratchet : Megolm Part) (publicKey : Vector UInt8 32) : Bytes :=
  sessionKeyBody sessionExportVersion ratchet ratchet.counter publicKey

theorem length_sessionKeyBody (version : UInt8) (ratchet : Megolm Part) (counter : UInt32)
    (publicKey : Vector UInt8 32) :
    (sessionKeyBody version ratchet counter publicKey).length = 165 := by
  rw [sessionKeyBody, List.length_cons, List.length_append, List.length_append,
    length_megolmGetData, length_encodeCounter, Vector.length_toList]

theorem length_sessionKeyBytes (ratchet : Megolm Part) (signingKey : Ed25519KeyPair) :
    (sessionKeyBytes prim ratchet signingKey).length = sessionKeyRawLength := by
  rw [sessionKeyBytes, List.length_append, Vector.length_toList, length_sessionKeyBody]
  rfl

theorem length_exportBytes (ratchet : Megolm Part) (publicKey : Vector UInt8 32) :
    (exportBytes ratchet publicKey).length = sessionExportRawLength := by
  rw [exportBytes, length_sessionKeyBody]
  rfl

/-- `olm_outbound_group_session_key` writes the encoded session key. -/
theorem outboundGroupSessionKey_eq (o : OutboundGroupSession) (m : Mem) {key keyLength : Nat}
    (h : encodeBase64Length sessionKeyRawLength ≤ keyLength) :
    outboundGroupSessionKey prim o m key keyLength
      = (write m key (base64.encode (sessionKeyBytes prim o.ratchet o.signingKey)), o,
          some (encodeBase64Length sessionKeyRawLength)) := by
  have htail := encodeBase64_tail m key (sessionKeyBytes prim o.ratchet o.signingKey)
  rw [length_sessionKeyBytes] at htail
  rw [outboundGroupSessionKey, if_neg (by omega)]
  simp only
  rw [read_write_self, store, ← write_append]
  rw [Prod.mk.injEq]
  exact ⟨htail, rfl⟩

/-- `olm_export_inbound_group_session` writes the encoded export. -/
theorem exportInboundGroupSession_eq {s s' : InboundGroupSession} (m : Mem) {key keyLength : Nat}
    {ratchet : Megolm Part}
    (h : encodeBase64Length sessionExportRawLength ≤ keyLength)
    (hget : getMegolm prim s ratchet.counter = (s', some ratchet)) :
    exportInboundGroupSession prim s m key keyLength ratchet.counter
      = (write m key (base64.encode (exportBytes ratchet s'.signingKey)), s',
          some (encodeBase64Length sessionExportRawLength)) := by
  have htail := encodeBase64_tail m key (exportBytes ratchet s'.signingKey)
  rw [length_exportBytes] at htail
  rw [exportInboundGroupSession, if_neg (by omega), hget]
  simp only
  rw [Prod.mk.injEq]
  exact ⟨htail, rfl⟩

/-- Reading the parts of a key share. -/
theorem sessionKeyBody_parts (version : UInt8) (ratchet : Megolm Part)
    (publicKey : Vector UInt8 32) (rest : Bytes) :
    let keyBuf := sessionKeyBody version ratchet ratchet.counter publicKey ++ rest
    keyBuf.getD 0 0 = version ∧ decodeCounter ((keyBuf.drop 1).take 4) = ratchet.counter ∧
    partsOfBytes (keyBuf.drop 5) = ratchet.data ∧ ofBytes 32 (keyBuf.drop 133) = publicKey := by
  have h1 : (sessionKeyBody version ratchet ratchet.counter publicKey ++ rest).drop 1
      = encodeCounter ratchet.counter
        ++ (megolmGetData ratchet ++ (publicKey.toList ++ rest)) := by
    simp only [sessionKeyBody, List.cons_append, List.drop_succ_cons, List.drop_zero,
      List.append_assoc]
  have h5 : (sessionKeyBody version ratchet ratchet.counter publicKey ++ rest).drop 5
      = megolmGetData ratchet ++ (publicKey.toList ++ rest) := by
    rw [show 5 = 1 + 4 by rfl, ← List.drop_drop, h1]
    exact List.drop_left' (length_encodeCounter _)
  have h133 : (sessionKeyBody version ratchet ratchet.counter publicKey ++ rest).drop 133
      = publicKey.toList ++ rest := by
    rw [show 133 = 5 + 128 by rfl, ← List.drop_drop, h5]
    exact List.drop_left' (length_megolmGetData _)
  refine ⟨rfl, ?_, ?_, ?_⟩
  · rw [h1, List.take_left' (length_encodeCounter _), decodeCounter_encodeCounter]
  · rw [h5, partsOfBytes_getData]
  · rw [h133]
    exact ofBytes_append _ _

/-- `olm_init_inbound_group_session` on a session key of the sender. -/
theorem initInboundGroupSession_eq {ratchet : Megolm Part} {signingKey : Ed25519KeyPair}
    (hverify : ∀ bs, cryptoEd25519Verify prim signingKey.publicKey bs
      (cryptoEd25519Sign prim signingKey bs) = true)
    (s : InboundGroupSession) {m : Mem} {sessionKey sessionKeyLength : Nat}
    (hread : read m sessionKey sessionKeyLength
      = base64.encode (sessionKeyBytes prim ratchet signingKey)) :
    initInboundGroupSession prim s m sessionKey sessionKeyLength
      = ({ s with
            initialRatchet := ratchet, latestRatchet := ratchet
            signingKey := signingKey.publicKey, signingKeyVerified := true }, some 0) := by
  have hlen : sessionKeyLength = encodeBase64Length sessionKeyRawLength := by
    rw [← length_read m sessionKey sessionKeyLength, hread, length_base64_encode,
      length_sessionKeyBytes]
  obtain ⟨h0, h1, h5, h133⟩ := sessionKeyBody_parts sessionKeyVersion ratchet signingKey.publicKey
    (cryptoEd25519Sign prim signingKey (sessionKeyBody sessionKeyVersion ratchet ratchet.counter
      signingKey.publicKey)).toList
  have htake : (sessionKeyBytes prim ratchet signingKey).take 165
      = sessionKeyBody sessionKeyVersion ratchet ratchet.counter signingKey.publicKey :=
    List.take_left' (length_sessionKeyBody _ _ _ _)
  have hdrop : ofBytes 64 ((sessionKeyBytes prim ratchet signingKey).drop 165)
      = cryptoEd25519Sign prim signingKey (sessionKeyBody sessionKeyVersion ratchet
          ratchet.counter signingKey.publicKey) := by
    rw [sessionKeyBytes, List.drop_left' (length_sessionKeyBody _ _ _ _)]
    exact ofBytes_toList _
  rw [initInboundGroupSession, initFromKey, hread]
  rw [hlen, decodeBase64Length_encode, SextetCodec.decode_encode]
  simp only
  rw [if_neg (not_not_intro rfl), initGroupSessionKeys]
  rw [show (sessionKeyBytes prim ratchet signingKey).getD 0 0 = sessionKeyVersion from h0]
  simp only
  rw [if_neg (by decide), if_neg (by decide), htake, hdrop]
  rw [show ofBytes 32 ((sessionKeyBytes prim ratchet signingKey).drop 133)
      = signingKey.publicKey from h133,
    show decodeCounter (((sessionKeyBytes prim ratchet signingKey).drop 1).take 4)
      = ratchet.counter from h1,
    show partsOfBytes ((sessionKeyBytes prim ratchet signingKey).drop 5) = ratchet.data from h5]
  rw [hverify, if_neg (by decide)]
  rfl

/-- `olm_import_inbound_group_session` on an exported session. -/
theorem importInboundGroupSession_eq {ratchet : Megolm Part} {publicKey : Vector UInt8 32}
    (s : InboundGroupSession) {m : Mem} {sessionKey sessionKeyLength : Nat}
    (hread : read m sessionKey sessionKeyLength
      = base64.encode (exportBytes ratchet publicKey)) :
    importInboundGroupSession prim s m sessionKey sessionKeyLength
      = ({ s with
            initialRatchet := ratchet, latestRatchet := ratchet
            signingKey := publicKey }, some 0) := by
  have hlen : sessionKeyLength = encodeBase64Length sessionExportRawLength := by
    rw [← length_read m sessionKey sessionKeyLength, hread, length_base64_encode,
      length_exportBytes]
  obtain ⟨h0, h1, h5, h133⟩ := sessionKeyBody_parts sessionExportVersion ratchet publicKey []
  rw [List.append_nil] at h0 h1 h5 h133
  rw [importInboundGroupSession, initFromKey, hread]
  rw [hlen, decodeBase64Length_encode, SextetCodec.decode_encode]
  simp only
  rw [if_neg (not_not_intro rfl), initGroupSessionKeys]
  rw [show (exportBytes ratchet publicKey).getD 0 0 = sessionExportVersion from h0]
  simp only
  rw [if_neg (by decide), if_pos trivial]
  rw [show ofBytes 32 ((exportBytes ratchet publicKey).drop 133) = publicKey from h133,
    show decodeCounter (((exportBytes ratchet publicKey).drop 1).take 4) = ratchet.counter from h1,
    show partsOfBytes ((exportBytes ratchet publicKey).drop 5) = ratchet.data from h5]
  rfl

end OlmGroupSession
