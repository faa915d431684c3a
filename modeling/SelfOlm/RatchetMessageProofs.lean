import SelfOlm.DecryptStepProofs

/-! # The messages of the ratchet

    What `encrypt` leaves in the output buffer, as one string: the header with
    counter and ratchet key, the ciphertext and the MAC of both.  `decrypt`
    finds the fields of such a string again, and the key of the message opens
    it. -/

namespace OlmRatchet

open ByteMemory OlmCrypto OlmMessage OlmList
open OlmSession (SharedKey olmSuite)

variable (prim : Primitives)

/-! ## As strings -/

/-- The `kdf_info` of the cipher of a session. -/
def olmCipherInfo : Bytes := ascii "OLM_KEYS"

/-- The message without its MAC. -/
def ratchetBody (key : MessageKey SharedKey) (ratchetKey : Curve25519PublicKey)
    (plaintext : Bytes) : Bytes :=
  messageBytes protocolVersion key.index ratchetKey.toList
    (cipherText prim olmCipherInfo key.key.toList plaintext)

/-- The message with this plaintext under this message key. -/
def ratchetMessage (key : MessageKey SharedKey) (ratchetKey : Curve25519PublicKey)
    (plaintext : Bytes) : Bytes :=
  ratchetBody prim key ratchetKey plaintext
    ++ cipherMac prim olmCipherInfo key.key.toList (ratchetBody prim key ratchetKey plaintext)

theorem olmSuite_encrypt : (olmSuite prim).ratchetCipher.encrypt
    = fun key => aesSha256CipherEncrypt prim olmCipherInfo key.toList := rfl

theorem olmSuite_decrypt : (olmSuite prim).ratchetCipher.decrypt
    = fun key => aesSha256CipherDecrypt prim olmCipherInfo key.toList := rfl

theorem length_ratchetBody (key : MessageKey SharedKey) (ratchetKey : Curve25519PublicKey)
    (plaintext : Bytes) :
    (ratchetBody prim key ratchetKey plaintext).length
      = ciphertextOffset key.index 32 (cryptoAesEncryptCbcLength plaintext.length)
        + cryptoAesEncryptCbcLength plaintext.length := by
  rw [ratchetBody, length_messageBytes, length_cipherText, Vector.length_toList]

theorem length_ratchetMessage (key : MessageKey SharedKey) (ratchetKey : Curve25519PublicKey)
    (plaintext : Bytes) :
    (ratchetMessage prim key ratchetKey plaintext).length
      = (ratchetBody prim key ratchetKey plaintext).length + 8 := by
  rw [ratchetMessage, List.length_append, length_cipherMac]
  rfl

/-- Header and MAC are short. -/
theorem length_ratchetMessage_le (key : MessageKey SharedKey) (ratchetKey : Curve25519PublicKey)
    {plaintext : Bytes} (h : plaintext.length < 2 ^ 62) :
    (ratchetMessage prim key ratchetKey plaintext).length ≤ plaintext.length + 100 := by
  have hcounter : (Varint.encode key.index.toNat).length ≤ 5 :=
    Varint.length_encode_le (Nat.lt_trans key.index.toNat_lt (by decide))
  have hkey : (Varint.encode 32).length ≤ 1 := Varint.length_encode_le (by decide)
  have hciphertext : (Varint.encode (cryptoAesEncryptCbcLength plaintext.length)).length ≤ 9 := by
    refine Varint.length_encode_le ?_
    rw [cryptoAesEncryptCbcLength]
    omega
  have hblocks : cryptoAesEncryptCbcLength plaintext.length ≤ plaintext.length + 16 := by
    rw [cryptoAesEncryptCbcLength]
    omega
  rw [length_ratchetMessage, length_ratchetBody, ciphertextOffset, ratchetKeyOffset, fieldHeader,
    fieldHeader]
  omega

/-- **THE LENGTH** that is announced is that of the message. -/
theorem encryptOutputLength_eq (r : Ratchet SharedKey) (random : Vector UInt8 32)
    (ratchetKey : Curve25519PublicKey) (plaintext : Bytes) :
    encryptOutputLength (olmSuite prim) r plaintext.length
      = (ratchetMessage prim (sendingKey (olmSuite prim) r random) ratchetKey plaintext).length := by
  have hlength : ∀ counter : UInt32,
      encodeMessageLength counter curve25519KeyLength
        ((olmSuite prim).ratchetCipher.encryptCiphertextLength plaintext.length)
        (olmSuite prim).ratchetCipher.macLength
      = ciphertextOffset counter 32 (cryptoAesEncryptCbcLength plaintext.length)
        + cryptoAesEncryptCbcLength plaintext.length + 8 := by
    intro counter
    have heq := encodeMessageLength_eq protocolVersion counter ratchetKey.toList
      (cipherText prim olmCipherInfo [] plaintext) 8
    rw [length_messageBytes, Vector.length_toList, length_cipherText] at heq
    exact heq
  rw [length_ratchetMessage, length_ratchetBody, encryptOutputLength, hlength]
  unfold sendingKey senderChainFor
  cases r.senderChain.toList with
  | nil => rfl
  | cons chain rest => rfl

/-! ## Sending -/

/-- **A MESSAGE THAT IS SENT**: the string, in the output buffer. -/
theorem encrypt_message {r r' : Ratchet SharedKey} {m m' : Mem}
    {plaintext plaintextLength random randomLength output maxOutputLength n : Nat}
    (h : encrypt (olmSuite prim) r m plaintext plaintextLength random randomLength output
      maxOutputLength = (m', r', some n))
    (hdisj : Disjoint plaintext plaintextLength output n) :
    m' = write m output (ratchetMessage prim (sendingKey (olmSuite prim) r (load 32 m random))
        (senderChainFor (olmSuite prim) r (load 32 m random)).2.ratchetKey.publicKey
        (read m plaintext plaintextLength)) ∧
      n = (ratchetMessage prim (sendingKey (olmSuite prim) r (load 32 m random))
        (senderChainFor (olmSuite prim) r (load 32 m random)).2.ratchetKey.publicKey
        (read m plaintext plaintextLength)).length := by
  generalize hpt : read m plaintext plaintextLength = pt
  have hptlen : plaintextLength = pt.length := by rw [← hpt, length_read]
  subst hptlen
  obtain ⟨rfl, -, hm⟩ := encrypt_stored (olmSuite prim) h
  have hlength := encryptOutputLength_eq prim r (load 32 m random)
    (senderChainFor (olmSuite prim) r (load 32 m random)).2.ratchetKey.publicKey pt
  refine ⟨?_, hlength⟩
  rw [hm]
  simp only [afterStoring]
  rw [length_ratchetMessage] at hlength
  rw [sendingKey] at hlength ⊢
  generalize (senderChainFor (olmSuite prim) r (load 32 m random)).2 = chain at hlength ⊢
  generalize createMessageKeys (olmSuite prim) chain.chainKey = key at hlength ⊢
  generalize hct : cipherText prim olmCipherInfo key.key.toList pt = ct
  have hctlen : ct.length = cryptoAesEncryptCbcLength pt.length := by
    rw [← hct, length_cipherText]
  have hbody : ratchetBody prim key chain.ratchetKey.publicKey pt
      = messageBytes protocolVersion key.index chain.ratchetKey.publicKey.toList ct := by
    rw [ratchetBody, hct]
  have hbodylen := length_messageBytes protocolVersion key.index
    chain.ratchetKey.publicKey.toList ct
  rw [← hbody, Vector.length_toList] at hbodylen
  obtain ⟨gap₁, gap₂, hgap₁, hgap₂, henc⟩ := encodeMessage_eq m protocolVersion key.index 32
    ct.length output
  have hstore := encodeMessage_store m protocolVersion key.index
    chain.ratchetKey.publicKey.toList ct output
  rw [Vector.length_toList, henc] at hstore
  rw [hlength] at hdisj
  -- the plaintext is still there when header and ratchet key have been written
  have hread : read (write (write m output
      (messageBytes protocolVersion key.index gap₁ gap₂)) (output + ratchetKeyOffset 32)
      chain.ratchetKey.publicKey.toList) plaintext pt.length = pt := by
    have hheader := length_messageBytes protocolVersion key.index gap₁ gap₂
    rw [hgap₁, hgap₂] at hheader
    rw [ciphertextOffset] at hbodylen hheader
    rw [read_write_disjoint, read_write_disjoint, hpt]
    · rw [hheader]
      rcases hdisj with hd | hd
      · right; omega
      · left; omega
    · rw [Vector.length_toList]
      rcases hdisj with hd | hd
      · right; omega
      · left; omega
  have hs : Streamable plaintext pt.length (output + ciphertextOffset key.index 32 ct.length) := by
    rcases hdisj with hd | hd
    · right; omega
    · left; omega
  rw [show (olmSuite prim).ratchetCipher.encryptCiphertextLength pt.length = ct.length from
    hctlen.symm, show curve25519KeyLength = 32 from rfl, henc]
  simp only [olmSuite_encrypt, store]
  rw [aesSha256CipherEncrypt_eq prim _ _ _ (by rw [hctlen]) (by show 8 ≤ _; omega) hs]
  simp only [hread, hct, show cipherMacLength = 8 from rfl]
  rw [hstore, hlength, Nat.add_sub_cancel, ← hbody, read_write_self, ← write_append]
  rfl

/-! ## Receiving -/

section Receiving

variable {prim}

/-- A message of the ratchet in memory. -/
structure Holds (prim : Primitives) (m : Mem) (input inputLength : Nat)
    (key : MessageKey SharedKey) (ratchetKey : Curve25519PublicKey) (bs : Bytes) : Prop where
  size : inputLength < 2 ^ 64
  read_eq : read m input inputLength = ratchetMessage prim key ratchetKey bs

variable {m : Mem} {input inputLength : Nat} {key : MessageKey SharedKey}
  {ratchetKey : Curve25519PublicKey} {bs : Bytes}

theorem Holds.length (h : Holds prim m input inputLength key ratchetKey bs) :
    inputLength = (ratchetBody prim key ratchetKey bs).length + 8 := by
  rw [← length_ratchetMessage, ← h.read_eq, length_read]

/-- The reader of the message. -/
theorem Holds.decodeMessage_eq (h : Holds prim m input inputLength key ratchetKey bs)
    (stack : MessageReader) :
    decodeMessage stack m input inputLength (olmSuite prim).ratchetCipher.macLength
      = { version := protocolVersion, hasCounter := true, counter := key.index, input, inputLength
          ratchetKey := some (input + ratchetKeyOffset 32), ratchetKeyLength := 32
          ciphertext := some (input
            + ciphertextOffset key.index 32 (cryptoAesEncryptCbcLength bs.length))
          ciphertextLength := cryptoAesEncryptCbcLength bs.length } := by
  have hlength := h.length
  have hsize := h.size
  have hbody : (messageBytes protocolVersion key.index ratchetKey.toList
      (cipherText prim olmCipherInfo key.key.toList bs)).length < 2 ^ 64 := by
    rw [ratchetBody] at hlength
    omega
  have hdecode := OlmMessage.decodeMessage_eq hbody
    (length_cipherMac prim olmCipherInfo key.key.toList (ratchetBody prim key ratchetKey bs))
    h.read_eq stack
  rw [Vector.length_toList, length_cipherText] at hdecode
  exact hdecode

theorem Holds.readerRatchetKey_eq (h : Holds prim m input inputLength key ratchetKey bs)
    (stack : MessageReader) :
    readerRatchetKey m (decodeMessage stack m input inputLength
      (olmSuite prim).ratchetCipher.macLength) = ratchetKey := by
  obtain ⟨a, c, ha, hac⟩ := messageBytes_ratchetKey protocolVersion key.index ratchetKey.toList
    (cipherText prim olmCipherInfo key.key.toList bs)
  have hread := h.read_eq
  rw [ratchetMessage, ratchetBody, hac ratchetKey.toList rfl, List.append_assoc,
    List.append_assoc] at hread
  rw [h.decodeMessage_eq stack, readerRatchetKey, Option.getD_some,
    show ratchetKeyOffset 32 = a.length by rw [ha, Vector.length_toList]]
  exact load_middle hread

theorem Holds.counter_eq (h : Holds prim m input inputLength key ratchetKey bs)
    (stack : MessageReader) :
    (decodeMessage stack m input inputLength (olmSuite prim).ratchetCipher.macLength).counter
      = key.index := by
  rw [h.decodeMessage_eq stack]

theorem Holds.read_ciphertext (h : Holds prim m input inputLength key ratchetKey bs) :
    read m (input + ciphertextOffset key.index 32 (cryptoAesEncryptCbcLength bs.length))
        (cryptoAesEncryptCbcLength bs.length)
      = cipherText prim olmCipherInfo key.key.toList bs := by
  obtain ⟨a, ha, hac⟩ := messageBytes_ciphertext protocolVersion key.index ratchetKey.toList
    (cipherText prim olmCipherInfo key.key.toList bs)
  have hread := h.read_eq
  rw [ratchetMessage, ratchetBody, hac _ rfl, List.append_nil, List.append_assoc] at hread
  have hmiddle := read_middle hread
  rw [ha, Vector.length_toList, length_cipherText] at hmiddle
  exact hmiddle

/-- The message passes the checks of its header. -/
theorem Holds.header (h : Holds prim m input inputLength key ratchetKey bs)
    (stack : MessageReader) {maxPlaintextLength : Nat}
    (hroom : cryptoAesEncryptCbcLength bs.length ≤ maxPlaintextLength) :
    Header (olmSuite prim) (decodeMessage stack m input inputLength
      (olmSuite prim).ratchetCipher.macLength) maxPlaintextLength := by
  rw [h.decodeMessage_eq stack]
  refine ⟨rfl, rfl, ?_, ?_, hroom, rfl⟩
  · exact Option.some_ne_none _
  · exact Option.some_ne_none _

/-- **THE KEY OF A MESSAGE OPENS IT**: the plaintext and its padding are stored. -/
theorem Holds.verify (h : Holds prim m input inputLength key ratchetKey bs)
    (hinverts : prim.AesInverts) (stack : MessageReader) {plaintext maxPlaintextLength : Nat}
    (hroom : cryptoAesEncryptCbcLength bs.length ≤ maxPlaintextLength)
    (hseparate : Separate plaintext maxPlaintextLength input inputLength) :
    verifyMacAndDecrypt (olmSuite prim) key (decodeMessage stack m input inputLength
        (olmSuite prim).ratchetCipher.macLength) m plaintext maxPlaintextLength
      = (write m plaintext (bs ++ cbcPadding bs.length), some bs.length) := by
  have hlength := h.length
  rw [length_ratchetBody] at hlength
  have hs : Streamable (input
      + ciphertextOffset key.index 32 (cryptoAesEncryptCbcLength bs.length))
      (cryptoAesEncryptCbcLength bs.length) plaintext := by
    rcases hseparate with hd | hd
    · left; omega
    · right; omega
  rw [h.decodeMessage_eq stack, verifyMacAndDecrypt, olmSuite_decrypt]
  exact aesSha256CipherDecrypt_eq prim hinverts hroom h.read_eq h.read_ciphertext hs

/-- The plaintext buffer leaves the message alone. -/
theorem Holds.readerRatchetKey_write (h : Holds prim m input inputLength key ratchetKey bs)
    (stack : MessageReader) {plaintext maxPlaintextLength : Nat}
    (hroom : cryptoAesEncryptCbcLength bs.length ≤ maxPlaintextLength)
    (hseparate : Separate plaintext maxPlaintextLength input inputLength) :
    readerRatchetKey (write m plaintext (bs ++ cbcPadding bs.length))
      (decodeMessage stack m input inputLength (olmSuite prim).ratchetCipher.macLength)
      = readerRatchetKey m
          (decodeMessage stack m input inputLength (olmSuite prim).ratchetCipher.macLength) := by
  have hdisjoint := (h.header stack hroom).ratchetKey_disjoint (olmSuite prim) hseparate
  refine load_congr (read_write_disjoint m ?_)
  have hlength : (bs ++ cbcPadding bs.length).length = cryptoAesEncryptCbcLength bs.length := by
    rw [List.length_append, cbcPadding, List.length_replicate, cryptoAesEncryptCbcLength]
    omega
  rw [hlength]
  rcases hdisjoint with hd | hd
  · left; omega
  · right; omega

/-- **RECEIVING** the next or a later message of a chain that is there. -/
theorem Holds.decrypt_next (h : Holds prim m input inputLength key ratchetKey bs)
    (hinverts : prim.AesInverts) (stack : MessageReader) {plaintext maxPlaintextLength : Nat}
    (hroom : cryptoAesEncryptCbcLength bs.length ≤ maxPlaintextLength)
    (hseparate : Separate plaintext maxPlaintextLength input inputLength)
    {r : Ratchet SharedKey} {before after : List (ReceiverChain SharedKey)}
    {chain : ReceiverChain SharedKey} (hlist : r.receiverChains.toList = before ++ chain :: after)
    (hfirst : ∀ other ∈ before, other.ratchetKey ≠ ratchetKey)
    (hchain : chain.ratchetKey = ratchetKey) (hcounter : ¬key.index < chain.chainKey.index)
    (hgap : key.index.toNat - chain.chainKey.index.toNat ≤ maxMessageGap)
    (hkey : messageKeyOf (olmSuite prim) chain.chainKey key.index.toNat = key) :
    decrypt (olmSuite prim) r stack m input inputLength plaintext maxPlaintextLength
      = (write m plaintext (bs ++ cbcPadding bs.length), { r with
          receiverChains := r.receiverChains.set before.length
            (chainBehind (olmSuite prim) chain key.index)
          skippedMessageKeys := skippedPast (olmSuite prim) chain key.index r.skippedMessageKeys },
        some bs.length) := by
  have hverify := h.verify hinverts stack hroom hseparate
  have hratchet := h.readerRatchetKey_eq stack
  have hindex := h.counter_eq stack
  rw [decrypt_eq _ (h.header stack hroom)]
  generalize decodeMessage stack m input inputLength (olmSuite prim).ratchetCipher.macLength
    = reader at *
  rw [← hratchet] at hfirst hchain
  rw [← hindex] at hcounter hgap hkey ⊢
  refine decryptChecked_next _ (findChain_first hlist hfirst hchain) ?_ hcounter hgap ?_
  · rw [hlist, List.getElem?_append_right (Nat.le_refl _), Nat.sub_self]
    rfl
  · rw [hkey]
    exact hverify

/-- **RECEIVING** a message of a chain that is not there. -/
theorem Holds.decrypt_new (h : Holds prim m input inputLength key ratchetKey bs)
    (hinverts : prim.AesInverts) (stack : MessageReader) {plaintext maxPlaintextLength : Nat}
    (hroom : cryptoAesEncryptCbcLength bs.length ≤ maxPlaintextLength)
    (hseparate : Separate plaintext maxPlaintextLength input inputLength)
    {r : Ratchet SharedKey} {senderChain : SenderChain SharedKey}
    (habsent : ratchetKey ∉ receiverKeys r) (hsender : r.senderChain.toList = [senderChain])
    (hgap : key.index.toNat ≤ maxMessageGap)
    (hkey : messageKeyOf (olmSuite prim)
      (derivedChain (olmSuite prim) r senderChain ratchetKey).chainKey key.index.toNat = key) :
    decrypt (olmSuite prim) r stack m input inputLength plaintext maxPlaintextLength
      = (write m plaintext (bs ++ cbcPadding bs.length),
        { withDerivedChain (olmSuite prim) r senderChain ratchetKey with
          receiverChains := r.receiverChains.insert
            (chainBehind (olmSuite prim) (derivedChain (olmSuite prim) r senderChain ratchetKey)
              key.index)
          skippedMessageKeys := skippedPast (olmSuite prim)
            (derivedChain (olmSuite prim) r senderChain ratchetKey) key.index
            r.skippedMessageKeys },
        some bs.length) := by
  have hverify := h.verify hinverts stack hroom hseparate
  have hratchet := h.readerRatchetKey_eq stack
  have hsame := h.readerRatchetKey_write stack hroom hseparate
  have hindex := h.counter_eq stack
  rw [decrypt_eq _ (h.header stack hroom)]
  generalize decodeMessage stack m input inputLength (olmSuite prim).ratchetCipher.macLength
    = reader at *
  subst hratchet
  rw [← hindex] at hgap hkey ⊢
  refine decryptChecked_new _ (findChain_absent ?_) hsender hgap ?_ hsame
  · intro chain hchain hsame
    exact habsent (List.mem_map.mpr ⟨chain, hchain, hsame⟩)
  · rw [hkey]
    exact hverify

end Receiving

end OlmRatchet
