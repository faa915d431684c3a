import SelfOlm.Message

/-! # Message formats — round trips

    A message is a version byte and a row of fields.  `stringField` and
    `valueField` are the bytes of one field; the encoders store just these
    bytes around the gaps for the strings (`encodeString_eq`), and a decoder
    that finds them takes the field and stops behind it (`decodeString_eq`). -/

namespace OlmMessage

open ByteMemory OlmCrypto

/-! ## Variable-length integers -/

theorem varintLengthLoop_eq :
    ∀ (n value result : Nat), value ≤ n →
      varintLengthLoop n value (result + 1) = result + (Varint.encode value).length := by
  intro n
  induction n with
  | zero =>
      intro value result h
      rw [varintLengthLoop, Varint.encode_of_lt (by omega)]
      rfl
  | succ n ih =>
      intro value result h
      rw [varintLengthLoop]
      by_cases hv : value ≥ 128
      · rw [if_pos hv, Nat.shiftRight_eq_div_pow, ih _ _ (by omega),
          Varint.encode_of_ge hv, List.length_cons, show (2 : Nat) ^ 7 = 128 by rfl]
        omega
      · rw [if_neg hv, Varint.encode_of_lt (by omega)]
        rfl

theorem varintLength_eq (value : Nat) :
    varintLength value = (Varint.encode value).length := by
  rw [varintLength, varintLengthLoop_eq value value 0 (Nat.le_refl _), Nat.zero_add]

theorem group_eq (value : Nat) : (0x7F &&& value) ||| 0x80 = value % 128 + 128 := by
  rw [Nat.and_comm, show (0x7F : Nat) = 2 ^ 7 - 1 by rfl, Nat.and_two_pow_sub_one_eq_mod,
    Nat.or_comm, show (0x80 : Nat) = 2 ^ 7 * 1 by rfl,
    ← Nat.two_pow_add_eq_or_of_lt (Nat.mod_lt _ (by decide))]
  omega

theorem varintEncodeLoop_eq :
    ∀ (n : Nat) (m : Mem) (output value : Nat), value ≤ n →
      varintEncodeLoop n m output value
        = (write m output (Varint.encode value), output + (Varint.encode value).length) := by
  intro n
  induction n with
  | zero =>
      intro m output value h
      rw [varintEncodeLoop, Varint.encode_of_lt (by omega)]
      rfl
  | succ n ih =>
      intro m output value h
      rw [varintEncodeLoop]
      by_cases hv : value ≥ 128
      · rw [if_pos hv, Nat.shiftRight_eq_div_pow, ih _ _ _ (by omega), group_eq,
          Varint.encode_of_ge hv, List.length_cons,
          write_cons _ _ _ (Varint.encode _), show (2 : Nat) ^ 7 = 128 by rfl]
        rw [Prod.mk.injEq]
        exact ⟨rfl, by omega⟩
      · rw [if_neg hv, Varint.encode_of_lt (by omega)]
        rfl

theorem varintEncode_eq (m : Mem) (output value : Nat) :
    varintEncode m output value
      = (write m output (Varint.encode value), output + (Varint.encode value).length) :=
  varintEncodeLoop_eq value m output value (Nat.le_refl _)

theorem varintDecodeLoop_eq (w : Nat) (m : Mem) (p : Nat) :
    ∀ (n value : Nat),
      varintDecodeLoop w m p n value = (read m p n).foldr (Varint.pushGroup w) value := by
  intro n
  induction n with
  | zero => intro value; rfl
  | succ n ih =>
      intro value
      rw [varintDecodeLoop, ih, read_add, List.foldr_append]
      rfl

theorem varintDecode_eq (w : Nat) (m : Mem) (p k : Nat) :
    varintDecode w m p (p + k) = Varint.decode w (read m p k) := by
  rw [varintDecode, Nat.add_sub_cancel_left, varintDecodeLoop_eq, Varint.decode]

theorem varintSkipLoop_eq (m : Mem) :
    ∀ (n p : Nat), varintSkipLoop m n p = p + Varint.scan (read m p n) := by
  intro n
  induction n with
  | zero => intro p; rfl
  | succ n ih =>
      intro p
      rw [varintSkipLoop, read_succ, Varint.scan, ih]
      by_cases hb : m p &&& 0x80 = 0
      · rw [if_pos hb, if_neg (by simp only [Varint.more, hb, bne_self_eq_false]; decide)]
      · rw [if_neg hb, if_pos (by simpa only [Varint.more, bne_iff_ne] using hb)]
        omega

/-- An encoded number is skipped. -/
theorem varintSkip_encode {m : Mem} {p fin n : Nat} {rest : Bytes}
    (h : read m p (fin - p) = Varint.encode n ++ rest) :
    varintSkip m p fin = p + (Varint.encode n).length := by
  rw [varintSkip, varintSkipLoop_eq, h, Varint.scan_encode]

/-- An encoded number is decoded. -/
theorem varintDecode_encode {w : Nat} {m : Mem} {p k n : Nat} {rest : Bytes} (hn : n < 2 ^ w)
    (h : read m p k = Varint.encode n ++ rest) :
    varintDecode w m p (p + (Varint.encode n).length) = n := by
  rw [varintDecode_eq, read_prefix h, Varint.decode_encode hn]

/-! ## One field -/

/-- The bytes of a field with a string. -/
def stringField (tag : UInt8) (value : Bytes) : Bytes :=
  (tag :: Varint.encode value.length) ++ value

/-- The bytes of a field with an integer. -/
def valueField (tag : UInt8) (value : UInt32) : Bytes :=
  tag :: Varint.encode value.toNat

/-- The bytes before the string of a field. -/
def fieldHeader (valueLength : Nat) : Nat := 1 + (Varint.encode valueLength).length

theorem fieldHeader_pos (valueLength : Nat) : 0 < fieldHeader valueLength := by
  rw [fieldHeader]
  omega

theorem length_stringField (tag : UInt8) (value : Bytes) :
    (stringField tag value).length = fieldHeader value.length + value.length := by
  rw [stringField, List.length_append, List.length_cons, fieldHeader, Nat.add_comm 1]

theorem length_valueField (tag : UInt8) (value : UInt32) :
    (valueField tag value).length = 1 + (Varint.encode value.toNat).length := by
  rw [valueField, List.length_cons, Nat.add_comm]

theorem encodeValue_eq (m : Mem) (pos : Nat) (tag : UInt8) (value : UInt32) :
    encodeValue m pos tag value
      = (write m pos (valueField tag value), pos + (valueField tag value).length) := by
  rw [encodeValue, varintEncode_eq, length_valueField, valueField,
    write_cons _ _ _ (Varint.encode _), Prod.mk.injEq]
  exact ⟨rfl, by omega⟩

/-- The encoder stores a field around whatever was in the place of the string. -/
theorem encodeString_eq (m : Mem) (pos : Nat) (tag : UInt8) (valueLength : Nat) :
    ∃ gap : Bytes, gap.length = valueLength ∧
      encodeString m pos tag valueLength
        = (write m pos (stringField tag gap), pos + fieldHeader valueLength,
            pos + (stringField tag gap).length) := by
  refine ⟨read m (pos + fieldHeader valueLength) valueLength, length_read _ _ _, ?_⟩
  rw [length_stringField, length_read, encodeString, varintEncode_eq, stringField, length_read,
    write_append, List.length_cons]
  have hpos : pos + ((Varint.encode valueLength).length + 1) = pos + fieldHeader valueLength := by
    rw [fieldHeader]; omega
  -- the gap is written back unchanged
  have hgap : read m (pos + fieldHeader valueLength) valueLength
      = read (write m pos (tag :: Varint.encode valueLength))
          (pos + fieldHeader valueLength) valueLength :=
    (read_write_disjoint m (Or.inl (by rw [List.length_cons, hpos]))).symm
  rw [hpos, hgap, write_read, write_cons _ _ _ (Varint.encode _)]
  show (_, pos + 1 + _, pos + 1 + _ + _) = _
  rw [fieldHeader, Nat.add_assoc pos 1, Nat.add_assoc pos]

theorem decodeValue_eq {m : Mem} {pos fin : Nat} {tag : UInt8} {value : UInt32} {rest : Bytes}
    (h : read m pos (fin - pos) = valueField tag value ++ rest) (v : UInt32) (b : Bool) :
    decodeValue m pos fin tag v b = (pos + (valueField tag value).length, value, true) := by
  have hlen : fin - pos = (valueField tag value).length + rest.length := by
    rw [← length_read m pos (fin - pos), h, List.length_append]
  have hvl := length_valueField tag value
  have htag : m pos = tag := by
    rw [show fin - pos = (fin - pos - 1) + 1 by omega, read_succ] at h
    exact (List.cons.inj h).1
  have htail : read m (pos + 1) (fin - (pos + 1)) = Varint.encode value.toNat ++ rest := by
    rw [show fin - pos = (fin - (pos + 1)) + 1 by omega, read_succ] at h
    exact (List.cons.inj h).2
  have hval : value.toNat < 2 ^ 32 := value.toNat_lt
  rw [decodeValue, if_pos ⟨by omega, htag⟩]
  simp only [varintSkip_encode htail, varintDecode_encode hval htail, UInt32.ofNat_toNat, hvl]
  rw [Nat.add_assoc]

theorem decodeString_eq {m : Mem} {pos fin : Nat} {tag : UInt8} {value rest : Bytes}
    (hsize : value.length < 2 ^ 64)
    (h : read m pos (fin - pos) = stringField tag value ++ rest) (v : Option Nat) (l : Nat) :
    decodeString m pos fin tag v l
      = (pos + (stringField tag value).length, some (pos + fieldHeader value.length),
          value.length) := by
  have hlen : fin - pos = (stringField tag value).length + rest.length := by
    rw [← length_read m pos (fin - pos), h, List.length_append]
  have hvl := length_stringField tag value
  have hfh : fieldHeader value.length = 1 + (Varint.encode value.length).length := rfl
  rw [stringField, List.append_assoc, List.cons_append] at h
  have htag : m pos = tag := by
    rw [show fin - pos = (fin - pos - 1) + 1 by omega, read_succ] at h
    exact (List.cons.inj h).1
  have htail : read m (pos + 1) (fin - (pos + 1))
      = Varint.encode value.length ++ (value ++ rest) := by
    rw [show fin - pos = (fin - (pos + 1)) + 1 by omega, read_succ] at h
    exact (List.cons.inj h).2
  rw [decodeString, if_pos ⟨by omega, htag⟩]
  simp only [varintSkip_encode htail, varintDecode_encode hsize htail]
  rw [if_neg (by omega), hvl, hfh]
  simp only [Nat.add_assoc]

/-- The same for a field that ends the input. -/
theorem decodeString_last {m : Mem} {pos fin : Nat} {tag : UInt8} {value : Bytes}
    (hsize : value.length < 2 ^ 64)
    (h : read m pos (fin - pos) = stringField tag value) (v : Option Nat) (l : Nat) :
    decodeString m pos fin tag v l
      = (pos + (stringField tag value).length, some (pos + fieldHeader value.length),
          value.length) := by
  rw [← List.append_nil (stringField tag value)] at h
  exact decodeString_eq hsize h v l

/-- The parts of a message before and behind the string of a field. -/
theorem stringField_split (before after : Bytes) (tag : UInt8) (valueLength : Nat) :
    ∃ a, a.length = before.length + fieldHeader valueLength ∧
      ∀ k, k.length = valueLength → before ++ (stringField tag k ++ after) = a ++ (k ++ after) := by
  refine ⟨before ++ tag :: Varint.encode valueLength, ?_, fun k hk => ?_⟩
  · rw [List.length_append, List.length_cons, fieldHeader]
    omega
  · rw [stringField, hk, List.append_assoc, List.append_assoc]

theorem decodeFields_done {R : Type} (m : Mem) (fields : R → Nat → R × Nat) (fin n : Nat)
    (reader : R) : decodeFields m fields fin n reader fin = reader := by
  cases n with
  | zero => rfl
  | succ n => rw [decodeFields, if_pos rfl]

/-- A row of `decode` calls that takes everything ends the loop. -/
theorem decodeFields_once {R : Type} {m : Mem} {fields : R → Nat → R × Nat} {fin n pos : Nat}
    {reader reader' : R} (hn : 0 < n) (hpos : pos < fin)
    (h : fields reader pos = (reader', fin)) :
    decodeFields m fields fin n reader pos = reader' := by
  obtain ⟨n, rfl⟩ : ∃ k, n = k + 1 := ⟨n - 1, by omega⟩
  rw [decodeFields, if_neg (by omega), h]
  show decodeFields m fields fin n reader' (if pos = fin then _ else fin) = reader'
  rw [if_neg (by omega), decodeFields_done]

/-! ## Normal messages -/

/-- The bytes of a message without its MAC. -/
def messageBytes (version : UInt8) (counter : UInt32) (ratchetKey ciphertext : Bytes) : Bytes :=
  version :: (stringField ratchetKeyTag ratchetKey
    ++ (valueField counterTag counter ++ stringField ciphertextTag ciphertext))

/-- Where the ratchet key is. -/
def ratchetKeyOffset (ratchetKeyLength : Nat) : Nat := 1 + fieldHeader ratchetKeyLength

/-- Where the ciphertext is. -/
def ciphertextOffset (counter : UInt32) (ratchetKeyLength ciphertextLength : Nat) : Nat :=
  ratchetKeyOffset ratchetKeyLength + ratchetKeyLength
    + (1 + (Varint.encode counter.toNat).length) + fieldHeader ciphertextLength

theorem length_messageBytes (version : UInt8) (counter : UInt32) (ratchetKey ciphertext : Bytes) :
    (messageBytes version counter ratchetKey ciphertext).length
      = ciphertextOffset counter ratchetKey.length ciphertext.length + ciphertext.length := by
  rw [messageBytes, List.length_cons, List.length_append, List.length_append,
    length_stringField, length_valueField, length_stringField, ciphertextOffset,
    ratchetKeyOffset]
  omega

/-- **LENGTH** of a message, trailer included. -/
theorem encodeMessageLength_eq (version : UInt8) (counter : UInt32)
    (ratchetKey ciphertext : Bytes) (macLength : Nat) :
    encodeMessageLength counter ratchetKey.length ciphertext.length macLength
      = (messageBytes version counter ratchetKey ciphertext).length + macLength := by
  rw [length_messageBytes, encodeMessageLength, varstringLength, varstringLength,
    varintLength_eq, varintLength_eq, varintLength_eq, ciphertextOffset, ratchetKeyOffset,
    fieldHeader, fieldHeader, versionLength]
  omega

theorem encodeMessage_eq (m : Mem) (version : UInt8) (counter : UInt32)
    (ratchetKeyLength ciphertextLength output : Nat) :
    ∃ gap₁ gap₂ : Bytes, gap₁.length = ratchetKeyLength ∧ gap₂.length = ciphertextLength ∧
      encodeMessage m version counter ratchetKeyLength ciphertextLength output
        = (write m output (messageBytes version counter gap₁ gap₂),
            { ratchetKey := output + ratchetKeyOffset ratchetKeyLength
              ciphertext := output
                + ciphertextOffset counter ratchetKeyLength ciphertextLength }) := by
  obtain ⟨g₁, hg₁, h₁⟩ := encodeString_eq (write m output [version]) (output + 1) ratchetKeyTag
    ratchetKeyLength
  generalize hm₁ : write (write m output [version]) (output + 1) (stringField ratchetKeyTag g₁)
    = m₁ at h₁
  generalize hp₁ : output + 1 + (stringField ratchetKeyTag g₁).length = p₁ at h₁
  have h₂ := encodeValue_eq m₁ p₁ counterTag counter
  generalize hm₂ : write m₁ p₁ (valueField counterTag counter) = m₂ at h₂
  generalize hp₂ : p₁ + (valueField counterTag counter).length = p₂ at h₂
  obtain ⟨g₂, hg₂, h₃⟩ := encodeString_eq m₂ p₂ ciphertextTag ciphertextLength
  refine ⟨g₁, g₂, hg₁, hg₂, ?_⟩
  rw [encodeMessage]
  simp only [h₁, h₂, h₃]
  rw [Prod.mk.injEq, MessageWriter.mk.injEq]
  refine ⟨?_, by rw [ratchetKeyOffset]; omega, ?_⟩
  · rw [messageBytes, write_cons, write_append, write_append, ← hm₂, ← hm₁, ← hp₂, ← hp₁]
  · rw [← hp₂, ← hp₁, length_stringField, length_valueField, hg₁, ciphertextOffset,
      ratchetKeyOffset]
    omega

theorem messageBytes_ratchetKey (version : UInt8) (counter : UInt32)
    (ratchetKey ciphertext : Bytes) :
    ∃ a c, a.length = ratchetKeyOffset ratchetKey.length ∧
      ∀ k, k.length = ratchetKey.length →
        messageBytes version counter k ciphertext = a ++ (k ++ c) := by
  obtain ⟨a, ha, hk⟩ := stringField_split [version]
    (valueField counterTag counter ++ stringField ciphertextTag ciphertext) ratchetKeyTag
    ratchetKey.length
  exact ⟨a, _, ha, hk⟩

theorem messageBytes_ciphertext (version : UInt8) (counter : UInt32)
    (ratchetKey ciphertext : Bytes) :
    ∃ a, a.length = ciphertextOffset counter ratchetKey.length ciphertext.length ∧
      ∀ c, c.length = ciphertext.length →
        messageBytes version counter ratchetKey c = a ++ (c ++ []) := by
  obtain ⟨a, ha, hc⟩ := stringField_split
    (version :: (stringField ratchetKeyTag ratchetKey ++ valueField counterTag counter)) []
    ciphertextTag ciphertext.length
  refine ⟨a, ?_, fun c h => ?_⟩
  · rw [ha, List.length_cons, List.length_append, length_stringField, length_valueField,
      ciphertextOffset, ratchetKeyOffset]
    omega
  · rw [← hc c h, messageBytes, List.append_nil, List.cons_append, List.append_assoc]

/-- **ENCODING** a message and storing its fields. -/
theorem encodeMessage_store (m : Mem) (version : UInt8) (counter : UInt32)
    (ratchetKey ciphertext : Bytes) (output : Nat) :
    write (write (encodeMessage m version counter ratchetKey.length ciphertext.length output).1
        (output + ratchetKeyOffset ratchetKey.length) ratchetKey)
        (output + ciphertextOffset counter ratchetKey.length ciphertext.length) ciphertext
      = write m output (messageBytes version counter ratchetKey ciphertext) := by
  obtain ⟨g₁, g₂, hg₁, hg₂, h⟩ := encodeMessage_eq m version counter ratchetKey.length
    ciphertext.length output
  obtain ⟨a, c, ha, hac⟩ := messageBytes_ratchetKey version counter ratchetKey g₂
  obtain ⟨a', ha', hac'⟩ := messageBytes_ciphertext version counter ratchetKey ciphertext
  rw [h]
  simp only
  rw [hac g₁ hg₁, ← ha, write_replace m output a c hg₁, ← hac ratchetKey rfl, hac' g₂ hg₂, ← ha',
    write_replace m output a' [] hg₂, ← hac' ciphertext rfl]

/-- **DECODING** a message with a trailer. -/
theorem decodeMessage_eq {m : Mem} {input inputLength macLength : Nat} {version : UInt8}
    {counter : UInt32} {ratchetKey ciphertext mac : Bytes}
    (hsize : (messageBytes version counter ratchetKey ciphertext).length < 2 ^ 64)
    (hmac : mac.length = macLength)
    (h : read m input inputLength = messageBytes version counter ratchetKey ciphertext ++ mac)
    (reader : MessageReader) :
    decodeMessage reader m input inputLength macLength
      = { version, hasCounter := true, counter, input, inputLength
          ratchetKey := some (input + ratchetKeyOffset ratchetKey.length)
          ratchetKeyLength := ratchetKey.length
          ciphertext := some
            (input + ciphertextOffset counter ratchetKey.length ciphertext.length)
          ciphertextLength := ciphertext.length } := by
  have hlen : inputLength = (messageBytes version counter ratchetKey ciphertext).length
      + macLength := by
    rw [← length_read m input inputLength, h, List.length_append, hmac]
  have hml := length_messageBytes version counter ratchetKey ciphertext
  have hsk := length_stringField ratchetKeyTag ratchetKey
  have hsc := length_stringField ciphertextTag ciphertext
  have hvl := length_valueField counterTag counter
  simp only [ciphertextOffset, ratchetKeyOffset] at hml
  generalize hL : (messageBytes version counter ratchetKey ciphertext).length = L at *
  have hbody : read m input L = messageBytes version counter ratchetKey ciphertext := by
    rw [← hL]; exact read_prefix h
  have hpos : 0 < L := by omega
  rw [show L = (L - 1) + 1 by omega, read_succ, messageBytes] at hbody
  obtain ⟨hversion, hfields⟩ := List.cons.inj hbody
  -- the three fields, one behind the other
  have h1 := hfields
  rw [show L - 1 = input + L - (input + 1) by omega] at h1
  have h2 := read_rest h1
  have h3 := read_rest h2
  have hk : ratchetKey.length < 2 ^ 64 := by omega
  have hc : ciphertext.length < 2 ^ 64 := by omega
  have hrow : ∀ r : MessageReader,
      messageFields m (input + L) r (input + 1)
        = ({ r with
              ratchetKey := some (input + ratchetKeyOffset ratchetKey.length)
              ratchetKeyLength := ratchetKey.length, counter, hasCounter := true
              ciphertext := some
                (input + ciphertextOffset counter ratchetKey.length ciphertext.length)
              ciphertextLength := ciphertext.length }, input + L) := by
    intro r
    rw [messageFields, decodeString_eq hk h1]
    simp only
    rw [decodeValue_eq h2]
    simp only
    rw [decodeString_last hc h3]
    simp only [ratchetKeyOffset, ciphertextOffset, Prod.mk.injEq, MessageReader.mk.injEq,
      Option.some.injEq, true_and, and_true]
    omega
  rw [decodeMessage]
  simp only
  rw [if_neg (by omega), show input + inputLength - macLength = input + L by omega,
    if_neg (by omega), decodeFields_once (by omega) (by omega) (hrow _), hversion]

/-! ## Pre-key messages -/

/-- The bytes of a pre-key message. -/
def preKeyMessageBytes (version : UInt8) (oneTimeKey baseKey identityKey message : Bytes) :
    Bytes :=
  version :: (stringField oneTimeKeyIdTag oneTimeKey ++ (stringField baseKeyTag baseKey
    ++ (stringField identityKeyTag identityKey ++ stringField messageTag message)))

/-- Where the one-time key is. -/
def oneTimeKeyOffset (oneTimeKeyLength : Nat) : Nat := 1 + fieldHeader oneTimeKeyLength

/-- Where the base key is. -/
def baseKeyOffset (oneTimeKeyLength baseKeyLength : Nat) : Nat :=
  oneTimeKeyOffset oneTimeKeyLength + oneTimeKeyLength + fieldHeader baseKeyLength

/-- Where the identity key is. -/
def identityKeyOffset (oneTimeKeyLength baseKeyLength identityKeyLength : Nat) : Nat :=
  baseKeyOffset oneTimeKeyLength baseKeyLength + baseKeyLength + fieldHeader identityKeyLength

/-- Where the embedded message is. -/
def messageOffset (oneTimeKeyLength baseKeyLength identityKeyLength messageLength : Nat) : Nat :=
  identityKeyOffset oneTimeKeyLength baseKeyLength identityKeyLength + identityKeyLength
    + fieldHeader messageLength

theorem length_preKeyMessageBytes (version : UInt8)
    (oneTimeKey baseKey identityKey message : Bytes) :
    (preKeyMessageBytes version oneTimeKey baseKey identityKey message).length
      = messageOffset oneTimeKey.length baseKey.length identityKey.length message.length
        + message.length := by
  rw [preKeyMessageBytes, List.length_cons, List.length_append, List.length_append,
    List.length_append, length_stringField, length_stringField, length_stringField,
    length_stringField, messageOffset, identityKeyOffset, baseKeyOffset, oneTimeKeyOffset]
  omega

/-- **LENGTH** of a pre-key message. -/
theorem encodeOneTimeKeyMessageLength_eq (version : UInt8)
    (oneTimeKey baseKey identityKey message : Bytes) :
    encodeOneTimeKeyMessageLength oneTimeKey.length identityKey.length baseKey.length
        message.length
      = (preKeyMessageBytes version oneTimeKey baseKey identityKey message).length := by
  rw [length_preKeyMessageBytes, encodeOneTimeKeyMessageLength]
  simp only [varstringLength, varintLength_eq, messageOffset, identityKeyOffset, baseKeyOffset,
    oneTimeKeyOffset, fieldHeader, versionLength]
  omega

theorem encodeOneTimeKeyMessage_eq (m : Mem) (version : UInt8)
    (identityKeyLength baseKeyLength oneTimeKeyLength messageLength output : Nat) :
    ∃ gap₁ gap₂ gap₃ gap₄ : Bytes, gap₁.length = oneTimeKeyLength ∧
      gap₂.length = baseKeyLength ∧ gap₃.length = identityKeyLength ∧
      gap₄.length = messageLength ∧
      encodeOneTimeKeyMessage m version identityKeyLength baseKeyLength oneTimeKeyLength
          messageLength output
        = (write m output (preKeyMessageBytes version gap₁ gap₂ gap₃ gap₄),
            { oneTimeKey := output + oneTimeKeyOffset oneTimeKeyLength
              baseKey := output + baseKeyOffset oneTimeKeyLength baseKeyLength
              identityKey := output
                + identityKeyOffset oneTimeKeyLength baseKeyLength identityKeyLength
              message := output + messageOffset oneTimeKeyLength baseKeyLength
                identityKeyLength messageLength }) := by
  obtain ⟨g₁, hg₁, h₁⟩ := encodeString_eq (write m output [version]) (output + 1)
    oneTimeKeyIdTag oneTimeKeyLength
  generalize hm₁ : write (write m output [version]) (output + 1) (stringField oneTimeKeyIdTag g₁)
    = m₁ at h₁
  generalize hp₁ : output + 1 + (stringField oneTimeKeyIdTag g₁).length = p₁ at h₁
  obtain ⟨g₂, hg₂, h₂⟩ := encodeString_eq m₁ p₁ baseKeyTag baseKeyLength
  generalize hm₂ : write m₁ p₁ (stringField baseKeyTag g₂) = m₂ at h₂
  generalize hp₂ : p₁ + (stringField baseKeyTag g₂).length = p₂ at h₂
  obtain ⟨g₃, hg₃, h₃⟩ := encodeString_eq m₂ p₂ identityKeyTag identityKeyLength
  generalize hm₃ : write m₂ p₂ (stringField identityKeyTag g₃) = m₃ at h₃
  generalize hp₃ : p₂ + (stringField identityKeyTag g₃).length = p₃ at h₃
  obtain ⟨g₄, hg₄, h₄⟩ := encodeString_eq m₃ p₃ messageTag messageLength
  refine ⟨g₁, g₂, g₃, g₄, hg₁, hg₂, hg₃, hg₄, ?_⟩
  rw [length_stringField, hg₁] at hp₁
  rw [length_stringField, hg₂] at hp₂
  rw [length_stringField, hg₃] at hp₃
  rw [encodeOneTimeKeyMessage]
  simp only [h₁, h₂, h₃, h₄]
  rw [Prod.mk.injEq, PreKeyMessageWriter.mk.injEq]
  refine ⟨?_, ?_, ?_, ?_, ?_⟩
  · rw [preKeyMessageBytes, write_cons, write_append, write_append, write_append,
      length_stringField, length_stringField, length_stringField, hg₁, hg₂, hg₃, hp₁, hp₂, hp₃,
      hm₁, hm₂, hm₃]
  all_goals
    simp only [messageOffset, identityKeyOffset, baseKeyOffset, oneTimeKeyOffset]
    omega

theorem preKeyMessageBytes_oneTimeKey (version : UInt8)
    (oneTimeKey baseKey identityKey message : Bytes) :
    ∃ a c, a.length = oneTimeKeyOffset oneTimeKey.length ∧ ∀ k, k.length = oneTimeKey.length →
      preKeyMessageBytes version k baseKey identityKey message = a ++ (k ++ c) := by
  obtain ⟨a, ha, hk⟩ := stringField_split [version] (stringField baseKeyTag baseKey
    ++ (stringField identityKeyTag identityKey ++ stringField messageTag message))
    oneTimeKeyIdTag oneTimeKey.length
  exact ⟨a, _, ha, hk⟩

theorem preKeyMessageBytes_baseKey (version : UInt8)
    (oneTimeKey baseKey identityKey message : Bytes) :
    ∃ a c, a.length = baseKeyOffset oneTimeKey.length baseKey.length ∧
      ∀ k, k.length = baseKey.length →
      preKeyMessageBytes version oneTimeKey k identityKey message = a ++ (k ++ c) := by
  obtain ⟨a, ha, hk⟩ := stringField_split
    (version :: stringField oneTimeKeyIdTag oneTimeKey)
    (stringField identityKeyTag identityKey ++ stringField messageTag message)
    baseKeyTag baseKey.length
  refine ⟨a, stringField identityKeyTag identityKey ++ stringField messageTag message, ?_,
    fun k h => ?_⟩
  · rw [ha, List.length_cons, length_stringField, baseKeyOffset, oneTimeKeyOffset]
    omega
  · rw [← hk k h, preKeyMessageBytes, List.cons_append]

theorem preKeyMessageBytes_identityKey (version : UInt8)
    (oneTimeKey baseKey identityKey message : Bytes) :
    ∃ a c, a.length = identityKeyOffset oneTimeKey.length baseKey.length identityKey.length ∧
      ∀ k, k.length = identityKey.length →
      preKeyMessageBytes version oneTimeKey baseKey k message = a ++ (k ++ c) := by
  obtain ⟨a, ha, hk⟩ := stringField_split
    (version :: (stringField oneTimeKeyIdTag oneTimeKey ++ stringField baseKeyTag baseKey))
    (stringField messageTag message) identityKeyTag identityKey.length
  refine ⟨a, stringField messageTag message, ?_, fun k h => ?_⟩
  · rw [ha, List.length_cons, List.length_append, length_stringField, length_stringField,
      identityKeyOffset, baseKeyOffset, oneTimeKeyOffset]
    omega
  · rw [← hk k h, preKeyMessageBytes, List.cons_append, List.append_assoc]

theorem preKeyMessageBytes_message (version : UInt8)
    (oneTimeKey baseKey identityKey message : Bytes) :
    ∃ a, a.length = messageOffset oneTimeKey.length baseKey.length identityKey.length
        message.length ∧ ∀ k, k.length = message.length →
      preKeyMessageBytes version oneTimeKey baseKey identityKey k = a ++ (k ++ []) := by
  obtain ⟨a, ha, hk⟩ := stringField_split
    (version :: (stringField oneTimeKeyIdTag oneTimeKey ++ (stringField baseKeyTag baseKey
      ++ stringField identityKeyTag identityKey))) [] messageTag message.length
  refine ⟨a, ?_, fun k h => ?_⟩
  · rw [ha, List.length_cons, List.length_append, List.length_append, length_stringField,
      length_stringField, length_stringField, messageOffset, identityKeyOffset, baseKeyOffset,
      oneTimeKeyOffset]
    omega
  · rw [← hk k h, preKeyMessageBytes, List.append_nil, List.cons_append, List.append_assoc,
      List.append_assoc]

/-- **ENCODING** a pre-key message and storing its keys.  The place of the
    embedded message is still open. -/
theorem encodeOneTimeKeyMessage_storeKeys (m : Mem) (version : UInt8)
    (oneTimeKey baseKey identityKey : Bytes) (messageLength output : Nat) :
    ∃ gap : Bytes, gap.length = messageLength ∧
      write (write (write (encodeOneTimeKeyMessage m version identityKey.length baseKey.length
            oneTimeKey.length messageLength output).1
          (output + oneTimeKeyOffset oneTimeKey.length) oneTimeKey)
          (output + identityKeyOffset oneTimeKey.length baseKey.length identityKey.length)
            identityKey)
          (output + baseKeyOffset oneTimeKey.length baseKey.length) baseKey
        = write m output (preKeyMessageBytes version oneTimeKey baseKey identityKey gap) := by
  obtain ⟨g₁, g₂, g₃, g₄, hg₁, hg₂, hg₃, hg₄, h⟩ := encodeOneTimeKeyMessage_eq m version
    identityKey.length baseKey.length oneTimeKey.length messageLength output
  refine ⟨g₄, hg₄, ?_⟩
  obtain ⟨a, c, ha, hac⟩ := preKeyMessageBytes_oneTimeKey version oneTimeKey g₂ g₃ g₄
  obtain ⟨a', c', ha', hac'⟩ := preKeyMessageBytes_identityKey version oneTimeKey g₂ identityKey g₄
  obtain ⟨a'', c'', ha'', hac''⟩ :=
    preKeyMessageBytes_baseKey version oneTimeKey baseKey identityKey g₄
  rw [hg₂] at ha'
  rw [h]
  simp only
  rw [hac g₁ hg₁, ← ha, write_replace m output a c hg₁, ← hac oneTimeKey rfl,
    hac' g₃ hg₃, ← ha', write_replace m output a' c' hg₃, ← hac' identityKey rfl,
    hac'' g₂ hg₂, ← ha'', write_replace m output a'' c'' hg₂, ← hac'' baseKey rfl]

/-- Storing the embedded message completes the pre-key message. -/
theorem write_preKeyMessage (m : Mem) (version : UInt8)
    (oneTimeKey baseKey identityKey message : Bytes) {gap : Bytes}
    (hgap : gap.length = message.length) (output : Nat) :
    write (write m output (preKeyMessageBytes version oneTimeKey baseKey identityKey gap))
        (output + messageOffset oneTimeKey.length baseKey.length identityKey.length
          message.length) message
      = write m output (preKeyMessageBytes version oneTimeKey baseKey identityKey message) := by
  obtain ⟨a, ha, hac⟩ :=
    preKeyMessageBytes_message version oneTimeKey baseKey identityKey message
  rw [hac gap hgap, ← ha, write_replace m output a [] hgap, ← hac message rfl]

/-- **DECODING** a pre-key message. -/
theorem decodeOneTimeKeyMessage_eq {m : Mem} {input inputLength : Nat} {version : UInt8}
    {oneTimeKey baseKey identityKey message : Bytes}
    (hsize : inputLength < 2 ^ 64)
    (h : read m input inputLength
      = preKeyMessageBytes version oneTimeKey baseKey identityKey message)
    (reader : PreKeyMessageReader) :
    decodeOneTimeKeyMessage reader m input inputLength
      = { version
          oneTimeKey := some (input + oneTimeKeyOffset oneTimeKey.length)
          oneTimeKeyLength := oneTimeKey.length
          baseKey := some (input + baseKeyOffset oneTimeKey.length baseKey.length)
          baseKeyLength := baseKey.length
          identityKey := some (input
            + identityKeyOffset oneTimeKey.length baseKey.length identityKey.length)
          identityKeyLength := identityKey.length
          message := some (input + messageOffset oneTimeKey.length baseKey.length
            identityKey.length message.length)
          messageLength := message.length } := by
  have hlen : inputLength
      = (preKeyMessageBytes version oneTimeKey baseKey identityKey message).length := by
    rw [← h, length_read]
  have hml := length_preKeyMessageBytes version oneTimeKey baseKey identityKey message
  have hs₁ := length_stringField oneTimeKeyIdTag oneTimeKey
  have hs₂ := length_stringField baseKeyTag baseKey
  have hs₃ := length_stringField identityKeyTag identityKey
  have hs₄ := length_stringField messageTag message
  have hpos := fieldHeader_pos message.length
  simp only [messageOffset, identityKeyOffset, baseKeyOffset, oneTimeKeyOffset] at hml
  rw [← hlen] at hml
  have hbody := h
  rw [show inputLength = (inputLength - 1) + 1 by omega, read_succ, preKeyMessageBytes] at hbody
  obtain ⟨hversion, hfields⟩ := List.cons.inj hbody
  have h1 := hfields
  rw [show inputLength - 1 = input + inputLength - (input + 1) by omega] at h1
  have h2 := read_rest h1
  have h3 := read_rest h2
  have h4 := read_rest h3
  have hk₁ : oneTimeKey.length < 2 ^ 64 := by omega
  have hk₂ : baseKey.length < 2 ^ 64 := by omega
  have hk₃ : identityKey.length < 2 ^ 64 := by omega
  have hk₄ : message.length < 2 ^ 64 := by omega
  have hrow : ∀ r : PreKeyMessageReader,
      preKeyMessageFields m (input + inputLength) r (input + 1)
        = ({ version := r.version
             oneTimeKey := some (input + oneTimeKeyOffset oneTimeKey.length)
             oneTimeKeyLength := oneTimeKey.length
             baseKey := some (input + baseKeyOffset oneTimeKey.length baseKey.length)
             baseKeyLength := baseKey.length
             identityKey := some (input
               + identityKeyOffset oneTimeKey.length baseKey.length identityKey.length)
             identityKeyLength := identityKey.length
             message := some (input + messageOffset oneTimeKey.length baseKey.length
               identityKey.length message.length)
             messageLength := message.length }, input + inputLength) := by
    intro r
    rw [preKeyMessageFields, decodeString_eq hk₁ h1]
    simp only
    rw [decodeString_eq hk₂ h2]
    simp only
    rw [decodeString_eq hk₃ h3]
    simp only
    rw [decodeString_last hk₄ h4]
    simp only [messageOffset, identityKeyOffset, baseKeyOffset, oneTimeKeyOffset, Prod.mk.injEq,
      PreKeyMessageReader.mk.injEq, Option.some.injEq, true_and, and_true]
    omega
  rw [decodeOneTimeKeyMessage]
  simp only
  rw [if_neg (by omega), decodeFields_once (by omega) (by omega) (hrow _), hversion]

/-! ## Group messages -/

/-- The bytes of a group message without its MAC and signature. -/
def groupMessageBytes (version : UInt8) (messageIndex : UInt32) (ciphertext : Bytes) : Bytes :=
  version :: (valueField groupMessageIndexTag messageIndex
    ++ stringField groupCiphertextTag ciphertext)

/-- Where the ciphertext is. -/
def groupCiphertextOffset (messageIndex : UInt32) (ciphertextLength : Nat) : Nat :=
  1 + (1 + (Varint.encode messageIndex.toNat).length) + fieldHeader ciphertextLength

theorem length_groupMessageBytes (version : UInt8) (messageIndex : UInt32) (ciphertext : Bytes) :
    (groupMessageBytes version messageIndex ciphertext).length
      = groupCiphertextOffset messageIndex ciphertext.length + ciphertext.length := by
  rw [groupMessageBytes, List.length_cons, List.length_append, length_valueField,
    length_stringField, groupCiphertextOffset]
  omega

/-- **LENGTH** of a group message, trailers included. -/
theorem encodeGroupMessageLength_eq (version : UInt8) (messageIndex : UInt32)
    (ciphertext : Bytes) (macLength signatureLength : Nat) :
    encodeGroupMessageLength messageIndex ciphertext.length macLength signatureLength
      = (groupMessageBytes version messageIndex ciphertext).length + macLength
        + signatureLength := by
  rw [length_groupMessageBytes, encodeGroupMessageLength, varstringLength, varintLength_eq,
    varintLength_eq, groupCiphertextOffset, fieldHeader, versionLength]
  omega

theorem groupMessageBytes_ciphertext (version : UInt8) (messageIndex : UInt32)
    (ciphertext : Bytes) :
    ∃ a, a.length = groupCiphertextOffset messageIndex ciphertext.length ∧
      ∀ c, c.length = ciphertext.length →
        groupMessageBytes version messageIndex c = a ++ (c ++ []) := by
  obtain ⟨a, ha, hc⟩ := stringField_split
    (version :: valueField groupMessageIndexTag messageIndex) [] groupCiphertextTag
    ciphertext.length
  refine ⟨a, ?_, fun c h => ?_⟩
  · rw [ha, List.length_cons, length_valueField, groupCiphertextOffset]
    omega
  · rw [← hc c h, groupMessageBytes, List.append_nil, List.cons_append]

theorem encodeGroupMessage_eq (m : Mem) (version : UInt8) (messageIndex : UInt32)
    (ciphertextLength output : Nat) :
    ∃ gap : Bytes, gap.length = ciphertextLength ∧
      encodeGroupMessage m version messageIndex ciphertextLength output
        = (write m output (groupMessageBytes version messageIndex gap),
            groupCiphertextOffset messageIndex ciphertextLength + ciphertextLength,
            output + groupCiphertextOffset messageIndex ciphertextLength) := by
  have h₁ := encodeValue_eq (write m output [version]) (output + 1) groupMessageIndexTag
    messageIndex
  generalize hm₁ : write (write m output [version]) (output + 1)
    (valueField groupMessageIndexTag messageIndex) = m₁ at h₁
  generalize hp₁ : output + 1 + (valueField groupMessageIndexTag messageIndex).length = p₁ at h₁
  obtain ⟨g, hg, h₂⟩ := encodeString_eq m₁ p₁ groupCiphertextTag ciphertextLength
  refine ⟨g, hg, ?_⟩
  rw [encodeGroupMessage]
  simp only [h₁, h₂]
  rw [length_valueField] at hp₁
  rw [Prod.mk.injEq, Prod.mk.injEq]
  refine ⟨?_, ?_, ?_⟩
  · rw [groupMessageBytes, write_cons, write_append, length_valueField, hp₁, hm₁]
  · rw [length_stringField, hg, groupCiphertextOffset]
    omega
  · rw [groupCiphertextOffset]
    omega

/-- **ENCODING** a group message and storing its ciphertext. -/
theorem encodeGroupMessage_store (m : Mem) (version : UInt8) (messageIndex : UInt32)
    (ciphertext : Bytes) (output : Nat) :
    write (encodeGroupMessage m version messageIndex ciphertext.length output).1
        (output + groupCiphertextOffset messageIndex ciphertext.length) ciphertext
      = write m output (groupMessageBytes version messageIndex ciphertext) := by
  obtain ⟨g, hg, h⟩ := encodeGroupMessage_eq m version messageIndex ciphertext.length output
  obtain ⟨a, ha, hac⟩ := groupMessageBytes_ciphertext version messageIndex ciphertext
  rw [h, hac g hg, ← ha, write_replace m output a [] hg, ← hac ciphertext rfl]

/-- **DECODING** a group message with its trailers. -/
theorem decodeGroupMessage_eq {m : Mem} {input inputLength macLength signatureLength : Nat}
    {version : UInt8} {messageIndex : UInt32} {ciphertext trailer : Bytes}
    (hsize : (groupMessageBytes version messageIndex ciphertext).length < 2 ^ 64)
    (htrailer : trailer.length = macLength + signatureLength)
    (h : read m input inputLength = groupMessageBytes version messageIndex ciphertext ++ trailer)
    (results : DecodeGroupMessageResults) :
    decodeGroupMessage results m input inputLength macLength signatureLength
      = { version, messageIndex, hasMessageIndex := true
          ciphertext := some (input + groupCiphertextOffset messageIndex ciphertext.length)
          ciphertextLength := ciphertext.length } := by
  have hlen : inputLength = (groupMessageBytes version messageIndex ciphertext).length
      + (macLength + signatureLength) := by
    rw [← length_read m input inputLength, h, List.length_append, htrailer]
  have hml := length_groupMessageBytes version messageIndex ciphertext
  have hvl := length_valueField groupMessageIndexTag messageIndex
  have hsc := length_stringField groupCiphertextTag ciphertext
  simp only [groupCiphertextOffset] at hml
  generalize hL : (groupMessageBytes version messageIndex ciphertext).length = L at *
  have hbody : read m input L = groupMessageBytes version messageIndex ciphertext := by
    rw [← hL]; exact read_prefix h
  rw [show L = (L - 1) + 1 by omega, read_succ, groupMessageBytes] at hbody
  obtain ⟨hversion, hfields⟩ := List.cons.inj hbody
  have h1 := hfields
  rw [show L - 1 = input + L - (input + 1) by omega] at h1
  have h2 := read_rest h1
  have hc : ciphertext.length < 2 ^ 64 := by omega
  have hrow : ∀ (r : DecodeGroupMessageResults) (b : Bool),
      groupMessageFields m (input + L) (r, b) (input + 1)
        = (({ r with
              messageIndex
              ciphertext := some (input + groupCiphertextOffset messageIndex ciphertext.length)
              ciphertextLength := ciphertext.length }, true), input + L) := by
    intro r b
    rw [groupMessageFields]
    simp only
    rw [decodeValue_eq h1]
    simp only
    rw [decodeString_last hc h2]
    simp only [groupCiphertextOffset, Prod.mk.injEq, DecodeGroupMessageResults.mk.injEq,
      Option.some.injEq, true_and, and_true]
    omega
  rw [decodeGroupMessage]
  simp only
  rw [if_neg (by omega), show input + inputLength - (macLength + signatureLength) = input + L by
    omega, if_neg (by omega), decodeFields_once (by omega) (by omega) (hrow _ _), hversion]

/-! ## Fields lie inside the input -/

theorem varintSkipLoop_le (m : Mem) : ∀ (n p : Nat), varintSkipLoop m n p ≤ p + n := by
  intro n
  induction n with
  | zero => intro p; exact Nat.le_refl p
  | succ n ih =>
      intro p
      rw [varintSkipLoop]
      by_cases hb : m p &&& 0x80 = 0
      · rw [if_pos hb]
        omega
      · rw [if_neg hb]
        have := ih (p + 1)
        omega

theorem varintSkip_le (m : Mem) {p fin : Nat} (h : p ≤ fin) : varintSkip m p fin ≤ fin := by
  have := varintSkipLoop_le m (fin - p) p
  rw [varintSkip]
  omega

theorem le_varintSkipLoop (m : Mem) : ∀ (n p : Nat), p ≤ varintSkipLoop m n p := by
  intro n
  induction n with
  | zero => intro p; exact Nat.le_refl p
  | succ n ih =>
      intro p
      rw [varintSkipLoop]
      by_cases hb : m p &&& 0x80 = 0
      · rw [if_pos hb]
        omega
      · rw [if_neg hb]
        have := ih (p + 1)
        omega

theorem le_varintSkip (m : Mem) (p fin : Nat) : p ≤ varintSkip m p fin :=
  le_varintSkipLoop m (fin - p) p

theorem skipUnknown_le (m : Mem) {pos fin : Nat} (h : pos ≤ fin) :
    skipUnknown m pos fin ≤ fin := by
  rw [skipUnknown]
  have h1 := varintSkip_le m h
  have h2 := varintSkip_le m h1
  by_cases hpos : pos ≠ fin
  · rw [if_pos hpos]
    simp only
    split
    · exact h2
    · split
      · split
        · exact Nat.le_refl fin
        · omega
      · exact Nat.le_refl fin
  · rw [if_neg hpos]
    exact h

theorem le_skipUnknown (m : Mem) {pos fin : Nat} (h : pos ≤ fin) :
    pos ≤ skipUnknown m pos fin := by
  rw [skipUnknown]
  have h1 := le_varintSkip m pos fin
  have h2 := le_varintSkip m (varintSkip m pos fin) fin
  by_cases hpos : pos ≠ fin
  · rw [if_pos hpos]
    simp only
    split
    · omega
    · split
      · split
        · exact h
        · omega
      · exact h
  · rw [if_neg hpos]

theorem decodeValue_le (m : Mem) {pos fin : Nat} (h : pos ≤ fin) (tag : UInt8) (value : UInt32)
    (hasValue : Bool) :
    pos ≤ (decodeValue m pos fin tag value hasValue).1 ∧
      (decodeValue m pos fin tag value hasValue).1 ≤ fin := by
  rw [decodeValue]
  by_cases hfield : pos ≠ fin ∧ m pos = tag
  · rw [if_pos hfield]
    have hlt : pos + 1 ≤ fin := by
      have := hfield.1
      omega
    have hge := le_varintSkip m (pos + 1) fin
    exact ⟨Nat.le_trans (Nat.le_succ pos) hge, varintSkip_le m hlt⟩
  · rw [if_neg hfield]
    exact ⟨Nat.le_refl pos, h⟩

/-- A string that was found lies between `input` and `fin`. -/
def StringInside (input fin : Nat) (value : Option Nat) (valueLength : Nat) : Prop :=
  ∀ p, value = some p → input ≤ p ∧ p + valueLength ≤ fin

theorem stringInside_none (input fin valueLength : Nat) :
    StringInside input fin none valueLength := by
  intro p hp
  cases hp

theorem decodeString_le (m : Mem) {pos fin : Nat} (h : pos ≤ fin) (tag : UInt8)
    (value : Option Nat) (valueLength : Nat) :
    pos ≤ (decodeString m pos fin tag value valueLength).1 ∧
      (decodeString m pos fin tag value valueLength).1 ≤ fin := by
  rw [decodeString]
  by_cases hfield : pos ≠ fin ∧ m pos = tag
  · rw [if_pos hfield]
    simp only
    have hlt : pos + 1 ≤ fin := by
      have := hfield.1
      omega
    have hskip := varintSkip_le m hlt
    have hge := le_varintSkip m (pos + 1) fin
    split
    · exact ⟨h, Nat.le_refl fin⟩
    · exact ⟨by omega, by omega⟩
  · rw [if_neg hfield]
    exact ⟨Nat.le_refl pos, h⟩

theorem decodeString_inside (m : Mem) {input pos fin : Nat} (hinput : input ≤ pos) (h : pos ≤ fin)
    (tag : UInt8) {value : Option Nat} {valueLength : Nat}
    (hvalue : StringInside input fin value valueLength) :
    StringInside input fin (decodeString m pos fin tag value valueLength).2.1
      (decodeString m pos fin tag value valueLength).2.2 := by
  rw [decodeString]
  by_cases hfield : pos ≠ fin ∧ m pos = tag
  · rw [if_pos hfield]
    simp only
    have hlt : pos + 1 ≤ fin := by
      have := hfield.1
      omega
    have hskip := varintSkip_le m hlt
    have hge := le_varintSkip m (pos + 1) fin
    by_cases hlen : varintDecode 64 m (pos + 1) (varintSkip m (pos + 1) fin)
        > fin - varintSkip m (pos + 1) fin
    · rw [if_pos hlen]
      exact hvalue
    · rw [if_neg hlen]
      intro p hp
      obtain rfl := Option.some.inj hp
      simp only
      constructor
      · omega
      · omega
  · rw [if_neg hfield]
    exact hvalue

/-- What every row of `decode` calls keeps, the loop keeps. -/
theorem decodeFields_inv {R : Type} {P : R → Prop} {m : Mem} {fields : R → Nat → R × Nat}
    (input fin : Nat)
    (hrow : ∀ reader pos, input ≤ pos → pos ≤ fin → P reader →
      P (fields reader pos).1 ∧ pos ≤ (fields reader pos).2 ∧ (fields reader pos).2 ≤ fin) :
    ∀ (n : Nat) (reader : R) (pos : Nat), input ≤ pos → pos ≤ fin → P reader →
      P (decodeFields m fields fin n reader pos) := by
  intro n
  induction n with
  | zero => intro reader pos _ _ h; exact h
  | succ n ih =>
      intro reader pos hinput hfin h
      rw [decodeFields]
      by_cases hpos : pos = fin
      · rw [if_pos hpos]
        exact h
      · rw [if_neg hpos]
        obtain ⟨hreader, hge, hle⟩ := hrow reader pos hinput hfin h
        simp only
        by_cases hskip : pos = (fields reader pos).2
        · rw [if_pos hskip]
          have := le_skipUnknown m hle
          exact ih _ _ (by omega) (skipUnknown_le m hle) hreader
        · rw [if_neg hskip]
          exact ih _ _ (by omega) hle hreader

/-- **BOUNDS**: the strings that `decode_message` finds lie in the input, before the MAC. -/
theorem decodeMessage_strings_inside (reader : MessageReader) (m : Mem)
    (input inputLength macLength : Nat) :
    let decoded := decodeMessage reader m input inputLength macLength
    StringInside input (input + inputLength - macLength) decoded.ratchetKey
        decoded.ratchetKeyLength ∧
      StringInside input (input + inputLength - macLength) decoded.ciphertext
        decoded.ciphertextLength := by
  rw [decodeMessage]
  simp only
  by_cases h1 : inputLength < macLength
  · rw [if_pos h1]
    exact ⟨stringInside_none _ _ 0, stringInside_none _ _ 0⟩
  rw [if_neg h1]
  by_cases h2 : input = input + inputLength - macLength
  · rw [if_pos h2]
    exact ⟨stringInside_none _ _ 0, stringInside_none _ _ 0⟩
  rw [if_neg h2]
  generalize hfin : input + inputLength - macLength = fin at h2
  refine decodeFields_inv (P := fun r : MessageReader =>
    StringInside input fin r.ratchetKey r.ratchetKeyLength ∧
      StringInside input fin r.ciphertext r.ciphertextLength) input fin ?_ _ _ _ (by omega)
    (by omega) ⟨stringInside_none _ _ 0, stringInside_none _ _ 0⟩
  -- the row: ratchet key, counter, ciphertext
  intro r pos hge hle hr
  rw [messageFields]
  simp only
  obtain ⟨hge₁, hle₁⟩ := decodeString_le m hle ratchetKeyTag r.ratchetKey r.ratchetKeyLength
  obtain ⟨hge₂, hle₂⟩ := decodeValue_le m hle₁ counterTag r.counter r.hasCounter
  obtain ⟨hge₃, hle₃⟩ := decodeString_le m hle₂ ciphertextTag r.ciphertext r.ciphertextLength
  refine ⟨⟨decodeString_inside m hge hle ratchetKeyTag hr.1, ?_⟩, ?_, hle₃⟩
  · exact decodeString_inside m (by omega) hle₂ ciphertextTag hr.2
  · exact Nat.le_trans hge₁ (Nat.le_trans hge₂ hge₃)

/-- `decode_message` notes where the message is. -/
theorem decodeMessage_input (stack : MessageReader) (m : Mem) (input inputLength macLength : Nat) :
    (decodeMessage stack m input inputLength macLength).input = input ∧
      (decodeMessage stack m input inputLength macLength).inputLength = inputLength := by
  rw [decodeMessage]
  simp only
  by_cases h1 : inputLength < macLength
  · rw [if_pos h1]
    exact ⟨rfl, rfl⟩
  rw [if_neg h1]
  by_cases h2 : input = input + inputLength - macLength
  · rw [if_pos h2]
    exact ⟨rfl, rfl⟩
  rw [if_neg h2]
  generalize hfin : input + inputLength - macLength = fin at h2
  by_cases hle : input + 1 ≤ fin
  · refine decodeFields_inv (P := fun r : MessageReader =>
      r.input = input ∧ r.inputLength = inputLength) input fin ?_ _ _ _ (by omega) hle ⟨rfl, rfl⟩
    intro reader pos hge hle hreader
    rw [messageFields]
    simp only
    obtain ⟨hge₁, hle₁⟩ := decodeString_le m hle ratchetKeyTag reader.ratchetKey
      reader.ratchetKeyLength
    obtain ⟨hge₂, hle₂⟩ := decodeValue_le m hle₁ counterTag reader.counter reader.hasCounter
    obtain ⟨hge₃, hle₃⟩ := decodeString_le m hle₂ ciphertextTag reader.ciphertext
      reader.ciphertextLength
    exact ⟨hreader, by omega, hle₃⟩
  · omega

/-! ## The round trip of the three formats -/

/-- A region of `n` bytes inside an output of `total` bytes. -/
def Inside (output total p n : Nat) : Prop := output ≤ p ∧ p + n ≤ output + total

/-- What encoding, storing and decoding a normal message has to give. -/
def MessageRoundTrip (m : Mem) (output : Nat) (reader : MessageReader) (version : UInt8)
    (counter : UInt32) (ratchetKey ciphertext mac : Bytes) : Prop :=
  let total := encodeMessageLength counter ratchetKey.length ciphertext.length mac.length
  let (m, writer) := encodeMessage m version counter ratchetKey.length ciphertext.length output
  let m := write m writer.ratchetKey ratchetKey
  let m := write m writer.ciphertext ciphertext
  let m := write m (output + total - mac.length) mac
  let reader := decodeMessage reader m output total mac.length
  -- what is read back
  reader.version = version ∧ reader.hasCounter = true ∧ reader.counter = counter ∧
  reader.ratchetKey = some writer.ratchetKey ∧ reader.ratchetKeyLength = ratchetKey.length ∧
  read m writer.ratchetKey reader.ratchetKeyLength = ratchetKey ∧
  reader.ciphertext = some writer.ciphertext ∧ reader.ciphertextLength = ciphertext.length ∧
  read m writer.ciphertext reader.ciphertextLength = ciphertext ∧
  read m (output + total - mac.length) mac.length = mac ∧
  -- the regions of the encoder
  Inside output total writer.ratchetKey ratchetKey.length ∧
  Inside output total writer.ciphertext ciphertext.length ∧
  Disjoint writer.ratchetKey ratchetKey.length writer.ciphertext ciphertext.length ∧
  -- header, fields and trailer make up the whole
  writer.ciphertext + ciphertext.length + mac.length = output + total

/-- The same for a pre-key message. -/
def PreKeyMessageRoundTrip (m : Mem) (output : Nat) (reader : PreKeyMessageReader)
    (version : UInt8) (oneTimeKey identityKey baseKey message : Bytes) : Prop :=
  let total := encodeOneTimeKeyMessageLength oneTimeKey.length identityKey.length baseKey.length
    message.length
  let (m, writer) := encodeOneTimeKeyMessage m version identityKey.length baseKey.length
    oneTimeKey.length message.length output
  let m := write m writer.oneTimeKey oneTimeKey
  let m := write m writer.identityKey identityKey
  let m := write m writer.baseKey baseKey
  let m := write m writer.message message
  let reader := decodeOneTimeKeyMessage reader m output total
  reader.version = version ∧
  reader.oneTimeKey = some writer.oneTimeKey ∧ reader.oneTimeKeyLength = oneTimeKey.length ∧
  read m writer.oneTimeKey reader.oneTimeKeyLength = oneTimeKey ∧
  reader.identityKey = some writer.identityKey ∧
  reader.identityKeyLength = identityKey.length ∧
  read m writer.identityKey reader.identityKeyLength = identityKey ∧
  reader.baseKey = some writer.baseKey ∧ reader.baseKeyLength = baseKey.length ∧
  read m writer.baseKey reader.baseKeyLength = baseKey ∧
  reader.message = some writer.message ∧ reader.messageLength = message.length ∧
  read m writer.message reader.messageLength = message ∧
  Inside output total writer.oneTimeKey oneTimeKey.length ∧
  Inside output total writer.identityKey identityKey.length ∧
  Inside output total writer.baseKey baseKey.length ∧
  Inside output total writer.message message.length ∧
  Disjoint writer.oneTimeKey oneTimeKey.length writer.identityKey identityKey.length ∧
  Disjoint writer.oneTimeKey oneTimeKey.length writer.baseKey baseKey.length ∧
  Disjoint writer.oneTimeKey oneTimeKey.length writer.message message.length ∧
  Disjoint writer.identityKey identityKey.length writer.baseKey baseKey.length ∧
  Disjoint writer.identityKey identityKey.length writer.message message.length ∧
  Disjoint writer.baseKey baseKey.length writer.message message.length ∧
  writer.message + message.length = output + total

/-- The same for a group message, with its MAC and signature. -/
def GroupMessageRoundTrip (m : Mem) (output : Nat) (results : DecodeGroupMessageResults)
    (version : UInt8) (messageIndex : UInt32) (ciphertext mac signature : Bytes) : Prop :=
  let total := encodeGroupMessageLength messageIndex ciphertext.length mac.length
    signature.length
  let (m, headed, ciphertextPtr) :=
    encodeGroupMessage m version messageIndex ciphertext.length output
  let m := write m ciphertextPtr ciphertext
  let m := write m (output + headed) mac
  let m := write m (output + headed + mac.length) signature
  let results := decodeGroupMessage results m output total mac.length signature.length
  results.version = version ∧ results.hasMessageIndex = true ∧
  results.messageIndex = messageIndex ∧
  results.ciphertext = some ciphertextPtr ∧ results.ciphertextLength = ciphertext.length ∧
  read m ciphertextPtr results.ciphertextLength = ciphertext ∧
  read m (output + headed) mac.length = mac ∧
  read m (output + headed + mac.length) signature.length = signature ∧
  Inside output total ciphertextPtr ciphertext.length ∧
  ciphertextPtr + ciphertext.length = output + headed ∧
  headed + mac.length + signature.length = total

/-- A part of a string that was just stored is read back. -/
theorem read_write_middle (m : Mem) (output : Nat) {bytes a k c : Bytes}
    (h : bytes = a ++ (k ++ c)) (trailer : Bytes) :
    read (write m output (bytes ++ trailer)) (output + a.length) k.length = k := by
  refine read_middle (n := (bytes ++ trailer).length) (c := c ++ trailer) ?_
  rw [read_write_self, h, List.append_assoc, List.append_assoc]

theorem messageRoundTrip (m : Mem) (output : Nat) (reader : MessageReader) (version : UInt8)
    (counter : UInt32) (ratchetKey ciphertext mac : Bytes)
    (hsize : encodeMessageLength counter ratchetKey.length ciphertext.length mac.length < 2 ^ 64) :
    MessageRoundTrip m output reader version counter ratchetKey ciphertext mac := by
  have htotal := encodeMessageLength_eq version counter ratchetKey ciphertext mac.length
  have hlen := length_messageBytes version counter ratchetKey ciphertext
  have hoff : ciphertextOffset counter ratchetKey.length ciphertext.length
      = ratchetKeyOffset ratchetKey.length + ratchetKey.length
        + (1 + (Varint.encode counter.toNat).length) + fieldHeader ciphertext.length := rfl
  obtain ⟨g₁, g₂, hg₁, hg₂, henc⟩ := encodeMessage_eq m version counter ratchetKey.length
    ciphertext.length output
  have hstore := encodeMessage_store m version counter ratchetKey ciphertext output
  obtain ⟨a, c, ha, hac⟩ := messageBytes_ratchetKey version counter ratchetKey ciphertext
  obtain ⟨a', ha', hac'⟩ := messageBytes_ciphertext version counter ratchetKey ciphertext
  have hwhole : read (write m output (messageBytes version counter ratchetKey ciphertext ++ mac))
      output ((messageBytes version counter ratchetKey ciphertext).length + mac.length)
      = messageBytes version counter ratchetKey ciphertext ++ mac :=
    read_write_of_length m output (by rw [List.length_append])
  have hdec := decodeMessage_eq (by rw [htotal] at hsize; omega) rfl hwhole reader
  have hread := read_write_middle m output (hac ratchetKey rfl) mac
  have hread' := read_write_middle m output (hac' ciphertext rfl) mac
  rw [ha] at hread
  rw [ha'] at hread'
  have hmac := read_write_middle m output (k := mac) (c := [])
    (show messageBytes version counter ratchetKey ciphertext ++ mac
      = messageBytes version counter ratchetKey ciphertext ++ (mac ++ []) by
        rw [List.append_nil]) []
  rw [List.append_nil] at hmac
  rw [MessageRoundTrip, htotal]
  rw [henc] at hstore ⊢
  simp only at hstore ⊢
  rw [hstore, ← Nat.add_assoc, Nat.add_sub_cancel, ← write_append, hdec]
  refine ⟨rfl, rfl, rfl, rfl, rfl, hread, rfl, rfl, hread', hmac, ⟨?_, ?_⟩, ⟨?_, ?_⟩,
    Or.inl ?_, ?_⟩
  all_goals omega

theorem preKeyMessageRoundTrip (m : Mem) (output : Nat) (reader : PreKeyMessageReader)
    (version : UInt8) (oneTimeKey identityKey baseKey message : Bytes)
    (hsize : encodeOneTimeKeyMessageLength oneTimeKey.length identityKey.length baseKey.length
      message.length < 2 ^ 64) :
    PreKeyMessageRoundTrip m output reader version oneTimeKey identityKey baseKey message := by
  have htotal := encodeOneTimeKeyMessageLength_eq version oneTimeKey baseKey identityKey message
  have hlen := length_preKeyMessageBytes version oneTimeKey baseKey identityKey message
  have hoff₂ : baseKeyOffset oneTimeKey.length baseKey.length
      = oneTimeKeyOffset oneTimeKey.length + oneTimeKey.length + fieldHeader baseKey.length := rfl
  have hoff₃ : identityKeyOffset oneTimeKey.length baseKey.length identityKey.length
      = baseKeyOffset oneTimeKey.length baseKey.length + baseKey.length
        + fieldHeader identityKey.length := rfl
  have hoff₄ : messageOffset oneTimeKey.length baseKey.length identityKey.length message.length
      = identityKeyOffset oneTimeKey.length baseKey.length identityKey.length
        + identityKey.length + fieldHeader message.length := rfl
  obtain ⟨g₁, g₂, g₃, g₄, hg₁, hg₂, hg₃, hg₄, henc⟩ := encodeOneTimeKeyMessage_eq m version
    identityKey.length baseKey.length oneTimeKey.length message.length output
  obtain ⟨gap, hgap, hkeys⟩ := encodeOneTimeKeyMessage_storeKeys m version oneTimeKey baseKey
    identityKey message.length output
  have hstore := write_preKeyMessage m version oneTimeKey baseKey identityKey message hgap output
  obtain ⟨a₁, c₁, ha₁, hac₁⟩ :=
    preKeyMessageBytes_oneTimeKey version oneTimeKey baseKey identityKey message
  obtain ⟨a₂, c₂, ha₂, hac₂⟩ :=
    preKeyMessageBytes_baseKey version oneTimeKey baseKey identityKey message
  obtain ⟨a₃, c₃, ha₃, hac₃⟩ :=
    preKeyMessageBytes_identityKey version oneTimeKey baseKey identityKey message
  obtain ⟨a₄, ha₄, hac₄⟩ :=
    preKeyMessageBytes_message version oneTimeKey baseKey identityKey message
  have hwhole := read_write_self m output
    (preKeyMessageBytes version oneTimeKey baseKey identityKey message)
  have hdec := decodeOneTimeKeyMessage_eq (by rw [htotal] at hsize; exact hsize) hwhole reader
  have hread₁ := read_write_middle m output (hac₁ oneTimeKey rfl) []
  have hread₂ := read_write_middle m output (hac₂ baseKey rfl) []
  have hread₃ := read_write_middle m output (hac₃ identityKey rfl) []
  have hread₄ := read_write_middle m output (hac₄ message rfl) []
  rw [ha₁, List.append_nil] at hread₁
  rw [ha₂, List.append_nil] at hread₂
  rw [ha₃, List.append_nil] at hread₃
  rw [ha₄, List.append_nil] at hread₄
  rw [PreKeyMessageRoundTrip, htotal]
  rw [henc] at hkeys ⊢
  simp only at hkeys ⊢
  rw [hkeys, hstore, hdec]
  refine ⟨rfl, rfl, rfl, hread₁, rfl, rfl, hread₃, rfl, rfl, hread₂, rfl, rfl, hread₄,
    ⟨?_, ?_⟩, ⟨?_, ?_⟩, ⟨?_, ?_⟩, ⟨?_, ?_⟩, Or.inl ?_, Or.inl ?_, Or.inl ?_, Or.inr ?_,
    Or.inl ?_, Or.inl ?_, ?_⟩
  all_goals omega

theorem groupMessageRoundTrip (m : Mem) (output : Nat) (results : DecodeGroupMessageResults)
    (version : UInt8) (messageIndex : UInt32) (ciphertext mac signature : Bytes)
    (hsize : encodeGroupMessageLength messageIndex ciphertext.length mac.length
      signature.length < 2 ^ 64) :
    GroupMessageRoundTrip m output results version messageIndex ciphertext mac signature := by
  have htotal := encodeGroupMessageLength_eq version messageIndex ciphertext mac.length
    signature.length
  have hlen := length_groupMessageBytes version messageIndex ciphertext
  obtain ⟨g, hg, henc⟩ := encodeGroupMessage_eq m version messageIndex ciphertext.length output
  have hstore := encodeGroupMessage_store m version messageIndex ciphertext output
  obtain ⟨a, ha, hac⟩ := groupMessageBytes_ciphertext version messageIndex ciphertext
  have hwhole := read_write_self m output
    (groupMessageBytes version messageIndex ciphertext ++ (mac ++ signature))
  have htrailer : (mac ++ signature).length = mac.length + signature.length := List.length_append
  have hdec := decodeGroupMessage_eq (by rw [htotal] at hsize; omega) htrailer hwhole results
  have hread := read_write_middle m output (hac ciphertext rfl) (mac ++ signature)
  rw [ha] at hread
  have hmac := read_write_middle m output (k := mac) (c := [])
    (show groupMessageBytes version messageIndex ciphertext ++ mac
      = groupMessageBytes version messageIndex ciphertext ++ (mac ++ []) by
        rw [List.append_nil]) signature
  have hsignature := read_write_middle m output (k := signature) (c := [])
    (show (groupMessageBytes version messageIndex ciphertext ++ mac) ++ signature
      = (groupMessageBytes version messageIndex ciphertext ++ mac) ++ (signature ++ []) by
        rw [List.append_nil]) []
  rw [List.append_nil, List.append_assoc, List.length_append, hlen, ← Nat.add_assoc]
    at hsignature
  rw [List.append_assoc, hlen] at hmac
  rw [hlen] at htotal
  rw [GroupMessageRoundTrip, htotal]
  rw [henc] at hstore ⊢
  simp only at hstore ⊢
  have hwrite : write (write (write m output (groupMessageBytes version messageIndex ciphertext))
        (output + (groupCiphertextOffset messageIndex ciphertext.length + ciphertext.length)) mac)
        (output + (groupCiphertextOffset messageIndex ciphertext.length + ciphertext.length)
          + mac.length) signature
      = write m output
          (groupMessageBytes version messageIndex ciphertext ++ (mac ++ signature)) := by
    rw [← hlen, ← write_append, ← write_append]
  rw [hstore, hwrite]
  rw [List.length_append, List.length_append, hlen, ← Nat.add_assoc] at hdec
  rw [hdec]
  refine ⟨rfl, rfl, rfl, rfl, rfl, hread, hmac, hsignature, ⟨?_, ?_⟩, ?_, trivial⟩
  all_goals omega

/-- **ROUND TRIP** of all three wire formats, for every total size that fits
    `size_t`. -/
theorem messageFormats_roundTrip (m : Mem) (output : Nat) (version : UInt8) :
    (∀ (reader : MessageReader) (counter : UInt32) (ratchetKey ciphertext mac : Bytes),
      encodeMessageLength counter ratchetKey.length ciphertext.length mac.length < 2 ^ 64 →
      MessageRoundTrip m output reader version counter ratchetKey ciphertext mac) ∧
    (∀ (reader : PreKeyMessageReader) (oneTimeKey identityKey baseKey message : Bytes),
      encodeOneTimeKeyMessageLength oneTimeKey.length identityKey.length baseKey.length
        message.length < 2 ^ 64 →
      PreKeyMessageRoundTrip m output reader version oneTimeKey identityKey baseKey message) ∧
    (∀ (results : DecodeGroupMessageResults) (messageIndex : UInt32)
        (ciphertext mac signature : Bytes),
      encodeGroupMessageLength messageIndex ciphertext.length mac.length signature.length
        < 2 ^ 64 →
      GroupMessageRoundTrip m output results version messageIndex ciphertext mac signature) :=
  ⟨fun reader counter ratchetKey ciphertext mac h =>
      messageRoundTrip m output reader version counter ratchetKey ciphertext mac h,
    fun reader oneTimeKey identityKey baseKey message h =>
      preKeyMessageRoundTrip m output reader version oneTimeKey identityKey baseKey message h,
    fun results messageIndex ciphertext mac signature h =>
      groupMessageRoundTrip m output results version messageIndex ciphertext mac signature h⟩

/-- The round trips of short messages, with a counter of two groups. -/
theorem messageFormats_roundTrip_short :
    MessageRoundTrip (fun _ => 0) 16 ⟨0, false, 0, 0, 0, none, 0, none, 0⟩ 3 200 [1, 2] [3] [4, 5] ∧
    PreKeyMessageRoundTrip (fun _ => 0) 16 ⟨0, none, 0, none, 0, none, 0, none, 0⟩ 3
      [1] [2, 3] [] [4, 5] ∧
    GroupMessageRoundTrip (fun _ => 0) 16 ⟨0, 0, false, none, 0⟩ 3 200 [1, 2] [3] [4, 5] :=
  ⟨(messageFormats_roundTrip (fun _ => 0) 16 3).1 _ _ _ _ _ (by decide),
    (messageFormats_roundTrip (fun _ => 0) 16 3).2.1 _ _ _ _ _ (by decide),
    (messageFormats_roundTrip (fun _ => 0) 16 3).2.2 _ _ _ _ _ (by decide)⟩

end OlmMessage
