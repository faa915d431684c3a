import SelfOlm.Crypto
import SelfOlm.Lib.Varint

/-! # Message formats

    `message.cpp`: the wire formats of a normal Olm message, a pre-key message
    and a group message.  The encoders write the headers and return pointers
    to the places of the fields; the decoders return pointers into the input.
    A reader struct that the caller leaves uninitialised is an argument here:
    what the decoder does not set keeps the caller's value. -/

namespace OlmMessage

open ByteMemory OlmCrypto

/-! ## Variable-length integers -/

/-- `varint_length`; the first argument bounds the iterations. -/
def varintLengthLoop : Nat → Nat → Nat → Nat
  | 0, _, result => result
  | n + 1, value, result =>
      if value ≥ 128 then varintLengthLoop n (value >>> 7) (result + 1) else result

/-- `varint_length`. -/
def varintLength (value : Nat) : Nat := varintLengthLoop value value 1

/-- The `while` loop of `varint_encode` and the last store. -/
def varintEncodeLoop : Nat → Mem → Nat → Nat → Mem × Nat
  | 0, m, output, value => (write m output [UInt8.ofNat value], output + 1)
  | n + 1, m, output, value =>
      if value ≥ 128 then
        varintEncodeLoop n (write m output [UInt8.ofNat ((0x7F &&& value) ||| 0x80)])
          (output + 1) (value >>> 7)
      else (write m output [UInt8.ofNat value], output + 1)

/-- `varint_encode`: the memory and the position behind the number. -/
def varintEncode (m : Mem) (output value : Nat) : Mem × Nat :=
  varintEncodeLoop value m output value

/-- The `do` loop of `varint_decode`, from `varint_start + n` down. -/
def varintDecodeLoop (w : Nat) (m : Mem) (varintStart : Nat) : Nat → Nat → Nat
  | 0, value => value
  | n + 1, value =>
      varintDecodeLoop w m varintStart n
        (((value <<< 7) % 2 ^ w) ||| (0x7F &&& (m (varintStart + n)).toNat))

/-- `varint_decode<T>` for an unsigned type of `w` bits. -/
def varintDecode (w : Nat) (m : Mem) (varintStart varintEnd : Nat) : Nat :=
  varintDecodeLoop w m varintStart (varintEnd - varintStart) 0

/-- The `while` loop of `varint_skip`, with `n` bytes to the end. -/
def varintSkipLoop (m : Mem) : Nat → Nat → Nat
  | 0, input => input
  | n + 1, input =>
      if m input &&& 0x80 = 0 then input + 1 else varintSkipLoop m n (input + 1)

/-- `varint_skip`. -/
def varintSkip (m : Mem) (input inputEnd : Nat) : Nat :=
  varintSkipLoop m (inputEnd - input) input

/-- `varstring_length`. -/
def varstringLength (stringLength : Nat) : Nat :=
  varintLength stringLength + stringLength

/-! ## Fields -/

def versionLength : Nat := 1

/-- `encode` for an integer. -/
def encodeValue (m : Mem) (pos : Nat) (tag : UInt8) (value : UInt32) : Mem × Nat :=
  varintEncode (write m pos [tag]) (pos + 1) value.toNat

/-- `encode` for a string: the memory, where the string goes, and the position
    behind it. -/
def encodeString (m : Mem) (pos : Nat) (tag : UInt8) (valueLength : Nat) : Mem × Nat × Nat :=
  let (m, pos) := varintEncode (write m pos [tag]) (pos + 1) valueLength
  (m, pos, pos + valueLength)

/-- `decode` for an integer: position, value, and whether there is one. -/
def decodeValue (m : Mem) (pos fin : Nat) (tag : UInt8) (value : UInt32) (hasValue : Bool) :
    Nat × UInt32 × Bool :=
  if pos ≠ fin ∧ m pos = tag then
    let valueStart := pos + 1
    let pos := varintSkip m valueStart fin
    (pos, UInt32.ofNat (varintDecode 32 m valueStart pos), true)
  else (pos, value, hasValue)

/-- `decode` for a string: position, pointer and length. -/
def decodeString (m : Mem) (pos fin : Nat) (tag : UInt8) (value : Option Nat)
    (valueLength : Nat) : Nat × Option Nat × Nat :=
  if pos ≠ fin ∧ m pos = tag then
    let lenStart := pos + 1
    let pos := varintSkip m lenStart fin
    let len := varintDecode 64 m lenStart pos
    if len > fin - pos then (fin, value, valueLength) else (pos + len, some pos, len)
  else (pos, value, valueLength)

/-- `skip_unknown`. -/
def skipUnknown (m : Mem) (pos fin : Nat) : Nat :=
  if pos ≠ fin then
    let tag := m pos
    if tag &&& 0x7 = 0 then varintSkip m (varintSkip m pos fin) fin
    else if tag &&& 0x7 = 2 then
      let lenStart := varintSkip m pos fin
      let pos := varintSkip m lenStart fin
      let len := varintDecode 64 m lenStart pos
      if len > fin - pos then fin else pos + len
    else fin
  else pos

/-- The `while (pos != end)` loop of the decoders.  `fields` is the row of
    `decode` calls; where it makes no progress the field is skipped. -/
def decodeFields {R : Type} (m : Mem) (fields : R → Nat → R × Nat) (fin : Nat) :
    Nat → R → Nat → R
  | 0, reader, _ => reader
  | n + 1, reader, pos =>
      if pos = fin then reader
      else
        let unknown := pos
        let (reader, pos) := fields reader pos
        let pos := if unknown = pos then skipUnknown m pos fin else pos
        decodeFields m fields fin n reader pos

/-! ## Normal messages -/

def ratchetKeyTag : UInt8 := 0o12
def counterTag : UInt8 := 0o20
def ciphertextTag : UInt8 := 0o42

/-- `encode_message_length`. -/
def encodeMessageLength (counter : UInt32) (ratchetKeyLength ciphertextLength macLength : Nat) :
    Nat :=
  versionLength + (1 + varstringLength ratchetKeyLength) + (1 + varintLength counter.toNat)
    + (1 + varstringLength ciphertextLength) + macLength

structure MessageWriter where
  ratchetKey : Nat
  ciphertext : Nat

/-- `encode_message`. -/
def encodeMessage (m : Mem) (version : UInt8) (counter : UInt32)
    (ratchetKeyLength ciphertextLength output : Nat) : Mem × MessageWriter :=
  let m := write m output [version]
  let pos := output + 1
  let (m, ratchetKey, pos) := encodeString m pos ratchetKeyTag ratchetKeyLength
  let (m, pos) := encodeValue m pos counterTag counter
  let (m, ciphertext, _) := encodeString m pos ciphertextTag ciphertextLength
  (m, { ratchetKey, ciphertext })

structure MessageReader where
  version : UInt8
  hasCounter : Bool
  counter : UInt32
  input : Nat
  inputLength : Nat
  ratchetKey : Option Nat
  ratchetKeyLength : Nat
  ciphertext : Option Nat
  ciphertextLength : Nat
  deriving DecidableEq

/-- The row of `decode` calls in `decode_message`. -/
def messageFields (m : Mem) (fin : Nat) (reader : MessageReader) (pos : Nat) :
    MessageReader × Nat :=
  let (pos, ratchetKey, ratchetKeyLength) :=
    decodeString m pos fin ratchetKeyTag reader.ratchetKey reader.ratchetKeyLength
  let (pos, counter, hasCounter) :=
    decodeValue m pos fin counterTag reader.counter reader.hasCounter
  let (pos, ciphertext, ciphertextLength) :=
    decodeString m pos fin ciphertextTag reader.ciphertext reader.ciphertextLength
  ({ reader with ratchetKey, ratchetKeyLength, counter, hasCounter, ciphertext,
                 ciphertextLength }, pos)

/-- `decode_message`; `reader` is what the caller's struct holds before. -/
def decodeMessage (reader : MessageReader) (m : Mem) (input inputLength macLength : Nat) :
    MessageReader :=
  let fin := input + inputLength - macLength
  let reader := { reader with
    input, inputLength, hasCounter := false, ratchetKey := none, ratchetKeyLength := 0,
    ciphertext := none, ciphertextLength := 0 }
  if inputLength < macLength then reader
  else if input = fin then reader
  else
    decodeFields m (messageFields m fin) fin inputLength { reader with version := m input }
      (input + 1)

/-! ## Pre-key messages -/

def oneTimeKeyIdTag : UInt8 := 0o12
def baseKeyTag : UInt8 := 0o22
def identityKeyTag : UInt8 := 0o32
def messageTag : UInt8 := 0o42

/-- `encode_one_time_key_message_length`. -/
def encodeOneTimeKeyMessageLength
    (oneTimeKeyLength identityKeyLength baseKeyLength messageLength : Nat) : Nat :=
  versionLength + (1 + varstringLength oneTimeKeyLength)
    + (1 + varstringLength identityKeyLength) + (1 + varstringLength baseKeyLength)
    + (1 + varstringLength messageLength)

structure PreKeyMessageWriter where
  identityKey : Nat
  baseKey : Nat
  oneTimeKey : Nat
  message : Nat

/-- `encode_one_time_key_message`. -/
def encodeOneTimeKeyMessage (m : Mem) (version : UInt8)
    (identityKeyLength baseKeyLength oneTimeKeyLength messageLength output : Nat) :
    Mem × PreKeyMessageWriter :=
  let m := write m output [version]
  let pos := output + 1
  let (m, oneTimeKey, pos) := encodeString m pos oneTimeKeyIdTag oneTimeKeyLength
  let (m, baseKey, pos) := encodeString m pos baseKeyTag baseKeyLength
  let (m, identityKey, pos) := encodeString m pos identityKeyTag identityKeyLength
  let (m, message, _) := encodeString m pos messageTag messageLength
  (m, { identityKey, baseKey, oneTimeKey, message })

structure PreKeyMessageReader where
  version : UInt8
  identityKey : Option Nat
  identityKeyLength : Nat
  baseKey : Option Nat
  baseKeyLength : Nat
  oneTimeKey : Option Nat
  oneTimeKeyLength : Nat
  message : Option Nat
  messageLength : Nat
  deriving DecidableEq

/-- The row of `decode` calls in `decode_one_time_key_message`. -/
def preKeyMessageFields (m : Mem) (fin : Nat) (reader : PreKeyMessageReader) (pos : Nat) :
    PreKeyMessageReader × Nat :=
  let (pos, oneTimeKey, oneTimeKeyLength) :=
    decodeString m pos fin oneTimeKeyIdTag reader.oneTimeKey reader.oneTimeKeyLength
  let (pos, baseKey, baseKeyLength) :=
    decodeString m pos fin baseKeyTag reader.baseKey reader.baseKeyLength
  let (pos, identityKey, identityKeyLength) :=
    decodeString m pos fin identityKeyTag reader.identityKey reader.identityKeyLength
  let (pos, message, messageLength) :=
    decodeString m pos fin messageTag reader.message reader.messageLength
  ({ reader with oneTimeKey, oneTimeKeyLength, baseKey, baseKeyLength, identityKey,
                 identityKeyLength, message, messageLength }, pos)

/-- `decode_one_time_key_message`. -/
def decodeOneTimeKeyMessage (reader : PreKeyMessageReader) (m : Mem)
    (input inputLength : Nat) : PreKeyMessageReader :=
  let fin := input + inputLength
  let reader := { reader with
    oneTimeKey := none, oneTimeKeyLength := 0, identityKey := none, identityKeyLength := 0,
    baseKey := none, baseKeyLength := 0, message := none, messageLength := 0 }
  if input = fin then reader
  else
    decodeFields m (preKeyMessageFields m fin) fin inputLength
      { reader with version := m input } (input + 1)

/-! ## Group messages -/

def groupMessageIndexTag : UInt8 := 0o10
def groupCiphertextTag : UInt8 := 0o22

/-- `_olm_encode_group_message_length`. -/
def encodeGroupMessageLength (messageIndex : UInt32)
    (ciphertextLength macLength signatureLength : Nat) : Nat :=
  versionLength + (1 + varintLength messageIndex.toNat)
    + (1 + varstringLength ciphertextLength) + macLength + signatureLength

/-- `_olm_encode_group_message`: the memory, the length so far, and the place
    of the ciphertext. -/
def encodeGroupMessage (m : Mem) (version : UInt8) (messageIndex : UInt32)
    (ciphertextLength output : Nat) : Mem × Nat × Nat :=
  let m := write m output [version]
  let pos := output + 1
  let (m, pos) := encodeValue m pos groupMessageIndexTag messageIndex
  let (m, ciphertextPtr, pos) := encodeString m pos groupCiphertextTag ciphertextLength
  (m, pos - output, ciphertextPtr)

/-- `_OlmDecodeGroupMessageResults`. -/
structure DecodeGroupMessageResults where
  version : UInt8
  messageIndex : UInt32
  hasMessageIndex : Bool
  ciphertext : Option Nat
  ciphertextLength : Nat
  deriving DecidableEq

/-- The row of `decode` calls in `_olm_decode_group_message`; the flag is a
    local variable there. -/
def groupMessageFields (m : Mem) (fin : Nat) (s : DecodeGroupMessageResults × Bool)
    (pos : Nat) : (DecodeGroupMessageResults × Bool) × Nat :=
  let (results, hasMessageIndex) := s
  let (pos, messageIndex, hasMessageIndex) :=
    decodeValue m pos fin groupMessageIndexTag results.messageIndex hasMessageIndex
  let (pos, ciphertext, ciphertextLength) :=
    decodeString m pos fin groupCiphertextTag results.ciphertext results.ciphertextLength
  (({ results with messageIndex, ciphertext, ciphertextLength }, hasMessageIndex), pos)

/-- `_olm_decode_group_message`.  On an early return `has_message_index` is
    left as it was. -/
def decodeGroupMessage (results : DecodeGroupMessageResults) (m : Mem)
    (input inputLength macLength signatureLength : Nat) : DecodeGroupMessageResults :=
  let trailerLength := macLength + signatureLength
  let fin := input + inputLength - trailerLength
  let results := { results with messageIndex := 0, ciphertext := none, ciphertextLength := 0 }
  if inputLength < trailerLength then results
  else if input = fin then results
  else
    let (results, hasMessageIndex) :=
      decodeFields m (groupMessageFields m fin) fin inputLength
        ({ results with version := m input }, false) (input + 1)
    { results with hasMessageIndex }

end OlmMessage
