import Mathlib.Logic.Relation
import SelfOlm.DecoderLoopProofs

/-! # Field order and unknown fields

    A payload is a row of complete fields, with tags and integers of any number of bytes.
    Over such a payload `fieldStarts` are the places of its fields, so each decoder holds
    for every tag that it knows what the last field with it says, in whatever order it
    tries them.  Fields may be inserted, removed and swapped where no known tag is
    concerned. -/

namespace OlmMessage

open ByteMemory OlmCrypto

/-! ## Payloads -/

/-- The bytes of an integer up to its last group. -/
structure VarintBytes where
  groups : Bytes
  terminated : Varint.Terminated groups

/-- The wire type of a tag is in the low bits of its first byte. -/
def VarintBytes.wireType (tag : VarintBytes) : UInt8 := tag.groups.headD 0 &&& 0x7

/-- A complete field: an integer, or a string with its length. -/
inductive PayloadField where
  | value (tag integer : VarintBytes) (hwire : tag.wireType = 0)
  | string (tag length : VarintBytes) (bytes : Bytes) (hwire : tag.wireType = 2)
      (hlength : Varint.value length.groups = bytes.length)

/-- What a field says. -/
inductive FieldContent where
  | integer (n : UInt32)
  | bytes (bs : Bytes)
  deriving DecidableEq

namespace PayloadField

def tag : PayloadField → VarintBytes
  | value tag _ _ => tag
  | string tag _ _ _ _ => tag

def bytes : PayloadField → Bytes
  | value tag integer _ => tag.groups ++ integer.groups
  | string tag length bytes _ _ => tag.groups ++ (length.groups ++ bytes)

def content : PayloadField → FieldContent
  | value _ integer _ => .integer (UInt32.ofNat (Varint.value integer.groups))
  | string _ _ bytes _ _ => .bytes bytes

/-- The tags that the decoders know have one byte. -/
def HasTag (field : PayloadField) (tag : UInt8) : Prop := field.tag.groups = [tag]

instance (field : PayloadField) (tag : UInt8) : Decidable (field.HasTag tag) :=
  inferInstanceAs (Decidable (field.tag.groups = [tag]))

end PayloadField

def payload (fields : List PayloadField) : Bytes := fields.flatMap PayloadField.bytes

/-- A version byte, the fields, and a trailer behind them. -/
def message (version : UInt8) (fields : List PayloadField) (trailer : Bytes) : Bytes :=
  version :: (payload fields ++ trailer)

/-- What the last field with the tag says. -/
def lastOccurrence (tag : UInt8) (fields : List PayloadField) : Option FieldContent :=
  (fields.filter (fun field => field.HasTag tag)).getLast?.map PayloadField.content

variable {m : Mem} {fin pos : Nat} {tag : UInt8}

theorem lastOccurrence_cons_other {field : PayloadField} {fields : List PayloadField}
    (h : ¬field.HasTag tag) : lastOccurrence tag (field :: fields) = lastOccurrence tag fields := by
  rw [lastOccurrence, List.filter_cons_of_neg (by simpa using h), lastOccurrence]

theorem lastOccurrence_cons_tag {field : PayloadField} {fields : List PayloadField}
    (h : field.HasTag tag) :
    lastOccurrence tag (field :: fields)
      = (lastOccurrence tag fields).or (some field.content) := by
  rw [lastOccurrence, List.filter_cons_of_pos (by simpa using h), List.getLast?_cons,
    lastOccurrence]
  cases (fields.filter (fun field => field.HasTag tag)).getLast? with
  | none => rfl
  | some last => rfl

/-! ## A field in memory -/

/-- A scan that starts at terminated groups ends behind them. -/
theorem varintSkip_groups {integer : VarintBytes} {rest : Bytes}
    (h : read m pos (fin - pos) = integer.groups ++ rest) :
    varintSkip m pos fin = pos + integer.groups.length := by
  rw [varintSkip, varintSkipLoop_eq, h, Varint.scan_terminated integer.terminated]

/-- They are decoded modulo the size of the type. -/
theorem varintDecode_groups {w : Nat} (hw : 7 ≤ w) {integer : VarintBytes} {rest : Bytes}
    (h : read m pos (fin - pos) = integer.groups ++ rest) :
    varintDecode w m pos (varintSkip m pos fin) = Varint.value integer.groups % 2 ^ w := by
  rw [varintSkip_groups h, varintDecode_eq, read_prefix h, Varint.decode_eq_value hw]

theorem VarintBytes.length_pos (integer : VarintBytes) : 0 < integer.groups.length := by
  cases hgroups : integer.groups with
  | nil =>
      have hterminated := integer.terminated
      rw [hgroups] at hterminated
      exact absurd hterminated id
  | cons b bs => exact Nat.succ_pos _

/-- The first byte of a tag is where the field starts. -/
theorem wireType_eq {tag : VarintBytes} {rest : Bytes}
    (h : read m pos (fin - pos) = tag.groups ++ rest) : m pos &&& 0x7 = tag.wireType := by
  have hhead := read_prefix h
  have hlength := tag.length_pos
  rw [VarintBytes.wireType]
  cases hgroups : tag.groups with
  | nil =>
      rw [hgroups] at hlength
      exact absurd hlength (Nat.lt_irrefl 0)
  | cons b bs =>
      rw [hgroups, List.length_cons, read_succ] at hhead
      rw [(List.cons.inj hhead).1, List.headD_cons]

/-- The field starts with a byte that ends a tag only where this is its whole tag. -/
theorem hasTag_iff (hsingle : tag &&& 0x80 = 0) {field : PayloadField} {rest : Bytes}
    (h : read m pos (fin - pos) = field.tag.groups ++ rest) : field.HasTag tag ↔ m pos = tag := by
  have hhead := read_prefix h
  have hterminated := field.tag.terminated
  rw [PayloadField.HasTag]
  cases hgroups : field.tag.groups with
  | nil =>
      rw [hgroups] at hterminated
      exact absurd hterminated id
  | cons b bs =>
      rw [hgroups, List.length_cons, read_succ] at hhead
      rw [hgroups, Varint.Terminated] at hterminated
      rw [(List.cons.inj hhead).1]
      constructor
      · intro htag
        exact (List.cons.inj htag).1
      · rintro rfl
        have hmore : Varint.more b = false := by
          rw [Varint.more, hsingle]
          rfl
        rw [hmore, if_neg (by decide)] at hterminated
        rw [hterminated]

theorem PayloadField.bytes_eq (field : PayloadField) :
    ∃ rest, field.bytes = field.tag.groups ++ rest := by
  cases field with
  | value tag integer hwire => exact ⟨_, rfl⟩
  | string tag length bytes hwire hlength => exact ⟨_, rfl⟩

/-- **ONE FIELD** is skipped as a whole. -/
theorem skipUnknown_field (hsize : fin - pos < 2 ^ 64) {field : PayloadField} {rest : Bytes}
    (h : read m pos (fin - pos) = field.bytes ++ rest) :
    skipUnknown m pos fin = pos + field.bytes.length := by
  have hlength : fin - pos = field.bytes.length + rest.length := by
    rw [← length_read m pos (fin - pos), h, List.length_append]
  cases field with
  | value tag integer hwire =>
      simp only [PayloadField.bytes, List.append_assoc, List.length_append] at h hlength ⊢
      have hpos := tag.length_pos
      rw [skipUnknown, if_pos (by omega)]
      simp only
      rw [if_pos ((wireType_eq h).trans hwire), varintSkip_groups h,
        varintSkip_groups (read_rest h), Nat.add_assoc]
  | string tag length bytes hwire hvalue =>
      simp only [PayloadField.bytes, List.append_assoc, List.length_append] at h hlength ⊢
      have hpos := tag.length_pos
      have htag := (wireType_eq h).trans hwire
      rw [skipUnknown, if_pos (by omega)]
      simp only
      rw [if_neg (by rw [htag]; decide), if_pos htag, varintSkip_groups h,
        varintDecode_groups (by decide) (read_rest h), varintSkip_groups (read_rest h), hvalue,
        Nat.mod_eq_of_lt (by omega), if_neg (by omega)]
      omega

/-- What the decoder finds, read from the memory. -/
def Found.content (m : Mem) : Found → FieldContent
  | .value n => .integer n
  | .string p n => .bytes (read m p n)

/-- **A KNOWN FIELD** is found with what it says. -/
theorem foundAt_field (hsize : fin - pos < 2 ^ 64) {field : PayloadField} {rest : Bytes}
    (h : read m pos (fin - pos) = field.bytes ++ rest) (htag : field.HasTag tag) :
    (foundAt m fin pos).map (Found.content m) = some field.content := by
  have hlength : fin - pos = field.bytes.length + rest.length := by
    rw [← length_read m pos (fin - pos), h, List.length_append]
  cases field with
  | value known integer hwire =>
      have hknown : known.groups = [tag] := htag
      simp only [PayloadField.bytes, List.append_assoc] at h
      have hzero := (wireType_eq h).trans hwire
      rw [hknown] at h
      have hinteger : read m (pos + 1) (fin - (pos + 1)) = integer.groups ++ rest := read_rest h
      have hvalue : valueAt m fin pos = UInt32.ofNat (Varint.value integer.groups) := by
        rw [valueAt, varintDecode_groups (by decide) hinteger]
        exact UInt32.toNat.inj (Nat.mod_mod _ _)
      rw [foundAt_value hzero, hvalue]
      rfl
  | string known length bytes hwire hvalue =>
      have hknown : known.groups = [tag] := htag
      simp only [PayloadField.bytes, List.append_assoc, List.length_append] at h hlength
      have htwo := (wireType_eq h).trans hwire
      rw [hknown] at h hlength
      have hafter : read m (pos + 1) (fin - (pos + 1)) = length.groups ++ (bytes ++ rest) :=
        read_rest h
      have hskip : varintSkip m (pos + 1) fin = pos + 1 + length.groups.length :=
        varintSkip_groups hafter
      have hdecoded : lengthAt m fin pos = bytes.length := by
        rw [lengthAt, varintDecode_groups (by decide) hafter, hvalue,
          Nat.mod_eq_of_lt (by omega)]
      have hbytes : read m (pos + 1 + length.groups.length) bytes.length = bytes :=
        read_prefix (read_rest hafter)
      rw [foundAt_string (by rw [htwo]; decide), hdecoded, hskip,
        if_neg (by rw [List.length_singleton] at hlength; omega)]
      show some (FieldContent.bytes _) = _
      rw [hbytes]
      rfl

/-! ## The whole payload -/

/-- **THE LAST FIELD** of a tag is what is found for it, by induction over the fields. -/
theorem lastFound_payload (hsingle : tag &&& 0x80 = 0) :
    ∀ (fields : List PayloadField) (pos : Nat), pos ≤ fin → fin - pos < 2 ^ 64 →
      read m pos (fin - pos) = payload fields →
      (lastFound m fin tag (fieldStarts m fin pos)).map (Found.content m)
        = lastOccurrence tag fields := by
  intro fields
  induction fields with
  | nil =>
      intro pos hpos _ h
      have hlength := length_read m pos (fin - pos)
      rw [h] at hlength
      obtain rfl : pos = fin := by
        have : fin - pos = 0 := hlength.symm
        omega
      rw [fieldStarts_end]
      rfl
  | cons field fields ih =>
      intro pos hpos hsize h
      have h : read m pos (fin - pos) = field.bytes ++ payload fields := h
      obtain ⟨rest, hbytes⟩ := field.bytes_eq
      have hlength : fin - pos = field.bytes.length + (payload fields).length := by
        rw [← length_read m pos (fin - pos), h, List.length_append]
      have hbyte : 0 < field.bytes.length := by
        rw [hbytes, List.length_append]
        exact Nat.add_pos_left field.tag.length_pos _
      have hstart : read m pos (fin - pos) = field.tag.groups ++ (rest ++ payload fields) := by
        rw [h, hbytes, List.append_assoc]
      have hrest := ih (pos + field.bytes.length) (by omega) (by omega) (read_rest h)
      rw [fieldStarts_next (by omega), skipUnknown_field hsize h]
      by_cases htag : field.HasTag tag
      · rw [lastFound_cons_tag ((hasTag_iff hsingle hstart).mp htag), lastOccurrence_cons_tag htag,
          ← hrest, ← foundAt_field hsize h htag, Option.map_or]
      · rw [lastFound_cons_other (fun hm => htag ((hasTag_iff hsingle hstart).mpr hm)),
          lastOccurrence_cons_other htag, hrest]

/-! ## Inserting, removing and swapping fields -/

/-- One change to a payload: a field with none of these tags is put in, or two neighbours
    with different tags are swapped. -/
inductive Rearrangement (tags : List UInt8) : List PayloadField → List PayloadField → Prop where
  | insert (before after : List PayloadField) (field : PayloadField)
      (hunknown : ∀ tag ∈ tags, ¬field.HasTag tag) :
      Rearrangement tags (before ++ after) (before ++ field :: after)
  | swap (before after : List PayloadField) (first second : PayloadField)
      (hdistinct : first.tag.groups ≠ second.tag.groups) :
      Rearrangement tags (before ++ first :: second :: after) (before ++ second :: first :: after)

theorem lastOccurrence_rearrangement {tags : List UInt8} (htag : tag ∈ tags)
    {fields fields' : List PayloadField} (h : Rearrangement tags fields fields') :
    lastOccurrence tag fields = lastOccurrence tag fields' := by
  cases h with
  | insert before after field hunknown =>
      rw [lastOccurrence, lastOccurrence, List.filter_append, List.filter_append,
        List.filter_cons_of_neg (by simpa using hunknown tag htag)]
  | swap before after first second hdistinct =>
      rw [lastOccurrence, lastOccurrence, List.filter_append, List.filter_append]
      by_cases hfirst : first.HasTag tag
      · have hsecond : ¬second.HasTag tag := fun h => hdistinct (hfirst.trans h.symm)
        rw [List.filter_cons_of_pos (by simpa using hfirst),
          List.filter_cons_of_neg (by simpa using hsecond),
          List.filter_cons_of_neg (by simpa using hsecond),
          List.filter_cons_of_pos (by simpa using hfirst)]
      · rw [List.filter_cons_of_neg (by simpa using hfirst)]
        by_cases hsecond : second.HasTag tag
        · rw [List.filter_cons_of_pos (by simpa using hsecond),
            List.filter_cons_of_pos (by simpa using hsecond),
            List.filter_cons_of_neg (by simpa using hfirst)]
        · rw [List.filter_cons_of_neg (by simpa using hsecond),
            List.filter_cons_of_neg (by simpa using hsecond),
            List.filter_cons_of_neg (by simpa using hfirst)]

/-- **ANY CHANGES** leave what the last fields of the known tags say. -/
theorem lastOccurrence_rearranged {tags : List UInt8} {fields fields' : List PayloadField}
    (h : Relation.EqvGen (Rearrangement tags) fields fields') :
    ∀ tag ∈ tags, lastOccurrence tag fields = lastOccurrence tag fields' := by
  intro tag htag
  induction h with
  | rel _ _ h => exact lastOccurrence_rearrangement htag h
  | refl _ => rfl
  | symm _ _ _ ih => exact ih.symm
  | trans _ _ _ _ _ ih₁ ih₂ => exact ih₁.trans ih₂

/-! ## The decoders -/

/-- What a normal message says. -/
structure MessageContent where
  version : UInt8
  ratchetKey : Option FieldContent
  counter : Option FieldContent
  ciphertext : Option FieldContent

/-- What a pre-key message says. -/
structure PreKeyMessageContent where
  version : UInt8
  oneTimeKey : Option FieldContent
  baseKey : Option FieldContent
  identityKey : Option FieldContent
  message : Option FieldContent

/-- What a group message says. -/
structure GroupMessageContent where
  version : UInt8
  messageIndex : Option FieldContent
  ciphertext : Option FieldContent

def MessageContent.ofFields (version : UInt8) (fields : List PayloadField) : MessageContent where
  version := version
  ratchetKey := lastOccurrence ratchetKeyTag fields
  counter := lastOccurrence counterTag fields
  ciphertext := lastOccurrence ciphertextTag fields

def PreKeyMessageContent.ofFields (version : UInt8) (fields : List PayloadField) :
    PreKeyMessageContent where
  version := version
  oneTimeKey := lastOccurrence oneTimeKeyIdTag fields
  baseKey := lastOccurrence baseKeyTag fields
  identityKey := lastOccurrence identityKeyTag fields
  message := lastOccurrence messageTag fields

def GroupMessageContent.ofFields (version : UInt8) (fields : List PayloadField) :
    GroupMessageContent where
  version := version
  messageIndex := lastOccurrence groupMessageIndexTag fields
  ciphertext := lastOccurrence groupCiphertextTag fields

/-- The string that a pointer and a length in a struct describe. -/
def stringContent (m : Mem) (value : Option Nat) (valueLength : Nat) : Option FieldContent :=
  value.map fun p => .bytes (read m p valueLength)

/-- The integer and the flag in a struct. -/
def integerContent (value : UInt32) (hasValue : Bool) : Option FieldContent :=
  if hasValue then some (.integer value) else none

def MessageReader.content (m : Mem) (reader : MessageReader) : MessageContent where
  version := reader.version
  ratchetKey := stringContent m reader.ratchetKey reader.ratchetKeyLength
  counter := integerContent reader.counter reader.hasCounter
  ciphertext := stringContent m reader.ciphertext reader.ciphertextLength

def PreKeyMessageReader.content (m : Mem) (reader : PreKeyMessageReader) :
    PreKeyMessageContent where
  version := reader.version
  oneTimeKey := stringContent m reader.oneTimeKey reader.oneTimeKeyLength
  baseKey := stringContent m reader.baseKey reader.baseKeyLength
  identityKey := stringContent m reader.identityKey reader.identityKeyLength
  message := stringContent m reader.message reader.messageLength

def DecodeGroupMessageResults.content (m : Mem) (results : DecodeGroupMessageResults) :
    GroupMessageContent where
  version := results.version
  messageIndex := integerContent results.messageIndex results.hasMessageIndex
  ciphertext := stringContent m results.ciphertext results.ciphertextLength

/-- These bytes are in memory, and a `size_t` counts them. -/
structure Holds (m : Mem) (input : Nat) (bytes : Bytes) : Prop where
  read : read m input bytes.length = bytes
  fits : bytes.length < 2 ^ 64

variable {R : Type} {input : Nat} {version : UInt8} {fields : List PayloadField}
  {trailer : Bytes}

/-- What every row of `decode` calls leaves, the loop leaves. -/
theorem decodeFields_keeps {V : Type} (get : R → V) {row : R → Nat → R × Nat}
    (hrow : ∀ reader pos, get (row reader pos).1 = get reader) :
    ∀ (n : Nat) (reader : R) (pos : Nat), get (decodeFields m row fin n reader pos) = get reader := by
  intro n
  induction n with
  | zero => intro reader pos; rfl
  | succ n ih =>
      intro reader pos
      rw [decodeFields]
      by_cases hpos : pos = fin
      · rw [if_pos hpos]
      · rw [if_neg hpos]
        exact (ih _ _).trans (hrow reader pos)

theorem length_message (version : UInt8) (fields : List PayloadField) (trailer : Bytes) :
    (message version fields trailer).length = 1 + (payload fields).length + trailer.length := by
  rw [message, List.length_cons, List.length_append]
  omega

/-- What is found for a tag in a message. -/
theorem lastFound_message (h : Holds m input (message version fields trailer))
    (hsingle : tag &&& 0x80 = 0) :
    (lastFound m (input + (message version fields trailer).length - trailer.length) tag
        (fieldStarts m (input + (message version fields trailer).length - trailer.length)
          (input + 1))).map (Found.content m)
      = lastOccurrence tag fields := by
  have hread := h.read
  have hfits := h.fits
  have hlength := length_message version fields trailer
  generalize hfin : input + (message version fields trailer).length - trailer.length = fin
  have hpayload : read m (input + 1) (fin - (input + 1)) = payload fields := by
    rw [message] at hread hlength hfin
    rw [show fin - (input + 1) = (payload fields).length by omega]
    exact read_middle (show read m input _ = [version] ++ (payload fields ++ trailer) from hread)
  exact lastFound_payload hsingle fields (input + 1) (by omega) (by omega) hpayload

theorem version_of_holds (h : Holds m input (message version fields trailer)) :
    m input = version := by
  have hread := h.read
  rw [message, List.length_cons, read_succ] at hread
  exact (List.cons.inj hread).1

theorem stringContent_eq (value : Option Nat) (valueLength : Nat) :
    stringContent m value valueLength
      = (value.map fun p => .string p valueLength).map (Found.content m) := by
  cases value with
  | none => rfl
  | some p => rfl

theorem integerContent_eq (m : Mem) (value : UInt32) (hasValue : Bool) :
    integerContent value hasValue
      = (if hasValue then some (.value value) else none : Option Found).map (Found.content m) := by
  cases hasValue with
  | false => rfl
  | true => rfl

/-- What a call has found in the end is what the last field with its tag says. -/
theorem found_content (h : Holds m input (message version fields trailer))
    (hsingle : tag &&& 0x80 = 0) {found : Option Found}
    (hfound : found
      = lastFound m (input + (message version fields trailer).length - trailer.length) tag
          (fieldStarts m (input + (message version fields trailer).length - trailer.length)
            (input + 1))) :
    found.map (Found.content m) = lastOccurrence tag fields := by
  rw [hfound, lastFound_message h hsingle]

/-- **A NORMAL MESSAGE** is decoded to what its last fields say. -/
theorem decodeMessage_content (h : Holds m input (message version fields trailer))
    (reader : MessageReader) :
    (decodeMessage reader m input (message version fields trailer).length trailer.length).content m
      = MessageContent.ofFields version fields := by
  have hlength := length_message version fields trailer
  have hversion : (decodeMessage reader m input (message version fields trailer).length
      trailer.length).version = version := by
    rw [decodeMessage]
    simp only
    rw [if_neg (by omega), if_neg (by omega)]
    exact (decodeFields_keeps MessageReader.version (fun _ _ => rfl) _ _ _).trans
      (version_of_holds h)
  have hfound := decodeMessage_found reader m input (message version fields trailer).length
    trailer.length
  simp only [messageReaders, List.forall_mem_cons] at hfound
  obtain ⟨hratchetKey, hcounter, hciphertext, -⟩ := hfound
  rw [MessageReader.content, hversion, stringContent_eq, integerContent_eq m, stringContent_eq,
    MessageContent.ofFields,
    ← found_content h (show ratchetKeyTag &&& 0x80 = 0 by decide) hratchetKey,
    ← found_content h (show counterTag &&& 0x80 = 0 by decide) hcounter,
    ← found_content h (show ciphertextTag &&& 0x80 = 0 by decide) hciphertext]
  rfl

/-- **A PRE-KEY MESSAGE** is decoded to what its last fields say. -/
theorem decodeOneTimeKeyMessage_content (h : Holds m input (message version fields []))
    (reader : PreKeyMessageReader) :
    (decodeOneTimeKeyMessage reader m input (message version fields []).length).content m
      = PreKeyMessageContent.ofFields version fields := by
  have hlength := length_message version fields []
  have hversion : (decodeOneTimeKeyMessage reader m input
      (message version fields []).length).version = version := by
    rw [decodeOneTimeKeyMessage]
    simp only
    rw [if_neg (by omega)]
    exact (decodeFields_keeps PreKeyMessageReader.version (fun _ _ => rfl) _ _ _).trans
      (version_of_holds h)
  have hfound := decodeOneTimeKeyMessage_found reader m input (message version fields []).length
  simp only [preKeyMessageReaders, List.forall_mem_cons] at hfound
  obtain ⟨honeTimeKey, hbaseKey, hidentityKey, hmessage, -⟩ := hfound
  rw [PreKeyMessageReader.content, hversion, stringContent_eq, stringContent_eq, stringContent_eq,
    stringContent_eq, PreKeyMessageContent.ofFields,
    ← found_content h (show oneTimeKeyIdTag &&& 0x80 = 0 by decide) honeTimeKey,
    ← found_content h (show baseKeyTag &&& 0x80 = 0 by decide) hbaseKey,
    ← found_content h (show identityKeyTag &&& 0x80 = 0 by decide) hidentityKey,
    ← found_content h (show messageTag &&& 0x80 = 0 by decide) hmessage]
  rfl

/-- **A GROUP MESSAGE** is decoded to what its last fields say. -/
theorem decodeGroupMessage_content (h : Holds m input (message version fields trailer))
    (results : DecodeGroupMessageResults) {macLength signatureLength : Nat}
    (htrailer : macLength + signatureLength = trailer.length) :
    (decodeGroupMessage results m input (message version fields trailer).length macLength
        signatureLength).content m
      = GroupMessageContent.ofFields version fields := by
  have hlength := length_message version fields trailer
  have hversion : (decodeGroupMessage results m input (message version fields trailer).length
      macLength signatureLength).version = version := by
    rw [decodeGroupMessage]
    simp only
    rw [if_neg (by omega), if_neg (by omega)]
    exact (decodeFields_keeps (fun state : DecodeGroupMessageResults × Bool => state.1.version)
      (fun _ _ => rfl) _ _ _).trans (version_of_holds h)
  have hfound := decodeGroupMessage_found results m input
    (message version fields trailer).length macLength signatureLength (by omega)
  simp only [groupMessageReaders, List.forall_mem_cons, htrailer] at hfound
  obtain ⟨hmessageIndex, hciphertext, -⟩ := hfound
  rw [DecodeGroupMessageResults.content, hversion, integerContent_eq m, stringContent_eq,
    GroupMessageContent.ofFields,
    ← found_content h (show groupMessageIndexTag &&& 0x80 = 0 by decide) hmessageIndex,
    ← found_content h (show groupCiphertextTag &&& 0x80 = 0 by decide) hciphertext]
  rfl

/-- The tags that `decode_message` knows. -/
def messageTags : List UInt8 := [ratchetKeyTag, counterTag, ciphertextTag]

/-- The tags that `decode_one_time_key_message` knows. -/
def preKeyMessageTags : List UInt8 := [oneTimeKeyIdTag, baseKeyTag, identityKeyTag, messageTag]

/-- The tags that `_olm_decode_group_message` knows. -/
def groupMessageTags : List UInt8 := [groupMessageIndexTag, groupCiphertextTag]

theorem MessageContent.ofFields_rearranged {fields' : List PayloadField}
    (h : Relation.EqvGen (Rearrangement messageTags) fields fields') :
    MessageContent.ofFields version fields' = MessageContent.ofFields version fields := by
  have hlast := lastOccurrence_rearranged h
  rw [ofFields, ofFields, hlast ratchetKeyTag (by decide), hlast counterTag (by decide),
    hlast ciphertextTag (by decide)]

theorem PreKeyMessageContent.ofFields_rearranged {fields' : List PayloadField}
    (h : Relation.EqvGen (Rearrangement preKeyMessageTags) fields fields') :
    PreKeyMessageContent.ofFields version fields' = PreKeyMessageContent.ofFields version fields := by
  have hlast := lastOccurrence_rearranged h
  rw [ofFields, ofFields, hlast oneTimeKeyIdTag (by decide), hlast baseKeyTag (by decide),
    hlast identityKeyTag (by decide), hlast messageTag (by decide)]

theorem GroupMessageContent.ofFields_rearranged {fields' : List PayloadField}
    (h : Relation.EqvGen (Rearrangement groupMessageTags) fields fields') :
    GroupMessageContent.ofFields version fields' = GroupMessageContent.ofFields version fields := by
  have hlast := lastOccurrence_rearranged h
  rw [ofFields, ofFields, hlast groupMessageIndexTag (by decide),
    hlast groupCiphertextTag (by decide)]

/-- **ORDER AND UNKNOWN FIELDS** do not matter: a decoder holds for each known tag what
    the last field with it says, so two messages whose fields differ only in place, or in
    unknown ones, are decoded alike. -/
theorem decoders_lastOccurrence {m m' : Mem} {input input' : Nat} {version : UInt8}
    {fields fields' : List PayloadField} {trailer trailer' : Bytes}
    (h : Holds m input (message version fields trailer))
    (h' : Holds m' input' (message version fields' trailer')) :
    (∀ reader reader' : MessageReader,
      (decodeMessage reader m input (message version fields trailer).length
          trailer.length).content m = MessageContent.ofFields version fields ∧
      (Relation.EqvGen (Rearrangement messageTags) fields fields' →
        (decodeMessage reader' m' input' (message version fields' trailer').length
            trailer'.length).content m'
          = (decodeMessage reader m input (message version fields trailer).length
              trailer.length).content m)) ∧
    (trailer = [] → trailer' = [] → ∀ reader reader' : PreKeyMessageReader,
      (decodeOneTimeKeyMessage reader m input (message version fields trailer).length).content m
        = PreKeyMessageContent.ofFields version fields ∧
      (Relation.EqvGen (Rearrangement preKeyMessageTags) fields fields' →
        (decodeOneTimeKeyMessage reader' m' input'
            (message version fields' trailer').length).content m'
          = (decodeOneTimeKeyMessage reader m input
              (message version fields trailer).length).content m)) ∧
    (∀ macLength signatureLength macLength' signatureLength' : Nat,
      macLength + signatureLength = trailer.length →
      macLength' + signatureLength' = trailer'.length →
      ∀ results results' : DecodeGroupMessageResults,
      (decodeGroupMessage results m input (message version fields trailer).length macLength
          signatureLength).content m = GroupMessageContent.ofFields version fields ∧
      (Relation.EqvGen (Rearrangement groupMessageTags) fields fields' →
        (decodeGroupMessage results' m' input' (message version fields' trailer').length
            macLength' signatureLength').content m'
          = (decodeGroupMessage results m input (message version fields trailer).length
              macLength signatureLength).content m)) := by
  refine ⟨?_, ?_, ?_⟩
  · intro reader reader'
    rw [decodeMessage_content h reader, decodeMessage_content h' reader']
    exact ⟨rfl, MessageContent.ofFields_rearranged⟩
  · rintro rfl rfl reader reader'
    rw [decodeOneTimeKeyMessage_content h reader, decodeOneTimeKeyMessage_content h' reader']
    exact ⟨rfl, PreKeyMessageContent.ofFields_rearranged⟩
  · intro _ _ _ _ htrailer htrailer' results results'
    rw [decodeGroupMessage_content h results htrailer,
      decodeGroupMessage_content h' results' htrailer']
    exact ⟨rfl, GroupMessageContent.ofFields_rearranged⟩

/-- A counter of 5. -/
def demoCounter : PayloadField := .value ⟨[0x10], by decide⟩ ⟨[0x05], by decide⟩ (by decide)

/-- A string with a tag of two bytes. -/
def demoUnknown : PayloadField :=
  .string ⟨[0x82, 0x01], by decide⟩ ⟨[0x01], by decide⟩ [0x61] (by decide) (by decide)

/-- An unknown field in front of a counter. -/
theorem decoders_lastOccurrence_unknown :
    let bytes := message 3 [demoCounter] [7]
    let bytes' := message 3 [demoUnknown, demoCounter] [7]
    let m := write (fun _ => 0) 0 bytes
    let m' := write (fun _ => 0) 0 bytes'
    let reader : MessageReader := ⟨0, false, 0, 0, 0, none, 0, none, 0⟩
    (decodeMessage reader m 0 bytes.length [7].length).content m
        = ⟨3, none, some (.integer 5), none⟩ ∧
      (decodeMessage reader m' 0 bytes'.length [7].length).content m'
        = (decodeMessage reader m 0 bytes.length [7].length).content m := by
  intro bytes bytes' m m' reader
  have h : Holds m 0 bytes := ⟨read_write_self _ _ _, by decide⟩
  have h' : Holds m' 0 bytes' := ⟨read_write_self _ _ _, by decide⟩
  obtain ⟨hcontent, hsame⟩ := (decoders_lastOccurrence h h').1 reader reader
  have hunknown : ∀ tag ∈ messageTags, ¬demoUnknown.HasTag tag := by decide +kernel
  exact ⟨hcontent, hsame (.rel _ _ (.insert [] [demoCounter] demoUnknown hunknown))⟩

end OlmMessage
