import SelfOlm.DecoderLoopProofs

/-! # Which values the decoders report

    `varint_skip` stops at the end of the input as it stops behind the last group, and
    `varint_decode` drops the bits above its type.  A decoder therefore takes a truncated
    integer for a complete one, and a long one for its remainder.  What it reports is
    exact if and only if the integer of the field it is taken from ends in the input and
    fits. -/

namespace OlmMessage

open ByteMemory OlmCrypto

variable {m : Mem} {fin pos : Nat} {tag : UInt8}

/-! ## The groups of a field -/

/-- The bytes that are read as the integer, or the length, of the field at `start`. -/
def groupsAt (m : Mem) (fin start : Nat) : Bytes :=
  read m (start + 1) (varintSkip m (start + 1) fin - (start + 1))

theorem groupsAt_eq (m : Mem) {fin start : Nat} (hstart : start < fin) :
    groupsAt m fin start
      = (read m (start + 1) (fin - (start + 1))).take
          (Varint.scan (read m (start + 1) (fin - (start + 1)))) := by
  have hle : varintSkip m (start + 1) fin ≤ fin := varintSkip_le m (show start + 1 ≤ fin from hstart)
  rw [groupsAt]
  rw [varintSkip, varintSkipLoop_eq] at hle ⊢
  rw [Nat.add_sub_cancel_left, take_read m _ (by omega)]

theorem varintDecode_groupsAt (w : Nat) (m : Mem) (fin start : Nat) :
    varintDecode w m (start + 1) (varintSkip m (start + 1) fin)
      = Varint.decode w (groupsAt m fin start) := by
  have hge := le_varintSkip m (start + 1) fin
  rw [groupsAt, ← varintDecode_eq, Nat.add_sub_cancel' hge]

theorem valueAt_eq (m : Mem) (fin start : Nat) :
    valueAt m fin start = UInt32.ofNat (Varint.value (groupsAt m fin start) % 2 ^ 32) := by
  rw [valueAt, varintDecode_groupsAt, Varint.decode_eq_value (by decide)]

theorem lengthAt_eq (m : Mem) (fin start : Nat) :
    lengthAt m fin start = Varint.value (groupsAt m fin start) % 2 ^ 64 := by
  rw [lengthAt, varintDecode_groupsAt, Varint.decode_eq_value (by decide)]

/-- A field at `start` with terminated groups that stand for `n` and end at `p`. -/
def ExactVarint (m : Mem) (fin start n p : Nat) : Prop :=
  ∃ groups : Bytes, Varint.Terminated groups ∧ read m (start + 1) groups.length = groups ∧
    start + 1 + groups.length = p ∧ p ≤ fin ∧ Varint.value groups = n

/-- There is at most one way to read them. -/
theorem exactVarint_iff {start n p : Nat} (hstart : start < fin) :
    ExactVarint m fin start n p
      ↔ Varint.Terminated (groupsAt m fin start) ∧ varintSkip m (start + 1) fin = p ∧
        Varint.value (groupsAt m fin start) = n := by
  have hge := le_varintSkip m (start + 1) fin
  have hle := varintSkip_le m hstart
  have hlength : (groupsAt m fin start).length = varintSkip m (start + 1) fin - (start + 1) :=
    length_read _ _ _
  constructor
  · rintro ⟨groups, hterminated, hread, hend, hfin, hvalue⟩
    have hhead : groups <+: read m (start + 1) (fin - (start + 1)) := by
      refine ⟨read m p (fin - p), ?_⟩
      rw [show fin - (start + 1) = groups.length + (fin - p) by omega, read_add, hread, hend]
    have hgroups : groupsAt m fin start = groups :=
      (groupsAt_eq m hstart).trans (hterminated.eq_take_scan hhead)
    rw [hgroups] at hlength ⊢
    exact ⟨hterminated, by omega, hvalue⟩
  · rintro ⟨hterminated, hend, hvalue⟩
    refine ⟨groupsAt m fin start, hterminated, ?_, by omega, hend ▸ hle, hvalue⟩
    rw [hlength, groupsAt]

/-! ## The field that is reported -/

/-- The last of these fields with the tag from which something is decoded. -/
def takenFrom (m : Mem) (fin : Nat) (tag : UInt8) (starts : List Nat) : Option Nat :=
  (starts.filter (fun start => m start = tag ∧ (foundAt m fin start).isSome = true)).getLast?

theorem takenFrom_cons_other {start : Nat} {starts : List Nat}
    (h : ¬(m start = tag ∧ (foundAt m fin start).isSome = true)) :
    takenFrom m fin tag (start :: starts) = takenFrom m fin tag starts := by
  rw [takenFrom, List.filter_cons_of_neg (by simpa using h), takenFrom]

theorem takenFrom_cons_found {start : Nat} {starts : List Nat}
    (h : m start = tag ∧ (foundAt m fin start).isSome = true) :
    takenFrom m fin tag (start :: starts) = (takenFrom m fin tag starts).or (some start) := by
  rw [takenFrom, List.filter_cons_of_pos (by simpa using h), List.getLast?_cons, takenFrom]
  cases (starts.filter
    (fun start => m start = tag ∧ (foundAt m fin start).isSome = true)).getLast? with
  | none => rfl
  | some last => rfl

/-- What is found comes from that field. -/
theorem lastFound_eq (m : Mem) (fin : Nat) (tag : UInt8) (starts : List Nat) :
    lastFound m fin tag starts = (takenFrom m fin tag starts).bind (foundAt m fin) := by
  induction starts with
  | nil => rfl
  | cons start starts ih =>
      by_cases htag : m start = tag
      · rw [lastFound_cons_tag htag, ih]
        cases hfound : foundAt m fin start with
        | none =>
            rw [takenFrom_cons_other (by rw [hfound]; exact fun h => nomatch h.2), Option.or_none]
        | some found =>
            rw [takenFrom_cons_found ⟨htag, by rw [hfound]; rfl⟩]
            cases htaken : takenFrom m fin tag starts with
            | none => exact hfound.symm
            | some last =>
                have hlast : (foundAt m fin last).isSome = true := by
                  have hmem := List.mem_of_getLast? htaken
                  rw [List.mem_filter, decide_eq_true_eq] at hmem
                  exact hmem.2.2
                obtain ⟨x, hx⟩ := Option.isSome_iff_exists.mp hlast
                rw [Option.some_or, Option.bind_some, hx, Option.some_or]
      · rw [lastFound_cons_other htag, ih, takenFrom_cons_other (fun h => htag h.1)]

theorem takenFrom_spec {start : Nat} {starts : List Nat}
    (h : takenFrom m fin tag starts = some start) :
    start ∈ starts ∧ m start = tag ∧ (foundAt m fin start).isSome = true := by
  have hmem := List.mem_of_getLast? h
  rw [List.mem_filter, decide_eq_true_eq] at hmem
  exact hmem

/-- A reported integer is in full behind the tag that it is taken from, and a reported
    string has its length there. -/
def ReportsExact (m : Mem) (fin : Nat) (tag : UInt8) (starts : List Nat) : Option Found → Prop
  | none => True
  | some (.value n) => ∃ start p, takenFrom m fin tag starts = some start ∧
      ExactVarint m fin start n.toNat p
  | some (.string p n) => ∃ start, takenFrom m fin tag starts = some start ∧
      ExactVarint m fin start n p

/-- The integer of the field that is taken, if there is one, is terminated in the input
    and fits into `w` bits. -/
def FieldFits (m : Mem) (fin : Nat) (tag : UInt8) (w : Nat) (starts : List Nat) : Prop :=
  ∀ start, takenFrom m fin tag starts = some start →
    Varint.Terminated (groupsAt m fin start) ∧ Varint.value (groupsAt m fin start) < 2 ^ w

/-- **EXACT INTEGERS** are those that are terminated and fit. -/
theorem reportsExact_value_iff (hwire : tag &&& 0x7 = 0) (pos : Nat) :
    ReportsExact m fin tag (fieldStarts m fin pos)
        (lastFound m fin tag (fieldStarts m fin pos))
      ↔ FieldFits m fin tag 32 (fieldStarts m fin pos) := by
  rw [lastFound_eq]
  cases htaken : takenFrom m fin tag (fieldStarts m fin pos) with
  | none =>
      exact iff_of_true trivial (fun start h => nomatch htaken.symm.trans h)
  | some start =>
      obtain ⟨hmem, htag, -⟩ := takenFrom_spec htaken
      have hstart := (fieldStarts_bounds _ pos rfl start hmem).2
      have hround : (UInt32.ofNat (Varint.value (groupsAt m fin start) % 2 ^ 32)).toNat
          = Varint.value (groupsAt m fin start) % 2 ^ 32 :=
        UInt32.toNat_ofNat_of_lt' (Nat.mod_lt _ (by decide))
      rw [Option.bind_some, foundAt_value (htag ▸ hwire), valueAt_eq]
      constructor
      · rintro ⟨start', p, htaken', hexact⟩ s hs
        obtain rfl := Option.some.inj (htaken.symm.trans hs)
        obtain rfl := Option.some.inj (htaken.symm.trans htaken')
        rw [exactVarint_iff hstart, hround] at hexact
        obtain ⟨hterminated, -, hvalue⟩ := hexact
        refine ⟨hterminated, ?_⟩
        rw [hvalue]
        exact Nat.mod_lt _ (by decide)
      · intro h
        obtain ⟨hterminated, hfits⟩ := h start htaken
        refine ⟨start, _, htaken, (exactVarint_iff hstart).mpr ⟨hterminated, rfl, ?_⟩⟩
        rw [hround, Nat.mod_eq_of_lt hfits]

/-- **EXACT LENGTHS** are those that are terminated and fit. -/
theorem reportsExact_string_iff (hwire : tag &&& 0x7 ≠ 0) (pos : Nat) :
    ReportsExact m fin tag (fieldStarts m fin pos)
        (lastFound m fin tag (fieldStarts m fin pos))
      ↔ FieldFits m fin tag 64 (fieldStarts m fin pos) := by
  rw [lastFound_eq]
  cases htaken : takenFrom m fin tag (fieldStarts m fin pos) with
  | none =>
      exact iff_of_true trivial (fun start h => nomatch htaken.symm.trans h)
  | some start =>
      obtain ⟨hmem, htag, hsome⟩ := takenFrom_spec htaken
      have hstart := (fieldStarts_bounds _ pos rfl start hmem).2
      have hfound : foundAt m fin start
          = if lengthAt m fin start > fin - varintSkip m (start + 1) fin then none
            else some (.string (varintSkip m (start + 1) fin) (lengthAt m fin start)) :=
        foundAt_string (htag ▸ hwire : m start &&& 0x7 ≠ 0)
      by_cases hlong : lengthAt m fin start > fin - varintSkip m (start + 1) fin
      · rw [hfound, if_pos hlong] at hsome
        cases hsome
      · rw [Option.bind_some, hfound, if_neg hlong, lengthAt_eq]
        constructor
        · rintro ⟨start', htaken', hexact⟩ s hs
          obtain rfl := Option.some.inj (htaken.symm.trans hs)
          obtain rfl := Option.some.inj (htaken.symm.trans htaken')
          obtain ⟨hterminated, -, hvalue⟩ := (exactVarint_iff hstart).mp hexact
          refine ⟨hterminated, ?_⟩
          rw [hvalue]
          exact Nat.mod_lt _ (by decide)
        · intro h
          obtain ⟨hterminated, hfits⟩ := h start htaken
          refine ⟨start, htaken, (exactVarint_iff hstart).mpr ⟨hterminated, rfl, ?_⟩⟩
          rw [Nat.mod_eq_of_lt hfits]

/-- An exact field with this tag and this integer somewhere behind the version byte. -/
def HasExact (m : Mem) (input fin : Nat) (tag : UInt8) (n : Nat) : Prop :=
  ∃ start p, input < start ∧ start < fin ∧ m start = tag ∧ ExactVarint m fin start n p

theorem hasExact_iff {input n : Nat} :
    HasExact m input fin tag n
      ↔ ∃ start, start < fin ∧ input < start ∧ m start = tag ∧
          Varint.Terminated (groupsAt m fin start) ∧ Varint.value (groupsAt m fin start) = n := by
  constructor
  · rintro ⟨start, p, hinput, hstart, htag, hexact⟩
    obtain ⟨hterminated, -, hvalue⟩ := (exactVarint_iff hstart).mp hexact
    exact ⟨start, hstart, hinput, htag, hterminated, hvalue⟩
  · rintro ⟨start, hstart, hinput, htag, hterminated, hvalue⟩
    exact ⟨start, _, hinput, hstart, htag, (exactVarint_iff hstart).mpr ⟨hterminated, rfl, hvalue⟩⟩

/-- A reported integer, or the length of a reported string, is in full somewhere in the payload
    behind the tag. -/
def ReportsPresent (m : Mem) (input fin : Nat) (tag : UInt8) : Option Found → Prop
  | none => True
  | some (.value n) => HasExact m input fin tag n.toNat
  | some (.string _ n) => HasExact m input fin tag n

/-- The bits of what a decoder keeps for the tag: an integer of a message, or a `size_t`. -/
def keptBits (tag : UInt8) : Nat := if tag &&& 0x7 = 0 then 32 else 64

/-- The lowest bits of the integer of the field that is taken are in full somewhere behind the
    tag. -/
def KeptPresent (m : Mem) (input fin : Nat) (tag : UInt8) (starts : List Nat) : Prop :=
  ∀ start, takenFrom m fin tag starts = some start →
    HasExact m input fin tag (Varint.value (groupsAt m fin start) % 2 ^ keptBits tag)

/-- **PRESENT VALUES** are those whose lowest bits are there, in this field or in another one. -/
theorem reportsPresent_iff (input : Nat) (tag : UInt8) (pos : Nat) :
    ReportsPresent m input fin tag (lastFound m fin tag (fieldStarts m fin pos))
      ↔ KeptPresent m input fin tag (fieldStarts m fin pos) := by
  rw [lastFound_eq, KeptPresent, keptBits]
  cases htaken : takenFrom m fin tag (fieldStarts m fin pos) with
  | none => exact iff_of_true trivial (fun start h => nomatch h)
  | some start =>
      obtain ⟨-, htag, hsome⟩ := takenFrom_spec htaken
      rw [Option.bind_some]
      simp only [Option.some.injEq, forall_eq']
      by_cases hwire : tag &&& 0x7 = 0
      · have hround : (UInt32.ofNat (Varint.value (groupsAt m fin start) % 2 ^ 32)).toNat
            = Varint.value (groupsAt m fin start) % 2 ^ 32 :=
          UInt32.toNat_ofNat_of_lt' (Nat.mod_lt _ (by decide))
        rw [foundAt_value (htag ▸ hwire), valueAt_eq, if_pos hwire, ReportsPresent, hround]
      · rw [foundAt_string (htag ▸ hwire : m start &&& 0x7 ≠ 0)] at hsome ⊢
        by_cases hlong : lengthAt m fin start > fin - varintSkip m (start + 1) fin
        · rw [if_pos hlong] at hsome
          cases hsome
        · rw [if_neg hlong, lengthAt_eq, if_neg hwire, ReportsPresent]

/-- The calls of a row report what is present, each where the lowest bits are there. -/
theorem present_iff_of_found {R : Type} {readers : List (FieldReader R)} {decoded : R} {input : Nat}
    (hfound : ∀ b ∈ readers,
      b.found decoded = lastFound m fin b.tag (fieldStarts m fin pos)) :
    (∀ b ∈ readers, ReportsPresent m input fin b.tag (b.found decoded))
      ↔ ∀ b ∈ readers, KeptPresent m input fin b.tag (fieldStarts m fin pos) := by
  refine forall₂_congr fun b hb => ?_
  rw [hfound b hb]
  exact reportsPresent_iff input b.tag pos

/-- What fits is present. -/
theorem FieldFits.keptPresent {w input : Nat}
    (h : FieldFits m fin tag w (fieldStarts m fin (input + 1))) (hbits : keptBits tag = w) :
    KeptPresent m input fin tag (fieldStarts m fin (input + 1)) := by
  intro start htaken
  obtain ⟨hterminated, hfits⟩ := h start htaken
  obtain ⟨hmem, htag, -⟩ := takenFrom_spec htaken
  obtain ⟨hfirst, hstart⟩ := fieldStarts_bounds _ (input + 1) rfl start hmem
  rw [hbits, Nat.mod_eq_of_lt hfits]
  exact hasExact_iff.mpr ⟨start, hstart, hfirst, htag, hterminated, rfl⟩

/-! ## The decoders -/

/-- The counter and the strings that `decode_message` reports are exact. -/
structure MessageReader.Exact (reader : MessageReader) (m : Mem) (fin : Nat)
    (starts : List Nat) : Prop where
  ratchetKey : ReportsExact m fin ratchetKeyTag starts
    (reader.ratchetKey.map fun p => .string p reader.ratchetKeyLength)
  counter : ReportsExact m fin counterTag starts
    (if reader.hasCounter then some (.value reader.counter) else none)
  ciphertext : ReportsExact m fin ciphertextTag starts
    (reader.ciphertext.map fun p => .string p reader.ciphertextLength)

/-- The strings that `decode_one_time_key_message` reports are exact. -/
structure PreKeyMessageReader.Exact (reader : PreKeyMessageReader) (m : Mem) (fin : Nat)
    (starts : List Nat) : Prop where
  oneTimeKey : ReportsExact m fin oneTimeKeyIdTag starts
    (reader.oneTimeKey.map fun p => .string p reader.oneTimeKeyLength)
  baseKey : ReportsExact m fin baseKeyTag starts
    (reader.baseKey.map fun p => .string p reader.baseKeyLength)
  identityKey : ReportsExact m fin identityKeyTag starts
    (reader.identityKey.map fun p => .string p reader.identityKeyLength)
  message : ReportsExact m fin messageTag starts
    (reader.message.map fun p => .string p reader.messageLength)

/-- The index and the string that `_olm_decode_group_message` reports are exact. -/
structure DecodeGroupMessageResults.Exact (results : DecodeGroupMessageResults) (m : Mem)
    (fin : Nat) (starts : List Nat) : Prop where
  messageIndex : ReportsExact m fin groupMessageIndexTag starts
    (if results.hasMessageIndex then some (.value results.messageIndex) else none)
  ciphertext : ReportsExact m fin groupCiphertextTag starts
    (results.ciphertext.map fun p => .string p results.ciphertextLength)

/-- The fields of a normal message that are taken are terminated and fit. -/
structure MessageFits (m : Mem) (fin : Nat) (starts : List Nat) : Prop where
  ratchetKey : FieldFits m fin ratchetKeyTag 64 starts
  counter : FieldFits m fin counterTag 32 starts
  ciphertext : FieldFits m fin ciphertextTag 64 starts

/-- The fields of a pre-key message that are taken are terminated and fit. -/
structure PreKeyMessageFits (m : Mem) (fin : Nat) (starts : List Nat) : Prop where
  oneTimeKey : FieldFits m fin oneTimeKeyIdTag 64 starts
  baseKey : FieldFits m fin baseKeyTag 64 starts
  identityKey : FieldFits m fin identityKeyTag 64 starts
  message : FieldFits m fin messageTag 64 starts

/-- The fields of a group message that are taken are terminated and fit. -/
structure GroupMessageFits (m : Mem) (fin : Nat) (starts : List Nat) : Prop where
  messageIndex : FieldFits m fin groupMessageIndexTag 32 starts
  ciphertext : FieldFits m fin groupCiphertextTag 64 starts

/-- What one call of a decoder reports. -/
theorem FieldReader.exact_iff {R : Type} {b : FieldReader R} {decoded : R}
    (hfound : b.found decoded = lastFound m fin b.tag (fieldStarts m fin pos)) :
    (b.tag &&& 0x7 = 0 →
        (ReportsExact m fin b.tag (fieldStarts m fin pos) (b.found decoded)
          ↔ FieldFits m fin b.tag 32 (fieldStarts m fin pos))) ∧
      (b.tag &&& 0x7 ≠ 0 →
        (ReportsExact m fin b.tag (fieldStarts m fin pos) (b.found decoded)
          ↔ FieldFits m fin b.tag 64 (fieldStarts m fin pos))) := by
  rw [hfound]
  exact ⟨fun hwire => reportsExact_value_iff hwire pos, fun hwire => reportsExact_string_iff hwire pos⟩

theorem decodeMessage_exact_iff (reader : MessageReader) (m : Mem)
    (input inputLength macLength : Nat) :
    (decodeMessage reader m input inputLength macLength).Exact m
        (input + inputLength - macLength)
        (fieldStarts m (input + inputLength - macLength) (input + 1))
      ↔ MessageFits m (input + inputLength - macLength)
          (fieldStarts m (input + inputLength - macLength) (input + 1)) := by
  have hfound := decodeMessage_found reader m input inputLength macLength
  simp only [messageReaders, List.forall_mem_cons] at hfound
  obtain ⟨hratchetKey, hcounter, hciphertext, -⟩ := hfound
  have hratchetKey := (FieldReader.exact_iff hratchetKey).2
    (show ratchetKeyTag &&& 0x7 ≠ 0 by decide)
  have hcounter := (FieldReader.exact_iff hcounter).1
    (show counterTag &&& 0x7 = 0 by decide)
  have hciphertext := (FieldReader.exact_iff hciphertext).2
    (show ciphertextTag &&& 0x7 ≠ 0 by decide)
  constructor
  · intro h
    exact ⟨hratchetKey.mp h.ratchetKey, hcounter.mp h.counter, hciphertext.mp h.ciphertext⟩
  · intro h
    exact ⟨hratchetKey.mpr h.ratchetKey, hcounter.mpr h.counter, hciphertext.mpr h.ciphertext⟩

theorem decodeOneTimeKeyMessage_exact_iff (reader : PreKeyMessageReader) (m : Mem)
    (input inputLength : Nat) :
    (decodeOneTimeKeyMessage reader m input inputLength).Exact m (input + inputLength)
        (fieldStarts m (input + inputLength) (input + 1))
      ↔ PreKeyMessageFits m (input + inputLength)
          (fieldStarts m (input + inputLength) (input + 1)) := by
  have hfound := decodeOneTimeKeyMessage_found reader m input inputLength
  simp only [preKeyMessageReaders, List.forall_mem_cons] at hfound
  obtain ⟨honeTimeKey, hbaseKey, hidentityKey, hmessage, -⟩ := hfound
  have honeTimeKey := (FieldReader.exact_iff honeTimeKey).2
    (show oneTimeKeyIdTag &&& 0x7 ≠ 0 by decide)
  have hbaseKey := (FieldReader.exact_iff hbaseKey).2
    (show baseKeyTag &&& 0x7 ≠ 0 by decide)
  have hidentityKey := (FieldReader.exact_iff hidentityKey).2
    (show identityKeyTag &&& 0x7 ≠ 0 by decide)
  have hmessage := (FieldReader.exact_iff hmessage).2
    (show messageTag &&& 0x7 ≠ 0 by decide)
  constructor
  · intro h
    exact ⟨honeTimeKey.mp h.oneTimeKey, hbaseKey.mp h.baseKey, hidentityKey.mp h.identityKey,
      hmessage.mp h.message⟩
  · intro h
    exact ⟨honeTimeKey.mpr h.oneTimeKey, hbaseKey.mpr h.baseKey, hidentityKey.mpr h.identityKey,
      hmessage.mpr h.message⟩

/-- The flag of an empty group message is the one that was there. -/
theorem decodeGroupMessage_exact_iff (results : DecodeGroupMessageResults) (m : Mem)
    (input inputLength macLength signatureLength : Nat) :
    (decodeGroupMessage results m input inputLength macLength signatureLength).Exact m
        (input + inputLength - (macLength + signatureLength))
        (fieldStarts m (input + inputLength - (macLength + signatureLength)) (input + 1))
      ↔ GroupMessageFits m (input + inputLength - (macLength + signatureLength))
          (fieldStarts m (input + inputLength - (macLength + signatureLength)) (input + 1)) ∧
        (inputLength ≤ macLength + signatureLength → results.hasMessageIndex = false) := by
  by_cases hpayload : macLength + signatureLength < inputLength
  · have hfound := decodeGroupMessage_found results m input inputLength macLength signatureLength
      hpayload
    simp only [groupMessageReaders, List.forall_mem_cons] at hfound
    obtain ⟨hmessageIndex, hciphertext, -⟩ := hfound
    have hmessageIndex := (FieldReader.exact_iff hmessageIndex).1
      (show groupMessageIndexTag &&& 0x7 = 0 by decide)
    have hciphertext := (FieldReader.exact_iff hciphertext).2
      (show groupCiphertextTag &&& 0x7 ≠ 0 by decide)
    constructor
    · intro h
      exact ⟨⟨hmessageIndex.mp h.messageIndex, hciphertext.mp h.ciphertext⟩,
        fun hshort => absurd hpayload (Nat.not_lt.mpr hshort)⟩
    · rintro ⟨h, -⟩
      exact ⟨hmessageIndex.mpr h.messageIndex, hciphertext.mpr h.ciphertext⟩
  · have hshort := Nat.not_lt.mp hpayload
    have hnone : ∀ (tag : UInt8) (w : Nat), FieldFits m
        (input + inputLength - (macLength + signatureLength)) tag w [] :=
      fun _ _ _ h => (Option.some_ne_none _ h.symm).elim
    rw [decodeGroupMessage_short results m hshort, fieldStarts_short m hshort]
    constructor
    · intro h
      refine ⟨⟨hnone _ _, hnone _ _⟩, fun _ => ?_⟩
      have hmessageIndex := h.messageIndex
      cases hflag : results.hasMessageIndex with
      | false => rfl
      | true =>
          simp only [hflag, if_true] at hmessageIndex
          obtain ⟨_, _, htaken, -⟩ := hmessageIndex
          exact (Option.some_ne_none _ htaken.symm).elim
    · rintro ⟨-, h⟩
      refine ⟨?_, trivial⟩
      rw [show ({ results with messageIndex := 0, ciphertext := none, ciphertextLength := 0 } :
        DecodeGroupMessageResults).hasMessageIndex = false from h hshort]
      trivial

/-- The fields that fit are present. -/
theorem MessageFits.keptPresent {input : Nat}
    (h : MessageFits m fin (fieldStarts m fin (input + 1))) :
    ∀ b ∈ messageReaders m fin,
      KeptPresent m input fin b.tag (fieldStarts m fin (input + 1)) := by
  simp only [messageReaders, List.forall_mem_cons]
  exact ⟨h.ratchetKey.keptPresent (by decide),
    h.counter.keptPresent (by decide),
    h.ciphertext.keptPresent (by decide), List.forall_mem_nil _⟩

theorem PreKeyMessageFits.keptPresent {input : Nat}
    (h : PreKeyMessageFits m fin (fieldStarts m fin (input + 1))) :
    ∀ b ∈ preKeyMessageReaders m fin,
      KeptPresent m input fin b.tag (fieldStarts m fin (input + 1)) := by
  simp only [preKeyMessageReaders, List.forall_mem_cons]
  exact ⟨h.oneTimeKey.keptPresent (by decide),
    h.baseKey.keptPresent (by decide),
    h.identityKey.keptPresent (by decide),
    h.message.keptPresent (by decide), List.forall_mem_nil _⟩

theorem GroupMessageFits.keptPresent {input : Nat}
    (h : GroupMessageFits m fin (fieldStarts m fin (input + 1))) :
    ∀ b ∈ groupMessageReaders m fin,
      KeptPresent m input fin b.tag (fieldStarts m fin (input + 1)) := by
  simp only [groupMessageReaders, List.forall_mem_cons]
  exact ⟨h.messageIndex.keptPresent (by decide),
    h.ciphertext.keptPresent (by decide), List.forall_mem_nil _⟩

/-- In a message without a payload nothing is present, so the flag of a group message must not
    have been set. -/
theorem decodeGroupMessage_present_iff (results : DecodeGroupMessageResults) (m : Mem)
    (input inputLength macLength signatureLength : Nat) :
    let fin := input + inputLength - (macLength + signatureLength)
    let decoded := decodeGroupMessage results m input inputLength macLength signatureLength
    (∀ b ∈ groupMessageReaders m fin,
        ReportsPresent m input fin b.tag (b.found (decoded, decoded.hasMessageIndex)))
      ↔ (∀ b ∈ groupMessageReaders m fin,
          KeptPresent m input fin b.tag (fieldStarts m fin (input + 1))) ∧
        (inputLength ≤ macLength + signatureLength → results.hasMessageIndex = false) := by
  by_cases hpayload : macLength + signatureLength < inputLength
  · have hfound := decodeGroupMessage_found results m input inputLength macLength signatureLength
      hpayload
    refine (present_iff_of_found hfound).trans (and_iff_left ?_).symm
    exact fun hshort => absurd hpayload (Nat.not_lt.mpr hshort)
  · have hshort := Nat.not_lt.mp hpayload
    have hnone : ∀ tag : UInt8, KeptPresent m input
        (input + inputLength - (macLength + signatureLength)) tag [] :=
      fun _ _ h => (Option.some_ne_none _ h.symm).elim
    simp only
    rw [decodeGroupMessage_short results m hshort, fieldStarts_short m hshort]
    simp only [groupMessageReaders, List.forall_mem_cons]
    cases hflag : results.hasMessageIndex with
    | false =>
        refine iff_of_true ⟨trivial, trivial, List.forall_mem_nil _⟩ ⟨?_, fun _ => rfl⟩
        exact ⟨hnone _, hnone _, List.forall_mem_nil _⟩
    | true =>
        refine iff_of_false ?_ (fun h => Bool.noConfusion (h.2 hshort))
        rintro ⟨⟨start, p, hfirst, hlast, -⟩, -⟩
        omega

/-- **WHAT IS REPORTED** is exact if and only if the fields it is taken from are.  Then it is
    somewhere in the payload, which it is if and only if the bits that are kept are there. -/
theorem decoders_exact_iff (reader : MessageReader) (preKeyReader : PreKeyMessageReader)
    (results : DecodeGroupMessageResults) (m : Mem)
    (input inputLength macLength signatureLength : Nat) :
    (let fin := input + inputLength - macLength
      let starts := fieldStarts m fin (input + 1)
      let decoded := decodeMessage reader m input inputLength macLength
      (decoded.Exact m fin starts ↔ MessageFits m fin starts) ∧
      (MessageFits m fin starts → ∀ b ∈ messageReaders m fin,
        KeptPresent m input fin b.tag starts) ∧
      ((∀ b ∈ messageReaders m fin, ReportsPresent m input fin b.tag (b.found decoded))
        ↔ ∀ b ∈ messageReaders m fin, KeptPresent m input fin b.tag starts)) ∧
    (let fin := input + inputLength
      let starts := fieldStarts m fin (input + 1)
      let decoded := decodeOneTimeKeyMessage preKeyReader m input inputLength
      (decoded.Exact m fin starts ↔ PreKeyMessageFits m fin starts) ∧
      (PreKeyMessageFits m fin starts → ∀ b ∈ preKeyMessageReaders m fin,
        KeptPresent m input fin b.tag starts) ∧
      ((∀ b ∈ preKeyMessageReaders m fin, ReportsPresent m input fin b.tag (b.found decoded))
        ↔ ∀ b ∈ preKeyMessageReaders m fin, KeptPresent m input fin b.tag starts)) ∧
    (let fin := input + inputLength - (macLength + signatureLength)
      let starts := fieldStarts m fin (input + 1)
      let decoded := decodeGroupMessage results m input inputLength macLength signatureLength
      let flagFits := inputLength ≤ macLength + signatureLength → results.hasMessageIndex = false
      (decoded.Exact m fin starts ↔ GroupMessageFits m fin starts ∧ flagFits) ∧
      (GroupMessageFits m fin starts → ∀ b ∈ groupMessageReaders m fin,
        KeptPresent m input fin b.tag starts) ∧
      ((∀ b ∈ groupMessageReaders m fin,
          ReportsPresent m input fin b.tag (b.found (decoded, decoded.hasMessageIndex)))
        ↔ (∀ b ∈ groupMessageReaders m fin, KeptPresent m input fin b.tag starts) ∧ flagFits)) :=
  ⟨⟨decodeMessage_exact_iff reader m input inputLength macLength, MessageFits.keptPresent,
      present_iff_of_found (decodeMessage_found reader m input inputLength macLength)⟩,
    ⟨decodeOneTimeKeyMessage_exact_iff preKeyReader m input inputLength,
      PreKeyMessageFits.keptPresent,
      present_iff_of_found (decodeOneTimeKeyMessage_found preKeyReader m input inputLength)⟩,
    ⟨decodeGroupMessage_exact_iff results m input inputLength macLength signatureLength,
      GroupMessageFits.keptPresent,
      decodeGroupMessage_present_iff results m input inputLength macLength signatureLength⟩⟩

/-- A counter of one group that goes on, a counter of 2^32, and a length that goes on are
    reported as 0, which stands nowhere in the input. -/
theorem decodeMessage_reportsInexact :
    (let m := write (fun _ => 0) 0 [3, 0x10, 0x80]
      let reader := decodeMessage ⟨0, false, 0, 0, 0, none, 0, none, 0⟩ m 0 3 0
      reader.hasCounter = true ∧ reader.counter = 0 ∧ ¬HasExact m 0 3 counterTag 0) ∧
    (let m := write (fun _ => 0) 0 [3, 0x10, 0x80, 0x80, 0x80, 0x80, 0x10]
      let reader := decodeMessage ⟨0, false, 0, 0, 0, none, 0, none, 0⟩ m 0 7 0
      reader.hasCounter = true ∧ reader.counter = 0 ∧ ¬HasExact m 0 7 counterTag 0) ∧
    (let m := write (fun _ => 0) 0 [3, 0x0A, 0x80]
      let reader := decodeMessage ⟨0, false, 0, 0, 0, none, 0, none, 0⟩ m 0 3 0
      reader.ratchetKey = some 3 ∧ reader.ratchetKeyLength = 0 ∧
        ¬HasExact m 0 3 ratchetKeyTag 0) := by
  simp only [hasExact_iff]
  decide

end OlmMessage
