import SelfOlm.Lib.ReadOnly
import SelfOlm.DecoderLoopProofs

/-! # Where the decoders read and that they end

    The decoders again, as programs that log the bytes they load, with the outer loop as a
    loop without a counter.  Every pass of it moves on by a field, whatever the bytes are,
    so it ends, and it never leaves the part of the input before the trailer.  The one
    field that an input without a payload may show is the index of a group message, whose
    flag is then that of the caller. -/

namespace OlmMessage

open ByteMemory OlmCrypto AccessLog Logged

/-! ## The code -/

/-- A byte of the input. -/
def inputByte (pos : Nat) : Logged Unit UInt8 := load ⟨(), pos⟩

/-- The `while` loop of `varint_skip`. -/
def loggedVarintSkipLoop : Nat → Nat → Logged Unit Nat
  | 0, input => pure input
  | n + 1, input => do
      let tmp ← inputByte input
      if tmp &&& 0x80 = 0 then pure (input + 1) else loggedVarintSkipLoop n (input + 1)

/-- `varint_skip`. -/
def loggedVarintSkip (input inputEnd : Nat) : Logged Unit Nat :=
  loggedVarintSkipLoop (inputEnd - input) input

/-- The `do` loop of `varint_decode`. -/
def loggedVarintDecodeLoop (w varintStart : Nat) : Nat → Nat → Logged Unit Nat
  | 0, value => pure value
  | n + 1, value => do
      let byte ← inputByte (varintStart + n)
      loggedVarintDecodeLoop w varintStart n (((value <<< 7) % 2 ^ w) ||| (0x7F &&& byte.toNat))

/-- `varint_decode<T>`. -/
def loggedVarintDecode (w varintStart varintEnd : Nat) : Logged Unit Nat :=
  loggedVarintDecodeLoop w varintStart (varintEnd - varintStart) 0

/-- `decode` for an integer. -/
def loggedDecodeValue (pos fin : Nat) (tag : UInt8) (value : UInt32) (hasValue : Bool) :
    Logged Unit (Nat × UInt32 × Bool) :=
  if pos ≠ fin then do
    let byte ← inputByte pos
    if byte = tag then do
      let valueEnd ← loggedVarintSkip (pos + 1) fin
      let decoded ← loggedVarintDecode 32 (pos + 1) valueEnd
      pure (valueEnd, UInt32.ofNat decoded, true)
    else pure (pos, value, hasValue)
  else pure (pos, value, hasValue)

/-- `decode` for a string. -/
def loggedDecodeString (pos fin : Nat) (tag : UInt8) (value : Option Nat) (valueLength : Nat) :
    Logged Unit (Nat × Option Nat × Nat) :=
  if pos ≠ fin then do
    let byte ← inputByte pos
    if byte = tag then do
      let lenEnd ← loggedVarintSkip (pos + 1) fin
      let len ← loggedVarintDecode 64 (pos + 1) lenEnd
      pure (if len > fin - lenEnd then (fin, value, valueLength)
        else (lenEnd + len, some lenEnd, len))
    else pure (pos, value, valueLength)
  else pure (pos, value, valueLength)

/-- `skip_unknown`. -/
def loggedSkipUnknown (pos fin : Nat) : Logged Unit Nat :=
  if pos ≠ fin then do
    let tag ← inputByte pos
    if tag &&& 0x7 = 0 then do
      let tagEnd ← loggedVarintSkip pos fin
      loggedVarintSkip tagEnd fin
    else if tag &&& 0x7 = 2 then do
      let lenStart ← loggedVarintSkip pos fin
      let lenEnd ← loggedVarintSkip lenStart fin
      let len ← loggedVarintDecode 64 lenStart lenEnd
      pure (if len > fin - lenEnd then fin else lenEnd + len)
    else pure fin
  else pure pos

/-- One pass of `while (pos != end)`, for a row of `decode` calls. -/
def loggedPass {R : Type} (row : R → Nat → Logged Unit (R × Nat)) (fin : Nat) (state : R × Nat) :
    Logged Unit (R × Nat) := do
  let decoded ← row state.1 state.2
  if state.2 = decoded.2 then do
    let pos ← loggedSkipUnknown decoded.2 fin
    pure (decoded.1, pos)
  else pure decoded

/-- The row of `decode` calls in `decode_message`. -/
def loggedMessageFields (fin : Nat) (reader : MessageReader) (pos : Nat) :
    Logged Unit (MessageReader × Nat) := do
  let (pos, ratchetKey, ratchetKeyLength) ←
    loggedDecodeString pos fin ratchetKeyTag reader.ratchetKey reader.ratchetKeyLength
  let (pos, counter, hasCounter) ←
    loggedDecodeValue pos fin counterTag reader.counter reader.hasCounter
  let (pos, ciphertext, ciphertextLength) ←
    loggedDecodeString pos fin ciphertextTag reader.ciphertext reader.ciphertextLength
  pure ({ reader with ratchetKey, ratchetKeyLength, counter, hasCounter, ciphertext,
                      ciphertextLength }, pos)

/-- The row of `decode` calls in `decode_one_time_key_message`. -/
def loggedPreKeyMessageFields (fin : Nat) (reader : PreKeyMessageReader) (pos : Nat) :
    Logged Unit (PreKeyMessageReader × Nat) := do
  let (pos, oneTimeKey, oneTimeKeyLength) ←
    loggedDecodeString pos fin oneTimeKeyIdTag reader.oneTimeKey reader.oneTimeKeyLength
  let (pos, baseKey, baseKeyLength) ←
    loggedDecodeString pos fin baseKeyTag reader.baseKey reader.baseKeyLength
  let (pos, identityKey, identityKeyLength) ←
    loggedDecodeString pos fin identityKeyTag reader.identityKey reader.identityKeyLength
  let (pos, message, messageLength) ←
    loggedDecodeString pos fin messageTag reader.message reader.messageLength
  pure ({ reader with oneTimeKey, oneTimeKeyLength, baseKey, baseKeyLength, identityKey,
                      identityKeyLength, message, messageLength }, pos)

/-- The row of `decode` calls in `_olm_decode_group_message`. -/
def loggedGroupMessageFields (fin : Nat) (state : DecodeGroupMessageResults × Bool) (pos : Nat) :
    Logged Unit ((DecodeGroupMessageResults × Bool) × Nat) := do
  let (results, hasMessageIndex) := state
  let (pos, messageIndex, hasMessageIndex) ←
    loggedDecodeValue pos fin groupMessageIndexTag results.messageIndex hasMessageIndex
  let (pos, ciphertext, ciphertextLength) ←
    loggedDecodeString pos fin groupCiphertextTag results.ciphertext results.ciphertextLength
  pure (({ results with messageIndex, ciphertext, ciphertextLength }, hasMessageIndex), pos)

/-- What each decoder does behind its first assignments: the early returns, the version
    byte, the loop, and what is set behind it.  The result comes with the loads and with
    the positions that the loop tests. -/
inductive DecoderRuns {R T : Type} (m : Mem) (input fin : Nat) (tooShort : Prop) (initial : T)
    (start : UInt8 → R) (row : R → Nat → Logged Unit (R × Nat)) (finish : R → T) :
    T → List (Access Unit) → List Nat → Prop
  | returns (h : tooShort ∨ input = fin) :
      DecoderRuns m input fin tooShort initial start row finish initial [] []
  | loops {state : R × Nat} {log : List (Access Unit)} {states : List (R × Nat)}
      (hlong : ¬tooShort) (hpayload : input ≠ fin)
      (hloop : LoopRuns (fun s : R × Nat => decide (s.2 ≠ fin)) (loggedPass row fin)
        (start (m input), input + 1) m state m log states) :
      DecoderRuns m input fin tooShort initial start row finish (finish state.1)
        (accesses (inputByte input) m ++ log) (states.map Prod.snd)

/-- `decode_message`. -/
def DecodeMessageRuns (reader : MessageReader) (m : Mem) (input inputLength macLength : Nat) :=
  let fin := input + inputLength - macLength
  let initial := { reader with
    input, inputLength, hasCounter := false, ratchetKey := none, ratchetKeyLength := 0,
    ciphertext := none, ciphertextLength := 0 }
  DecoderRuns m input fin (inputLength < macLength) initial
    (fun version => { initial with version }) (loggedMessageFields fin) id

/-- `decode_one_time_key_message`. -/
def DecodeOneTimeKeyMessageRuns (reader : PreKeyMessageReader) (m : Mem)
    (input inputLength : Nat) :=
  let fin := input + inputLength
  let initial := { reader with
    oneTimeKey := none, oneTimeKeyLength := 0, identityKey := none, identityKeyLength := 0,
    baseKey := none, baseKeyLength := 0, message := none, messageLength := 0 }
  DecoderRuns m input fin False initial (fun version => { initial with version })
    (loggedPreKeyMessageFields fin) id

/-- `_olm_decode_group_message`. -/
def DecodeGroupMessageRuns (results : DecodeGroupMessageResults) (m : Mem)
    (input inputLength macLength signatureLength : Nat) :=
  let trailerLength := macLength + signatureLength
  let fin := input + inputLength - trailerLength
  let initial := { results with messageIndex := 0, ciphertext := none, ciphertextLength := 0 }
  DecoderRuns m input fin (inputLength < trailerLength) initial
    (fun version => ({ initial with version }, false)) (loggedGroupMessageFields fin)
    (fun state => { state.1 with hasMessageIndex := state.2 })

/-! ## What the parts compute -/

/-- A load before the trailer; nothing is stored. -/
def InsideLoad (input fin : Nat) : Access Unit → Prop :=
  Access.Within (fun _ p n => input ≤ p ∧ p + n ≤ fin) (fun _ _ _ => False)

variable {m : Mem} {input fin pos : Nat} {R T : Type}

theorem computes_inputByte (hge : input ≤ pos) (hlt : pos < fin) :
    Computes (InsideLoad input fin) (inputByte pos) m (m pos) :=
  computes_load ⟨hge, hlt⟩

theorem computes_varintSkipLoop :
    ∀ (n pos : Nat), input ≤ pos → pos + n ≤ fin →
      Computes (InsideLoad input fin) (loggedVarintSkipLoop n pos) m (varintSkipLoop m n pos) := by
  intro n
  induction n with
  | zero => intro pos _ _; exact computes_pure pos
  | succ n ih =>
      intro pos hge hle
      refine (computes_inputByte hge (by omega)).bind ?_
      rw [varintSkipLoop]
      by_cases hstop : m pos &&& 0x80 = 0
      · rw [if_pos hstop, if_pos hstop]
        exact computes_pure _
      · rw [if_neg hstop, if_neg hstop]
        exact ih (pos + 1) (by omega) (by omega)

theorem computes_varintSkip (hge : input ≤ pos) (hle : pos ≤ fin) :
    Computes (InsideLoad input fin) (loggedVarintSkip pos fin) m (varintSkip m pos fin) :=
  computes_varintSkipLoop (fin - pos) pos hge (by omega)

theorem computes_varintDecodeLoop (w : Nat) (hge : input ≤ pos) :
    ∀ (n value : Nat), pos + n ≤ fin →
      Computes (InsideLoad input fin) (loggedVarintDecodeLoop w pos n value) m
        (varintDecodeLoop w m pos n value) := by
  intro n
  induction n with
  | zero => intro value _; exact computes_pure value
  | succ n ih =>
      intro value hle
      exact (computes_inputByte (by omega) (by omega)).bind (ih _ (by omega))

theorem computes_varintDecode (w : Nat) {varintEnd : Nat} (hge : input ≤ pos)
    (hle : pos ≤ varintEnd) (hfin : varintEnd ≤ fin) :
    Computes (InsideLoad input fin) (loggedVarintDecode w pos varintEnd) m
      (varintDecode w m pos varintEnd) :=
  computes_varintDecodeLoop w hge (varintEnd - pos) 0 (by omega)

theorem computes_decodeValue (hge : input ≤ pos) (hle : pos ≤ fin) (tag : UInt8) (value : UInt32)
    (hasValue : Bool) :
    Computes (InsideLoad input fin) (loggedDecodeValue pos fin tag value hasValue) m
      (decodeValue m pos fin tag value hasValue) := by
  rw [loggedDecodeValue, decodeValue]
  by_cases hpos : pos ≠ fin
  · have hlt : pos + 1 ≤ fin := by omega
    have hskip := varintSkip_le m hlt
    have hskip' := le_varintSkip m (pos + 1) fin
    rw [if_pos hpos]
    refine (computes_inputByte hge hlt).bind ?_
    by_cases htag : m pos = tag
    · rw [if_pos htag, if_pos ⟨hpos, htag⟩]
      refine (computes_varintSkip (by omega) hlt).bind ?_
      refine (computes_varintDecode 32 (by omega) hskip' hskip).bind ?_
      exact computes_pure _
    · rw [if_neg htag, if_neg (fun h => htag h.2)]
      exact computes_pure _
  · rw [if_neg hpos, if_neg (fun h => hpos h.1)]
    exact computes_pure _

theorem computes_decodeString (hge : input ≤ pos) (hle : pos ≤ fin) (tag : UInt8)
    (value : Option Nat) (valueLength : Nat) :
    Computes (InsideLoad input fin) (loggedDecodeString pos fin tag value valueLength) m
      (decodeString m pos fin tag value valueLength) := by
  rw [loggedDecodeString, decodeString]
  by_cases hpos : pos ≠ fin
  · have hlt : pos + 1 ≤ fin := by omega
    have hskip := varintSkip_le m hlt
    have hskip' := le_varintSkip m (pos + 1) fin
    rw [if_pos hpos]
    refine (computes_inputByte hge hlt).bind ?_
    by_cases htag : m pos = tag
    · rw [if_pos htag, if_pos ⟨hpos, htag⟩]
      refine (computes_varintSkip (by omega) hlt).bind ?_
      refine (computes_varintDecode 64 (by omega) hskip' hskip).bind ?_
      exact computes_pure _
    · rw [if_neg htag, if_neg (fun h => htag h.2)]
      exact computes_pure _
  · rw [if_neg hpos, if_neg (fun h => hpos h.1)]
    exact computes_pure _

theorem computes_skipUnknown (hge : input ≤ pos) (hle : pos ≤ fin) :
    Computes (InsideLoad input fin) (loggedSkipUnknown pos fin) m (skipUnknown m pos fin) := by
  rw [loggedSkipUnknown, skipUnknown]
  by_cases hpos : pos ≠ fin
  · have hfirst := varintSkip_le m hle
    have hfirst' := le_varintSkip m pos fin
    have hsecond := varintSkip_le m hfirst
    have hsecond' := le_varintSkip m (varintSkip m pos fin) fin
    rw [if_pos hpos, if_pos hpos]
    refine (computes_inputByte hge (by omega)).bind ?_
    simp only
    by_cases hvalue : m pos &&& 0x7 = 0
    · rw [if_pos hvalue, if_pos hvalue]
      refine (computes_varintSkip hge hle).bind ?_
      exact computes_varintSkip (by omega) hfirst
    · rw [if_neg hvalue, if_neg hvalue]
      by_cases hstring : m pos &&& 0x7 = 2
      · rw [if_pos hstring, if_pos hstring]
        refine (computes_varintSkip hge hle).bind ?_
        refine (computes_varintSkip (by omega) hfirst).bind ?_
        refine (computes_varintDecode 64 (by omega) hsecond' hsecond).bind ?_
        exact computes_pure _
      · rw [if_neg hstring, if_neg hstring]
        exact computes_pure _
  · rw [if_neg hpos, if_neg hpos]
    exact computes_pure _

theorem computes_messageFields (reader : MessageReader) (hge : input ≤ pos) (hle : pos ≤ fin) :
    Computes (InsideLoad input fin) (loggedMessageFields fin reader pos) m
      (messageFields m fin reader pos) := by
  obtain ⟨hge₁, hle₁⟩ := decodeString_le m hle ratchetKeyTag reader.ratchetKey
    reader.ratchetKeyLength
  obtain ⟨hge₂, hle₂⟩ := decodeValue_le m hle₁ counterTag reader.counter reader.hasCounter
  rw [loggedMessageFields]
  refine (computes_decodeString hge hle ratchetKeyTag reader.ratchetKey
    reader.ratchetKeyLength).bind ?_
  refine (computes_decodeValue (by omega) hle₁ counterTag reader.counter reader.hasCounter).bind ?_
  refine (computes_decodeString (by omega) hle₂ ciphertextTag reader.ciphertext
    reader.ciphertextLength).bind ?_
  exact computes_pure _

theorem computes_preKeyMessageFields (reader : PreKeyMessageReader) (hge : input ≤ pos)
    (hle : pos ≤ fin) :
    Computes (InsideLoad input fin) (loggedPreKeyMessageFields fin reader pos) m
      (preKeyMessageFields m fin reader pos) := by
  obtain ⟨hge₁, hle₁⟩ := decodeString_le m hle oneTimeKeyIdTag reader.oneTimeKey
    reader.oneTimeKeyLength
  obtain ⟨hge₂, hle₂⟩ := decodeString_le m hle₁ baseKeyTag reader.baseKey reader.baseKeyLength
  obtain ⟨hge₃, hle₃⟩ := decodeString_le m hle₂ identityKeyTag reader.identityKey
    reader.identityKeyLength
  rw [loggedPreKeyMessageFields]
  refine (computes_decodeString hge hle oneTimeKeyIdTag reader.oneTimeKey
    reader.oneTimeKeyLength).bind ?_
  refine (computes_decodeString (by omega) hle₁ baseKeyTag reader.baseKey
    reader.baseKeyLength).bind ?_
  refine (computes_decodeString (by omega) hle₂ identityKeyTag reader.identityKey
    reader.identityKeyLength).bind ?_
  refine (computes_decodeString (by omega) hle₃ messageTag reader.message
    reader.messageLength).bind ?_
  exact computes_pure _

theorem computes_groupMessageFields (state : DecodeGroupMessageResults × Bool)
    (hge : input ≤ pos) (hle : pos ≤ fin) :
    Computes (InsideLoad input fin) (loggedGroupMessageFields fin state pos) m
      (groupMessageFields m fin state pos) := by
  obtain ⟨results, hasMessageIndex⟩ := state
  obtain ⟨hge₁, hle₁⟩ := decodeValue_le m hle groupMessageIndexTag results.messageIndex
    hasMessageIndex
  rw [loggedGroupMessageFields]
  refine (computes_decodeValue hge hle groupMessageIndexTag results.messageIndex
    hasMessageIndex).bind ?_
  refine (computes_decodeString (by omega) hle₁ groupCiphertextTag results.ciphertext
    results.ciphertextLength).bind ?_
  exact computes_pure _

/-! ## The loop -/

variable {readers : List (FieldReader R)} {row : R → Nat → Logged Unit (R × Nat)}

/-- The row of `decode` calls computes what the readers do. -/
def RowComputes (input fin : Nat) (m : Mem) (readers : List (FieldReader R))
    (row : R → Nat → Logged Unit (R × Nat)) : Prop :=
  ∀ reader pos, input ≤ pos → pos ≤ fin →
    Computes (InsideLoad input fin) (row reader pos) m (readRow readers reader pos)

theorem computes_pass (hcomputes : RowComputes input fin m readers row) (reader : R)
    (hge : input ≤ pos) (hlt : pos < fin) :
    Computes (InsideLoad input fin) (loggedPass row fin (reader, pos)) m
      (loopStep m fin readers reader pos) := by
  rw [loggedPass, loopStep]
  refine (hcomputes reader pos hge (Nat.le_of_lt hlt)).bind ?_
  simp only
  by_cases hstays : pos = (readRow readers reader pos).2
  · rw [if_pos hstays, if_pos hstays, ← hstays]
    exact (computes_skipUnknown hge (Nat.le_of_lt hlt)).bind (computes_pure _)
  · rw [if_neg hstays, if_neg hstays]
    exact computes_pure _

/-- The position is in the payload, and what is left of the loop gives the result. -/
def LoopInvariant (input fin : Nat) (m : Mem) (readers : List (FieldReader R)) (result : R)
    (s : R × Nat) : Prop :=
  (input ≤ s.2 ∧ s.2 ≤ fin) ∧
    ∃ k, fin - s.2 ≤ k ∧ decodeFields m (readRow readers) fin k s.1 s.2 = result

/-- **ONE PASS** keeps the invariant and moves on. -/
theorem LoopInvariant.step (hrow : Row readers m fin) {result : R} {s : R × Nat}
    (h : LoopInvariant input fin m readers result s) (hne : s.2 ≠ fin) :
    LoopInvariant input fin m readers result (loopStep m fin readers s.1 s.2) ∧
      fin - (loopStep m fin readers s.1 s.2).2 < fin - s.2 := by
  obtain ⟨⟨hge, hle⟩, k, hk, hdecoded⟩ := h
  obtain ⟨hlt, hle', -⟩ := hrow.loopStep_outcome s.1 (show s.2 < fin by omega)
  refine ⟨⟨⟨by omega, hle'⟩, k - 1, by omega, ?_⟩, by omega⟩
  rw [← hdecoded, show k = (k - 1) + 1 by omega, decodeFields, if_neg hne]
  rfl

/-- At the end there is nothing left of the loop. -/
theorem LoopInvariant.stop {result : R} {s : R × Nat}
    (h : LoopInvariant input fin m readers result s) (hend : s.2 = fin) : s = (result, fin) := by
  obtain ⟨-, k, -, hdecoded⟩ := h
  refine Prod.ext ?_ hend
  rw [← hdecoded, hend]
  cases k with
  | zero => rfl
  | succ k => rw [decodeFields, if_pos rfl]

/-- **THE LOOP ENDS** at the end of the payload: the bytes that are left get fewer. -/
theorem decodeFields_runs (hrow : Row readers m fin)
    (hcomputes : RowComputes input fin m readers row) (reader : R) (hge : input ≤ pos)
    (hle : pos ≤ fin) {n : Nat} (hn : fin - pos ≤ n) :
    ∃ log states, LoopRuns (fun s : R × Nat => decide (s.2 ≠ fin)) (loggedPass row fin)
        (reader, pos) m (decodeFields m (readRow readers) fin n reader pos, fin) m log states ∧
      (∀ a ∈ log, InsideLoad input fin a) ∧ ∀ s ∈ states, input ≤ s.2 ∧ s.2 ≤ fin := by
  obtain ⟨s, log, states, hruns, hs, hstop, hlog, hstates⟩ :=
    loopRuns_of_computes
      (LoopInvariant input fin m readers (decodeFields m (readRow readers) fin n reader pos))
      (fun s : R × Nat => fin - s.2)
      (fun s hs hagain => ⟨computes_pass hcomputes s.1 hs.1.1
          (Nat.lt_of_le_of_ne hs.1.2 (of_decide_eq_true hagain)),
        hs.step hrow (of_decide_eq_true hagain)⟩)
      (fin - pos) (reader, pos) rfl ⟨⟨hge, hle⟩, n, hn, rfl⟩
  have hend : s.2 = fin := not_not.mp (of_decide_eq_false hstop)
  exact ⟨log, states, hs.stop hend ▸ hruns, hlog, fun t ht => (hstates t ht).1⟩

/-! ## The decoders end inside the payload -/

/-- The decoder ends, with this result; it loads nothing but bytes before the trailer and
    its loop tests no position behind them. -/
def EndsInside (runs : T → List (Access Unit) → List Nat → Prop) (input fin : Nat) (result : T) :
    Prop :=
  (∃ log positions, runs result log positions) ∧
    ∀ result' log positions, runs result' log positions →
      result' = result ∧ (∀ a ∈ log, InsideLoad input fin a) ∧
        ∀ p ∈ positions, input ≤ p ∧ p ≤ fin

variable {tooShort : Prop} {initial : T} {start : UInt8 → R} {finish : R → T}

theorem DecoderRuns.unique {result₁ result₂ : T} {log₁ log₂ : List (Access Unit)}
    {positions₁ positions₂ : List Nat}
    (h₁ : DecoderRuns m input fin tooShort initial start row finish result₁ log₁ positions₁)
    (h₂ : DecoderRuns m input fin tooShort initial start row finish result₂ log₂ positions₂) :
    result₁ = result₂ ∧ log₁ = log₂ ∧ positions₁ = positions₂ := by
  cases h₁ with
  | returns h =>
      cases h₂ with
      | returns _ => exact ⟨rfl, rfl, rfl⟩
      | loops hlong hpayload _ => exact absurd h (not_or.mpr ⟨hlong, hpayload⟩)
  | loops hlong hpayload hloop =>
      cases h₂ with
      | returns h => exact absurd h (not_or.mpr ⟨hlong, hpayload⟩)
      | loops _ _ hloop' =>
          obtain ⟨rfl, -, rfl, rfl⟩ := hloop.unique hloop'
          exact ⟨rfl, rfl, rfl⟩

/-- **A DECODER ENDS** inside the payload, if there is one, or before the loop. -/
theorem decoderRuns_endsInside (hrow : Row readers m fin)
    (hcomputes : RowComputes input fin m readers row) {n : Nat} (hn : fin - (input + 1) ≤ n)
    (hpayload : ¬tooShort → input ≤ fin) [Decidable tooShort] :
    EndsInside (DecoderRuns m input fin tooShort initial start row finish) input fin
      (if tooShort then initial else if input = fin then initial
        else finish (decodeFields m (readRow readers) fin n (start (m input)) (input + 1))) := by
  suffices h : ∃ log positions, DecoderRuns m input fin tooShort initial start row finish
      (if tooShort then initial else if input = fin then initial
        else finish (decodeFields m (readRow readers) fin n (start (m input)) (input + 1)))
      log positions ∧ (∀ a ∈ log, InsideLoad input fin a) ∧
        ∀ p ∈ positions, input ≤ p ∧ p ≤ fin by
    obtain ⟨log, positions, hruns, hlog, hpositions⟩ := h
    refine ⟨⟨log, positions, hruns⟩, fun result' log' positions' hruns' => ?_⟩
    obtain ⟨rfl, rfl, rfl⟩ := hruns'.unique hruns
    exact ⟨rfl, hlog, hpositions⟩
  by_cases hshort : tooShort
  · rw [if_pos hshort]
    exact ⟨[], [], .returns (Or.inl hshort), List.forall_mem_nil _, List.forall_mem_nil _⟩
  · rw [if_neg hshort]
    by_cases hempty : input = fin
    · rw [if_pos hempty]
      exact ⟨[], [], .returns (Or.inr hempty), List.forall_mem_nil _, List.forall_mem_nil _⟩
    · have hlt : input < fin := Nat.lt_of_le_of_ne (hpayload hshort) hempty
      rw [if_neg hempty]
      obtain ⟨log, states, hruns, hlog, hstates⟩ := decodeFields_runs hrow hcomputes
        (start (m input)) (Nat.le_succ input) (show input + 1 ≤ fin from hlt) hn
      refine ⟨_, _, .loops hshort hempty hruns, List.forall_mem_append.mpr ⟨?_, hlog⟩, ?_⟩
      · exact (computes_inputByte (Nat.le_refl input) hlt).accesses
      · exact List.forall_mem_map.mpr hstates

theorem decodeMessage_endsInside (reader : MessageReader) (m : Mem)
    (input inputLength macLength : Nat) :
    EndsInside (DecodeMessageRuns reader m input inputLength macLength) input
      (input + inputLength - macLength)
      (decodeMessage reader m input inputLength macLength) := by
  have hrow : RowComputes input (input + inputLength - macLength) m
      (messageReaders m (input + inputLength - macLength))
      (loggedMessageFields (input + inputLength - macLength)) := by
    intro reader pos hge hle
    rw [← messageFields_eq]
    exact computes_messageFields reader hge hle
  rw [decodeMessage, messageFields_eq]
  exact decoderRuns_endsInside (messageReaders_row m _) hrow (by omega) (by omega)

theorem decodeOneTimeKeyMessage_endsInside (reader : PreKeyMessageReader) (m : Mem)
    (input inputLength : Nat) :
    EndsInside (DecodeOneTimeKeyMessageRuns reader m input inputLength) input
      (input + inputLength) (decodeOneTimeKeyMessage reader m input inputLength) := by
  have hrow : RowComputes input (input + inputLength) m (preKeyMessageReaders m (input + inputLength))
      (loggedPreKeyMessageFields (input + inputLength)) := by
    intro reader pos hge hle
    rw [← preKeyMessageFields_eq]
    exact computes_preKeyMessageFields reader hge hle
  -- there is no trailer that the input could be shorter than
  have h : EndsInside (DecodeOneTimeKeyMessageRuns reader m input inputLength) input
      (input + inputLength) (if False
        then { reader with
          oneTimeKey := none, oneTimeKeyLength := 0, identityKey := none, identityKeyLength := 0,
          baseKey := none, baseKeyLength := 0, message := none, messageLength := 0 }
        else decodeOneTimeKeyMessage reader m input inputLength) := by
    rw [decodeOneTimeKeyMessage, preKeyMessageFields_eq]
    exact decoderRuns_endsInside (preKeyMessageReaders_row m _) hrow (by omega) (by omega)
  rwa [if_neg not_false] at h

theorem decodeGroupMessage_endsInside (results : DecodeGroupMessageResults) (m : Mem)
    (input inputLength macLength signatureLength : Nat) :
    EndsInside (DecodeGroupMessageRuns results m input inputLength macLength signatureLength)
      input (input + inputLength - (macLength + signatureLength))
      (decodeGroupMessage results m input inputLength macLength signatureLength) := by
  have hrow : RowComputes input (input + inputLength - (macLength + signatureLength)) m
      (groupMessageReaders m (input + inputLength - (macLength + signatureLength)))
      (loggedGroupMessageFields (input + inputLength - (macLength + signatureLength))) := by
    intro state pos hge hle
    rw [← groupMessageFields_eq]
    exact computes_groupMessageFields state hge hle
  rw [decodeGroupMessage, groupMessageFields_eq]
  exact decoderRuns_endsInside (groupMessageReaders_row m _) hrow (by omega) (by omega)

/-! ## What they return -/

theorem foundAt_inside {p n : Nat} (hpos : pos < fin)
    (h : foundAt m fin pos = some (.string p n)) : pos ≤ p ∧ p + n ≤ fin := by
  have hge := le_varintSkip m (pos + 1) fin
  have hle : varintSkip m (pos + 1) fin ≤ fin := varintSkip_le m (show pos + 1 ≤ fin from hpos)
  rw [foundAt] at h
  by_cases hvalue : m pos &&& 0x7 = 0
  · rw [if_pos hvalue] at h
    cases h
  · rw [if_neg hvalue] at h
    by_cases hlong : lengthAt m fin pos > fin - varintSkip m (pos + 1) fin
    · rw [if_pos hlong] at h
      cases h
    · rw [if_neg hlong] at h
      cases h
      exact ⟨by omega, by omega⟩

theorem lastFound_mem {tag : UInt8} {starts : List Nat} {found : Found}
    (h : lastFound m fin tag starts = some found) :
    ∃ start ∈ starts, foundAt m fin start = some found := by
  obtain ⟨start, hstart, hfound⟩ := List.mem_filterMap.mp (List.mem_of_getLast? h)
  exact ⟨start, List.mem_of_mem_filter hstart, hfound⟩

/-- **A STRING** that is found lies behind the version byte and before the trailer. -/
theorem stringInside_of_found {tag : UInt8} {value : Option Nat} {valueLength : Nat}
    (h : (value.map fun p => Found.string p valueLength)
      = lastFound m fin tag (fieldStarts m fin (input + 1))) :
    StringInside input fin value valueLength := by
  rintro p rfl
  obtain ⟨start, hstart, hfound⟩ := lastFound_mem h.symm
  obtain ⟨hge, hlt⟩ := fieldStarts_bounds _ _ rfl start hstart
  obtain ⟨hinside, hend⟩ := foundAt_inside hlt hfound
  exact ⟨by omega, hend⟩

/-- What is found in an input that is too short. -/
theorem decodeMessage_noField (reader : MessageReader) (m : Mem)
    {input inputLength macLength : Nat} (hshort : inputLength < macLength) :
    (decodeMessage reader m input inputLength macLength).hasCounter = false ∧
      (decodeMessage reader m input inputLength macLength).ratchetKey = none ∧
      (decodeMessage reader m input inputLength macLength).ciphertext = none := by
  rw [decodeMessage]
  simp only
  rw [if_pos hshort]
  exact ⟨rfl, rfl, rfl⟩

theorem decodeOneTimeKeyMessage_strings_inside (reader : PreKeyMessageReader) (m : Mem)
    (input inputLength : Nat) :
    let decoded := decodeOneTimeKeyMessage reader m input inputLength
    StringInside input (input + inputLength) decoded.oneTimeKey decoded.oneTimeKeyLength ∧
      StringInside input (input + inputLength) decoded.baseKey decoded.baseKeyLength ∧
      StringInside input (input + inputLength) decoded.identityKey decoded.identityKeyLength ∧
      StringInside input (input + inputLength) decoded.message decoded.messageLength := by
  have hfound := decodeOneTimeKeyMessage_found reader m input inputLength
  simp only [preKeyMessageReaders, List.forall_mem_cons] at hfound
  obtain ⟨honeTimeKey, hbaseKey, hidentityKey, hmessage, -⟩ := hfound
  exact ⟨stringInside_of_found honeTimeKey, stringInside_of_found hbaseKey,
    stringInside_of_found hidentityKey, stringInside_of_found hmessage⟩

theorem decodeGroupMessage_string_inside (results : DecodeGroupMessageResults) (m : Mem)
    (input inputLength macLength signatureLength : Nat) :
    let decoded := decodeGroupMessage results m input inputLength macLength signatureLength
    StringInside input (input + inputLength - (macLength + signatureLength)) decoded.ciphertext
      decoded.ciphertextLength := by
  by_cases hpayload : macLength + signatureLength < inputLength
  · have hfound := decodeGroupMessage_found results m input inputLength macLength signatureLength
      hpayload
    simp only [groupMessageReaders, List.forall_mem_cons] at hfound
    exact stringInside_of_found hfound.2.1
  · rw [decodeGroupMessage_short results m (Nat.not_lt.mp hpayload)]
    exact stringInside_none _ _ _

/-- **THE DECODERS** end, read and return nothing behind the payload, and find nothing in
    an input that is too short, but for the flag of a group message: it is the caller's. -/
theorem decoders_inside_iff (reader : MessageReader) (preKeyReader : PreKeyMessageReader)
    (results : DecodeGroupMessageResults) (m : Mem)
    (input inputLength macLength signatureLength : Nat) :
    (let decoded := decodeMessage reader m input inputLength macLength
      let fin := input + inputLength - macLength
      EndsInside (DecodeMessageRuns reader m input inputLength macLength) input fin decoded ∧
      (StringInside input fin decoded.ratchetKey decoded.ratchetKeyLength ∧
        StringInside input fin decoded.ciphertext decoded.ciphertextLength) ∧
      (inputLength < macLength →
        decoded.hasCounter = false ∧ decoded.ratchetKey = none ∧ decoded.ciphertext = none)) ∧
    (let decoded := decodeOneTimeKeyMessage preKeyReader m input inputLength
      let fin := input + inputLength
      EndsInside (DecodeOneTimeKeyMessageRuns preKeyReader m input inputLength) input fin decoded ∧
      StringInside input fin decoded.oneTimeKey decoded.oneTimeKeyLength ∧
      StringInside input fin decoded.baseKey decoded.baseKeyLength ∧
      StringInside input fin decoded.identityKey decoded.identityKeyLength ∧
      StringInside input fin decoded.message decoded.messageLength) ∧
    (let decoded := decodeGroupMessage results m input inputLength macLength signatureLength
      let fin := input + inputLength - (macLength + signatureLength)
      (EndsInside (DecodeGroupMessageRuns results m input inputLength macLength signatureLength)
          input fin decoded ∧
        StringInside input fin decoded.ciphertext decoded.ciphertextLength ∧
        (inputLength < macLength + signatureLength →
          decoded.hasMessageIndex = false ∧ decoded.ciphertext = none))
      ↔ (inputLength < macLength + signatureLength → results.hasMessageIndex = false)) := by
  refine ⟨⟨?_, ?_, ?_⟩, ⟨?_, ?_⟩, ?_⟩
  · exact decodeMessage_endsInside reader m input inputLength macLength
  · exact decodeMessage_strings_inside reader m input inputLength macLength
  · exact decodeMessage_noField reader m
  · exact decodeOneTimeKeyMessage_endsInside preKeyReader m input inputLength
  · exact decodeOneTimeKeyMessage_strings_inside preKeyReader m input inputLength
  · have hends := decodeGroupMessage_endsInside results m input inputLength macLength
      signatureLength
    have hinside := decodeGroupMessage_string_inside results m input inputLength macLength
      signatureLength
    constructor
    · rintro ⟨-, -, hnone⟩ hshort
      have hflag := (hnone hshort).1
      rwa [decodeGroupMessage_short results m (Nat.le_of_lt hshort)] at hflag
    · intro hflag
      refine ⟨hends, hinside, fun hshort => ?_⟩
      rw [decodeGroupMessage_short results m (Nat.le_of_lt hshort)]
      exact ⟨hflag hshort, rfl⟩

/-- A group message of one byte with an index, for a flag that was set. -/
theorem decodeGroupMessage_staleFlag :
    let m : Mem := fun _ => 3
    (decodeGroupMessage ⟨3, 7, true, none, 0⟩ m 0 1 8 64).hasMessageIndex = true ∧
      1 < 8 + 64 := by
  decide

end OlmMessage
