import SelfOlm.MessageProofs

/-! # The loop of the decoders

    One pass of a decoder tries its known tags in a fixed order, and may take several
    fields or skip one.  That is the same as going over the fields from left to right:
    `fieldStarts` are the places where fields start, each found from the one before by
    `skip_unknown`, whether its tag is known or not, and what is decoded for a tag comes
    from the last of them with that tag. -/

namespace OlmMessage

open ByteMemory OlmCrypto

/-- What is decoded for a field: an integer, or the place and the length of a string. -/
inductive Found where
  | value (n : UInt32)
  | string (p n : Nat)
  deriving DecidableEq

/-! ## One field -/

/-- A tag of one byte, of an integer or a string. -/
structure KnownTag (tag : UInt8) : Prop where
  single : tag &&& 0x80 = 0
  wireType : tag &&& 0x7 = 0 ∨ tag &&& 0x7 = 2

/-- The integer of a field that starts at `pos`. -/
def valueAt (m : Mem) (fin pos : Nat) : UInt32 :=
  UInt32.ofNat (varintDecode 32 m (pos + 1) (varintSkip m (pos + 1) fin))

/-- The length that the field at `pos` gives for its string. -/
def lengthAt (m : Mem) (fin pos : Nat) : Nat :=
  varintDecode 64 m (pos + 1) (varintSkip m (pos + 1) fin)

/-- What the field at `pos` is decoded to.  A string that goes past the end is not. -/
def foundAt (m : Mem) (fin pos : Nat) : Option Found :=
  if m pos &&& 0x7 = 0 then some (.value (valueAt m fin pos))
  else if lengthAt m fin pos > fin - varintSkip m (pos + 1) fin then none
  else some (.string (varintSkip m (pos + 1) fin) (lengthAt m fin pos))

variable {m : Mem} {fin pos : Nat} {tag : UInt8}

theorem foundAt_value (h : m pos &&& 0x7 = 0) :
    foundAt m fin pos = some (.value (valueAt m fin pos)) := by
  rw [foundAt, if_pos h]

theorem foundAt_string (h : m pos &&& 0x7 ≠ 0) :
    foundAt m fin pos
      = if lengthAt m fin pos > fin - varintSkip m (pos + 1) fin then none
        else some (.string (varintSkip m (pos + 1) fin) (lengthAt m fin pos)) := by
  rw [foundAt, if_neg h]

theorem varintSkip_of_stop (hpos : pos < fin) (h : m pos &&& 0x80 = 0) :
    varintSkip m pos fin = pos + 1 := by
  rw [varintSkip, show fin - pos = (fin - pos - 1) + 1 by omega, varintSkipLoop, if_pos h]

theorem lt_varintSkip (m : Mem) (hpos : pos < fin) : pos < varintSkip m pos fin := by
  rw [varintSkip, show fin - pos = (fin - pos - 1) + 1 by omega, varintSkipLoop]
  by_cases h : m pos &&& 0x80 = 0
  · rw [if_pos h]
    exact Nat.lt_succ_self pos
  · rw [if_neg h]
    exact le_varintSkipLoop m _ (pos + 1)

/-- Every field is skipped by some bytes. -/
theorem lt_skipUnknown (m : Mem) (hpos : pos < fin) : pos < skipUnknown m pos fin := by
  have hfirst := lt_varintSkip m hpos
  have hsecond := le_varintSkip m (varintSkip m pos fin) fin
  rw [skipUnknown, if_pos (Nat.ne_of_lt hpos)]
  simp only
  split
  · omega
  · split
    · split
      · exact hpos
      · omega
    · exact hpos

theorem skipUnknown_value (hpos : pos < fin) (htag : KnownTag (m pos)) (h : m pos &&& 0x7 = 0) :
    skipUnknown m pos fin = varintSkip m (pos + 1) fin := by
  rw [skipUnknown, if_pos (Nat.ne_of_lt hpos)]
  simp only
  rw [if_pos h, varintSkip_of_stop hpos htag.single]

theorem skipUnknown_string (hpos : pos < fin) (htag : KnownTag (m pos)) (h : m pos &&& 0x7 ≠ 0) :
    skipUnknown m pos fin
      = if lengthAt m fin pos > fin - varintSkip m (pos + 1) fin then fin
        else varintSkip m (pos + 1) fin + lengthAt m fin pos := by
  rw [skipUnknown, if_pos (Nat.ne_of_lt hpos)]
  simp only
  rw [if_neg h, if_pos (htag.wireType.resolve_left h), varintSkip_of_stop hpos htag.single]
  rfl

theorem decodeValue_other (h : pos = fin ∨ m pos ≠ tag) (value : UInt32) (hasValue : Bool) :
    decodeValue m pos fin tag value hasValue = (pos, value, hasValue) := by
  rw [decodeValue, if_neg]
  rintro ⟨hpos, htag⟩
  exact h.elim hpos (fun hne => hne htag)

theorem decodeString_other (h : pos = fin ∨ m pos ≠ tag) (value : Option Nat)
    (valueLength : Nat) :
    decodeString m pos fin tag value valueLength = (pos, value, valueLength) := by
  rw [decodeString, if_neg]
  rintro ⟨hpos, htag⟩
  exact h.elim hpos (fun hne => hne htag)

/-- An integer is taken, and the position is that behind the field. -/
theorem decodeValue_match (hpos : pos < fin) (hm : m pos = tag) (htag : KnownTag tag)
    (hwire : tag &&& 0x7 = 0) (value : UInt32) (hasValue : Bool) :
    decodeValue m pos fin tag value hasValue = (skipUnknown m pos fin, valueAt m fin pos, true) := by
  subst hm
  rw [skipUnknown_value hpos htag hwire, decodeValue, if_pos ⟨Nat.ne_of_lt hpos, rfl⟩]
  rfl

/-- A string is taken where it fits; the position is that behind the field anyway. -/
theorem decodeString_match (hpos : pos < fin) (hm : m pos = tag) (htag : KnownTag tag)
    (hwire : tag &&& 0x7 ≠ 0) (value : Option Nat) (valueLength : Nat) :
    decodeString m pos fin tag value valueLength
      = (skipUnknown m pos fin,
          if lengthAt m fin pos > fin - varintSkip m (pos + 1) fin then (value, valueLength)
          else (some (varintSkip m (pos + 1) fin), lengthAt m fin pos)) := by
  subst hm
  rw [skipUnknown_string hpos htag hwire, decodeString, if_pos ⟨Nat.ne_of_lt hpos, rfl⟩]
  show (if lengthAt m fin pos > fin - varintSkip m (pos + 1) fin then _ else _) = _
  by_cases hlong : lengthAt m fin pos > fin - varintSkip m (pos + 1) fin
  · rw [if_pos hlong, if_pos hlong, if_pos hlong]
  · rw [if_neg hlong, if_neg hlong, if_neg hlong]
    rfl

/-! ## The fields from left to right -/

/-- Where fields start, from `pos` on. -/
def fieldStarts (m : Mem) (fin pos : Nat) : List Nat :=
  if _h : pos < fin then pos :: fieldStarts m fin (skipUnknown m pos fin) else []
termination_by fin - pos
decreasing_by
  have hskip := lt_skipUnknown m _h
  omega

theorem fieldStarts_next (hpos : pos < fin) :
    fieldStarts m fin pos = pos :: fieldStarts m fin (skipUnknown m pos fin) := by
  rw [fieldStarts, dif_pos hpos]

theorem fieldStarts_end (m : Mem) (fin : Nat) : fieldStarts m fin fin = [] := by
  rw [fieldStarts, dif_neg (Nat.lt_irrefl fin)]

/-- Fields start in the input. -/
theorem fieldStarts_bounds :
    ∀ (k pos : Nat), fin - pos = k → ∀ start ∈ fieldStarts m fin pos, pos ≤ start ∧ start < fin := by
  intro k
  induction k using Nat.strongRecOn with
  | ind k ih =>
      intro pos hk start hstart
      by_cases hpos : pos < fin
      · have hskip := lt_skipUnknown m hpos
        rw [fieldStarts_next hpos] at hstart
        rcases List.mem_cons.mp hstart with rfl | hrest
        · exact ⟨Nat.le_refl _, hpos⟩
        · obtain ⟨hge, hlt⟩ := ih _ (by omega) _ rfl start hrest
          exact ⟨by omega, hlt⟩
      · rw [fieldStarts, dif_neg hpos] at hstart
        cases hstart

/-- What is decoded for a tag from fields at these places. -/
def lastFound (m : Mem) (fin : Nat) (tag : UInt8) (starts : List Nat) : Option Found :=
  ((starts.filter (fun start => m start = tag)).filterMap (foundAt m fin)).getLast?

theorem lastFound_cons_other {starts : List Nat} (h : m pos ≠ tag) :
    lastFound m fin tag (pos :: starts) = lastFound m fin tag starts := by
  rw [lastFound, List.filter_cons_of_neg (by simpa using h), lastFound]

theorem lastFound_cons_tag {starts : List Nat} (h : m pos = tag) :
    lastFound m fin tag (pos :: starts)
      = (lastFound m fin tag starts).or (foundAt m fin pos) := by
  rw [lastFound, List.filter_cons_of_pos (by simpa using h), lastFound]
  cases hfound : foundAt m fin pos with
  | none => rw [List.filterMap_cons_none hfound, Option.or_none]
  | some found =>
      rw [List.filterMap_cons_some hfound, List.getLast?_cons]
      cases ((starts.filter (fun start => m start = tag)).filterMap (foundAt m fin)).getLast? with
      | none => rfl
      | some last => rfl

/-! ## The row of a decoder -/

/-- One `decode` call of a decoder: its tag, what it does to the struct and the position,
    and what it has found so far. -/
structure FieldReader (R : Type) where
  tag : UInt8
  decode : R → Nat → R × Nat
  found : R → Option Found

variable {R : Type}

/-- The calls one after the other. -/
def readRow (readers : List (FieldReader R)) (reader : R) (pos : Nat) : R × Nat :=
  readers.foldl (fun state fieldReader => fieldReader.decode state.1 state.2) (reader, pos)

/-- The call takes a field with its tag, and nothing else. -/
structure FieldReader.Reads (fieldReader : FieldReader R) (m : Mem) (fin : Nat) : Prop where
  other : ∀ reader pos, pos = fin ∨ m pos ≠ fieldReader.tag →
    fieldReader.decode reader pos = (reader, pos)
  position : ∀ reader pos, pos < fin → m pos = fieldReader.tag →
    (fieldReader.decode reader pos).2 = skipUnknown m pos fin
  found : ∀ reader pos, pos < fin → m pos = fieldReader.tag →
    fieldReader.found (fieldReader.decode reader pos).1
      = (foundAt m fin pos).or (fieldReader.found reader)

/-- The calls of a row read fields with different tags into different places. -/
structure Row (readers : List (FieldReader R)) (m : Mem) (fin : Nat) : Prop where
  reads : ∀ a ∈ readers, a.Reads m fin
  distinct : (readers.map FieldReader.tag).Nodup
  keeps : ∀ a ∈ readers, ∀ b ∈ readers, a.tag ≠ b.tag →
    ∀ reader pos, b.found (a.decode reader pos).1 = b.found reader

/-- What a call will have found at the end. -/
def FieldReader.outcome (fieldReader : FieldReader R) (m : Mem) (fin : Nat) (reader : R)
    (pos : Nat) : Option Found :=
  (lastFound m fin fieldReader.tag (fieldStarts m fin pos)).or (fieldReader.found reader)

variable {readers : List (FieldReader R)}

theorem FieldReader.Reads.le {a : FieldReader R} (h : a.Reads m fin) (reader : R)
    (hpos : pos ≤ fin) : pos ≤ (a.decode reader pos).2 ∧ (a.decode reader pos).2 ≤ fin := by
  by_cases hother : pos = fin ∨ m pos ≠ a.tag
  · rw [h.other reader pos hother]
    exact ⟨Nat.le_refl pos, hpos⟩
  · rw [not_or, not_not] at hother
    rw [h.position reader pos (by omega) hother.2]
    exact ⟨le_skipUnknown m hpos, skipUnknown_le m hpos⟩

/-- **ONE CALL** keeps what every call of the row will have found at the end. -/
theorem Row.decode_outcome (h : Row readers m fin) {a b : FieldReader R} (ha : a ∈ readers)
    (hb : b ∈ readers) (reader : R) (hpos : pos ≤ fin) :
    b.outcome m fin (a.decode reader pos).1 (a.decode reader pos).2 = b.outcome m fin reader pos := by
  by_cases hother : pos = fin ∨ m pos ≠ a.tag
  · rw [(h.reads a ha).other reader pos hother]
  · rw [not_or, not_not] at hother
    obtain ⟨hne, htag⟩ := hother
    have hlt : pos < fin := by omega
    rw [FieldReader.outcome, FieldReader.outcome, (h.reads a ha).position reader pos hlt htag,
      fieldStarts_next hlt]
    by_cases hsame : a.tag = b.tag
    · obtain rfl := List.inj_on_of_nodup_map h.distinct ha hb hsame
      rw [(h.reads a ha).found reader pos hlt htag, lastFound_cons_tag htag, Option.or_assoc]
    · rw [h.keeps a ha b hb hsame, lastFound_cons_other (htag ▸ hsame)]

/-- A row keeps it too, and does not go back. -/
theorem Row.readRow_outcome (h : Row readers m fin) {b : FieldReader R} (hb : b ∈ readers) :
    ∀ (calls : List (FieldReader R)), (∀ a ∈ calls, a ∈ readers) → ∀ (reader : R) (pos : Nat),
      pos ≤ fin →
      b.outcome m fin (readRow calls reader pos).1 (readRow calls reader pos).2
          = b.outcome m fin reader pos ∧
        pos ≤ (readRow calls reader pos).2 ∧ (readRow calls reader pos).2 ≤ fin := by
  intro calls
  induction calls with
  | nil =>
      intro _ reader pos hpos
      exact ⟨rfl, Nat.le_refl pos, hpos⟩
  | cons a calls ih =>
      intro hcalls reader pos hpos
      have ha := hcalls a (List.mem_cons_self ..)
      obtain ⟨hge, hle⟩ := (h.reads a ha).le reader hpos
      obtain ⟨houtcome, hge', hle'⟩ := ih (fun c hc => hcalls c (List.mem_cons_of_mem a hc))
        (a.decode reader pos).1 (a.decode reader pos).2 hle
      have hrow : readRow (a :: calls) reader pos
          = readRow calls (a.decode reader pos).1 (a.decode reader pos).2 := rfl
      rw [hrow]
      exact ⟨houtcome.trans (h.decode_outcome ha hb reader hpos), Nat.le_trans hge hge', hle'⟩

/-- A row that stays where it is has met none of its tags. -/
theorem Row.readRow_stays (h : Row readers m fin) :
    ∀ (calls : List (FieldReader R)), (∀ a ∈ calls, a ∈ readers) → ∀ (reader : R) (pos : Nat),
      pos < fin → (readRow calls reader pos).2 = pos → ∀ a ∈ calls, m pos ≠ a.tag := by
  intro calls
  induction calls with
  | nil =>
      intro _ reader pos _ _ a ha
      cases ha
  | cons c calls ih =>
      intro hcalls reader pos hpos hstays a ha
      have hc := hcalls c (List.mem_cons_self ..)
      have hrest := fun b (hb : b ∈ calls) => hcalls b (List.mem_cons_of_mem c hb)
      have hle := (h.reads c hc).le reader (Nat.le_of_lt hpos)
      have hge : (c.decode reader pos).2
          ≤ (readRow calls (c.decode reader pos).1 (c.decode reader pos).2).2 :=
        (h.readRow_outcome hc calls hrest _ _ hle.2).2.1
      have hrow : readRow (c :: calls) reader pos
          = readRow calls (c.decode reader pos).1 (c.decode reader pos).2 := rfl
      rw [hrow] at hstays
      have hmiss : m pos ≠ c.tag := by
        intro htag
        have hskip := lt_skipUnknown m hpos
        have hposition := (h.reads c hc).position reader pos hpos htag
        omega
      rw [(h.reads c hc).other reader pos (Or.inr hmiss)] at hstays
      rcases List.mem_cons.mp ha with rfl | ha
      · exact hmiss
      · exact ih hrest reader pos hpos hstays a ha

/-- One pass of the loop: the row, and where it stays a field is skipped. -/
def loopStep (m : Mem) (fin : Nat) (readers : List (FieldReader R)) (reader : R) (pos : Nat) :
    R × Nat :=
  let state := readRow readers reader pos
  (state.1, if pos = state.2 then skipUnknown m state.2 fin else state.2)

/-- **ONE PASS** makes progress and keeps what will be found. -/
theorem Row.loopStep_outcome (h : Row readers m fin) (reader : R) (hpos : pos < fin) :
    pos < (loopStep m fin readers reader pos).2 ∧ (loopStep m fin readers reader pos).2 ≤ fin ∧
      ∀ b ∈ readers, b.outcome m fin (loopStep m fin readers reader pos).1
        (loopStep m fin readers reader pos).2 = b.outcome m fin reader pos := by
  rw [loopStep]
  simp only
  have hrow := fun b (hb : b ∈ readers) =>
    h.readRow_outcome hb readers (fun a ha => ha) reader pos (Nat.le_of_lt hpos)
  have hge : pos ≤ (readRow readers reader pos).2 ∧ (readRow readers reader pos).2 ≤ fin := by
    cases hreaders : readers with
    | nil => exact ⟨Nat.le_refl pos, Nat.le_of_lt hpos⟩
    | cons a rest => exact hreaders ▸ (hrow a (hreaders ▸ List.mem_cons_self ..)).2
  by_cases hstays : pos = (readRow readers reader pos).2
  · rw [if_pos hstays]
    refine ⟨?_, skipUnknown_le m hge.2, fun b hb => ?_⟩
    · have hskip := lt_skipUnknown m hpos
      rwa [← hstays]
    · have hmiss := h.readRow_stays readers (fun a ha => ha) reader pos hpos hstays.symm b hb
      have hkept := (hrow b hb).1
      rw [← hstays] at hkept ⊢
      rw [← hkept, FieldReader.outcome, FieldReader.outcome, fieldStarts_next hpos,
        lastFound_cons_other hmiss]
  · rw [if_neg hstays]
    exact ⟨by omega, hge.2, fun b hb => (hrow b hb).1⟩

/-- **LEFT TO RIGHT**: what the loop has found for a tag is what the last field with that
    tag is decoded to. -/
theorem Row.decodeFields_found (h : Row readers m fin) {b : FieldReader R} (hb : b ∈ readers) :
    ∀ (n : Nat) (reader : R) (pos : Nat), pos ≤ fin → fin - pos ≤ n →
      b.found (decodeFields m (readRow readers) fin n reader pos) = b.outcome m fin reader pos := by
  have hdone : ∀ reader, b.found reader = b.outcome m fin reader fin := by
    intro reader
    rw [FieldReader.outcome, fieldStarts_end]
    rfl
  intro n
  induction n with
  | zero =>
      intro reader pos hpos hn
      obtain rfl : pos = fin := by omega
      exact hdone reader
  | succ n ih =>
      intro reader pos hpos hn
      rw [decodeFields]
      by_cases hend : pos = fin
      · rw [if_pos hend, hend]
        exact hdone reader
      · obtain ⟨hlt, hle, houtcome⟩ := h.loopStep_outcome reader (show pos < fin by omega)
        rw [if_neg hend]
        exact (ih _ _ hle (by omega)).trans (houtcome b hb)

/-! ## The three decoders -/

/-- `decode` for a string, with the place of pointer and length in the struct. -/
def stringReader (m : Mem) (fin : Nat) (tag : UInt8) (get : R → Option Nat × Nat)
    (set : R → Option Nat → Nat → R) : FieldReader R where
  tag := tag
  decode := fun reader pos =>
    let (pos, value, valueLength) := decodeString m pos fin tag (get reader).1 (get reader).2
    (set reader value valueLength, pos)
  found := fun reader => (get reader).1.map fun p => .string p (get reader).2

/-- `decode` for an integer, with the place of value and flag. -/
def valueReader (m : Mem) (fin : Nat) (tag : UInt8) (get : R → UInt32 × Bool)
    (set : R → UInt32 → Bool → R) : FieldReader R where
  tag := tag
  decode := fun reader pos =>
    let (pos, value, hasValue) := decodeValue m pos fin tag (get reader).1 (get reader).2
    (set reader value hasValue, pos)
  found := fun reader => if (get reader).2 then some (.value (get reader).1) else none

theorem stringReader_reads (m : Mem) (fin : Nat) {get : R → Option Nat × Nat}
    {set : R → Option Nat → Nat → R} (htag : KnownTag tag) (hwire : tag &&& 0x7 ≠ 0)
    (hset : ∀ reader, set reader (get reader).1 (get reader).2 = reader)
    (hget : ∀ reader value valueLength, get (set reader value valueLength) = (value, valueLength)) :
    (stringReader m fin tag get set).Reads m fin where
  other := by
    intro reader pos h
    have h : pos = fin ∨ m pos ≠ tag := h
    simp only [stringReader, decodeString_other h, hset]
  position := by
    intro reader pos hpos hm
    have hm : m pos = tag := hm
    simp only [stringReader, decodeString_match hpos hm htag hwire]
  found := by
    intro reader pos hpos hm
    have hm : m pos = tag := hm
    simp only [stringReader, decodeString_match hpos hm htag hwire, hget,
      foundAt_string (hm ▸ hwire : m pos &&& 0x7 ≠ 0)]
    by_cases hlong : lengthAt m fin pos > fin - varintSkip m (pos + 1) fin
    · simp only [if_pos hlong]
      rfl
    · simp only [if_neg hlong]
      rfl

theorem valueReader_reads (m : Mem) (fin : Nat) {get : R → UInt32 × Bool}
    {set : R → UInt32 → Bool → R} (htag : KnownTag tag) (hwire : tag &&& 0x7 = 0)
    (hset : ∀ reader, set reader (get reader).1 (get reader).2 = reader)
    (hget : ∀ reader value hasValue, get (set reader value hasValue) = (value, hasValue)) :
    (valueReader m fin tag get set).Reads m fin where
  other := by
    intro reader pos h
    have h : pos = fin ∨ m pos ≠ tag := h
    simp only [valueReader, decodeValue_other h, hset]
  position := by
    intro reader pos hpos hm
    have hm : m pos = tag := hm
    simp only [valueReader, decodeValue_match hpos hm htag hwire]
  found := by
    intro reader pos hpos hm
    have hm : m pos = tag := hm
    simp only [valueReader, decodeValue_match hpos hm htag hwire, hget,
      foundAt_value (hm ▸ hwire : m pos &&& 0x7 = 0)]
    rfl

def ratchetKeyReader (m : Mem) (fin : Nat) : FieldReader MessageReader :=
  stringReader m fin ratchetKeyTag (fun reader => (reader.ratchetKey, reader.ratchetKeyLength))
    (fun reader ratchetKey ratchetKeyLength => { reader with ratchetKey, ratchetKeyLength })

def counterReader (m : Mem) (fin : Nat) : FieldReader MessageReader :=
  valueReader m fin counterTag (fun reader => (reader.counter, reader.hasCounter))
    (fun reader counter hasCounter => { reader with counter, hasCounter })

def ciphertextReader (m : Mem) (fin : Nat) : FieldReader MessageReader :=
  stringReader m fin ciphertextTag (fun reader => (reader.ciphertext, reader.ciphertextLength))
    (fun reader ciphertext ciphertextLength => { reader with ciphertext, ciphertextLength })

def messageReaders (m : Mem) (fin : Nat) : List (FieldReader MessageReader) :=
  [ratchetKeyReader m fin, counterReader m fin, ciphertextReader m fin]

theorem messageFields_eq (m : Mem) (fin : Nat) :
    messageFields m fin = readRow (messageReaders m fin) := rfl

theorem messageReaders_row (m : Mem) (fin : Nat) : Row (messageReaders m fin) m fin where
  reads := by
    intro a ha
    simp only [messageReaders, List.mem_cons, List.not_mem_nil, or_false] at ha
    rcases ha with rfl | rfl | rfl
    · exact stringReader_reads m fin ⟨by decide, by decide⟩ (by decide) (fun _ => rfl)
        (fun _ _ _ => rfl)
    · exact valueReader_reads m fin ⟨by decide, by decide⟩ (by decide) (fun _ => rfl)
        (fun _ _ _ => rfl)
    · exact stringReader_reads m fin ⟨by decide, by decide⟩ (by decide) (fun _ => rfl)
        (fun _ _ _ => rfl)
  distinct := show [ratchetKeyTag, counterTag, ciphertextTag].Nodup by decide
  keeps := by
    intro a ha b hb h
    simp only [messageReaders, List.mem_cons, List.not_mem_nil, or_false] at ha hb
    rcases ha with rfl | rfl | rfl <;> rcases hb with rfl | rfl | rfl <;>
      first | exact absurd rfl h | exact fun _ _ => rfl

def oneTimeKeyReader (m : Mem) (fin : Nat) : FieldReader PreKeyMessageReader :=
  stringReader m fin oneTimeKeyIdTag (fun reader => (reader.oneTimeKey, reader.oneTimeKeyLength))
    (fun reader oneTimeKey oneTimeKeyLength => { reader with oneTimeKey, oneTimeKeyLength })

def baseKeyReader (m : Mem) (fin : Nat) : FieldReader PreKeyMessageReader :=
  stringReader m fin baseKeyTag (fun reader => (reader.baseKey, reader.baseKeyLength))
    (fun reader baseKey baseKeyLength => { reader with baseKey, baseKeyLength })

def identityKeyReader (m : Mem) (fin : Nat) : FieldReader PreKeyMessageReader :=
  stringReader m fin identityKeyTag (fun reader => (reader.identityKey, reader.identityKeyLength))
    (fun reader identityKey identityKeyLength => { reader with identityKey, identityKeyLength })

def bodyReader (m : Mem) (fin : Nat) : FieldReader PreKeyMessageReader :=
  stringReader m fin messageTag (fun reader => (reader.message, reader.messageLength))
    (fun reader message messageLength => { reader with message, messageLength })

def preKeyMessageReaders (m : Mem) (fin : Nat) : List (FieldReader PreKeyMessageReader) :=
  [oneTimeKeyReader m fin, baseKeyReader m fin, identityKeyReader m fin, bodyReader m fin]

theorem preKeyMessageFields_eq (m : Mem) (fin : Nat) :
    preKeyMessageFields m fin = readRow (preKeyMessageReaders m fin) := by
  funext reader pos
  simp only [preKeyMessageFields, preKeyMessageReaders, readRow, List.foldl_cons, List.foldl_nil,
    oneTimeKeyReader, baseKeyReader, identityKeyReader, bodyReader, stringReader]

theorem preKeyMessageReaders_row (m : Mem) (fin : Nat) :
    Row (preKeyMessageReaders m fin) m fin where
  reads := by
    intro a ha
    simp only [preKeyMessageReaders, List.mem_cons, List.not_mem_nil, or_false] at ha
    rcases ha with rfl | rfl | rfl | rfl <;>
      exact stringReader_reads m fin ⟨by decide, by decide⟩ (by decide) (fun _ => rfl)
        (fun _ _ _ => rfl)
  distinct := show [oneTimeKeyIdTag, baseKeyTag, identityKeyTag, messageTag].Nodup by decide
  keeps := by
    intro a ha b hb h
    simp only [preKeyMessageReaders, List.mem_cons, List.not_mem_nil, or_false] at ha hb
    rcases ha with rfl | rfl | rfl | rfl <;> rcases hb with rfl | rfl | rfl | rfl <;>
      first | exact absurd rfl h | exact fun _ _ => rfl

def messageIndexReader (m : Mem) (fin : Nat) : FieldReader (DecodeGroupMessageResults × Bool) :=
  valueReader m fin groupMessageIndexTag (fun state => (state.1.messageIndex, state.2))
    (fun state messageIndex hasMessageIndex => ({ state.1 with messageIndex }, hasMessageIndex))

def groupCiphertextReader (m : Mem) (fin : Nat) :
    FieldReader (DecodeGroupMessageResults × Bool) :=
  stringReader m fin groupCiphertextTag
    (fun state => (state.1.ciphertext, state.1.ciphertextLength))
    (fun state ciphertext ciphertextLength =>
      ({ state.1 with ciphertext, ciphertextLength }, state.2))

def groupMessageReaders (m : Mem) (fin : Nat) :
    List (FieldReader (DecodeGroupMessageResults × Bool)) :=
  [messageIndexReader m fin, groupCiphertextReader m fin]

theorem groupMessageFields_eq (m : Mem) (fin : Nat) :
    groupMessageFields m fin = readRow (groupMessageReaders m fin) := rfl

theorem groupMessageReaders_row (m : Mem) (fin : Nat) : Row (groupMessageReaders m fin) m fin where
  reads := by
    intro a ha
    simp only [groupMessageReaders, List.mem_cons, List.not_mem_nil, or_false] at ha
    rcases ha with rfl | rfl
    · exact valueReader_reads m fin ⟨by decide, by decide⟩ (by decide) (fun _ => rfl)
        (fun _ _ _ => rfl)
    · exact stringReader_reads m fin ⟨by decide, by decide⟩ (by decide) (fun _ => rfl)
        (fun _ _ _ => rfl)
  distinct := show [groupMessageIndexTag, groupCiphertextTag].Nodup by decide
  keeps := by
    intro a ha b hb h
    simp only [groupMessageReaders, List.mem_cons, List.not_mem_nil, or_false] at ha hb
    rcases ha with rfl | rfl <;> rcases hb with rfl | rfl <;>
      first | exact absurd rfl h | exact fun _ _ => rfl

/-! ## What the decoders find -/

/-- Behind the version byte of a message without a payload nothing starts. -/
theorem fieldStarts_short (m : Mem) {input inputLength trailerLength : Nat}
    (h : inputLength ≤ trailerLength) :
    fieldStarts m (input + inputLength - trailerLength) (input + 1) = [] := by
  rw [fieldStarts, dif_neg (by omega)]

/-- The loop behind the version byte. -/
theorem Row.decode_found {input inputLength trailerLength : Nat}
    (h : Row readers m (input + inputLength - trailerLength)) {b : FieldReader R}
    (hb : b ∈ readers) (hpayload : trailerLength < inputLength) {reader : R}
    (hreader : b.found reader = none) :
    b.found (decodeFields m (readRow readers) (input + inputLength - trailerLength) inputLength
        reader (input + 1))
      = lastFound m (input + inputLength - trailerLength) b.tag
          (fieldStarts m (input + inputLength - trailerLength) (input + 1)) := by
  rw [h.decodeFields_found hb inputLength reader (input + 1) (by omega) (by omega),
    FieldReader.outcome, hreader, Option.or_none]

/-- **THE FIELDS** of a normal message. -/
theorem decodeMessage_found (reader : MessageReader) (m : Mem) (input inputLength macLength : Nat) :
    ∀ b ∈ messageReaders m (input + inputLength - macLength),
      b.found (decodeMessage reader m input inputLength macLength)
        = lastFound m (input + inputLength - macLength) b.tag
            (fieldStarts m (input + inputLength - macLength) (input + 1)) := by
  intro b hb
  have hinitial : ∀ (version : UInt8) (counter : UInt32),
      b.found ⟨version, false, counter, input, inputLength, none, 0, none, 0⟩ = none := by
    intro version counter
    simp only [messageReaders, List.mem_cons, List.not_mem_nil, or_false] at hb
    rcases hb with rfl | rfl | rfl <;> rfl
  rw [decodeMessage]
  simp only
  by_cases hshort : inputLength ≤ macLength
  · rw [fieldStarts_short m hshort]
    by_cases hless : inputLength < macLength
    · rw [if_pos hless]
      exact hinitial _ _
    · rw [if_neg hless, if_pos (by omega)]
      exact hinitial _ _
  · rw [if_neg (by omega), if_neg (by omega), messageFields_eq]
    exact (messageReaders_row m _).decode_found hb (by omega) (hinitial _ _)

/-- **THE FIELDS** of a pre-key message. -/
theorem decodeOneTimeKeyMessage_found (reader : PreKeyMessageReader) (m : Mem)
    (input inputLength : Nat) :
    ∀ b ∈ preKeyMessageReaders m (input + inputLength),
      b.found (decodeOneTimeKeyMessage reader m input inputLength)
        = lastFound m (input + inputLength) b.tag
            (fieldStarts m (input + inputLength) (input + 1)) := by
  intro b hb
  have hinitial : ∀ version : UInt8, b.found ⟨version, none, 0, none, 0, none, 0, none, 0⟩ = none := by
    intro version
    simp only [preKeyMessageReaders, List.mem_cons, List.not_mem_nil, or_false] at hb
    rcases hb with rfl | rfl | rfl | rfl <;> rfl
  rw [decodeOneTimeKeyMessage]
  simp only
  by_cases hempty : input = input + inputLength
  · rw [if_pos hempty, fieldStarts, dif_neg (by omega)]
    exact hinitial _
  · rw [if_neg hempty, preKeyMessageFields_eq]
    exact (preKeyMessageReaders_row m (input + inputLength - 0)).decode_found hb (by omega)
      (hinitial _)

/-- **THE FIELDS** of a group message; its flag is only set at the end. -/
theorem decodeGroupMessage_found (results : DecodeGroupMessageResults) (m : Mem)
    (input inputLength macLength signatureLength : Nat)
    (hpayload : macLength + signatureLength < inputLength) :
    ∀ b ∈ groupMessageReaders m (input + inputLength - (macLength + signatureLength)),
      b.found (decodeGroupMessage results m input inputLength macLength signatureLength,
          (decodeGroupMessage results m input inputLength macLength
            signatureLength).hasMessageIndex)
        = lastFound m (input + inputLength - (macLength + signatureLength)) b.tag
            (fieldStarts m (input + inputLength - (macLength + signatureLength)) (input + 1)) := by
  intro b hb
  have hinitial : ∀ (version : UInt8) (hasMessageIndex : Bool),
      b.found (⟨version, 0, hasMessageIndex, none, 0⟩, false) = none := by
    intro version hasMessageIndex
    simp only [groupMessageReaders, List.mem_cons, List.not_mem_nil, or_false] at hb
    rcases hb with rfl | rfl <;> rfl
  -- nothing that is found depends on the flag in the results
  have hflag : ∀ state : DecodeGroupMessageResults × Bool,
      b.found ({ state.1 with hasMessageIndex := state.2 }, state.2) = b.found state := by
    intro state
    simp only [groupMessageReaders, List.mem_cons, List.not_mem_nil, or_false] at hb
    rcases hb with rfl | rfl <;> rfl
  rw [decodeGroupMessage]
  simp only
  rw [if_neg (by omega), if_neg (by omega), groupMessageFields_eq]
  exact (hflag _).trans
    ((groupMessageReaders_row m _).decode_found hb hpayload (hinitial _ results.hasMessageIndex))

/-- An empty group message leaves the flag as it was and has no ciphertext. -/
theorem decodeGroupMessage_short (results : DecodeGroupMessageResults) (m : Mem)
    {input inputLength macLength signatureLength : Nat}
    (hshort : inputLength ≤ macLength + signatureLength) :
    decodeGroupMessage results m input inputLength macLength signatureLength
      = { results with messageIndex := 0, ciphertext := none, ciphertextLength := 0 } := by
  rw [decodeGroupMessage]
  simp only
  by_cases hless : inputLength < macLength + signatureLength
  · rw [if_pos hless]
  · rw [if_neg hless, if_pos (by omega)]

end OlmMessage
