import SelfOlm.PickleProofs

/-! # Strict reading

    What a reader does with any bytes.  A field has a fixed size; where it does
    not fit, the reader returns the end, and every later reader stays there.  The
    decoders are what a strict reader should accept: a field takes its bytes from
    the front, and without enough of them there is no result. -/

namespace OlmPickle

open ByteMemory OlmCrypto OlmBase64 OlmList OlmAccount OlmRatchet OlmSession OlmMegolm
open OlmGroupSession (Part OutboundGroupSession InboundGroupSession megolmGetData partsOfBytes)

/-! ## Fields of a fixed size -/

/-- What holds of the overloads for a type that is stored in `size` bytes. -/
class FixedPickle (T : Type) [Pickle T] where
  size : Nat
  decode : Bytes → T
  size_pos : 0 < size
  unpickle_fits : ∀ {m : Mem} {pos fin : Nat} (old : T), pos + size ≤ fin →
    unpickle m pos fin old = (decode (read m pos size), pos + size)
  unpickle_short : ∀ {m : Mem} {pos fin : Nat} (old : T), pos ≤ fin → fin < pos + size →
    (unpickle m pos fin old).2 = fin

export FixedPickle (size decode size_pos unpickle_fits unpickle_short)

instance : FixedPickle UInt32 where
  size := 4
  decode := unpickleLoop
  size_pos := by decide
  unpickle_fits := by
    intro m pos fin old h
    show (if fin < pos + 4 then (0, fin) else (unpickleLoop (read m pos 4), pos + 4)) = _
    rw [if_neg (Nat.not_lt.mpr h)]
  unpickle_short := by
    intro m pos fin old _ h
    show (if fin < pos + 4 then ((0 : UInt32), fin)
      else (unpickleLoop (read m pos 4), pos + 4)).2 = _
    rw [if_pos h]

/-- Any byte is allowed as a flag. -/
instance : FixedPickle Bool where
  size := 1
  decode := fun bs => bs.getD 0 0 != 0
  size_pos := by decide
  unpickle_fits := by
    intro m pos fin old h
    show (if pos = fin then (old, fin) else (m pos != 0, pos + 1)) = _
    rw [if_neg (Nat.ne_of_lt h)]
    rfl
  unpickle_short := by
    intro m pos fin old hle h
    show (if pos = fin then (old, fin) else (m pos != 0, pos + 1)).2 = _
    rw [if_pos (Nat.le_antisymm hle (Nat.le_of_lt_succ h))]

instance {n : Nat} [NeZero n] : FixedPickle (Vector UInt8 n) where
  size := n
  decode := ofBytes n
  size_pos := Nat.pos_of_ne_zero (NeZero.ne n)
  unpickle_fits := by
    intro m pos fin old h
    show (if fin < pos + n then (old, fin) else (load n m pos, pos + n)) = _
    rw [if_neg (Nat.not_lt.mpr h), ← toList_load, ofBytes_toList]
  unpickle_short := by
    intro m pos fin old _ h
    show (if fin < pos + n then (old, fin) else (load n m pos, pos + n)).2 = _
    rw [if_pos h]

/-- At the end there is nothing to read. -/
theorem unpickle_exhausted {T : Type} [Pickle T] [FixedPickle T] (m : Mem) (fin : Nat) (old : T) :
    (unpickle m fin fin old).2 = fin :=
  unpickle_short old (Nat.le_refl fin) (Nat.lt_add_of_pos_right size_pos)

section Fields

variable {A B C T : Type} [Pickle A] [Pickle B] [Pickle C] [Pickle T]
  [FixedPickle A] [FixedPickle B] [FixedPickle C]

/-- A type whose overload reads two fields. -/
@[reducible] def FixedPickle.twoFields (mk : A → B → T) (a : T → A) (b : T → B)
    (hunpickle : ∀ m pos fin v, unpickle m pos fin v =
      (let (x, pos) := unpickle m pos fin (a v)
      let (y, pos) := unpickle m pos fin (b v)
      (mk x y, pos))) : FixedPickle T where
  size := size A + size B
  decode := fun bs => mk (decode (bs.take (size A))) (decode (bs.drop (size A)))
  size_pos := Nat.add_pos_left size_pos _
  unpickle_fits := by
    intro m pos fin old h
    rw [hunpickle, unpickle_fits (a old) (by omega)]
    simp only
    rw [unpickle_fits (b old) (by omega), take_read m pos (Nat.le_add_right _ _),
      drop_read m pos (Nat.le_add_right _ _), Nat.add_sub_cancel_left, Nat.add_assoc]
  unpickle_short := by
    intro m pos fin old hle h
    rw [hunpickle]
    by_cases hfits : pos + size A ≤ fin
    · rw [unpickle_fits (a old) hfits]
      exact unpickle_short (b old) hfits (by omega)
    · have hshort := unpickle_short (m := m) (a old) hle (Nat.lt_of_not_le hfits)
      simp only
      rw [hshort]
      exact unpickle_exhausted m fin (b old)

/-- A type whose overload reads three fields. -/
@[reducible] def FixedPickle.threeFields (mk : A → B → C → T) (a : T → A) (b : T → B) (c : T → C)
    (hunpickle : ∀ m pos fin v, unpickle m pos fin v =
      (let (x, pos) := unpickle m pos fin (a v)
      let (y, pos) := unpickle m pos fin (b v)
      let (z, pos) := unpickle m pos fin (c v)
      (mk x y z, pos))) : FixedPickle T where
  size := size A + (size B + size C)
  decode := fun bs => mk (decode (bs.take (size A))) (decode ((bs.drop (size A)).take (size B)))
    (decode ((bs.drop (size A)).drop (size B)))
  size_pos := Nat.add_pos_left size_pos _
  unpickle_fits := by
    intro m pos fin old h
    rw [hunpickle, unpickle_fits (a old) (by omega)]
    simp only
    rw [unpickle_fits (b old) (by omega)]
    simp only
    rw [unpickle_fits (c old) (by omega), take_read m pos (Nat.le_add_right _ _),
      drop_read m pos (Nat.le_add_right _ _), Nat.add_sub_cancel_left,
      take_read m _ (Nat.le_add_right _ _), drop_read m _ (Nat.le_add_right _ _),
      Nat.add_sub_cancel_left]
    simp only [Nat.add_assoc]
  unpickle_short := by
    intro m pos fin old hle h
    rw [hunpickle]
    by_cases hfits : pos + size A ≤ fin
    · rw [unpickle_fits (a old) hfits]
      simp only
      by_cases hfits' : pos + size A + size B ≤ fin
      · rw [unpickle_fits (b old) hfits']
        exact unpickle_short (c old) hfits' (by omega)
      · have hshort := unpickle_short (m := m) (b old) hfits (Nat.lt_of_not_le hfits')
        rw [hshort]
        exact unpickle_exhausted m fin (c old)
    · have hshort := unpickle_short (m := m) (a old) hle (Nat.lt_of_not_le hfits)
      simp only
      rw [hshort, unpickle_exhausted]
      exact unpickle_exhausted m fin (c old)

end Fields

instance : FixedPickle Curve25519KeyPair :=
  FixedPickle.twoFields Curve25519KeyPair.mk (·.publicKey) (·.privateKey) curve25519KeyPair_fields

instance : FixedPickle Ed25519KeyPair :=
  FixedPickle.twoFields Ed25519KeyPair.mk (·.publicKey) (·.privateKey) ed25519KeyPair_fields

instance : FixedPickle IdentityKeys :=
  FixedPickle.twoFields IdentityKeys.mk (·.ed25519Key) (·.curve25519Key) identityKeys_fields

instance : FixedPickle OneTimeKey :=
  FixedPickle.threeFields OneTimeKey.mk (·.id) (·.published) (·.key) oneTimeKey_fields

instance : FixedPickle (SenderChain SharedKey) :=
  FixedPickle.threeFields (fun ratchetKey key index => ⟨ratchetKey, ⟨index, key⟩⟩) (·.ratchetKey)
    (·.chainKey.key) (·.chainKey.index) senderChain_fields

instance : FixedPickle (ReceiverChain SharedKey) :=
  FixedPickle.threeFields (fun ratchetKey key index => ⟨ratchetKey, ⟨index, key⟩⟩) (·.ratchetKey)
    (·.chainKey.key) (·.chainKey.index) receiverChain_fields

instance : FixedPickle (SkippedMessageKey SharedKey) :=
  FixedPickle.threeFields (fun ratchetKey key index => ⟨ratchetKey, ⟨index, key⟩⟩) (·.ratchetKey)
    (·.messageKey.key) (·.messageKey.index) skippedMessageKey_fields

theorem megolm_unpickle (m : Mem) (pos fin : Nat) (old : Megolm Part) :
    unpickle m pos fin old =
      (let (data, pos) :=
        if fin < pos + 128 then (old.data, fin) else (partsOfBytes (read m pos 128), pos + 128)
      let (counter, pos) := unpickle m pos fin old.counter
      ({ data, counter }, pos)) := rfl

theorem megolm_unpickle_fits {m : Mem} {pos fin : Nat} (old : Megolm Part)
    (h : pos + (128 + 4) ≤ fin) :
    unpickle m pos fin old = ({
      data := partsOfBytes ((read m pos (128 + 4)).take 128)
      counter := decode ((read m pos (128 + 4)).drop 128) }, pos + (128 + 4)) := by
  have hcounter : unpickle m (pos + 128) fin old.counter
      = (decode (read m (pos + 128) 4), pos + 128 + 4) :=
    unpickle_fits old.counter (by show pos + 128 + 4 ≤ fin; omega)
  rw [megolm_unpickle, if_neg (by omega)]
  simp only
  rw [hcounter, take_read m pos (by decide), drop_read m pos (by decide)]

theorem megolm_unpickle_short {m : Mem} {pos fin : Nat} (old : Megolm Part) (_hle : pos ≤ fin)
    (h : fin < pos + (128 + 4)) : (unpickle m pos fin old).2 = fin := by
  rw [megolm_unpickle]
  by_cases hfits : fin < pos + 128
  · rw [if_pos hfits]
    exact unpickle_exhausted m fin old.counter
  · rw [if_neg hfits]
    exact unpickle_short old.counter (by omega) (by show fin < pos + 128 + 4; omega)

/-- The four parts are one array of bytes, the counter is behind it. -/
instance : FixedPickle (Megolm Part) where
  size := 128 + 4
  decode := fun bs => { data := partsOfBytes (bs.take 128), counter := decode (bs.drop 128) }
  size_pos := Nat.succ_pos _
  unpickle_fits := megolm_unpickle_fits
  unpickle_short := megolm_unpickle_short

/-! ## Strict decoders -/

section Decoders

variable (T : Type) [Pickle T] [FixedPickle T]

/-- A field in front of other bytes. -/
def decodeField (bs : Bytes) : Option (T × Bytes) :=
  if bs.length < size T then none else some (decode (bs.take (size T)), bs.drop (size T))

/-- A number of items. -/
def decodeItems : Nat → Bytes → Option (List T × Bytes)
  | 0, bs => some ([], bs)
  | count + 1, bs =>
      match decodeField T bs with
      | none => none
      | some (item, bs) =>
          match decodeItems count bs with
          | none => none
          | some (items, bs) => some (item :: items, bs)

/-- A list: the number of items, and the items. -/
def decodeList (bs : Bytes) : Option (List T × Bytes) :=
  match decodeField UInt32 bs with
  | none => none
  | some (count, bs) => decodeItems T count.toNat bs

variable {T}

theorem decodeField_eq_none {bs : Bytes} : decodeField T bs = none ↔ bs.length < size T := by
  rw [decodeField]
  by_cases h : bs.length < size T
  · rw [if_pos h]
    exact ⟨fun _ => h, fun _ => rfl⟩
  · rw [if_neg h]
    constructor
    · intro hn
      cases hn
    · intro hlt
      exact absurd hlt h

theorem length_of_decodeField {bs rest : Bytes} {v : T}
    (h : decodeField T bs = some (v, rest)) : bs.length = size T + rest.length := by
  rw [decodeField] at h
  by_cases hlt : bs.length < size T
  · rw [if_pos hlt] at h
    cases h
  · rw [if_neg hlt, Option.some.injEq, Prod.mk.injEq] at h
    obtain ⟨-, rfl⟩ := h
    rw [List.length_drop]
    omega

end Decoders

/-! ## Readers against decoders -/

/-- The bytes from a position to the end of the pickle.  The end that the readers
    are given is that one or the address behind it. -/
structure Remaining (m : Mem) (pos stop fin : Nat) (bs : Bytes) : Prop where
  bytes : read m pos bs.length = bs
  stops : pos + bs.length = stop
  lower : stop ≤ fin
  upper : fin ≤ stop + 1

theorem unpickleItems_exhausted {T : Type} [Pickle T] {maxSize : Nat} (m : Mem) (fin n : Nat)
    (list : BoundedList T maxSize) : unpickleItems m fin n fin list = (list, fin) := by
  cases n with
  | zero => rfl
  | succ n => rw [unpickleItems, if_pos rfl]

/-- A list has no items at the end. -/
theorem unpickleList_exhausted {T : Type} [Pickle T] {maxSize : Nat} (m : Mem) (fin : Nat)
    (list : BoundedList T maxSize) : unpickle m fin fin list = (list, fin) := by
  show unpickleItems m fin (unpickle m fin fin (0 : UInt32)).1.toNat
    (unpickle m fin fin (0 : UInt32)).2 list = _
  rw [unpickle_exhausted]
  exact unpickleItems_exhausted m fin _ list

section Readers

variable {T : Type} [Pickle T] [FixedPickle T] {m : Mem} {pos stop fin : Nat} {bs rest : Bytes}

theorem Remaining.field_some (h : Remaining m pos stop fin bs) {v : T}
    (hfield : decodeField T bs = some (v, rest)) (old : T) :
    unpickle m pos fin old = (v, pos + size T) ∧ Remaining m (pos + size T) stop fin rest := by
  have hstop := h.stops
  have hlower := h.lower
  have hlen := length_of_decodeField hfield
  rw [decodeField, if_neg (by omega), Option.some.injEq, Prod.mk.injEq] at hfield
  obtain ⟨rfl, rfl⟩ := hfield
  have htake : read m pos (size T) = bs.take (size T) := by
    rw [← take_read m pos (show size T ≤ bs.length by omega), h.bytes]
  have hdrop : read m (pos + size T) (bs.drop (size T)).length = bs.drop (size T) := by
    rw [List.length_drop, ← drop_read m pos (show size T ≤ bs.length by omega), h.bytes]
  refine ⟨?_, hdrop, by omega, hlower, h.upper⟩
  rw [unpickle_fits old (by omega), htake]

theorem Remaining.field_none (h : Remaining m pos stop fin bs) (hfield : decodeField T bs = none)
    (old : T) : (unpickle m pos fin old).2 = fin := by
  have hstop := h.stops
  have hlower := h.lower
  have hupper := h.upper
  have hlen := decodeField_eq_none.mp hfield
  by_cases hfits : pos + size T ≤ fin
  · -- only with the address behind the end does the field still fit
    rw [unpickle_fits old hfits]
    show pos + size T = fin
    omega
  · exact unpickle_short old (by omega) (Nat.lt_of_not_le hfits)

variable {maxSize : Nat}

theorem Remaining.items_some :
    ∀ (count : Nat) {pos : Nat} {bs rest : Bytes} {items : List T}
      (list : BoundedList T maxSize), Remaining m pos stop fin bs →
      decodeItems T count bs = some (items, rest) →
      ∃ pos', unpickleItems m fin count pos list = (items.foldl BoundedList.insertEnd list, pos') ∧
        Remaining m pos' stop fin rest := by
  intro count
  induction count with
  | zero =>
      intro pos bs rest items list h hitems
      rw [decodeItems, Option.some.injEq, Prod.mk.injEq] at hitems
      obtain ⟨rfl, rfl⟩ := hitems
      exact ⟨pos, rfl, h⟩
  | succ count ih =>
      intro pos bs rest items list h hitems
      rw [decodeItems] at hitems
      cases hfield : decodeField T bs with
      | none =>
          rw [hfield] at hitems
          cases hitems
      | some field =>
          obtain ⟨item, bs'⟩ := field
          rw [hfield] at hitems
          simp only at hitems
          cases hrest : decodeItems T count bs' with
          | none =>
              rw [hrest] at hitems
              cases hitems
          | some others =>
              obtain ⟨items', rest'⟩ := others
              rw [hrest, Option.some.injEq, Prod.mk.injEq] at hitems
              obtain ⟨rfl, rfl⟩ := hitems
              obtain ⟨hread, hnext⟩ := h.field_some hfield (list.endPlace Pickle.zero)
              have hne : pos ≠ fin := by
                have hstop := hnext.stops
                have hlower := hnext.lower
                have hpos := size_pos (T := T)
                omega
              rw [unpickleItems, if_neg hne, hread]
              exact ih (list.insertEnd item) hnext hrest

theorem Remaining.items_none :
    ∀ (count : Nat) {pos : Nat} {bs : Bytes} (list : BoundedList T maxSize),
      Remaining m pos stop fin bs → decodeItems T count bs = none →
      (unpickleItems m fin count pos list).2 = fin := by
  intro count
  induction count with
  | zero =>
      intro pos bs list _ hitems
      cases hitems
  | succ count ih =>
      intro pos bs list h hitems
      rw [decodeItems] at hitems
      rw [unpickleItems]
      by_cases hne : pos = fin
      · rw [if_pos hne]
        exact hne
      · rw [if_neg hne]
        cases hfield : decodeField T bs with
        | none =>
            have hread := h.field_none hfield (list.endPlace Pickle.zero)
            simp only
            rw [hread, unpickleItems_exhausted]
        | some field =>
            obtain ⟨item, bs'⟩ := field
            obtain ⟨hread, hnext⟩ := h.field_some hfield (list.endPlace Pickle.zero)
            rw [hfield] at hitems
            simp only at hitems
            cases hrest : decodeItems T count bs' with
            | some others =>
                rw [hrest] at hitems
                cases hitems
            | none =>
                rw [hread]
                exact ih (list.insertEnd item) hnext hrest

/-- **LISTS** are read item by item; items above the capacity replace the last one. -/
theorem Remaining.list_some (h : Remaining m pos stop fin bs) {items : List T}
    (hlist : decodeList T bs = some (items, rest)) (list : BoundedList T maxSize) :
    ∃ pos', unpickle m pos fin list = (items.foldl BoundedList.insertEnd list, pos') ∧
      Remaining m pos' stop fin rest := by
  rw [decodeList] at hlist
  cases hfield : decodeField UInt32 bs with
  | none =>
      rw [hfield] at hlist
      cases hlist
  | some field =>
      obtain ⟨count, bs'⟩ := field
      rw [hfield] at hlist
      obtain ⟨hread, hnext⟩ := h.field_some hfield (0 : UInt32)
      show ∃ pos', unpickleItems m fin (unpickle m pos fin (0 : UInt32)).1.toNat
        (unpickle m pos fin (0 : UInt32)).2 list = _ ∧ _
      rw [hread]
      exact hnext.items_some count.toNat list hlist

theorem Remaining.list_none (h : Remaining m pos stop fin bs) (hlist : decodeList T bs = none)
    (list : BoundedList T maxSize) : (unpickle m pos fin list).2 = fin := by
  show (unpickleItems m fin (unpickle m pos fin (0 : UInt32)).1.toNat
    (unpickle m pos fin (0 : UInt32)).2 list).2 = fin
  rw [decodeList] at hlist
  cases hfield : decodeField UInt32 bs with
  | none =>
      rw [h.field_none hfield (0 : UInt32), unpickleItems_exhausted]
  | some field =>
      obtain ⟨count, bs'⟩ := field
      rw [hfield] at hlist
      obtain ⟨hread, hnext⟩ := h.field_some hfield (0 : UInt32)
      rw [hread]
      exact hnext.items_none count.toNat list hlist

end Readers

/-! ## Readers of objects -/

/-- A reader that accepts what a decoder accepts.  Where the decoder has no result the
    reader ends at the end it was given. -/
structure Strict {X : Type} (reader : Mem → Nat → Nat → X × Nat)
    (decoder : Bytes → Option (X × Bytes)) : Prop where
  accepts : ∀ {m : Mem} {pos stop fin : Nat} {bs rest : Bytes} {value : X},
    Remaining m pos stop fin bs → decoder bs = some (value, rest) →
    ∃ pos', reader m pos fin = (value, pos') ∧ Remaining m pos' stop fin rest
  refuses : ∀ {m : Mem} {pos stop fin : Nat} {bs : Bytes},
    Remaining m pos stop fin bs → decoder bs = none → (reader m pos fin).2 = fin
  exhausted : ∀ (m : Mem) (fin : Nat), (reader m fin fin).2 = fin

section Strict

variable {X Y : Type}

theorem Strict.pure (value : X) :
    Strict (fun _ pos _ => (value, pos)) (fun bs => some (value, bs)) where
  accepts := by
    intro m pos stop fin bs rest value' h hdecode
    rw [Option.some.injEq, Prod.mk.injEq] at hdecode
    obtain ⟨rfl, rfl⟩ := hdecode
    exact ⟨pos, rfl, h⟩
  refuses := by
    intro m pos stop fin bs _ hdecode
    cases hdecode
  exhausted := fun _ _ => rfl

/-- A reader that refuses everything. -/
theorem Strict.fail (value : X) : Strict (fun _ _ fin => (value, fin)) (fun _ => none) where
  accepts := by
    intro m pos stop fin bs rest value' _ hdecode
    cases hdecode
  refuses := fun _ _ => rfl
  exhausted := fun _ _ => rfl

/-- A reader that is chosen by a test of what was read before. -/
theorem Strict.ite (c : Prop) [Decidable c] {reader reader' : Mem → Nat → Nat → X × Nat}
    {decoder decoder' : Bytes → Option (X × Bytes)} (h : Strict reader decoder)
    (h' : Strict reader' decoder') :
    Strict (fun m pos fin => if c then reader m pos fin else reader' m pos fin)
      (fun bs => if c then decoder bs else decoder' bs) := by
  by_cases hc : c
  · simp only [if_pos hc]
    exact h
  · simp only [if_neg hc]
    exact h'

/-- **ONE READER BEHIND THE OTHER**: a decoder that stops leaves the second reader at
    the end. -/
theorem Strict.bind {reader : Mem → Nat → Nat → X × Nat} {decoder : Bytes → Option (X × Bytes)}
    {next : X → Mem → Nat → Nat → Y × Nat} {nextDecoder : X → Bytes → Option (Y × Bytes)}
    (h : Strict reader decoder) (hnext : ∀ x, Strict (next x) (nextDecoder x)) :
    Strict (fun m pos fin => next (reader m pos fin).1 m (reader m pos fin).2 fin)
      (fun bs => (decoder bs).bind (fun x => nextDecoder x.1 x.2)) where
  accepts := by
    intro m pos stop fin bs rest value hbs hdecode
    obtain ⟨x, hx, hrest⟩ := Option.bind_eq_some_iff.mp hdecode
    obtain ⟨pos', hread, hbs'⟩ := h.accepts hbs (show decoder bs = some (x.1, x.2) from hx)
    rw [hread]
    exact (hnext x.1).accepts hbs' hrest
  refuses := by
    intro m pos stop fin bs hbs hdecode
    cases hx : decoder bs with
    | none =>
        rw [h.refuses hbs hx]
        exact (hnext _).exhausted m fin
    | some x =>
        obtain ⟨pos', hread, hbs'⟩ := h.accepts hbs (show decoder bs = some (x.1, x.2) from hx)
        rw [hx] at hdecode
        rw [hread]
        exact (hnext x.1).refuses hbs' hdecode
  exhausted := by
    intro m fin
    rw [h.exhausted m fin]
    exact (hnext _).exhausted m fin

variable {T : Type} [Pickle T] [FixedPickle T]

theorem strict_field (old : T) :
    Strict (fun m pos fin => unpickle m pos fin old) (decodeField T) where
  accepts := by
    intro m pos stop fin bs rest value h hfield
    exact ⟨_, h.field_some hfield old⟩
  refuses := fun h hfield => h.field_none hfield old
  exhausted := fun m fin => unpickle_exhausted m fin old

/-- Items read into a list that is there. -/
def decodeInto {maxSize : Nat} (list : BoundedList T maxSize) (bs : Bytes) :
    Option (BoundedList T maxSize × Bytes) :=
  (decodeList T bs).map (fun items => (items.1.foldl BoundedList.insertEnd list, items.2))

theorem strict_list {maxSize : Nat} (list : BoundedList T maxSize) :
    Strict (fun m pos fin => unpickle m pos fin list) (decodeInto list) where
  accepts := by
    intro m pos stop fin bs rest value h hdecode
    obtain ⟨items, hitems, heq⟩ := Option.map_eq_some_iff.mp hdecode
    obtain ⟨rfl, rfl⟩ := Prod.mk.inj heq
    exact h.list_some (show decodeList T bs = some (items.1, items.2) from hitems) list
  refuses := by
    intro m pos stop fin bs h hdecode
    exact h.list_none (Option.map_eq_none_iff.mp hdecode) list
  exhausted := by
    intro m fin
    simp only [unpickleList_exhausted]

end Strict

/-! ## A pickle in memory -/

/-- Memory with a pickle of `raw` at 100, under an empty key. -/
def pickledMemory (raw : Bytes) : Mem :=
  write (fun _ => 0) 100 (pickledText demoPrimitives [] raw)

theorem encInput_pickledMemory (raw : Bytes) :
    ∃ m', encInput demoPrimitives (pickledMemory raw) 0 0 100
        (encOutputLength demoPrimitives raw.length) = (m', .ok raw.length) ∧
      read m' 100 raw.length = raw := by
  have htext : read (pickledMemory raw) 100 (encOutputLength demoPrimitives raw.length)
      = pickledText demoPrimitives (read (pickledMemory raw) 0 0) raw :=
    read_write_of_length _ 100 (length_pickledText demoPrimitives [] raw)
  exact encInput_eq demoPrimitives demoPrimitives_aesInverts htext (Or.inl (Nat.zero_le 100))

end OlmPickle
