import SelfOlm.StrictPickle

/-! # What a reader leaves behind

    The readers write into the object they are given.  A field that fits takes the
    value of its bytes.  Of a field that does not fit, a number is set to zero and
    flags and byte arrays stay as they are.  A list gets its items one by one at
    its end, and at the end of a full list that is its last place. -/

namespace OlmPickle

open ByteMemory OlmCrypto OlmBase64 OlmList OlmAccount OlmRatchet OlmSession

/-- The bytes from a position to the end that the readers were given. -/
structure Reached (m : Mem) (pos fin : Nat) (bs : Bytes) : Prop where
  bytes : read m pos bs.length = bs
  stops : pos + bs.length = fin

theorem Reached.drop {m : Mem} {pos fin : Nat} {bs : Bytes} (h : Reached m pos fin bs) {n : Nat}
    (hn : n ≤ bs.length) : Reached m (pos + n) fin (bs.drop n) := by
  have hstop := h.stops
  refine ⟨?_, ?_⟩
  · rw [List.length_drop, ← drop_read m pos hn, h.bytes]
  · rw [List.length_drop]
    omega

theorem Reached.take {m : Mem} {pos fin : Nat} {bs : Bytes} (h : Reached m pos fin bs) {n : Nat}
    (hn : n ≤ bs.length) : read m pos n = bs.take n := by
  rw [← take_read m pos hn, h.bytes]

theorem reached_nil (m : Mem) (fin : Nat) : Reached m fin fin [] := ⟨rfl, rfl⟩

/-! ## Fields -/

/-- What a field leaves where it is read from `bs` over `old`. -/
class PartialPickle (T : Type) [Pickle T] [FixedPickle T] where
  Leaves : Bytes → T → T → Prop
  unpickle_leaves : ∀ {m : Mem} {pos fin : Nat} {bs : Bytes} (old v : T), Reached m pos fin bs →
    ((unpickle m pos fin old).1 = v ↔ Leaves bs old v)

export PartialPickle (Leaves unpickle_leaves)

instance : PartialPickle UInt32 where
  Leaves := fun bs _ v => v = if bs.length < 4 then 0 else decode (bs.take 4)
  unpickle_leaves := by
    intro m pos fin bs old v h
    have hstop := h.stops
    show (if fin < pos + 4 then ((0 : UInt32), fin)
      else (unpickleLoop (read m pos 4), pos + 4)).1 = v ↔ _
    by_cases hlt : bs.length < 4
    · rw [if_pos (by omega), if_pos hlt]
      exact eq_comm
    · rw [if_neg (by omega), if_neg hlt, h.take (by omega)]
      exact eq_comm

instance : PartialPickle Bool where
  Leaves := fun bs old v => v = if bs.length < 1 then old else decode (bs.take 1)
  unpickle_leaves := by
    intro m pos fin bs old v h
    have hstop := h.stops
    show (if pos = fin then (old, fin) else (m pos != 0, pos + 1)).1 = v ↔ _
    by_cases hlt : bs.length < 1
    · rw [if_pos (by omega), if_pos hlt]
      exact eq_comm
    · rw [if_neg (by omega), if_neg hlt, ← h.take (by omega)]
      exact eq_comm

instance {n : Nat} [NeZero n] : PartialPickle (Vector UInt8 n) where
  Leaves := fun bs old v => v = if bs.length < n then old else decode (bs.take n)
  unpickle_leaves := by
    intro m pos fin bs old v h
    have hstop := h.stops
    show (if fin < pos + n then (old, fin) else (load n m pos, pos + n)).1 = v ↔ _
    by_cases hlt : bs.length < n
    · rw [if_pos (by omega), if_pos hlt]
      exact eq_comm
    · rw [if_neg (by omega), if_neg hlt, ← h.take (by omega)]
      have hload : decode (read m pos n) = load n m pos := by
        rw [← toList_load]
        exact ofBytes_toList _
      rw [hload]
      exact eq_comm

section Fields

variable {A B C T : Type} [Pickle A] [Pickle B] [Pickle C] [Pickle T]
  [FixedPickle A] [FixedPickle B] [FixedPickle C] [FixedPickle T]
  {m : Mem} {pos fin : Nat} {bs : Bytes}

/-- Behind a field that does not fit there is nothing. -/
theorem Reached.next (h : Reached m pos fin bs) (old : T) :
    Reached m (unpickle m pos fin old).2 fin (bs.drop (size T)) := by
  have hstop := h.stops
  by_cases hfits : size T ≤ bs.length
  · rw [unpickle_fits old (by omega)]
    exact h.drop hfits
  · rw [unpickle_short old (by omega) (by omega), List.drop_of_length_le (by omega)]
    exact reached_nil m fin

theorem Reached.unpickle_fits (h : Reached m pos fin bs) (hfits : size T ≤ bs.length) (old : T) :
    (unpickle m pos fin old).1 = decode (bs.take (size T)) := by
  have hstop := h.stops
  rw [OlmPickle.unpickle_fits old (by omega), h.take hfits]

variable [PartialPickle A] [PartialPickle B] [PartialPickle C]

/-- A type whose overload reads two fields. -/
@[reducible] def PartialPickle.twoFields (mk : A → B → T) (a : T → A) (b : T → B)
    (hmk : ∀ x y v, mk x y = v ↔ x = a v ∧ y = b v)
    (hunpickle : ∀ m pos fin v, unpickle m pos fin v =
      (let (x, pos) := unpickle m pos fin (a v)
      let (y, pos) := unpickle m pos fin (b v)
      (mk x y, pos))) : PartialPickle T where
  Leaves := fun bs old v => Leaves bs (a old) (a v) ∧ Leaves (bs.drop (size A)) (b old) (b v)
  unpickle_leaves := by
    intro m pos fin bs old v h
    rw [hunpickle]
    simp only
    rw [hmk, unpickle_leaves (a old) (a v) h, unpickle_leaves (b old) (b v) (h.next (a old))]

/-- A type whose overload reads three fields. -/
@[reducible] def PartialPickle.threeFields (mk : A → B → C → T) (a : T → A) (b : T → B) (c : T → C)
    (hmk : ∀ x y z v, mk x y z = v ↔ x = a v ∧ y = b v ∧ z = c v)
    (hunpickle : ∀ m pos fin v, unpickle m pos fin v =
      (let (x, pos) := unpickle m pos fin (a v)
      let (y, pos) := unpickle m pos fin (b v)
      let (z, pos) := unpickle m pos fin (c v)
      (mk x y z, pos))) : PartialPickle T where
  Leaves := fun bs old v => Leaves bs (a old) (a v) ∧ Leaves (bs.drop (size A)) (b old) (b v) ∧
    Leaves ((bs.drop (size A)).drop (size B)) (c old) (c v)
  unpickle_leaves := by
    intro m pos fin bs old v h
    have h' := h.next (a old)
    have h'' := h'.next (b old)
    rw [hunpickle]
    simp only
    rw [hmk, unpickle_leaves (a old) (a v) h, unpickle_leaves (b old) (b v) h',
      unpickle_leaves (c old) (c v) h'']

end Fields

instance : PartialPickle Curve25519KeyPair :=
  PartialPickle.twoFields Curve25519KeyPair.mk (·.publicKey) (·.privateKey)
    (fun _ _ v => by rw [← Curve25519KeyPair.mk.injEq]) curve25519KeyPair_fields

instance : PartialPickle Ed25519KeyPair :=
  PartialPickle.twoFields Ed25519KeyPair.mk (·.publicKey) (·.privateKey)
    (fun _ _ v => by rw [← Ed25519KeyPair.mk.injEq]) ed25519KeyPair_fields

instance : PartialPickle IdentityKeys :=
  PartialPickle.twoFields IdentityKeys.mk (·.ed25519Key) (·.curve25519Key)
    (fun _ _ v => by rw [← IdentityKeys.mk.injEq]) identityKeys_fields

instance : PartialPickle OneTimeKey :=
  PartialPickle.threeFields OneTimeKey.mk (·.id) (·.published) (·.key)
    (fun _ _ _ v => by rw [← OneTimeKey.mk.injEq]) oneTimeKey_fields

instance : PartialPickle (SenderChain SharedKey) :=
  PartialPickle.threeFields (fun ratchetKey key index => ⟨ratchetKey, ⟨index, key⟩⟩) (·.ratchetKey)
    (·.chainKey.key) (·.chainKey.index)
    (by
      rintro x y z ⟨key, ⟨index, chain⟩⟩
      rw [SenderChain.mk.injEq, ChainKey.mk.injEq, and_comm (a := z = index)])
    senderChain_fields

instance : PartialPickle (ReceiverChain SharedKey) :=
  PartialPickle.threeFields (fun ratchetKey key index => ⟨ratchetKey, ⟨index, key⟩⟩) (·.ratchetKey)
    (·.chainKey.key) (·.chainKey.index)
    (by
      rintro x y z ⟨key, ⟨index, chain⟩⟩
      rw [ReceiverChain.mk.injEq, ChainKey.mk.injEq, and_comm (a := z = index)])
    receiverChain_fields

instance : PartialPickle (SkippedMessageKey SharedKey) :=
  PartialPickle.threeFields (fun ratchetKey key index => ⟨ratchetKey, ⟨index, key⟩⟩) (·.ratchetKey)
    (·.messageKey.key) (·.messageKey.index)
    (by
      rintro x y z ⟨key, ⟨index, message⟩⟩
      rw [SkippedMessageKey.mk.injEq, MessageKey.mk.injEq, and_comm (a := z = index)])
    skippedMessageKey_fields

/-! ## Lists -/

section Lists

variable {T : Type} [Pickle T] [FixedPickle T] {m : Mem} {fin maxSize : Nat}

/-- What is behind a list; nothing where it does not fit. -/
def behindList (T : Type) [Pickle T] [FixedPickle T] (bs : Bytes) : Bytes :=
  (bs.drop 4).drop ((unpickleLoop (bs.take 4)).toNat * size T)

theorem Reached.nextItems :
    ∀ (count : Nat) {pos : Nat} {bs : Bytes} (list : BoundedList T maxSize),
      Reached m pos fin bs →
      Reached m (unpickleItems m fin count pos list).2 fin (bs.drop (count * size T)) := by
  intro count
  induction count with
  | zero =>
      intro pos bs list h
      rw [Nat.zero_mul, List.drop_zero]
      exact h
  | succ count ih =>
      intro pos bs list h
      rw [unpickleItems]
      by_cases hend : pos = fin
      · have hstop := h.stops
        rw [if_pos hend, List.drop_of_length_le (by omega), hend]
        exact reached_nil m fin
      · rw [if_neg hend, Nat.succ_mul, Nat.add_comm, ← List.drop_drop]
        exact ih _ (h.next _)

/-- A number that does not fit is zero. -/
theorem Reached.count {pos : Nat} {bs : Bytes} (h : Reached m pos fin bs) (hshort : bs.length < 4) :
    (unpickle m pos fin (0 : UInt32)).1 = 0 := by
  refine (unpickle_leaves (0 : UInt32) 0 h).mpr ?_
  show (0 : UInt32) = if bs.length < 4 then 0 else decode (bs.take 4)
  rw [if_pos hshort]

theorem Reached.nextList {pos : Nat} {bs : Bytes} (h : Reached m pos fin bs)
    (list : BoundedList T maxSize) :
    Reached m (unpickle m pos fin list).2 fin (behindList T bs) := by
  have hnext : Reached m (unpickle m pos fin (0 : UInt32)).2 fin (bs.drop 4) := h.next (0 : UInt32)
  have hitems := hnext.nextItems (unpickle m pos fin (0 : UInt32)).1.toNat list
  by_cases hshort : bs.length < 4
  · have hnil : bs.drop 4 = [] := List.drop_of_length_le (by omega)
    rw [hnil, List.drop_nil] at hitems
    rw [behindList, hnil, List.drop_nil]
    exact hitems
  · have hcount : (unpickle m pos fin (0 : UInt32)).1 = unpickleLoop (bs.take 4) :=
      h.unpickle_fits (show size UInt32 ≤ bs.length from Nat.le_of_not_lt hshort) 0
    rw [hcount] at hitems
    show Reached m (unpickleItems m fin (unpickle m pos fin (0 : UInt32)).1.toNat
      (unpickle m pos fin (0 : UInt32)).2 list).2 fin _
    rw [hcount]
    exact hitems

omit [FixedPickle T] in
/-- A list only gets longer. -/
theorem length_unpickleItems :
    ∀ (count pos : Nat) (list : BoundedList T maxSize),
      list.toList.length ≤ (unpickleItems m fin count pos list).1.toList.length := by
  intro count
  induction count with
  | zero => exact fun _ _ => Nat.le_refl _
  | succ count ih =>
      intro pos list
      rw [unpickleItems]
      by_cases hend : pos = fin
      · rw [if_pos hend]
      · rw [if_neg hend]
        exact Nat.le_trans (list.length_insertEnd _) (ih _ _)

omit [FixedPickle T] in
/-- A list with space left is changed by any item. -/
theorem Reached.items_space {pos : Nat} {bs : Bytes} (h : Reached m pos fin bs) (count : Nat)
    {list : BoundedList T maxSize} (hspace : list.toList.length < maxSize) :
    (unpickleItems m fin count pos list).1 = list ↔ count = 0 ∨ bs = [] := by
  have hstop := h.stops
  cases count with
  | zero => exact ⟨fun _ => Or.inl rfl, fun _ => rfl⟩
  | succ count =>
      rw [unpickleItems]
      by_cases hend : pos = fin
      · have hnil : bs = [] := List.length_eq_zero_iff.mp (by omega)
        rw [if_pos hend]
        exact ⟨fun _ => Or.inr hnil, fun _ => rfl⟩
      · rw [if_neg hend]
        constructor
        · intro hsame
          have hle : _ ≤ (unpickleItems m fin count (unpickle m pos fin (list.endPlace Pickle.zero)).2
              (list.insertEnd (unpickle m pos fin (list.endPlace Pickle.zero)).1)).1.toList.length :=
            length_unpickleItems count _ _
          have hlist : (unpickleItems m fin count (unpickle m pos fin (list.endPlace Pickle.zero)).2
              (list.insertEnd (unpickle m pos fin (list.endPlace Pickle.zero)).1)).1 = list := hsame
          rw [hlist, BoundedList.toList_insertEnd hspace, List.length_append,
            List.length_singleton] at hle
          omega
        · rintro (hzero | hnil)
          · cases hzero
          · rw [hnil, List.length_nil] at hstop
            exact absurd hstop hend

variable [PartialPickle T]

/-- What items leave in one place that holds `place`. -/
def PlaceLeaves : Nat → Bytes → T → T → Prop
  | 0, _, place, v => place = v
  | count + 1, bs, place, v =>
      if bs = [] then place = v
      else if bs.length < size T then Leaves bs place v
      else PlaceLeaves count (bs.drop (size T)) (decode (bs.take (size T))) v

theorem placeLeaves_nil (count : Nat) (place : T) : PlaceLeaves count [] place place := by
  cases count with
  | zero => rfl
  | succ count =>
      rw [PlaceLeaves, if_pos rfl]

/-- **A FULL LIST** keeps all its items but the last, and items are read over that one. -/
theorem Reached.items_full :
    ∀ (count : Nat) {pos : Nat} {bs : Bytes} {init : List T} {place : T}
      {list : BoundedList T maxSize} (v : T), Reached m pos fin bs →
      list.toList = init ++ [place] → init.length + 1 = maxSize →
      ((unpickleItems m fin count pos list).1.toList = init ++ [v] ↔ PlaceLeaves count bs place v) := by
  intro count
  induction count with
  | zero =>
      intro pos bs init place list v h hlist hfull
      show list.toList = init ++ [v] ↔ place = v
      rw [hlist, List.append_right_inj, List.singleton_inj]
  | succ count ih =>
      intro pos bs init place list v h hlist hfull
      have hstop := h.stops
      rw [unpickleItems, PlaceLeaves]
      by_cases hnil : bs = []
      · have hend : pos = fin := by
          rw [hnil, List.length_nil] at hstop
          exact hstop
        rw [if_pos hend, if_pos hnil]
        show list.toList = init ++ [v] ↔ place = v
        rw [hlist, List.append_right_inj, List.singleton_inj]
      · have hpos := List.length_pos_iff.mpr hnil
        rw [if_neg (by omega), if_neg hnil, BoundedList.endPlace_full hlist hfull]
        simp only
        have hinsert := BoundedList.toList_insertEnd_full hlist hfull (unpickle m pos fin place).1
        by_cases hshort : bs.length < size T
        · rw [if_pos hshort, unpickle_short place (by omega) (by omega), unpickleItems_exhausted,
            ← unpickle_leaves place v h]
          simp only
          rw [hinsert, List.append_right_inj, List.singleton_inj]
        · have hfits := h.unpickle_fits (Nat.le_of_not_lt hshort) place
          rw [if_neg hshort]
          rw [hfits] at hinsert ⊢
          exact ih v (h.next place) hinsert hfull

/-- A list keeps its items where no item begins, and where it is full and the items leave
    its last place as it was. -/
def ListKept (bs : Bytes) (list : BoundedList T maxSize) : Prop :=
  unpickleLoop (bs.take 4) = 0 ∨ bs.length ≤ 4 ∨
    ∃ init last, list.toList = init ++ [last] ∧ init.length + 1 = maxSize ∧
      PlaceLeaves (unpickleLoop (bs.take 4)).toNat (bs.drop 4) last last

theorem Reached.list_kept {pos : Nat} {bs : Bytes} (h : Reached m pos fin bs)
    (hmax : 0 < maxSize) (list : BoundedList T maxSize) :
    (unpickle m pos fin list).1 = list ↔ ListKept bs list := by
  have hnext : Reached m (unpickle m pos fin (0 : UInt32)).2 fin (bs.drop 4) := h.next (0 : UInt32)
  show (unpickleItems m fin (unpickle m pos fin (0 : UInt32)).1.toNat
    (unpickle m pos fin (0 : UInt32)).2 list).1 = list ↔ _
  by_cases hshort : bs.length < 4
  · rw [h.count hshort]
    exact ⟨fun _ => Or.inr (Or.inl (Nat.le_of_lt hshort)), fun _ => rfl⟩
  · have hcount : (unpickle m pos fin (0 : UInt32)).1 = unpickleLoop (bs.take 4) :=
      h.unpickle_fits (show size UInt32 ≤ bs.length from Nat.le_of_not_lt hshort) 0
    rw [hcount, ListKept]
    generalize unpickleLoop (bs.take 4) = count
    by_cases hspace : list.toList.length < maxSize
    · rw [hnext.items_space count.toNat hspace, ← List.length_eq_zero_iff, List.length_drop,
        Nat.sub_eq_zero_iff_le]
      constructor
      · rintro (hzero | hle)
        · exact Or.inl (UInt32.toNat_inj.mp hzero)
        · exact Or.inr (Or.inl hle)
      · rintro (hzero | hle | ⟨init, last, hlist, hfull, -⟩)
        · exact Or.inl (congrArg UInt32.toNat hzero)
        · exact Or.inr hle
        · rw [hlist, List.length_append, List.length_singleton] at hspace
          omega
    · have hfull : list.toList.length = maxSize :=
        Nat.le_antisymm list.length_le (Nat.le_of_not_lt hspace)
      rcases List.eq_nil_or_concat' list.toList with hnil | ⟨init, last, hlist⟩
      · rw [hnil, List.length_nil] at hfull
        omega
      · rw [hlist, List.length_append, List.length_singleton] at hfull
        have hitems := hnext.items_full count.toNat last hlist hfull
        have hsame : ∀ list' : BoundedList T maxSize,
            list' = list ↔ list'.toList = init ++ [last] := by
          intro list'
          rw [← hlist]
          exact ⟨congrArg BoundedList.toList, BoundedList.ext'⟩
        rw [hsame, hitems]
        constructor
        · intro hplace
          exact Or.inr (Or.inr ⟨init, last, hlist, hfull, hplace⟩)
        · rintro (rfl | hle | ⟨init', last', hlist', -, hplace⟩)
          · rfl
          · have hdrop : bs.drop 4 = [] := List.drop_of_length_le hle
            rw [hdrop]
            exact placeLeaves_nil count.toNat last
          · rw [hlist] at hlist'
            obtain ⟨-, hlast⟩ := List.append_inj' hlist' rfl
            rw [List.singleton_inj.mp hlast]
            exact hplace

end Lists

end OlmPickle
