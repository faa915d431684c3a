import Mathlib

/-! # Byte-addressed memory

    A memory gives a byte for every address.  Programs that pass pointers
    around are modelled by functions from memory to memory; a buffer is an
    address and a length.  The lemmas say what a read sees after a write, and
    `SameOutside` is the frame condition "nothing else was written". -/

namespace ByteMemory

/-- A byte at every address. -/
abbrev Mem := Nat → UInt8

/-- The `n` bytes from address `p` on. -/
def read (m : Mem) (p n : Nat) : List UInt8 :=
  (List.range n).map (fun i => m (p + i))

/-- Memory after storing `bs` from address `p` on. -/
def write (m : Mem) (p : Nat) (bs : List UInt8) : Mem :=
  fun a => if p ≤ a then bs[a - p]?.getD (m a) else m a

/-- Only the `n` bytes from `p` on may differ. -/
def SameOutside (p n : Nat) (m m' : Mem) : Prop :=
  ∀ a, a < p ∨ p + n ≤ a → m' a = m a

/-- Two buffers without a common byte. -/
def Disjoint (p n q k : Nat) : Prop := p + n ≤ q ∨ q + k ≤ p

theorem Disjoint.symm {p n q k : Nat} (h : Disjoint p n q k) : Disjoint q k p n :=
  Or.symm h

/-- A part of a buffer. -/
theorem Disjoint.part {p n q k q' k' : Nat} (h : Disjoint p n q k) (hfirst : q ≤ q')
    (hlast : q' + k' ≤ q + k) : Disjoint p n q' k' := by
  rcases h with h | h
  · exact Or.inl (Nat.le_trans h hfirst)
  · exact Or.inr (Nat.le_trans hlast h)

/-! ## Reads -/

@[simp] theorem length_read (m : Mem) (p n : Nat) : (read m p n).length = n := by
  rw [read, List.length_map, List.length_range]

theorem getElem_read (m : Mem) (p n i : Nat) (h : i < (read m p n).length) :
    (read m p n)[i] = m (p + i) := by
  simp only [read, List.getElem_map, List.getElem_range]

theorem getElem?_read (m : Mem) (p n i : Nat) :
    (read m p n)[i]? = if i < n then some (m (p + i)) else none := by
  by_cases h : i < n
  · rw [if_pos h, List.getElem?_eq_getElem (by rwa [length_read]), getElem_read]
  · rw [if_neg h, List.getElem?_eq_none (by rw [length_read]; omega)]

@[simp] theorem read_zero (m : Mem) (p : Nat) : read m p 0 = [] := rfl

theorem read_add (m : Mem) (p n k : Nat) :
    read m p (n + k) = read m p n ++ read m (p + n) k := by
  apply List.ext_getElem?
  intro i
  rw [List.getElem?_append, length_read]
  simp only [getElem?_read]
  by_cases h1 : i < n
  · rw [if_pos h1, if_pos h1, if_pos (by omega)]
  · rw [if_neg h1]
    by_cases h2 : i < n + k
    · rw [if_pos h2, if_pos (by omega), show p + n + (i - n) = p + i by omega]
    · rw [if_neg h2, if_neg (by omega)]

theorem read_succ (m : Mem) (p n : Nat) : read m p (n + 1) = m p :: read m (p + 1) n := by
  rw [Nat.add_comm, read_add]
  rfl

theorem read_congr {m m' : Mem} {p n : Nat}
    (h : ∀ a, p ≤ a → a < p + n → m a = m' a) : read m p n = read m' p n := by
  apply List.map_congr_left
  intro i hi
  exact h _ (by omega) (by have := List.mem_range.mp hi; omega)

theorem read_eq_iff {m : Mem} {p : Nat} {bs : List UInt8} :
    read m p bs.length = bs ↔ ∀ i (h : i < bs.length), m (p + i) = bs[i] := by
  constructor
  · intro h i hi
    have := getElem?_read m p bs.length i
    rw [h, if_pos hi, List.getElem?_eq_getElem hi] at this
    exact (Option.some.inj this).symm
  · intro h
    apply List.ext_getElem (length_read m p _)
    intro i h1 h2
    rw [getElem_read, h i h2]

theorem take_read (m : Mem) (p : Nat) {k n : Nat} (h : k ≤ n) :
    (read m p n).take k = read m p k := by
  obtain ⟨r, rfl⟩ := Nat.exists_eq_add_of_le h
  rw [read_add, List.take_left' (length_read m p k)]

theorem drop_read (m : Mem) (p : Nat) {k n : Nat} (h : k ≤ n) :
    (read m p n).drop k = read m (p + k) (n - k) := by
  obtain ⟨r, rfl⟩ := Nat.exists_eq_add_of_le h
  rw [read_add, List.drop_left' (length_read m p k), Nat.add_sub_cancel_left]

/-- A read inside a buffer is determined by the contents of the buffer. -/
theorem read_sub {m m' : Mem} {p q n : Nat} (h : read m p n = read m' q n) {k l : Nat}
    (hkl : k + l ≤ n) : read m (p + k) l = read m' (q + k) l := by
  have hd : ((read m p n).drop k).take l = ((read m' q n).drop k).take l := by rw [h]
  rw [drop_read m p (by omega), drop_read m' q (by omega), take_read _ _ (by omega),
    take_read _ _ (by omega)] at hd
  exact hd

/-- The middle part of a string in memory. -/
theorem read_middle {m : Mem} {p n : Nat} {a b c : List UInt8}
    (h : read m p n = a ++ (b ++ c)) : read m (p + a.length) b.length = b := by
  have hn : n = a.length + (b.length + c.length) := by
    rw [← length_read m p n, h, List.length_append, List.length_append]
  have hd : ((read m p n).drop a.length).take b.length = b := by
    rw [h, List.drop_left' rfl, List.take_left' rfl]
  rwa [drop_read m p (by omega), take_read _ _ (by omega)] at hd

theorem read_prefix {m : Mem} {p n : Nat} {a b : List UInt8} (h : read m p n = a ++ b) :
    read m p a.length = a := by
  have := read_middle (a := []) h
  rwa [List.length_nil, Nat.add_zero] at this

/-- What is left of a string up to `fin`, behind a first part. -/
theorem read_rest {m : Mem} {p fin : Nat} {a b : List UInt8}
    (h : read m p (fin - p) = a ++ b) :
    read m (p + a.length) (fin - (p + a.length)) = b := by
  have hn : fin - p = a.length + b.length := by
    rw [← length_read m p (fin - p), h, List.length_append]
  have := read_middle (c := []) (by rwa [List.append_nil])
  rwa [show fin - (p + a.length) = b.length by omega]

/-! ## Writes -/

@[simp] theorem write_nil (m : Mem) (p : Nat) : write m p [] = m := by
  funext a
  rw [write]
  split <;> rfl

theorem write_outside (m : Mem) {p : Nat} {bs : List UInt8} {a : Nat}
    (h : a < p ∨ p + bs.length ≤ a) : write m p bs a = m a := by
  rw [write]
  by_cases hp : p ≤ a
  · rw [if_pos hp, List.getElem?_eq_none (by omega)]
    rfl
  · rw [if_neg hp]

theorem write_inside (m : Mem) (p : Nat) (bs : List UInt8) {i : Nat} (h : i < bs.length) :
    write m p bs (p + i) = bs[i] := by
  rw [write, if_pos (Nat.le_add_right p i), Nat.add_sub_cancel_left,
    List.getElem?_eq_getElem h]
  rfl

theorem read_write_self (m : Mem) (p : Nat) (bs : List UInt8) :
    read (write m p bs) p bs.length = bs :=
  read_eq_iff.mpr (fun _ h => write_inside m p bs h)

/-- `read_write_self` for a length that is only known to be equal. -/
theorem read_write_of_length (m : Mem) (p : Nat) {bs : List UInt8} {n : Nat}
    (h : bs.length = n) : read (write m p bs) p n = bs := by
  rw [← h, read_write_self]

theorem read_write_disjoint (m : Mem) {p q n : Nat} {bs : List UInt8}
    (h : Disjoint p bs.length q n) : read (write m p bs) q n = read m q n := by
  refine read_congr (fun a h1 h2 => write_outside m ?_)
  rcases h with h | h
  · right; omega
  · left; omega

theorem write_append (m : Mem) (p : Nat) (bs cs : List UInt8) :
    write m p (bs ++ cs) = write (write m p bs) (p + bs.length) cs := by
  funext a
  by_cases h1 : a < p
  · rw [write_outside _ (Or.inl h1), write_outside _ (Or.inl (by omega)),
      write_outside _ (Or.inl h1)]
  · obtain ⟨i, rfl⟩ := Nat.exists_eq_add_of_le (Nat.le_of_not_lt h1)
    by_cases h2 : i < bs.length
    · rw [write_inside m p _ (by rw [List.length_append]; omega),
        write_outside _ (Or.inl (by omega)), write_inside m p bs h2]
      exact List.getElem_append_left h2
    · by_cases h3 : i < bs.length + cs.length
      · rw [write_inside m p _ (by rw [List.length_append]; omega),
          List.getElem_append_right (Nat.le_of_not_lt h2),
          show p + i = p + bs.length + (i - bs.length) by omega,
          write_inside _ _ cs (by omega)]
      · rw [write_outside _ (Or.inr (by rw [List.length_append]; omega)),
          write_outside _ (Or.inr (by omega)), write_outside _ (Or.inr (by omega))]

theorem write_cons (m : Mem) (p : Nat) (b : UInt8) (bs : List UInt8) :
    write m p (b :: bs) = write (write m p [b]) (p + 1) bs :=
  write_append m p [b] bs

/-- Storing what is already there changes nothing. -/
theorem write_read (m : Mem) (p n : Nat) : write m p (read m p n) = m := by
  funext a
  by_cases h : a < p ∨ p + (read m p n).length ≤ a
  · exact write_outside m h
  · have hp : p ≤ a := by omega
    obtain ⟨i, rfl⟩ := Nat.exists_eq_add_of_le hp
    rw [write_inside m p _ (by omega), getElem_read]

/-- Writes to disjoint buffers commute. -/
theorem write_comm (m : Mem) {p q : Nat} {bs cs : List UInt8}
    (h : Disjoint p bs.length q cs.length) :
    write (write m p bs) q cs = write (write m q cs) p bs := by
  funext a
  by_cases ha : a < q ∨ q + cs.length ≤ a
  · rw [write_outside _ ha]
    by_cases hb : a < p ∨ p + bs.length ≤ a
    · rw [write_outside _ hb, write_outside _ hb, write_outside _ ha]
    · obtain ⟨i, rfl⟩ := Nat.exists_eq_add_of_le (show p ≤ a by omega)
      rw [write_inside _ p bs (by omega), write_inside _ p bs (by omega)]
  · obtain ⟨i, rfl⟩ := Nat.exists_eq_add_of_le (show q ≤ a by omega)
    rw [write_inside _ q cs (by omega)]
    rw [write_outside _ (by rcases h with h | h <;> omega), write_inside _ q cs (by omega)]

/-- A later write to the same buffer wins. -/
theorem write_overwrite (m : Mem) (p : Nat) {bs cs : List UInt8}
    (h : bs.length ≤ cs.length) : write (write m p bs) p cs = write m p cs := by
  funext a
  by_cases ha : a < p ∨ p + cs.length ≤ a
  · rw [write_outside _ ha, write_outside _ ha, write_outside _ (by omega)]
  · obtain ⟨i, rfl⟩ := Nat.exists_eq_add_of_le (show p ≤ a by omega)
    rw [write_inside _ p cs (by omega), write_inside _ p cs (by omega)]

/-- Storing into the middle of a string that was stored before. -/
theorem write_replace (m : Mem) (p : Nat) (a c : List UInt8) {g b : List UInt8}
    (h : g.length = b.length) :
    write (write m p (a ++ (g ++ c))) (p + a.length) b = write m p (a ++ (b ++ c)) := by
  rw [write_append, write_append m p a (b ++ c), write_append _ _ g c,
    write_append _ _ b c, h]
  rw [write_comm _ (Or.inr (Nat.le_refl _)), write_overwrite _ _ (Nat.le_of_eq h)]

/-! ## Frames -/

namespace SameOutside

theorem refl (p n : Nat) (m : Mem) : SameOutside p n m m := fun _ _ => rfl

theorem trans {p n : Nat} {m₁ m₂ m₃ : Mem} (h1 : SameOutside p n m₁ m₂)
    (h2 : SameOutside p n m₂ m₃) : SameOutside p n m₁ m₃ :=
  fun a ha => (h2 a ha).trans (h1 a ha)

theorem mono {p n q k : Nat} {m m' : Mem} (h : SameOutside p n m m')
    (h1 : q ≤ p) (h2 : p + n ≤ q + k) : SameOutside q k m m' :=
  fun a ha => h a (by omega)

theorem write (m : Mem) (p : Nat) (bs : List UInt8) :
    SameOutside p bs.length m (ByteMemory.write m p bs) :=
  fun _ ha => write_outside m ha

theorem write_within (m : Mem) {p n q : Nat} {bs : List UInt8} (h1 : p ≤ q)
    (h2 : q + bs.length ≤ p + n) : SameOutside p n m (ByteMemory.write m q bs) :=
  (write m q bs).mono h1 h2

/-- A read outside the frame sees the old memory. -/
theorem read_eq {p n q k : Nat} {m m' : Mem} (h : SameOutside p n m m')
    (hd : Disjoint p n q k) : read m' q k = read m q k :=
  read_congr (fun a h1 h2 => h a (by rcases hd with hd | hd <;> omega))

/-- A memory that only differs in a buffer is the old one with that buffer
    overwritten. -/
theorem eq_write {p n : Nat} {m m' : Mem} (h : SameOutside p n m m') :
    m' = ByteMemory.write m p (read m' p n) := by
  funext a
  by_cases ha : a < p ∨ p + n ≤ a
  · rw [h a ha, write_outside m (by rwa [length_read])]
  · obtain ⟨i, rfl⟩ := Nat.exists_eq_add_of_le (show p ≤ a by omega)
    rw [write_inside m p _ (by rw [length_read]; omega), getElem_read]

end SameOutside

/-! ## Fixed-size arrays -/

/-- The first `n` bytes of a string; the caller provides at least `n`. -/
def ofBytes (n : Nat) (bs : List UInt8) : Vector UInt8 n :=
  Vector.ofFn (fun i => bs.getD i 0)

/-- A fixed-size array read from memory. -/
def load (n : Nat) (m : Mem) (p : Nat) : Vector UInt8 n :=
  Vector.ofFn (fun i => m (p + i))

/-- A fixed-size array stored to memory. -/
def store {n : Nat} (m : Mem) (p : Nat) (v : Vector UInt8 n) : Mem :=
  write m p v.toList

theorem toList_load (n : Nat) (m : Mem) (p : Nat) : (load n m p).toList = read m p n := by
  apply List.ext_getElem
  · rw [Vector.length_toList, length_read]
  · intro i h1 h2
    rw [Vector.getElem_toList, getElem_read]
    exact Vector.getElem_ofFn _

theorem toList_ofBytes {n : Nat} {bs : List UInt8} (h : bs.length = n) :
    (ofBytes n bs).toList = bs := by
  apply List.ext_getElem
  · rw [Vector.length_toList, h]
  · intro i h1 h2
    rw [Vector.getElem_toList]
    refine (Vector.getElem_ofFn _).trans ?_
    rw [List.getD_eq_getElem?_getD, List.getElem?_eq_getElem h2]
    rfl

theorem ofBytes_toList {n : Nat} (v : Vector UInt8 n) : ofBytes n v.toList = v :=
  Vector.toList_inj.mp (toList_ofBytes Vector.length_toList)

theorem ofBytes_append {n : Nat} (v : Vector UInt8 n) (bs : List UInt8) :
    ofBytes n (v.toList ++ bs) = v := by
  apply Vector.ext
  intro i hi
  simp [ofBytes, List.getElem?_append]

theorem toList_ofBytes_take {n : Nat} {bs : List UInt8} (h : n ≤ bs.length) :
    (ofBytes n bs).toList = bs.take n := by
  have : ofBytes n bs = ofBytes n (bs.take n) := by
    apply Vector.ext
    intro i hi
    simp [ofBytes]
  rw [this, toList_ofBytes (by rw [List.length_take]; omega)]

theorem load_eq_of_read {n : Nat} {m : Mem} {p : Nat} {v : Vector UInt8 n}
    (h : read m p n = v.toList) : load n m p = v :=
  Vector.toList_inj.mp ((toList_load n m p).trans h)

/-- An array in the middle of a string in memory. -/
theorem load_middle {n k : Nat} {m : Mem} {p : Nat} {a c : List UInt8} {v : Vector UInt8 n}
    (h : read m p k = a ++ (v.toList ++ c)) : load n m (p + a.length) = v := by
  have hmid := read_middle h
  rw [show v.toList.length = n from Vector.length_toList] at hmid
  exact load_eq_of_read hmid

theorem load_congr {n : Nat} {m m' : Mem} {p q : Nat} (h : read m p n = read m' q n) :
    load n m p = load n m' q :=
  load_eq_of_read (h.trans (toList_load n m' q).symm)

theorem read_store_self {n : Nat} (m : Mem) (p : Nat) (v : Vector UInt8 n) :
    read (store m p v) p n = v.toList :=
  read_write_of_length m p Vector.length_toList

theorem load_store_self {n : Nat} (m : Mem) (p : Nat) (v : Vector UInt8 n) :
    load n (store m p v) p = v :=
  load_eq_of_read (read_store_self m p v)

end ByteMemory
