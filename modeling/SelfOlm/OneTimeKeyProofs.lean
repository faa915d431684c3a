import SelfOlm.PickleProofs

/-! # The store of one-time keys

    An account numbers the keys that it generates and keeps the newest of them.  A run
    has the list of all keys that were issued; what is stored is always a part of it, in
    its order, with the published flags apart.  That the numbers decrease, that no key is
    another than the one that was issued and that a key is found and removed by its public
    part are consequences. -/

namespace OlmAccount

open ByteMemory OlmCrypto OlmList OlmPickle

variable (prim : Primitives)

/-! ## Generating -/

/-- The key that is generated behind `i` others. -/
def generatedKey (next : UInt32) (m : Mem) (random i : Nat) : OneTimeKey where
  id := next + UInt32.ofNat (i + 1)
  published := false
  key := cryptoCurve25519GenerateKey prim (load 32 m (random + 32 * i))

/-- The keys that one call generates, newest first. -/
def generatedKeys (n : Nat) (next : UInt32) (m : Mem) (random : Nat) : List OneTimeKey :=
  ((List.range n).map (generatedKey prim next m random)).reverse

theorem length_generatedKeys (n : Nat) (next : UInt32) (m : Mem) (random : Nat) :
    (generatedKeys prim n next m random).length = n := by
  rw [generatedKeys, List.length_reverse, List.length_map, List.length_range]

/-- The first key, and those behind it. -/
theorem generatedKeys_succ (n : Nat) (next : UInt32) (m : Mem) (random : Nat) :
    generatedKeys prim (n + 1) next m random
      = generatedKeys prim n (next + 1) m (random + 32) ++ [generatedKey prim next m random 0] := by
  have hlater : generatedKey prim next m random ∘ Nat.succ
      = generatedKey prim (next + 1) m (random + 32) := by
    funext i
    have hid : next + UInt32.ofNat (i + 1 + 1) = next + 1 + UInt32.ofNat (i + 1) := by
      rw [UInt32.ofNat_add (i + 1) 1, UInt32.add_comm (UInt32.ofNat (i + 1)), ← UInt32.add_assoc]
      rfl
    have hrandom : random + 32 * (i + 1) = random + 32 + 32 * i := by omega
    show generatedKey prim next m random (i + 1) = _
    rw [generatedKey, generatedKey, hid, hrandom]
  rw [generatedKeys, generatedKeys, List.range_succ_eq_map, List.map_cons, List.map_map, hlater,
    List.reverse_cons]

/-- The loop puts them in front. -/
theorem generateOneTimeKeysLoop_eq (n : Nat) :
    ∀ (a : Account) (m : Mem) (random : Nat),
      generateOneTimeKeysLoop prim n a m random
        = { a with
            nextOneTimeKeyId := a.nextOneTimeKeyId + UInt32.ofNat n
            oneTimeKeys := ⟨(generatedKeys prim n a.nextOneTimeKeyId m random
              ++ a.oneTimeKeys.toList).take maxOneTimeKeys, List.length_take_le _ _⟩ } := by
  induction n with
  | zero =>
      intro a m random
      have hid : a.nextOneTimeKeyId + UInt32.ofNat 0 = a.nextOneTimeKeyId := UInt32.add_zero _
      have hkeys : (⟨([] ++ a.oneTimeKeys.toList).take maxOneTimeKeys, List.length_take_le _ _⟩ :
          BoundedList OneTimeKey maxOneTimeKeys) = a.oneTimeKeys :=
        BoundedList.ext' (List.take_of_length_le a.oneTimeKeys.length_le)
      show a = { a with nextOneTimeKeyId := a.nextOneTimeKeyId + UInt32.ofNat 0, oneTimeKeys := _ }
      rw [hid]
      exact congrArg (fun keys => { a with oneTimeKeys := keys }) hkeys.symm
  | succ n ih =>
      intro a m random
      have hid : a.nextOneTimeKeyId + 1 + UInt32.ofNat n
          = a.nextOneTimeKeyId + UInt32.ofNat (n + 1) := by
        rw [UInt32.ofNat_add n 1, UInt32.add_comm (UInt32.ofNat n), ← UInt32.add_assoc]
        rfl
      have hfirst : generatedKey prim a.nextOneTimeKeyId m random 0
          = { id := a.nextOneTimeKeyId + 1, published := false,
              key := cryptoCurve25519GenerateKey prim (load 32 m random) } := rfl
      rw [generateOneTimeKeysLoop, ih]
      simp only [hid, BoundedList.toList_insert, generatedKeys_succ, hfirst]
      congr 2
      rw [List.append_assoc, List.singleton_append, List.take_append, List.take_append,
        List.take_take, Nat.min_eq_left (Nat.sub_le _ _)]

/-- **GENERATING** `n` keys. -/
theorem generateOneTimeKeys_toList (a : Account) {n : Nat} (m : Mem) (random : Nat)
    {randomLength : Nat} (h : generateOneTimeKeysRandomLength n ≤ randomLength) :
    (generateOneTimeKeys prim a n m random randomLength).1.oneTimeKeys.toList
        = (generatedKeys prim n a.nextOneTimeKeyId m random ++ a.oneTimeKeys.toList).take
            maxOneTimeKeys ∧
      (generateOneTimeKeys prim a n m random randomLength).1.nextOneTimeKeyId
        = a.nextOneTimeKeyId + UInt32.ofNat n ∧
      (generateOneTimeKeys prim a n m random randomLength).2 = some n := by
  rw [generateOneTimeKeys, if_neg (Nat.not_lt.mpr h), generateOneTimeKeysLoop_eq]
  exact ⟨rfl, rfl, rfl⟩

/-! ## Runs -/

/-- `a` is pickled, and a new object is loaded from a memory that holds the text, with the
    same key. -/
def Reloaded (a a' : Account) : Prop :=
  ∃ m m₁ key keyLength pickled pickledLength n m₂ key₂ keyLength₂ pickled₂,
    olmPickleAccount prim a m key keyLength pickled pickledLength = (m₁, a, some n) ∧
      Disjoint key keyLength pickled n ∧
      read m₂ key₂ keyLength₂ = read m key keyLength ∧
      read m₂ pickled₂ n = read m₁ pickled n ∧
      Disjoint key₂ keyLength₂ pickled₂ n ∧
      a' = (olmUnpickleAccount prim newAccountObject m₂ key₂ keyLength₂ pickled₂ n).2.1

/-- One call, with the keys that it issues. -/
inductive StoreStep : Account → List OneTimeKey → Account → Prop where
  | generated (a : Account) {n : Nat} {randomLength : Nat} (m : Mem) (random : Nat)
      (h : generateOneTimeKeysRandomLength n ≤ randomLength) :
      StoreStep a (generatedKeys prim n a.nextOneTimeKeyId m random)
        (generateOneTimeKeys prim a n m random randomLength).1
  | refused (a : Account) {n : Nat} {randomLength : Nat} (m : Mem) (random : Nat)
      (h : randomLength < generateOneTimeKeysRandomLength n) :
      StoreStep a [] (generateOneTimeKeys prim a n m random randomLength).1
  | marked (a : Account) : StoreStep a [] (markKeysAsPublished a).1
  | removed (a : Account) (publicKey : Curve25519PublicKey) :
      StoreStep a [] (removeKey a publicKey).1
  | reloaded {a a' : Account} (h : Reloaded prim a a') : StoreStep a [] a'

/-- Runs from an account without keys; the issued keys, newest first. -/
inductive StoreRun : List OneTimeKey → Account → Prop where
  | start (a : Account) (hkeys : a.oneTimeKeys = .empty) (hnext : a.nextOneTimeKeyId = 0) :
      StoreRun [] a
  | step {issued new : List OneTimeKey} {a a' : Account} (hrun : StoreRun issued a)
      (hstep : StoreStep prim a new a') : StoreRun (new ++ issued) a'

variable {prim}

/-- A reload clears the last error. -/
theorem Reloaded.eq (hinv : prim.AesInverts) {a a' : Account} (h : Reloaded prim a a') :
    a' = { a with lastError := .success } := by
  obtain ⟨m, m₁, key, keyLength, pickled, pickledLength, n, m₂, key₂, keyLength₂, pickled₂, hpickle,
    hdisjoint, hkey, htext, hdisjoint₂, rfl⟩ := h
  have hroom : olmPickleAccountLength prim a ≤ pickledLength := by
    by_contra hsmall
    rw [olmPickleAccount, olmPickle] at hpickle
    simp only at hpickle
    rw [if_pos (by rw [olmPickleAccountLength] at hsmall; omega)] at hpickle
    cases (Prod.mk.inj (Prod.mk.inj hpickle).2).2
  have hn : n = olmPickleAccountLength prim a := by
    rw [olmPickleAccount, olmPickle] at hpickle
    simp only at hpickle
    rw [if_neg (by rw [olmPickleAccountLength] at hroom; omega)] at hpickle
    exact (Option.some.inj (Prod.mk.inj (Prod.mk.inj hpickle).2).2).symm
  subst hn
  obtain ⟨text, hlength, hpickled, hload⟩ := account_roundTrips prim hinv a m key keyLength pickled
    pickledLength hroom hdisjoint
  obtain ⟨hm₁, -⟩ := Prod.mk.inj (hpickle.symm.trans hpickled)
  rw [hm₁, read_write_of_length m pickled hlength] at htext
  obtain ⟨m₃, hloaded⟩ := hload m₂ key₂ keyLength₂ pickled₂ hkey htext hdisjoint₂
  rw [hloaded]

/-- Any account can be reloaded. -/
theorem exists_reloaded (hinv : prim.AesInverts) (a : Account) :
    Reloaded prim a { a with lastError := .success } := by
  have hdisjoint : Disjoint 0 0 0 (olmPickleAccountLength prim a) := Or.inl (Nat.le_refl _)
  obtain ⟨text, hlength, hpickled, hload⟩ := account_roundTrips prim hinv a (fun _ => 0) 0 0 0 _
    (Nat.le_refl _) hdisjoint
  have htext : read (write (fun _ => 0) 0 text) 0 (olmPickleAccountLength prim a) = text :=
    read_write_of_length _ 0 hlength
  obtain ⟨m₃, hloaded⟩ := hload (write (fun _ => 0) 0 text) 0 0 0 rfl htext hdisjoint
  refine ⟨_, _, 0, 0, 0, _, _, write (fun _ => 0) 0 text, 0, 0, 0, hpickled, hdisjoint, rfl, rfl,
    hdisjoint, ?_⟩
  rw [hloaded]

/-! ## What is stored was issued -/

/-- A key without its flag. -/
def numberedPair (key : OneTimeKey) : UInt32 × Curve25519KeyPair := (key.id, key.key)

/-- The issued keys have the numbers up to the last one, and those that are stored are
    among them, in their order. -/
structure StoreInvariant (issued : List OneTimeKey) (a : Account) : Prop where
  numbers : issued.map (fun key => key.id)
    = ((List.range issued.length).map (fun i => UInt32.ofNat (i + 1))).reverse
  next : a.nextOneTimeKeyId = UInt32.ofNat issued.length
  stored : (a.oneTimeKeys.toList.map numberedPair).Sublist (issued.map numberedPair)

theorem StoreInvariant.generate {issued : List OneTimeKey} {a : Account}
    (h : StoreInvariant issued a) {n randomLength : Nat} (m : Mem) (random : Nat)
    (hrandom : generateOneTimeKeysRandomLength n ≤ randomLength) :
    StoreInvariant (generatedKeys prim n a.nextOneTimeKeyId m random ++ issued)
      (generateOneTimeKeys prim a n m random randomLength).1 := by
  obtain ⟨hkeys, hnext, -⟩ := generateOneTimeKeys_toList prim a m random hrandom
  refine ⟨?_, ?_, ?_⟩
  · -- the new numbers go on behind the last one
    have hnew : (generatedKeys prim n a.nextOneTimeKeyId m random).map (fun key => key.id)
        = ((List.range n).map (fun i => UInt32.ofNat (issued.length + i + 1))).reverse := by
      rw [generatedKeys, List.map_reverse, List.map_map, h.next]
      congr 1
      apply List.map_congr_left
      intro i _
      rw [Nat.add_assoc, UInt32.ofNat_add]
      rfl
    rw [List.map_append, hnew, h.numbers, List.length_append, length_generatedKeys,
      Nat.add_comm n, List.range_add, List.map_append, List.reverse_append, List.map_map]
    rfl
  · rw [hnext, h.next, List.length_append, length_generatedKeys, Nat.add_comm n, UInt32.ofNat_add]
  · rw [hkeys, List.map_take, List.map_append, List.map_append]
    exact (List.take_sublist _ _).trans (List.Sublist.append (List.Sublist.refl _) h.stored)

/-- **STEP**: a call keeps the invariant. -/
theorem StoreStep.invariant (hinv : prim.AesInverts) {issued new : List OneTimeKey}
    {a a' : Account} (hstep : StoreStep prim a new a') (h : StoreInvariant issued a) :
    StoreInvariant (new ++ issued) a' := by
  cases hstep with
  | generated m random hrandom => exact h.generate m random hrandom
  | refused m random hrandom =>
      rw [generateOneTimeKeys, if_pos hrandom]
      exact ⟨h.numbers, h.next, h.stored⟩
  | marked =>
      refine ⟨h.numbers, h.next, ?_⟩
      show ((a.oneTimeKeys.toList.map _).map numberedPair).Sublist _
      rw [List.map_map]
      exact h.stored
  | removed publicKey =>
      rw [removeKey]
      cases a.oneTimeKeys.toList.findIdx? (fun key => key.key.publicKey = publicKey) with
      | none => exact h
      | some i =>
          refine ⟨h.numbers, h.next, ?_⟩
          exact ((List.eraseIdx_sublist _ _).map numberedPair).trans h.stored
  | reloaded hreload =>
      rw [hreload.eq hinv]
      exact ⟨h.numbers, h.next, h.stored⟩

/-- **RUN**. -/
theorem StoreRun.invariant (hinv : prim.AesInverts) {issued : List OneTimeKey} {a : Account}
    (h : StoreRun prim issued a) : StoreInvariant issued a := by
  induction h with
  | start a hkeys hnext =>
      refine ⟨rfl, hnext, ?_⟩
      rw [hkeys]
      exact List.Sublist.refl []
  | step hrun hstep ih => exact hstep.invariant hinv ih

/-! ## What follows -/

/-- The numbers from the last one down to 1. -/
theorem numbers_pairwise {n : Nat} (hn : n < 2 ^ 32) :
    ((List.range n).map (fun i => UInt32.ofNat (i + 1))).reverse.Pairwise (· > ·) := by
  rw [List.pairwise_reverse, List.pairwise_map]
  refine (List.pairwise_lt_range).imp_of_mem ?_
  intro i j hi hj hlt
  have hj := List.mem_range.mp hj
  show UInt32.ofNat (i + 1) < UInt32.ofNat (j + 1)
  rw [UInt32.lt_iff_toNat_lt, UInt32.toNat_ofNat_of_lt' (show i + 1 < 2 ^ 32 by omega),
    UInt32.toNat_ofNat_of_lt' (show j + 1 < 2 ^ 32 by omega)]
  omega

section

variable {issued : List OneTimeKey} {a : Account} (h : StoreInvariant issued a)

include h

theorem StoreInvariant.issued_decreasing (hcount : issued.length < 2 ^ 32) :
    (issued.map (fun key => key.id)).Pairwise (· > ·) := by
  rw [h.numbers]
  exact numbers_pairwise hcount

theorem StoreInvariant.issued_le (hcount : issued.length < 2 ^ 32) {key : OneTimeKey}
    (hkey : key ∈ issued) : key.id ≤ a.nextOneTimeKeyId := by
  have hid : key.id ∈ issued.map (fun key => key.id) := List.mem_map_of_mem hkey
  rw [h.numbers, List.mem_reverse, List.mem_map] at hid
  obtain ⟨i, hi, hid⟩ := hid
  have hi := List.mem_range.mp hi
  rw [← hid, h.next, UInt32.le_iff_toNat_le, UInt32.toNat_ofNat_of_lt' (show i + 1 < 2 ^ 32 by omega),
    UInt32.toNat_ofNat_of_lt' hcount]
  omega

/-- A stored key is, but for its flag, one that was issued. -/
theorem StoreInvariant.mem_issued {key : OneTimeKey} (hkey : key ∈ a.oneTimeKeys.toList) :
    ∃ key' ∈ issued, key'.id = key.id ∧ key'.key = key.key := by
  have hpair := h.stored.subset (List.mem_map_of_mem hkey)
  obtain ⟨key', hkey', hsame⟩ := List.mem_map.mp hpair
  obtain ⟨hid, hpair⟩ := Prod.mk.inj hsame
  exact ⟨key', hkey', hid, hpair⟩

theorem StoreInvariant.stored_decreasing (hcount : issued.length < 2 ^ 32) :
    (a.oneTimeKeys.toList.map (fun key => key.id)).Pairwise (· > ·) := by
  have hids := h.stored.map Prod.fst
  rw [List.map_map, List.map_map] at hids
  exact (h.issued_decreasing hcount).sublist hids

theorem StoreInvariant.stored_nodup
    (hdistinct : (issued.map (fun key => key.key.publicKey)).Nodup) :
    (a.oneTimeKeys.toList.map (fun key => key.key.publicKey)).Nodup := by
  have hkeys := h.stored.map (fun pair => pair.2.publicKey)
  rw [List.map_map, List.map_map] at hkeys
  exact hdistinct.sublist hkeys

end

/-! ## Lookup and removal -/

/-- Where no two keys have one public part, a stored key is found. -/
theorem find?_publicKey {keys : List OneTimeKey}
    (hkeys : (keys.map (fun key => key.key.publicKey)).Nodup) {key : OneTimeKey}
    (hkey : key ∈ keys) :
    keys.find? (fun other => other.key.publicKey = key.key.publicKey) = some key := by
  induction keys with
  | nil => cases hkey
  | cons first keys ih =>
      rw [List.map_cons, List.nodup_cons] at hkeys
      rcases List.mem_cons.mp hkey with rfl | hkey
      · exact List.find?_cons_of_pos (decide_eq_true rfl)
      · rw [List.find?_cons_of_neg, ih hkeys.2 hkey]
        rw [decide_eq_true_iff]
        intro hsame
        exact hkeys.1 (hsame ▸ List.mem_map_of_mem hkey)

/-- Removing the first key with a public part removes all, as there is but one. -/
theorem eraseIdx_publicKey {publicKey : Curve25519PublicKey} :
    ∀ {keys : List OneTimeKey} {i : Nat},
      (keys.map (fun key => key.key.publicKey)).Nodup →
      keys.findIdx? (fun key => key.key.publicKey = publicKey) = some i →
      keys.eraseIdx i = keys.filter (fun key => key.key.publicKey ≠ publicKey) := by
  intro keys
  induction keys with
  | nil =>
      intro i _ hi
      cases hi
  | cons first keys ih =>
      intro i hkeys hi
      rw [List.map_cons, List.nodup_cons] at hkeys
      rw [List.findIdx?_cons] at hi
      by_cases hfirst : first.key.publicKey = publicKey
      · rw [if_pos (decide_eq_true hfirst), Option.some.injEq] at hi
        subst hi
        have hothers : ∀ key ∈ keys, decide (key.key.publicKey ≠ publicKey) = true := by
          intro key hkey
          refine decide_eq_true (fun hsame => hkeys.1 ?_)
          rw [hfirst, ← hsame]
          exact List.mem_map_of_mem hkey
        rw [List.eraseIdx_cons_zero, List.filter_cons_of_neg (by simp [hfirst]),
          List.filter_eq_self.mpr hothers]
      · rw [if_neg (by simp [hfirst])] at hi
        obtain ⟨j, hj, rfl⟩ := Option.map_eq_some_iff.mp hi
        rw [List.eraseIdx_cons_succ, ih hkeys.2 hj, List.filter_cons_of_pos (by simp [hfirst])]

/-- **REMOVAL**: the keys with another public part are left. -/
theorem removeKey_toList {a : Account}
    (hkeys : (a.oneTimeKeys.toList.map (fun key => key.key.publicKey)).Nodup)
    (publicKey : Curve25519PublicKey) :
    (removeKey a publicKey).1.oneTimeKeys.toList
      = a.oneTimeKeys.toList.filter (fun key => key.key.publicKey ≠ publicKey) := by
  rw [removeKey]
  cases hi : a.oneTimeKeys.toList.findIdx? (fun key => key.key.publicKey = publicKey) with
  | none =>
      have hothers := List.findIdx?_eq_none_iff.mp hi
      refine (List.filter_eq_self.mpr ?_).symm
      intro key hkey
      have hother := hothers key hkey
      rw [decide_eq_false_iff_not] at hother
      exact decide_eq_true hother
  | some i => exact eraseIdx_publicKey hkeys hi

theorem lookupKey_removeKey {a : Account}
    (hkeys : (a.oneTimeKeys.toList.map (fun key => key.key.publicKey)).Nodup)
    (publicKey : Curve25519PublicKey) :
    lookupKey (removeKey a publicKey).1 publicKey = none ∧
      ∀ key ∈ a.oneTimeKeys.toList, key.key.publicKey ≠ publicKey →
        lookupKey (removeKey a publicKey).1 key.key.publicKey = some key := by
  rw [lookupKey, removeKey_toList hkeys]
  constructor
  · refine List.find?_eq_none.mpr (fun key hkey hsame => ?_)
    have hother := (List.mem_filter.mp hkey).2
    exact of_decide_eq_true hother (of_decide_eq_true hsame)
  · intro key hkey hother
    rw [lookupKey, removeKey_toList hkeys]
    refine find?_publicKey ?_ (List.mem_filter.mpr ⟨hkey, decide_eq_true hother⟩)
    exact hkeys.sublist ((List.filter_sublist).map _)

/-- **THE STORE**, after any run. -/
theorem oneTimeKeys_invariant (hinv : prim.AesInverts) {issued : List OneTimeKey} {a : Account}
    (hrun : StoreRun prim issued a) (hcount : issued.length < 2 ^ 32)
    (hdistinct : (issued.map (fun key => key.key.publicKey)).Nodup) :
    a.oneTimeKeys.toList.length ≤ maxOneTimeKeys ∧
      (a.oneTimeKeys.toList.map (fun key => key.id)).Pairwise (· > ·) ∧
      (∀ key ∈ a.oneTimeKeys.toList, key.id ≤ a.nextOneTimeKeyId) ∧
      (issued.map (fun key => key.id)).Nodup ∧
      (∀ key ∈ a.oneTimeKeys.toList, ∃ key' ∈ issued, key'.id = key.id ∧ key'.key = key.key) ∧
      (∀ (n : Nat) (m : Mem) (random randomLength : Nat),
        generateOneTimeKeysRandomLength n ≤ randomLength →
        (generateOneTimeKeys prim a n m random randomLength).1.oneTimeKeys.toList
          = (generatedKeys prim n a.nextOneTimeKeyId m random ++ a.oneTimeKeys.toList).take
              maxOneTimeKeys) ∧
      ∀ publicKey : Curve25519PublicKey,
        (removeKey a publicKey).1.oneTimeKeys.toList
            = a.oneTimeKeys.toList.filter (fun key => key.key.publicKey ≠ publicKey) ∧
          lookupKey (removeKey a publicKey).1 publicKey = none ∧
          ∀ key ∈ a.oneTimeKeys.toList, key.key.publicKey ≠ publicKey →
            lookupKey (removeKey a publicKey).1 key.key.publicKey = some key := by
  have h := hrun.invariant hinv
  have hkeys := h.stored_nodup hdistinct
  refine ⟨a.oneTimeKeys.length_le, h.stored_decreasing hcount, ?_, ?_, ?_, ?_, ?_⟩
  · intro key hkey
    obtain ⟨key', hkey', hid, -⟩ := h.mem_issued hkey
    exact hid ▸ h.issued_le hcount hkey'
  · refine (h.issued_decreasing hcount).imp (fun hgt hsame => ?_)
    exact UInt32.lt_irrefl _ (hsame ▸ hgt)
  · intro key hkey
    exact h.mem_issued hkey
  · intro n m random randomLength hrandom
    exact (generateOneTimeKeys_toList prim a m random hrandom).1
  · intro publicKey
    exact ⟨removeKey_toList hkeys publicKey, lookupKey_removeKey hkeys publicKey⟩

/-- Random bytes for different keys. -/
def demoKeyMemory : Mem := fun address => UInt8.ofNat (address / 32)

/-- Two keys are generated and published. -/
def demoPublished : Account :=
  (markKeysAsPublished (generateOneTimeKeys demoPrimitives newAccountObject 2 demoKeyMemory 0
    64).1).1

/-- The public part of a key that comes from these random bytes. -/
def demoPublicKey (random : Nat) : Curve25519PublicKey :=
  (cryptoCurve25519GenerateKey demoPrimitives (load 32 demoKeyMemory random)).publicKey

/-- The second one is removed, the account is put away and loaded, and a third one is
    generated. -/
def demoReloaded : Account :=
  { (removeKey demoPublished (demoPublicKey 32)).1 with lastError := .success }
def demoStore : Account :=
  (generateOneTimeKeys demoPrimitives demoReloaded 1 demoKeyMemory 64 32).1

/-- The three keys, newest first, and the last of them. -/
def demoIssued : List OneTimeKey :=
  generatedKeys demoPrimitives 1 2 demoKeyMemory 64
    ++ generatedKeys demoPrimitives 2 0 demoKeyMemory 0
def demoThird : OneTimeKey := generatedKey demoPrimitives 2 demoKeyMemory 64 0

theorem demoStore_run : StoreRun demoPrimitives demoIssued demoStore := by
  have hgenerated : StoreStep demoPrimitives newAccountObject
      (generatedKeys demoPrimitives 2 0 demoKeyMemory 0)
      (generateOneTimeKeys demoPrimitives newAccountObject 2 demoKeyMemory 0 64).1 :=
    StoreStep.generated newAccountObject demoKeyMemory 0 (by decide)
  have hremoved := (((StoreRun.start newAccountObject rfl rfl).step hgenerated).step
    (StoreStep.marked _)).step (StoreStep.removed _ (demoPublicKey 32))
  have hreloaded : StoreRun demoPrimitives _ demoReloaded := hremoved.step
    (StoreStep.reloaded (exists_reloaded demoPrimitives_aesInverts _))
  have hnext : demoReloaded.nextOneTimeKeyId = 2 := by decide +kernel
  have hstored := hreloaded.step (StoreStep.generated demoReloaded demoKeyMemory 64
    (show generateOneTimeKeysRandomLength 1 ≤ 32 by decide))
  rw [hnext, List.append_nil, List.nil_append, List.nil_append, List.nil_append] at hstored
  exact hstored

/-- The keys 3 and 1 are left, and the third one is still found when the first one is removed. -/
theorem oneTimeKeys_invariant_demo :
    demoStore.oneTimeKeys.toList.map (fun key => (key.id, key.published))
        = [(3, false), (1, true)] ∧
      (demoStore.oneTimeKeys.toList.map (fun key => key.id)).Pairwise (· > ·) ∧
      (∀ key ∈ demoStore.oneTimeKeys.toList, ∃ key' ∈ demoIssued,
        key'.id = key.id ∧ key'.key = key.key) ∧
      lookupKey (removeKey demoStore (demoPublicKey 0)).1 (demoPublicKey 0) = none ∧
      lookupKey (removeKey demoStore (demoPublicKey 0)).1 demoThird.key.publicKey
        = some demoThird := by
  have hkeys : demoStore.oneTimeKeys.toList.map (fun key => (key.id, key.published))
      = [(3, false), (1, true)] := by decide +kernel
  have hthird : demoThird ∈ demoStore.oneTimeKeys.toList ∧
      demoThird.key.publicKey ≠ demoPublicKey 0 := by decide +kernel
  obtain ⟨-, hids, -, -, hissued, -, hremove⟩ := oneTimeKeys_invariant demoPrimitives_aesInverts
    demoStore_run (by decide) (by decide +kernel)
  obtain ⟨-, hgone, hothers⟩ := hremove (demoPublicKey 0)
  exact ⟨hkeys, hids, hissued, hgone, hothers demoThird hthird.1 hthird.2⟩

end OlmAccount
