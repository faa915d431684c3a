import Mathlib

/-! # Key derivation as a free algebra

    HMAC and HKDF as constructors of terms: a key is what it was derived from.
    Atoms and secrets are parameters.  Two numbers are read off a term: its
    `epoch`, how many salted derivations are below it, and its `step`, how many
    HMAC steps were taken since the last one.  Two keys with another epoch or
    another step are different. -/

namespace KeyTerms

/-- Keys derived from atoms `A` and secrets `D`. -/
inductive KeyTerm (A D : Type) where
  | atom (a : A)
  | hmac (key : KeyTerm A D) (seed : UInt8)
  /-- One half of the output of HKDF without a salt. -/
  | hkdf (half : Bool) (secret : D) (info : List UInt8)
  /-- One half of the output of HKDF with another key as its salt. -/
  | hkdfSalted (half : Bool) (secret : D) (salt : KeyTerm A D) (info : List UInt8)

variable {A D : Type}

/-- The number of salted derivations below a key. -/
def epoch : KeyTerm A D → Nat
  | .atom _ => 0
  | .hmac key _ => epoch key
  | .hkdf _ _ _ => 0
  | .hkdfSalted _ _ salt _ => epoch salt + 1

/-- The number of HMAC steps since the last derivation. -/
def step : KeyTerm A D → Nat
  | .hmac key _ => step key + 1
  | _ => 0

@[simp] theorem epoch_hmac (key : KeyTerm A D) (seed : UInt8) :
    epoch (.hmac key seed) = epoch key := rfl

@[simp] theorem step_hmac (key : KeyTerm A D) (seed : UInt8) :
    step (.hmac key seed) = step key + 1 := rfl

/-- A chain of HMAC steps with one seed. -/
def chainAfter (seed : UInt8) (n : Nat) (key : KeyTerm A D) : KeyTerm A D :=
  (fun key => KeyTerm.hmac key seed)^[n] key

theorem chainAfter_succ (seed : UInt8) (n : Nat) (key : KeyTerm A D) :
    chainAfter seed (n + 1) key = .hmac (chainAfter seed n key) seed :=
  Function.iterate_succ_apply' _ _ _

theorem epoch_chainAfter (seed : UInt8) (key : KeyTerm A D) :
    ∀ n, epoch (chainAfter seed n key) = epoch key := by
  intro n
  induction n with
  | zero => rfl
  | succ n ih =>
      rw [chainAfter_succ, epoch_hmac]
      exact ih

theorem step_chainAfter (seed : UInt8) (key : KeyTerm A D) :
    ∀ n, step (chainAfter seed n key) = step key + n := by
  intro n
  induction n with
  | zero => rfl
  | succ n ih =>
      rw [chainAfter_succ, step_hmac, ih]
      omega

/-! ## Keys that are not used yet -/

/-- No key of `used` has the epoch of the chain key and a later step. -/
def Behind (used : List (KeyTerm A D)) (chainKey : KeyTerm A D) : Prop :=
  ∀ key ∈ used, epoch key = epoch chainKey → step key ≤ step chainKey

/-- No key of `used` is from a later epoch. -/
def Bounded (used : List (KeyTerm A D)) (bound : Nat) : Prop :=
  ∀ key ∈ used, epoch key ≤ bound

theorem Bounded.mono {used : List (KeyTerm A D)} {b b' : Nat} (h : Bounded used b)
    (hle : b ≤ b') : Bounded used b' :=
  fun key hkey => Nat.le_trans (h key hkey) hle

theorem Bounded.cons {used : List (KeyTerm A D)} {b : Nat} {key : KeyTerm A D}
    (h : Bounded used b) (hkey : epoch key ≤ b) : Bounded (key :: used) b := by
  intro k hk
  rcases List.mem_cons.mp hk with rfl | hk
  · exact hkey
  · exact h k hk

/-- In an epoch that nothing was used of, every chain key has the used keys behind
    it. -/
theorem Bounded.behind {used : List (KeyTerm A D)} {b : Nat} (h : Bounded used b)
    {chainKey : KeyTerm A D} (hlt : b < epoch chainKey) : Behind used chainKey := by
  intro key hkey hepoch
  have := h key hkey
  omega

/-- The used keys stay behind a chain that moves on. -/
theorem Behind.chainAfter {used : List (KeyTerm A D)} {chainKey : KeyTerm A D}
    (h : Behind used chainKey) (seed : UInt8) (n : Nat) :
    Behind used (chainAfter seed n chainKey) := by
  intro key hkey hepoch
  rw [epoch_chainAfter] at hepoch
  rw [step_chainAfter]
  exact Nat.le_trans (h key hkey hepoch) (Nat.le_add_right _ n)

theorem Behind.cons {used : List (KeyTerm A D)} {key chainKey : KeyTerm A D}
    (h : Behind used chainKey) (hkey : epoch key = epoch chainKey → step key ≤ step chainKey) :
    Behind (key :: used) chainKey := by
  intro k hk
  rcases List.mem_cons.mp hk with rfl | hk
  · exact hkey
  · exact h k hk

/-- A key one step from the chain key was not used. -/
theorem Behind.hmac_notMem {used : List (KeyTerm A D)} {chainKey : KeyTerm A D}
    (h : Behind used chainKey) (seed : UInt8) : KeyTerm.hmac chainKey seed ∉ used := by
  intro hmem
  have hle := h _ hmem rfl
  rw [step_hmac] at hle
  omega

/-- Fewer keys are used. -/
theorem Bounded.subset {used used' : List (KeyTerm A D)} {b : Nat} (h : Bounded used b)
    (hsub : used' ⊆ used) : Bounded used' b :=
  fun key hkey => h key (hsub hkey)

theorem Behind.subset {used used' : List (KeyTerm A D)} {chainKey : KeyTerm A D}
    (h : Behind used chainKey) (hsub : used' ⊆ used) : Behind used' chainKey :=
  fun key hkey => h key (hsub hkey)

/-! ## The keys of a chain -/

/-- The first `n` keys that leave a chain, each by a step with another seed. -/
def chainKeys (seed keySeed : UInt8) (chainKey : KeyTerm A D) (n : Nat) : List (KeyTerm A D) :=
  (List.range n).map (fun i => .hmac (chainAfter seed i chainKey) keySeed)

variable (seed keySeed : UInt8)

/-- The first key is one step from the chain key. -/
theorem chainKeys_succ (chainKey : KeyTerm A D) (n : Nat) :
    chainKeys seed keySeed chainKey (n + 1)
      = .hmac chainKey keySeed :: chainKeys seed keySeed (.hmac chainKey seed) n := by
  rw [chainKeys, List.range_succ_eq_map, List.map_cons, List.map_map]
  rfl

/-- The last key is one step from the chain key behind the others. -/
theorem chainKeys_succ' (chainKey : KeyTerm A D) (n : Nat) :
    chainKeys seed keySeed chainKey (n + 1)
      = chainKeys seed keySeed chainKey n ++ [.hmac (chainAfter seed n chainKey) keySeed] := by
  rw [chainKeys, List.range_succ, List.map_append]
  rfl

variable {seed keySeed}

/-- The keys of a chain are of its epoch, and later than the chain key. -/
theorem mem_chainKeys {chainKey key : KeyTerm A D} {n : Nat}
    (h : key ∈ chainKeys seed keySeed chainKey n) :
    epoch key = epoch chainKey ∧ step chainKey < step key ∧ step key ≤ step chainKey + n := by
  obtain ⟨i, hi, rfl⟩ := List.mem_map.mp h
  have hlt := List.mem_range.mp hi
  rw [epoch_hmac, epoch_chainAfter, step_hmac, step_chainAfter]
  refine ⟨rfl, ?_, ?_⟩
  · omega
  · omega

theorem nodup_chainKeys (chainKey : KeyTerm A D) (n : Nat) :
    (chainKeys seed keySeed chainKey n).Nodup := by
  induction n with
  | zero => exact List.nodup_nil
  | succ n ih =>
      rw [chainKeys_succ']
      refine List.nodup_append.mpr ⟨ih, List.nodup_singleton _, ?_⟩
      rintro key hkey key' hkey' rfl
      obtain ⟨-, -, hle⟩ := mem_chainKeys hkey
      obtain rfl := List.mem_singleton.mp hkey'
      rw [step_hmac, step_chainAfter] at hle
      omega

/-- The keys of a chain that has the used keys behind it are new. -/
theorem Behind.nodup {used : List (KeyTerm A D)} {chainKey : KeyTerm A D}
    (h : Behind used chainKey) (hused : used.Nodup) (n : Nat) :
    (chainKeys seed keySeed chainKey n ++ used).Nodup := by
  refine List.nodup_append.mpr ⟨nodup_chainKeys chainKey n, hused, ?_⟩
  rintro key hkey key' hkey' rfl
  obtain ⟨hepoch, hlt, -⟩ := mem_chainKeys hkey
  have hle := h key hkey' hepoch
  omega

/-- The chain that moved past its keys has them behind it. -/
theorem Behind.moved {used : List (KeyTerm A D)} {chainKey : KeyTerm A D}
    (h : Behind used chainKey) (n : Nat) :
    Behind (chainKeys seed keySeed chainKey n ++ used) (KeyTerms.chainAfter seed n chainKey) := by
  intro key hkey hepoch
  rcases List.mem_append.mp hkey with hkey | hkey
  · obtain ⟨-, -, hle⟩ := mem_chainKeys hkey
    rw [step_chainAfter]
    exact hle
  · exact h.chainAfter seed n key hkey hepoch

/-- The keys of a chain are behind a chain of another epoch. -/
theorem Behind.other {used : List (KeyTerm A D)} {chainKey other : KeyTerm A D}
    (h : Behind used other) (hne : epoch chainKey ≠ epoch other) (n : Nat) :
    Behind (chainKeys seed keySeed chainKey n ++ used) other := by
  intro key hkey hepoch
  rcases List.mem_append.mp hkey with hkey | hkey
  · exact absurd ((mem_chainKeys hkey).1.symm.trans hepoch) hne
  · exact h key hkey hepoch

theorem Bounded.moved {used : List (KeyTerm A D)} {b : Nat} (h : Bounded used b)
    {chainKey : KeyTerm A D} (hle : epoch chainKey ≤ b) (n : Nat) :
    Bounded (chainKeys seed keySeed chainKey n ++ used) b := by
  intro key hkey
  rcases List.mem_append.mp hkey with hkey | hkey
  · rw [(mem_chainKeys hkey).1]
    exact hle
  · exact h key hkey

end KeyTerms
