import SelfOlm.Lib.KeyTerms

/-! # What can be derived from the keys that are known

    A derivation only goes one way, so the keys form a forest: above a key is the
    one it was made from.  Who knows some keys and some secrets derives what is
    below these keys, and what goes back to a known secret (`Derives`).  Keys of
    which none is above another stay hidden from each other.  Such a set of keys
    (`Frontier`) is kept when a key is replaced by keys that are derived from it
    and are not above each other; this is what a ratchet does in every step. -/

namespace KeyTerms

variable {A D : Type}

/-! ## Above and below -/

/-- The key that a key was made from. -/
def parent : KeyTerm A D → Option (KeyTerm A D)
  | .atom _ => none
  | .hmac key _ => some key
  | .hkdf _ _ _ => none
  | .hkdfSalted _ _ salt _ => some salt

/-- What a key goes back to: an atom, or the secret of a derivation without a salt. -/
def source : KeyTerm A D → A ⊕ D
  | .atom a => .inl a
  | .hmac key _ => source key
  | .hkdf _ secret _ => .inr secret
  | .hkdfSalted _ _ salt _ => source salt

/-- The number of derivations since the source. -/
def depth : KeyTerm A D → Nat
  | .atom _ => 0
  | .hmac key _ => depth key + 1
  | .hkdf _ _ _ => 0
  | .hkdfSalted _ _ salt _ => depth salt + 1

/-- The derivations behind `t` lead back to `key`. -/
def Reaches (key t : KeyTerm A D) : Prop :=
  Relation.ReflTransGen (fun t key => parent t = some key) t key

theorem Reaches.refl (key : KeyTerm A D) : Reaches key key := Relation.ReflTransGen.refl

theorem Reaches.trans {a b c : KeyTerm A D} (hab : Reaches a b) (hbc : Reaches b c) :
    Reaches a c :=
  Relation.ReflTransGen.trans hbc hab

theorem Reaches.step {a b c : KeyTerm A D} (hab : Reaches a b) (hc : parent c = some b) :
    Reaches a c :=
  Relation.ReflTransGen.head hc hab

theorem reaches_iff {a c : KeyTerm A D} :
    Reaches a c ↔ a = c ∨ ∃ b, parent c = some b ∧ Reaches a b := by
  rw [Reaches, Relation.ReflTransGen.cases_head_iff, eq_comm]
  rfl

theorem Reaches.hmac {a b : KeyTerm A D} (h : Reaches a b) (seed : UInt8) :
    Reaches a (.hmac b seed) :=
  h.step rfl

theorem Reaches.hkdfSalted {a b : KeyTerm A D} (h : Reaches a b) (half : Bool) (secret : D)
    (info : List UInt8) : Reaches a (.hkdfSalted half secret b info) :=
  h.step rfl

theorem Reaches.chainAfter {a b : KeyTerm A D} (h : Reaches a b) (seed : UInt8) (n : Nat) :
    Reaches a (chainAfter seed n b) := by
  induction n with
  | zero => exact h
  | succ n ih =>
      rw [chainAfter_succ]
      exact ih.hmac seed

theorem depth_parent {key t : KeyTerm A D} (h : parent t = some key) :
    depth t = depth key + 1 := by
  cases t with
  | atom a => cases h
  | hmac key seed =>
      obtain rfl := Option.some.inj h
      rfl
  | hkdf half secret info => cases h
  | hkdfSalted half secret salt info =>
      obtain rfl := Option.some.inj h
      rfl

theorem source_parent {key t : KeyTerm A D} (h : parent t = some key) :
    source t = source key := by
  cases t with
  | atom a => cases h
  | hmac key seed =>
      obtain rfl := Option.some.inj h
      rfl
  | hkdf half secret info => cases h
  | hkdfSalted half secret salt info =>
      obtain rfl := Option.some.inj h
      rfl

theorem Reaches.depth_le {key t : KeyTerm A D} (h : Reaches key t) : depth key ≤ depth t := by
  induction h with
  | refl => exact Nat.le_refl _
  | tail _ hparent ih =>
      rw [depth_parent hparent] at ih
      exact Nat.le_of_succ_le ih

theorem Reaches.source_eq {key t : KeyTerm A D} (h : Reaches key t) :
    source key = source t := by
  induction h with
  | refl => rfl
  | tail _ hparent ih => rw [← source_parent hparent, ih]

/-- A key does not lead back to one that was made from it. -/
theorem not_reaches_parent {key t : KeyTerm A D} (h : parent t = some key) :
    ¬Reaches t key := by
  intro hback
  have hle := hback.depth_le
  rw [depth_parent h] at hle
  exact Nat.not_succ_le_self _ hle

/-- Of two keys that a third one leads back to, one is above the other. -/
theorem Reaches.total {a b t : KeyTerm A D} (ha : Reaches a t) (hb : Reaches b t) :
    Reaches a b ∨ Reaches b a := by
  have hunique : Relator.RightUnique (fun t key : KeyTerm A D => parent t = some key) := by
    intro t key key' h h'
    exact Option.some.inj (h.symm.trans h')
  rcases Relation.ReflTransGen.total_of_right_unique hunique ha hb with h | h
  · exact Or.inr h
  · exact Or.inl h

/-! ## Keys apart from each other -/

/-- Neither key is above the other. -/
def Apart (a b : KeyTerm A D) : Prop := ¬Reaches a b ∧ ¬Reaches b a

theorem Apart.symm {a b : KeyTerm A D} (h : Apart a b) : Apart b a := ⟨h.2, h.1⟩

theorem Apart.ne {a b : KeyTerm A D} (h : Apart a b) : a ≠ b := by
  rintro rfl
  exact h.1 (Reaches.refl a)

/-- What is below one of them is apart from the other. -/
theorem Apart.below {a b t : KeyTerm A D} (h : Apart a b) (ht : Reaches a t) : Apart t b := by
  refine ⟨fun hb => h.1 (ht.trans hb), ?_⟩
  intro hb
  rcases ht.total hb with hab | hba
  · exact h.1 hab
  · exact h.2 hba

/-- Two keys that were made from one key are apart. -/
theorem apart_siblings {key a b : KeyTerm A D} (ha : parent a = some key)
    (hb : parent b = some key) (hne : a ≠ b) : Apart a b := by
  have hnot : ∀ {a b : KeyTerm A D}, parent a = some key → parent b = some key → a ≠ b →
      ¬Reaches a b := by
    intro a b ha hb hne h
    rcases reaches_iff.mp h with rfl | ⟨key', hkey', hreach⟩
    · exact hne rfl
    · obtain rfl := Option.some.inj (hb.symm.trans hkey')
      exact not_reaches_parent ha hreach
  exact ⟨hnot ha hb hne, hnot hb ha hne.symm⟩

/-- Keys that are not made from any other are apart. -/
theorem apart_roots {a b : KeyTerm A D} (ha : parent a = none) (hb : parent b = none)
    (hne : a ≠ b) : Apart a b := by
  have hnot : ∀ {a b : KeyTerm A D}, parent b = none → a ≠ b → ¬Reaches a b := by
    intro a b hb hne h
    rcases reaches_iff.mp h with rfl | ⟨key, hkey, -⟩
    · exact hne rfl
    · rw [hb] at hkey
      cases hkey
  exact ⟨hnot hb hne, hnot ha hne.symm⟩

/-! ## A frontier -/

/-- Keys that are apart from each other and go back to hidden sources. -/
structure Frontier (hidden : A ⊕ D → Prop) (keys : List (KeyTerm A D)) : Prop where
  apart : keys.Pairwise Apart
  source : ∀ key ∈ keys, hidden (source key)

variable {hidden : A ⊕ D → Prop}

theorem Frontier.nodup {keys : List (KeyTerm A D)} (h : Frontier hidden keys) : keys.Nodup :=
  h.apart.imp Apart.ne

theorem Frontier.perm {keys keys' : List (KeyTerm A D)} (h : Frontier hidden keys)
    (hperm : keys.Perm keys') : Frontier hidden keys' :=
  ⟨hperm.pairwise h.apart Apart.symm, fun key hkey => h.source key (hperm.mem_iff.mpr hkey)⟩

/-- Keys that are forgotten. -/
theorem Frontier.subperm {keys keys' : List (KeyTerm A D)} (h : Frontier hidden keys)
    (hsub : keys'.Subperm keys) : Frontier hidden keys' := by
  obtain ⟨between, hperm, hsublist⟩ := hsub
  have hbetween : Frontier hidden between :=
    ⟨h.apart.sublist hsublist, fun key hkey => h.source key (hsublist.subset hkey)⟩
  exact hbetween.perm hperm

/-- **A KEY IS REPLACED** by keys that are derived from it. -/
theorem Frontier.replace {key : KeyTerm A D} {keys : List (KeyTerm A D)}
    (h : Frontier hidden (key :: keys)) {below : List (KeyTerm A D)} (hbelow : ∀ t ∈ below, Reaches key t)
    (hapart : below.Pairwise Apart) : Frontier hidden (below ++ keys) := by
  obtain ⟨hkey, hkeys⟩ := List.pairwise_cons.mp h.apart
  refine ⟨List.pairwise_append.mpr ⟨hapart, hkeys, ?_⟩, ?_⟩
  · intro t ht other hother
    exact (hkey other hother).below (hbelow t ht)
  · intro t ht
    rcases List.mem_append.mp ht with ht | ht
    · rw [← (hbelow t ht).source_eq]
      exact h.source key List.mem_cons_self
    · exact h.source t (List.mem_cons_of_mem _ ht)

/-- A key is replaced by two keys that are made from it. -/
theorem Frontier.split {key a b : KeyTerm A D} {keys : List (KeyTerm A D)}
    (h : Frontier hidden (key :: keys)) (ha : parent a = some key) (hb : parent b = some key)
    (hne : a ≠ b) : Frontier hidden (a :: b :: keys) := by
  have hbelow : ∀ t ∈ [a, b], Reaches key t := by
    intro t ht
    rcases List.mem_cons.mp ht with rfl | ht
    · exact (Reaches.refl key).step ha
    · obtain rfl := List.mem_singleton.mp ht
      exact (Reaches.refl key).step hb
  have hapart : [a, b].Pairwise Apart := by
    refine List.pairwise_cons.mpr ⟨?_, List.pairwise_singleton _ _⟩
    intro t ht
    obtain rfl := List.mem_singleton.mp ht
    exact apart_siblings ha hb hne
  exact h.replace hbelow hapart

/-- A chain moves on: its key is replaced by the keys that leave it and by the chain
    key behind them. -/
theorem Frontier.chain {seed keySeed : UInt8} (hseed : keySeed ≠ seed) {chainKey : KeyTerm A D}
    {keys : List (KeyTerm A D)} (h : Frontier hidden (chainKey :: keys)) (n : Nat) :
    Frontier hidden (chainAfter seed n chainKey :: (chainKeys seed keySeed chainKey n ++ keys)) := by
  induction n with
  | zero => exact h
  | succ n ih =>
      have hne : (KeyTerm.hmac (chainAfter seed n chainKey) keySeed)
          ≠ .hmac (chainAfter seed n chainKey) seed := by
        intro heq
        exact hseed (KeyTerm.hmac.inj heq).2
      have hsplit := ih.split rfl rfl hne
      rw [chainKeys_succ', chainAfter_succ, List.append_assoc]
      exact hsplit.perm ((List.Perm.swap _ _ _).trans (List.Perm.cons _ List.perm_middle.symm))

/-! ## Deriving keys -/

/-- What can be derived: HMAC takes any seed, HKDF any info and a secret that is
    known, and sources that are known can be started from. -/
inductive Derives (secrets : A ⊕ D → Prop) (known : List (KeyTerm A D)) : KeyTerm A D → Prop
  | known {key : KeyTerm A D} (h : key ∈ known) : Derives secrets known key
  | atom {a : A} (h : secrets (.inl a)) : Derives secrets known (.atom a)
  | hmac {key : KeyTerm A D} (h : Derives secrets known key) (seed : UInt8) :
      Derives secrets known (.hmac key seed)
  | hkdf {secret : D} (h : secrets (.inr secret)) (half : Bool) (info : List UInt8) :
      Derives secrets known (.hkdf half secret info)
  | hkdfSalted {secret : D} {salt : KeyTerm A D} (h : secrets (.inr secret))
      (hsalt : Derives secrets known salt) (half : Bool) (info : List UInt8) :
      Derives secrets known (.hkdfSalted half secret salt info)

variable {secrets : A ⊕ D → Prop} {known : List (KeyTerm A D)}

/-- A key that is derived leads back to a known key, or to a known source. -/
theorem Derives.reaches {t : KeyTerm A D} (h : Derives secrets known t) :
    (∃ key ∈ known, Reaches key t) ∨ secrets (source t) := by
  induction h with
  | @known key h => exact Or.inl ⟨key, h, Reaches.refl key⟩
  | atom h => exact Or.inr h
  | hmac h seed ih =>
      rcases ih with ⟨key, hkey, hreach⟩ | hsource
      · exact Or.inl ⟨key, hkey, hreach.hmac seed⟩
      · exact Or.inr hsource
  | hkdf h half info => exact Or.inr h
  | hkdfSalted h hsalt half info ih =>
      rcases ih with ⟨key, hkey, hreach⟩ | hsource
      · exact Or.inl ⟨key, hkey, hreach.hkdfSalted half _ info⟩
      · exact Or.inr hsource

/-- **KEYS OF A FRONTIER ARE HIDDEN FROM EACH OTHER**: who knows the others derives none
    of these. -/
theorem Frontier.not_derives {keys : List (KeyTerm A D)} (h : Frontier hidden (keys ++ known))
    (hsecrets : ∀ s, hidden s → ¬secrets s) {key : KeyTerm A D} (hkey : key ∈ keys) :
    ¬Derives secrets known key := by
  intro hderives
  rcases hderives.reaches with ⟨other, hother, hreach⟩ | hsource
  · have hapart := (List.pairwise_append.mp h.apart).2.2 key hkey other hother
    exact hapart.2 hreach
  · exact hsecrets _ (h.source key (List.mem_append_left _ hkey)) hsource

/-! ## Secrets that are mixed in -/

/-- The secret went into the key, or into a key above it. -/
def Mixed (secret : D) : KeyTerm A D → Prop
  | .atom _ => False
  | .hmac key _ => Mixed secret key
  | .hkdf _ secret' _ => secret' = secret
  | .hkdfSalted _ secret' salt _ => secret' = secret ∨ Mixed secret salt

theorem Mixed.parent {secret : D} {key t : KeyTerm A D} (h : Mixed secret key)
    (ht : parent t = some key) : Mixed secret t := by
  cases t with
  | atom a => cases ht
  | hmac key seed =>
      obtain rfl := Option.some.inj ht
      exact h
  | hkdf half secret info => cases ht
  | hkdfSalted half secret salt info =>
      obtain rfl := Option.some.inj ht
      exact Or.inr h

theorem Mixed.chainAfter {secret : D} {key : KeyTerm A D} (h : Mixed secret key) (seed : UInt8)
    (n : Nat) : Mixed secret (chainAfter seed n key) := by
  induction n with
  | zero => exact h
  | succ n ih =>
      rw [chainAfter_succ]
      exact ih

/-- **A SECRET THAT IS NOT KNOWN** keeps every key it was mixed into from being derived,
    unless it was already mixed into a known key. -/
theorem Derives.mixed {t : KeyTerm A D} (h : Derives secrets known t) {secret : D}
    (hsecret : ¬secrets (.inr secret)) (hmixed : Mixed secret t) :
    ∃ key ∈ known, Reaches key t ∧ Mixed secret key := by
  induction h with
  | @known key h => exact ⟨key, h, Reaches.refl key, hmixed⟩
  | atom h => exact hmixed.elim
  | hmac h seed ih =>
      obtain ⟨key, hkey, hreach, hin⟩ := ih hmixed
      exact ⟨key, hkey, hreach.hmac seed, hin⟩
  | hkdf h half info =>
      obtain rfl : _ = secret := hmixed
      exact absurd h hsecret
  | hkdfSalted h hsalt half info ih =>
      rcases hmixed with rfl | hmixed
      · exact absurd h hsecret
      · obtain ⟨key, hkey, hreach, hin⟩ := ih hmixed
        exact ⟨key, hkey, hreach.hkdfSalted half _ info, hin⟩

end KeyTerms
