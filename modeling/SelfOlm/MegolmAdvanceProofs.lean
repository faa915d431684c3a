import SelfOlm.Megolm

/-! # Skipping ahead in the Megolm ratchet

    `megolm_advance_to` computes at most 256 hashes for every part instead of
    up to 2^32 steps.  Here it is shown to end in exactly the state that the
    single steps of `megolm_advance` reach, for every counter and every target.

    The counter is followed as a natural number that does not wrap.  In that
    reading the four parts are a carry ratchet with blocks of 2^24, 2^16, 2^8
    and 1; the C code sees its counters modulo 2^32, and the block of `R(0)`
    divides 2^32, so a carry shows in the wrapped counter as well. -/

namespace OlmMegolm

open CarryRatchet

variable {P : Type} (hmac : P → UInt8 → P)

/-! ## The four parts as a carry ratchet -/

/-- The weight of the counter byte that part `j` follows. -/
def partBlock (j : Nat) : Nat := 2 ^ (8 * (3 - j))

/-- The most significant part that is rekeyed when the counter becomes `e`. -/
def partLevel (e : Nat) : Nat :=
  if 2 ^ 24 ∣ e then 0 else if 2 ^ 16 ∣ e then 1 else if 2 ^ 8 ∣ e then 2 else 3

/-- Rekey everything from part `h` on. -/
def partBump (h : Nat) (data : Fin 4 → P) : Fin 4 → P :=
  if hh : h < 4 then rehashDown hmac data ⟨h, hh⟩ else data

/-- Equal up to part `j`. -/
def partAgree (j : Nat) (d₁ d₂ : Fin 4 → P) : Prop :=
  ∀ i : Fin 4, i.val ≤ j → d₁ i = d₂ i

theorem partBump_apply {h : Nat} (hh : h < 4) (data : Fin 4 → P) (i : Fin 4) :
    partBump hmac h data i
      = if h ≤ i.val then hmac (data ⟨h, hh⟩) (hashKeySeeds i) else data i := by
  rw [partBump, dif_pos hh, rehashDown_apply]
  rfl

theorem partLevel_le_iff (e j : Nat) (hj : j < 4) :
    partLevel e ≤ j ↔ partBlock j ∣ e := by
  have h1 : (2 : Nat) ^ 24 ∣ e → 2 ^ 16 ∣ e := dvd_trans (by decide)
  have h2 : (2 : Nat) ^ 16 ∣ e → 2 ^ 8 ∣ e := dvd_trans (by decide)
  unfold partLevel partBlock
  interval_cases j <;> split_ifs <;> simp_all

/-- The four parts, with `rehash_part` as the bump. -/
def partHierarchy : Hierarchy (Fin 4 → P) where
  parts := 4
  block := partBlock
  level := partLevel
  bump := partBump hmac
  agree := partAgree
  block_pos := fun j => Nat.two_pow_pos _
  level_le_iff := partLevel_le_iff
  level_lt := by
    intro e
    unfold partLevel
    split_ifs <;> decide
  agree_refl := fun _ _ _ _ => rfl
  agree_trans := fun h1 h2 i hi => (h1 i hi).trans (h2 i hi)
  agree_mono := fun hij h i hi => h i (hi.trans hij)
  bump_above := by
    intro j h d hjh i hi
    by_cases hh : h < 4
    · rw [partBump_apply hmac hh, if_neg (by omega)]
    · rw [partBump, dif_neg hh]
  bump_congr := by
    intro h d₁ d₂ hag
    funext i
    by_cases hh : h < 4
    · rw [partBump_apply hmac hh, partBump_apply hmac hh, hag ⟨h, hh⟩ (le_refl h)]
      by_cases hi : h ≤ i.val
      · rw [if_pos hi, if_pos hi]
      · rw [if_neg hi, if_neg hi]
        exact hag i (by omega)
    · rw [partBump, partBump, dif_neg hh, dif_neg hh]
      exact hag i (by omega)

/-- The C state for an unwrapped counter. -/
def wrap (s : (Fin 4 → P) × Nat) : Megolm P where
  data := s.1
  counter := UInt32.ofNat s.2

theorem wrap_self (m : Megolm P) : wrap (m.data, m.counter.toNat) = m :=
  Megolm.ext' rfl UInt32.ofNat_toNat

/-! ## Single steps -/

/-- Testing the low bits with a mask is a divisibility test. -/
theorem and_mask_eq_zero_iff (c : UInt32) {mask : UInt32} {k : Nat}
    (hmask : mask.toNat = 2 ^ k - 1) : c &&& mask = 0 ↔ 2 ^ k ∣ c.toNat := by
  rw [← UInt32.toNat_inj, UInt32.toNat_and, hmask, Nat.and_two_pow_sub_one_eq_mod]
  exact (Nat.dvd_iff_mod_eq_zero).symm

/-- Divisibility by a small power of two survives the wrap of the counter. -/
theorem dvd_ofNat_iff (e : Nat) {k : Nat} (hk : k ≤ 32) :
    2 ^ k ∣ (UInt32.ofNat e).toNat ↔ 2 ^ k ∣ e := by
  rw [UInt32.toNat_ofNat']
  exact Nat.dvd_mod_iff (Nat.pow_dvd_pow 2 hk)

/-- The `while` loop of `megolm_advance` finds the level of the carry. -/
theorem rekeyLevel_eq (e : Nat) :
    rekeyLevel (UInt32.ofNat e) 4 0x00FFFFFF 0 = partLevel e := by
  have h24 : UInt32.ofNat e &&& 0x00FFFFFF = 0 ↔ 2 ^ 24 ∣ e :=
    (and_mask_eq_zero_iff _ (k := 24) rfl).trans (dvd_ofNat_iff e (by decide))
  have h16 : UInt32.ofNat e &&& ((0x00FFFFFF : UInt32) >>> 8) = 0 ↔ 2 ^ 16 ∣ e :=
    (and_mask_eq_zero_iff _ (k := 16) rfl).trans (dvd_ofNat_iff e (by decide))
  have h8 : UInt32.ofNat e &&& ((0x00FFFFFF : UInt32) >>> 8 >>> 8) = 0 ↔ 2 ^ 8 ∣ e :=
    (and_mask_eq_zero_iff _ (k := 8) rfl).trans (dvd_ofNat_iff e (by decide))
  have h0 : UInt32.ofNat e &&& ((0x00FFFFFF : UInt32) >>> 8 >>> 8 >>> 8) = 0 ↔ 2 ^ 0 ∣ e :=
    (and_mask_eq_zero_iff _ (k := 0) rfl).trans (dvd_ofNat_iff e (by decide))
  simp only [rekeyLevel, h24, h16, h8, h0, pow_zero, one_dvd, if_true]
  rfl

/-- `megolm_advance` is the unit step of the carry ratchet. -/
theorem megolmAdvance_wrap (s : (Fin 4 → P) × Nat) :
    megolmAdvance hmac (wrap s) = wrap ((partHierarchy hmac).step s) := by
  have hc : UInt32.ofNat s.2 + 1 = UInt32.ofNat (s.2 + 1) := by
    rw [UInt32.ofNat_add]
    rfl
  have hlevel : rekeyLevel ((wrap s).counter + 1) 4 0x00FFFFFF 0
      = partLevel (s.2 + 1) := by
    show rekeyLevel (UInt32.ofNat s.2 + 1) 4 0x00FFFFFF 0 = _
    rw [hc, rekeyLevel_eq]
  refine Megolm.ext' ?_ hc
  simp only [megolmAdvance, hlevel]
  rfl

/-- Any number of single steps. -/
theorem megolmAdvance_iterate_wrap (n : Nat) (s : (Fin 4 → P) × Nat) :
    (megolmAdvance hmac)^[n] (wrap s) = wrap ((partHierarchy hmac).run n s) := by
  induction n generalizing s with
  | zero => rfl
  | succ n ih =>
      rw [Function.iterate_succ_apply, megolmAdvance_wrap, ih]
      rfl

/-! ## One part of `megolm_advance_to` -/

/-- The rehashing loops for one part: `n` bumps of it. -/
theorem rehash_steps (j : Fin 4) (n : Nat) (data : Fin 4 → P) :
    rehashDown hmac (rehashSelf hmac j n data) j
      = (partBump hmac j.val)^[n + 1] data := by
  have hb : partBump hmac j.val = (rehashDown hmac · j) := by
    funext d
    rw [partBump, dif_pos j.isLt]
  rw [hb, Function.iterate_succ_apply']
  have habove : ∀ (n : Nat) (d : Fin 4 → P) (i : Fin 4), i < j →
      ((rehashDown hmac · j)^[n] d) i = d i := by
    intro n
    induction n with
    | zero => intro d i _; rfl
    | succ n ih =>
        intro d i hi
        show ((rehashDown hmac · j)^[n] (rehashDown hmac d j)) i = d i
        rw [ih _ i hi, rehashDown_apply, if_neg (not_le.mpr hi)]
  funext i
  rw [rehashDown_apply, rehashDown_apply, rehashSelf_self]
  by_cases hi : j ≤ i
  · rw [if_pos hi, if_pos hi]
  · rw [if_neg hi, if_neg hi, rehashSelf_of_ne hmac j (by omega)]
    exact (habove n data i (not_le.mp hi)).symm

/-- Clearing the low bits with a mask rounds down to the block. -/
theorem and_high_mask (x : UInt32) {mask : UInt32} {k : Nat} (hk : k ≤ 32)
    (hmask : mask.toNat = 2 ^ 32 - 2 ^ k) :
    (x &&& mask).toNat = x.toNat / 2 ^ k * 2 ^ k := by
  rw [UInt32.toNat_and, hmask, ← Nat.shiftRight_eq_div_pow, ← Nat.shiftLeft_eq]
  have hm : (2 : Nat) ^ 32 - 2 ^ k = (2 ^ (32 - k) - 1) <<< k := by
    rw [Nat.shiftLeft_eq, Nat.sub_mul, ← Nat.pow_add, Nat.sub_add_cancel hk, Nat.one_mul]
  rw [hm]
  refine Nat.eq_of_testBit_eq (fun i => ?_)
  rw [Nat.testBit_and, Nat.testBit_shiftLeft, Nat.testBit_shiftLeft,
    Nat.testBit_two_pow_sub_one, Nat.testBit_shiftRight]
  by_cases hi : k ≤ i
  · have hadd : k + (i - k) = i := by omega
    by_cases hlt : i < 32
    · simp [hi, hadd, show i - k < 32 - k by omega]
    · have hbit : x.toNat.testBit i = false :=
        Nat.testBit_lt_two_pow (lt_of_lt_of_le x.toNat_lt
          (Nat.pow_le_pow_right (by decide) (by omega)))
      simp [hi, hadd, hbit]
  · simp [hi]

/-- The state after the stage for part `j`, with unwrapped counters. -/
def stage (t j : Nat) (s : (Fin 4 → P) × Nat) : (Fin 4 → P) × Nat :=
  ((partBump hmac j)^[t / partBlock j - s.2 / partBlock j] s.1,
    max s.2 (t / partBlock j * partBlock j))

/-- The number of hashes that `megolm_advance_to` computes for a part, from
    the counter and the target modulo 2^32. -/
theorem steps_toNat (t c : Nat) {shift : UInt32} {k : Nat} (hs : shift.toNat = k)
    (hk : k < 32) :
    (((UInt32.ofNat t >>> shift) - (UInt32.ofNat c >>> shift)) &&& 0xff).toNat
      = (2 ^ 32 - c % 2 ^ 32 / 2 ^ k + t % 2 ^ 32 / 2 ^ k) % 2 ^ 32 % 2 ^ 8 := by
  rw [UInt32.toNat_and, UInt32.toNat_sub, UInt32.toNat_shiftRight,
    UInt32.toNat_shiftRight, UInt32.toNat_ofNat', UInt32.toNat_ofNat', hs,
    Nat.mod_eq_of_lt hk, Nat.shiftRight_eq_div_pow, Nat.shiftRight_eq_div_pow]
  exact Nat.and_two_pow_sub_one_eq_mod _ 8

theorem shift_toNat (j : Fin 4) :
    (UInt32.ofNat ((4 - j.val - 1) * 8)).toNat = 8 * (3 - j.val) := by
  fin_cases j <;> rfl

theorem mask_toNat (j : Fin 4) :
    ((0xFFFFFFFF : UInt32) <<< UInt32.ofNat ((4 - j.val - 1) * 8)).toNat
      = 2 ^ 32 - 2 ^ (8 * (3 - j.val)) := by
  fin_cases j <;> rfl

/-- **THE DIGIT ARGUMENT**: with at most 2^32 steps to go and no carry above
    part `j` left, the byte difference that the C code computes is the number
    of carries into part `j`, except that 256 carries show as 0.  Those can
    only occur for `R(0)`, and then the wrapped target is below the counter. -/
theorem steps_digit {t c : Nat} (j : Fin 4) (hct : c ≤ t) (hspan : t - c < 2 ^ 32)
    (hup : ∀ i, i < j.val → t / partBlock i = c / partBlock i) :
    let n := t / partBlock j.val - c / partBlock j.val
    let b := 2 ^ (8 * (3 - j.val))
    (2 ^ 32 - c % 2 ^ 32 / b + t % 2 ^ 32 / b) % 2 ^ 32 % 2 ^ 8 = n % 256
      ∧ n ≤ 256
      ∧ (n = 256 → t % 2 ^ 32 < c % 2 ^ 32)
      ∧ (n = 0 → ¬ t % 2 ^ 32 < c % 2 ^ 32) := by
  have h0 : 0 < j.val → t / 2 ^ 24 = c / 2 ^ 24 := fun h => hup 0 h
  have h1 : 1 < j.val → t / 2 ^ 16 = c / 2 ^ 16 := fun h => hup 1 h
  have h2 : 2 < j.val → t / 2 ^ 8 = c / 2 ^ 8 := fun h => hup 2 h
  fin_cases j
  · simp only [partBlock]
    refine ⟨?_, ?_, ?_, ?_⟩ <;> omega
  · have h0 := h0 (by decide)
    simp only [partBlock]
    refine ⟨?_, ?_, ?_, ?_⟩ <;> omega
  · have h1 := h1 (by decide)
    simp only [partBlock]
    refine ⟨?_, ?_, ?_, ?_⟩ <;> omega
  · have h2 := h2 (by decide)
    simp only [partBlock]
    refine ⟨?_, ?_, ?_, ?_⟩ <;> omega

/-- Rounding the wrapped target down is wrapping the rounded target. -/
theorem round_ofNat (t : Nat) (j : Fin 4) :
    UInt32.ofNat t &&& ((0xFFFFFFFF : UInt32) <<< UInt32.ofNat ((4 - j.val - 1) * 8))
      = UInt32.ofNat (t / partBlock j.val * partBlock j.val) := by
  apply UInt32.toNat_inj.mp
  rw [and_high_mask _ (by omega) (mask_toNat j), UInt32.toNat_ofNat', UInt32.toNat_ofNat']
  fin_cases j <;> simp only [partBlock] <;> omega

/-- One part of `megolm_advance_to` is one stage of the carry ratchet. -/
theorem advancePart_wrap {t : Nat} {s : (Fin 4 → P) × Nat} (j : Fin 4)
    (hct : s.2 ≤ t) (hspan : t - s.2 < 2 ^ 32)
    (hup : ∀ i, i < j.val → t / partBlock i = s.2 / partBlock i) :
    advancePart hmac (UInt32.ofNat t) (wrap s) j = wrap (stage hmac t j.val s) := by
  obtain ⟨hsteps, hle, hwrap, hzero⟩ := steps_digit j hct hspan hup
  have hdiv : s.2 / partBlock j.val ≤ t / partBlock j.val := Nat.div_le_div_right hct
  have hpos : 0 < partBlock j.val := Nat.two_pow_pos _
  have hround := Nat.div_mul_le_self s.2 (partBlock j.val)
  have hnext := Nat.lt_mul_div_succ s.2 hpos
  have hst := steps_toNat t s.2 (shift_toNat j) (by omega)
  rw [hsteps] at hst
  have hlt : UInt32.ofNat t < (wrap s).counter ↔ t % 2 ^ 32 < s.2 % 2 ^ 32 := by
    rw [UInt32.lt_iff_toNat_lt]
    show (UInt32.ofNat t).toNat < (UInt32.ofNat s.2).toNat ↔ _
    rw [UInt32.toNat_ofNat', UInt32.toNat_ofNat']
  generalize hn : t / partBlock j.val - s.2 / partBlock j.val = n at hst hle hwrap hzero
  -- the counter after the stage, when there is something to bump
  have hmax : 0 < n → max s.2 (t / partBlock j.val * partBlock j.val)
      = t / partBlock j.val * partBlock j.val := by
    intro h
    refine Nat.max_eq_right ?_
    have h1 : s.2 / partBlock j.val + 1 ≤ t / partBlock j.val := by omega
    have h2 := Nat.mul_le_mul_right (partBlock j.val) h1
    rw [Nat.mul_comm] at hnext
    omega
  have hbump : ∀ k : UInt32, k.toNat = n → 0 < n →
      ({ data := rehashDown hmac (rehashSelf hmac j (k.toNat - 1) s.1) j
         counter := UInt32.ofNat t
           &&& ((0xFFFFFFFF : UInt32) <<< UInt32.ofNat ((4 - j.val - 1) * 8)) } : Megolm P)
        = wrap (stage hmac t j.val s) := by
    intro k hk hpos'
    refine Megolm.ext' ?_ ?_
    · show rehashDown hmac (rehashSelf hmac j (k.toNat - 1) s.1) j
        = (partBump hmac j.val)^[t / partBlock j.val - s.2 / partBlock j.val] s.1
      rw [rehash_steps, hk, hn, Nat.sub_add_cancel hpos']
    · show _ = UInt32.ofNat (max s.2 (t / partBlock j.val * partBlock j.val))
      rw [round_ofNat, hmax hpos']
  rw [advancePart]
  by_cases h0 : n % 256 = 0
  · have hz : ((UInt32.ofNat t >>> UInt32.ofNat ((4 - j.val - 1) * 8))
        - ((wrap s).counter >>> UInt32.ofNat ((4 - j.val - 1) * 8))) &&& 0xff = 0 := by
      apply UInt32.toNat_inj.mp
      exact hst.trans h0
    simp only [hz, if_true]
    by_cases hn0 : n = 0
    · rw [if_neg (fun h => hzero hn0 (hlt.mp h))]
      -- no carry: the stage leaves everything as it is
      have hsame : max s.2 (t / partBlock j.val * partBlock j.val) = s.2 := by
        refine Nat.max_eq_left ?_
        rw [show t / partBlock j.val = s.2 / partBlock j.val by omega]
        exact hround
      refine Megolm.ext' ?_ ?_
      · show s.1 = (partBump hmac j.val)^[t / partBlock j.val - s.2 / partBlock j.val] s.1
        rw [hn, hn0]
        rfl
      · show UInt32.ofNat s.2 = UInt32.ofNat (max s.2 _)
        rw [hsame]
    · have h256 : n = 256 := by omega
      rw [if_pos (hlt.mpr (hwrap h256))]
      exact hbump 0x100 h256.symm (by omega)
  · have hz : ¬ ((UInt32.ofNat t >>> UInt32.ofNat ((4 - j.val - 1) * 8))
        - ((wrap s).counter >>> UInt32.ofNat ((4 - j.val - 1) * 8))) &&& 0xff = 0 := by
      intro h
      rw [← UInt32.toNat_inj] at h
      exact h0 (hst.symm.trans h)
    simp only [hz, if_false]
    exact hbump _ (hst.trans (by omega)) (by omega)

/-! ## All four parts -/

/-- A stage is the single steps it skips, and leaves no carry at its level. -/
theorem run_stage_wrap {t : Nat} {s : (Fin 4 → P) × Nat} {j : Nat} (hj : j < 4)
    (hct : s.2 ≤ t) (hup : ∀ i, i < j → t / partBlock i = s.2 / partBlock i) :
    (partHierarchy hmac).run ((stage hmac t j s).2 - s.2) s = stage hmac t j s
      ∧ s.2 ≤ (stage hmac t j s).2 ∧ (stage hmac t j s).2 ≤ t
      ∧ ∀ i, i < j + 1 → t / partBlock i = (stage hmac t j s).2 / partBlock i := by
  have hpos : ∀ i, 0 < partBlock i := fun i => Nat.two_pow_pos _
  have hle : (stage hmac t j s).2 ≤ t := max_le hct (Nat.div_mul_le_self _ _)
  have hge : s.2 ≤ (stage hmac t j s).2 := Nat.le_max_left _ _
  refine ⟨?_, hge, hle, ?_⟩
  · exact (partHierarchy hmac).run_stage hj _ s.2 s.1 hct rfl hup
  · intro i hi
    refine Nat.le_antisymm ?_ (Nat.div_le_div_right hle)
    rcases Nat.lt_or_eq_of_le (Nat.le_of_lt_succ hi) with hlt | heq
    · rw [hup i hlt]
      exact Nat.div_le_div_right hge
    · subst heq
      rw [Nat.le_div_iff_mul_le (hpos i)]
      exact Nat.le_max_right _ _

/-- The stages for the parts below `k`. -/
def stages (t : Nat) (s : (Fin 4 → P) × Nat) : Nat → (Fin 4 → P) × Nat
  | 0 => s
  | k + 1 => stage hmac t k (stages t s k)

theorem run_stages {t : Nat} {s : (Fin 4 → P) × Nat} (hct : s.2 ≤ t) :
    ∀ k, k ≤ 4 →
      (partHierarchy hmac).run ((stages hmac t s k).2 - s.2) s = stages hmac t s k
        ∧ s.2 ≤ (stages hmac t s k).2 ∧ (stages hmac t s k).2 ≤ t
        ∧ ∀ i, i < k → t / partBlock i = (stages hmac t s k).2 / partBlock i := by
  intro k
  induction k with
  | zero =>
      intro _
      refine ⟨?_, le_refl _, hct, fun i hi => absurd hi (Nat.not_lt_zero i)⟩
      show (partHierarchy hmac).run (s.2 - s.2) s = s
      rw [Nat.sub_self]
      rfl
  | succ k ih =>
      intro hk
      obtain ⟨hrun, hge, hle, hup⟩ := ih (by omega)
      obtain ⟨hrun', hge', hle', hup'⟩ := run_stage_wrap hmac (j := k) (by omega) hle hup
      refine ⟨?_, hge.trans hge', hle', hup'⟩
      show (partHierarchy hmac).run ((stage hmac t k (stages hmac t s k)).2 - s.2) s
        = stage hmac t k (stages hmac t s k)
      rw [show (stage hmac t k (stages hmac t s k)).2 - s.2
        = ((stages hmac t s k).2 - s.2)
          + ((stage hmac t k (stages hmac t s k)).2 - (stages hmac t s k).2) by omega]
      rw [Hierarchy.run_add, hrun, hrun']

/-- `megolm_advance_to` on unwrapped counters. -/
theorem megolmAdvanceTo_wrap {t : Nat} {s : (Fin 4 → P) × Nat}
    (hct : s.2 ≤ t) (hspan : t - s.2 < 2 ^ 32) :
    megolmAdvanceTo hmac (wrap s) (UInt32.ofNat t)
      = wrap ((partHierarchy hmac).run (t - s.2) s) := by
  have hpart : ∀ j : Fin 4,
      advancePart hmac (UInt32.ofNat t) (wrap (stages hmac t s j.val)) j
        = wrap (stages hmac t s (j.val + 1)) := by
    intro j
    obtain ⟨-, hge, hle, hup⟩ := run_stages hmac hct j.val (by omega)
    exact advancePart_wrap hmac j hle (by omega) hup
  have hall : megolmAdvanceTo hmac (wrap s) (UInt32.ofNat t)
      = wrap (stages hmac t s 4) := by
    have h0 : advancePart hmac (UInt32.ofNat t) (wrap s) 0 = wrap (stages hmac t s 1) :=
      hpart 0
    have h1 : advancePart hmac (UInt32.ofNat t) (wrap (stages hmac t s 1)) 1
        = wrap (stages hmac t s 2) := hpart 1
    have h2 : advancePart hmac (UInt32.ofNat t) (wrap (stages hmac t s 2)) 2
        = wrap (stages hmac t s 3) := hpart 2
    have h3 : advancePart hmac (UInt32.ofNat t) (wrap (stages hmac t s 3)) 3
        = wrap (stages hmac t s 4) := hpart 3
    show advancePart hmac _ (advancePart hmac _ (advancePart hmac _
      (advancePart hmac _ (wrap s) 0) 1) 2) 3 = _
    rw [h0, h1, h2, h3]
  -- the last block has weight 1, so the stages end at the target itself
  obtain ⟨hrun, -, -, hup⟩ := run_stages hmac hct 4 (le_refl 4)
  have hlast : t = (stages hmac t s 4).2 := by
    have := hup 3 (by decide)
    rwa [show partBlock 3 = 1 from rfl, Nat.div_one, Nat.div_one] at this
  rw [hall, ← hrun, ← hlast]

/-- Moving on by fewer than `2 ^ 32` steps at once. -/
theorem megolmAdvanceTo_add (m : Megolm P) {n : Nat} (hn : n < 2 ^ 32) :
    megolmAdvanceTo hmac m (m.counter + UInt32.ofNat n) = (megolmAdvance hmac)^[n] m := by
  have hto := megolmAdvanceTo_wrap hmac (t := m.counter.toNat + n)
    (s := (m.data, m.counter.toNat)) (Nat.le_add_right _ _)
    (by show _ - m.counter.toNat < _; omega)
  rw [UInt32.ofNat_add, UInt32.ofNat_toNat, wrap_self] at hto
  rw [hto, ← megolmAdvance_iterate_wrap, wrap_self]
  show (megolmAdvance hmac)^[m.counter.toNat + n - m.counter.toNat] m = _
  rw [Nat.add_sub_cancel_left]

/-- A target is its distance from the counter ahead. -/
theorem add_ofNat_sub (c t : UInt32) : c + UInt32.ofNat (t - c).toNat = t := by
  rw [UInt32.ofNat_toNat]
  exact add_sub_cancel _ _

theorem counter_iterate (m : Megolm P) (n : Nat) :
    ((megolmAdvance hmac)^[n] m).counter = m.counter + UInt32.ofNat n := by
  induction n with
  | zero => exact (add_zero m.counter).symm
  | succ n ih =>
      rw [Function.iterate_succ_apply', UInt32.ofNat_add]
      show ((megolmAdvance hmac)^[n] m).counter + 1 = _
      rw [ih, add_assoc]
      rfl

/-- **FAST PATH = SLOW PATH**: `megolm_advance_to` reaches the counter and the
    ratchet data of that many single steps, wrap-around included. -/
theorem megolmAdvanceTo_eq_iterate (m : Megolm P) (advanceTo : UInt32) :
    megolmAdvanceTo hmac m advanceTo
      = (megolmAdvance hmac)^[(advanceTo - m.counter).toNat] m := by
  rw [← megolmAdvanceTo_add hmac m (UInt32.toNat_lt _), add_ofNat_sub]

end OlmMegolm
