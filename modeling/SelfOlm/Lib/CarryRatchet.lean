import Mathlib

/-! # Carry ratchets — skipping ahead in a hierarchy of hash chains

    A carry ratchet keeps a value for every digit of a counter.  When the
    counter goes up, the digits that are cleared by the carry all get a new
    value, computed from the most significant digit that changed.  Stepping
    far ahead one unit at a time is wasteful: everything computed for the low
    digits is thrown away at the next carry above them.

    This file says why the short cut is right, for any number of digits, any
    block sizes and any data:

    * `quiet_agree`: without a carry into digit `j` the digits up to `j` stay;
    * `cross`: a carry is one `bump`, whatever was computed since the last;
    * `run_stage`: all the carries into digit `j` below a target are that many
      bumps, and they are all the single steps that lead there. -/

namespace CarryRatchet

/-- A hierarchy of chained values indexed by the digits of a counter.  Digit
    `0` is the most significant one and `block j` is the weight of digit `j`. -/
structure Hierarchy (D : Type) where
  parts : Nat
  block : Nat → Nat
  level : Nat → Nat
  bump : Nat → D → D
  agree : Nat → D → D → Prop
  block_pos : ∀ j, 0 < block j
  /-- `level e` is the most significant digit that a carry into `e` changes. -/
  level_le_iff : ∀ e j, j < parts → (level e ≤ j ↔ block j ∣ e)
  level_lt : ∀ e, level e < parts
  agree_refl : ∀ j d, agree j d d
  agree_trans : ∀ {j d₁ d₂ d₃}, agree j d₁ d₂ → agree j d₂ d₃ → agree j d₁ d₃
  agree_mono : ∀ {i j d₁ d₂}, i ≤ j → agree j d₁ d₂ → agree i d₁ d₂
  /-- A bump leaves the digits above it alone. -/
  bump_above : ∀ {j h} d, j < h → agree j (bump h d) d
  /-- A bump forgets the digits below it. -/
  bump_congr : ∀ {h d₁ d₂}, agree h d₁ d₂ → bump h d₁ = bump h d₂

namespace Hierarchy

variable {D : Type} (R : Hierarchy D)

/-- One unit step of the counter, with the carry it causes. -/
def step (s : D × Nat) : D × Nat :=
  (R.bump (R.level (s.2 + 1)) s.1, s.2 + 1)

/-- `n` unit steps. -/
def run (n : Nat) (s : D × Nat) : D × Nat := R.step^[n] s

@[simp] theorem run_zero (s : D × Nat) : R.run 0 s = s := rfl

theorem run_succ (n : Nat) (s : D × Nat) :
    R.run (n + 1) s = R.step (R.run n s) :=
  Function.iterate_succ_apply' _ _ _

theorem run_add (m n : Nat) (s : D × Nat) :
    R.run (m + n) s = R.run n (R.run m s) := by
  rw [Nat.add_comm]
  exact Function.iterate_add_apply _ _ _ _

@[simp] theorem run_snd (n : Nat) (s : D × Nat) : (R.run n s).2 = s.2 + n := by
  induction n with
  | zero => rfl
  | succ n ih =>
      rw [run_succ]
      show (R.run n s).2 + 1 = s.2 + (n + 1)
      omega

/-- No carry into digit `j` happens on the way from `c` to `c + n`. -/
def Quiet (j c n : Nat) : Prop := ∀ e, c < e → e ≤ c + n → ¬ R.block j ∣ e

/-- **QUIET RUNS** leave the digits up to `j` as they were. -/
theorem quiet_agree {j c : Nat} (hj : j < R.parts) (d : D) :
    ∀ n, R.Quiet j c n → R.agree j (R.run n (d, c)).1 d := by
  intro n
  induction n with
  | zero => intro _; exact R.agree_refl j d
  | succ n ih =>
      intro hq
      have hprev : R.agree j (R.run n (d, c)).1 d :=
        ih (fun e h1 h2 => hq e h1 (by omega))
      have hnot : ¬ R.block j ∣ c + n + 1 := hq (c + n + 1) (by omega) (by omega)
      have hlevel : j < R.level (c + n + 1) := by
        have := R.level_le_iff (c + n + 1) j hj
        by_contra hle
        exact hnot (this.mp (Nat.le_of_not_lt hle))
      rw [run_succ]
      refine R.agree_trans ?_ hprev
      show R.agree j (R.bump (R.level ((R.run n (d, c)).2 + 1)) _) _
      rw [run_snd]
      exact R.bump_above _ hlevel

/-- **CROSSING**: the unit steps up to the next multiple of a block amount to
    one bump; what the quiet steps computed below it is forgotten. -/
theorem cross {j c e : Nat} (hj : j < R.parts) (hce : c < e)
    (hdvd : R.block j ∣ e) (hq : R.Quiet j c (e - c - 1)) (d : D) :
    R.run (e - c) (d, c) = (R.bump (R.level e) d, e) := by
  have hsplit : e - c = (e - c - 1) + 1 := by omega
  have hle : R.level e ≤ j := (R.level_le_iff e j hj).mpr hdvd
  have hag : R.agree (R.level e) (R.run (e - c - 1) (d, c)).1 d :=
    R.agree_mono hle (R.quiet_agree hj d _ hq)
  have hend : c + (e - c - 1) + 1 = e := by omega
  rw [hsplit, run_succ]
  show (R.bump (R.level ((R.run (e - c - 1) (d, c)).2 + 1)) _, _) = _
  rw [run_snd]
  show (R.bump (R.level (c + (e - c - 1) + 1)) _, c + (e - c - 1) + 1) = _
  rw [hend, R.bump_congr hag]

/-- Between a counter and the next multiple of the block nothing is carried. -/
theorem quiet_to_next (j c : Nat) :
    R.Quiet j c ((c / R.block j + 1) * R.block j - c - 1) := by
  intro e h1 h2 hdvd
  have hpos := R.block_pos j
  obtain ⟨k, rfl⟩ := hdvd
  have hlt : c < (c / R.block j + 1) * R.block j := by
    rw [Nat.mul_comm]
    exact Nat.lt_mul_div_succ c hpos
  have hk1 : R.block j * k < R.block j * (c / R.block j + 1) := by
    rw [Nat.mul_comm _ (c / R.block j + 1)]
    omega
  have hk2 : k < c / R.block j + 1 := Nat.lt_of_mul_lt_mul_left hk1
  have hk3 : R.block j * k ≤ R.block j * (c / R.block j) :=
    Nat.mul_le_mul_left _ (by omega)
  have := Nat.mul_div_le c (R.block j)
  omega

/-- **ONE STAGE**: the carries into digit `j` on the way to `t`, when no digit
    above `j` is carried into, are exactly the unit steps up to the last
    multiple of the block. -/
theorem run_stage {j t : Nat} (hj : j < R.parts) :
    ∀ (s c : Nat) (d : D), c ≤ t → t / R.block j - c / R.block j = s →
      (∀ i, i < j → t / R.block i = c / R.block i) →
      R.run (max c (t / R.block j * R.block j) - c) (d, c)
        = ((R.bump j)^[s] d, max c (t / R.block j * R.block j)) := by
  have hpos := R.block_pos j
  intro s
  induction s with
  | zero =>
      intro c d hct hs _
      have hdiv : c / R.block j ≤ t / R.block j := Nat.div_le_div_right hct
      have heq : t / R.block j * R.block j ≤ c := by
        rw [show t / R.block j = c / R.block j by omega]
        exact Nat.div_mul_le_self c _
      rw [Nat.max_eq_left heq, Nat.sub_self]
      rfl
  | succ s ih =>
      intro c d hct hs hup
      -- the next multiple of the block, still below the target
      let e := (c / R.block j + 1) * R.block j
      have hce : c < e := by
        show c < (c / R.block j + 1) * R.block j
        rw [Nat.mul_comm]
        exact Nat.lt_mul_div_succ c hpos
      have het : e ≤ t := by
        have h1 : c / R.block j + 1 ≤ t / R.block j := by omega
        exact le_trans (Nat.mul_le_mul_right _ h1) (Nat.div_mul_le_self t _)
      have hdvd : R.block j ∣ e := Dvd.intro_left _ rfl
      have hediv : e / R.block j = c / R.block j + 1 := Nat.mul_div_cancel _ hpos
      -- above `j` nothing is carried, so the crossing is a bump of `j` itself
      have hlevel : R.level e = j := by
        refine Nat.le_antisymm ((R.level_le_iff e j hj).mpr hdvd) ?_
        by_contra hlt
        have hlt' : R.level e < j := Nat.lt_of_not_le hlt
        have hd : R.block (R.level e) ∣ e :=
          (R.level_le_iff e _ (R.level_lt e)).mp (Nat.le_refl _)
        obtain ⟨k, hk⟩ := hd
        have hb := R.block_pos (R.level e)
        have h1 : c / R.block (R.level e) < k := by
          rw [Nat.div_lt_iff_lt_mul hb, Nat.mul_comm]
          omega
        have h2 : k ≤ t / R.block (R.level e) := by
          rw [Nat.le_div_iff_mul_le hb, Nat.mul_comm]
          omega
        have := hup _ hlt'
        omega
      have hfirst := R.cross hj hce hdvd (R.quiet_to_next j c) d
      rw [hlevel] at hfirst
      have hrest := ih e (R.bump j d) het (by omega) (fun i hi => by
        have h1 : c / R.block i ≤ e / R.block i := Nat.div_le_div_right hce.le
        have h2 : e / R.block i ≤ t / R.block i := Nat.div_le_div_right het
        have := hup i hi
        omega)
      have hte : e ≤ t / R.block j * R.block j :=
        Nat.mul_le_mul_right _ (by omega)
      rw [Nat.max_eq_right hte] at hrest
      rw [Nat.max_eq_right (le_trans hce.le hte)]
      rw [show t / R.block j * R.block j - c
        = (e - c) + (t / R.block j * R.block j - e) by omega]
      rw [run_add, hfirst, hrest]
      rfl

/-- Past the last multiple of the block nothing is carried into digit `j`. -/
theorem quiet_past {j c t : Nat} (hc : t / R.block j * R.block j ≤ c) :
    R.Quiet j c (t - c) := by
  intro e h1 h2 hdvd
  obtain ⟨k, rfl⟩ := hdvd
  have hpos := R.block_pos j
  have hle : k ≤ t / R.block j := by
    rw [Nat.le_div_iff_mul_le hpos, Nat.mul_comm]
    omega
  have hmul : R.block j * k ≤ t / R.block j * R.block j := by
    rw [Nat.mul_comm (t / R.block j)]
    exact Nat.mul_le_mul_left _ hle
  omega

/-- **ONE DIGIT**: behind a run in which no digit above `j` changed, digit `j` is
    what that many bumps make of it. -/
theorem run_digit {j c t : Nat} (hj : j < R.parts) (hct : c ≤ t) (d : D)
    (hup : ∀ i, i < j → t / R.block i = c / R.block i) :
    R.agree j (R.run (t - c) (d, c)).1 ((R.bump j)^[t / R.block j - c / R.block j] d) := by
  have hstage := R.run_stage hj _ c d hct rfl hup
  have hle : max c (t / R.block j * R.block j) ≤ t := max_le hct (Nat.div_mul_le_self _ _)
  have hge : c ≤ max c (t / R.block j * R.block j) := Nat.le_max_left _ _
  have hsplit : t - c = (max c (t / R.block j * R.block j) - c)
      + (t - max c (t / R.block j * R.block j)) := by omega
  rw [hsplit, run_add, hstage]
  exact R.quiet_agree hj _ _ (R.quiet_past (Nat.le_max_right _ _))

end Hierarchy

end CarryRatchet
