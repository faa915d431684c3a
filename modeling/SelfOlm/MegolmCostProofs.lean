import SelfOlm.MegolmAdvanceProofs

/-! # What `megolm_advance_to` costs

    Every hash of the ratchet is a call of `rehash_part`.  The calls of
    `megolm_advance_to` only depend on the two counters: for every part that moves,
    all but the last step hash this part, and the last step hashes everything
    from it on.  That is at most 258 + 257 + 256 + 255 hashes.  A first part that
    moves 256 times, where the target has wrapped around, leaves one step fewer
    for the others. -/

namespace OlmMegolm

open CarryRatchet

variable {P : Type} (hmac : P → UInt8 → P)

/-! ## The calls -/

/-- A call of `rehash_part`, by its two arguments. -/
def rehashCall (data : Fin 4 → P) (call : Fin 4 × Fin 4) : Fin 4 → P :=
  rehashPart hmac data call.1 call.2

/-- The number of steps that `megolm_advance_to` takes for part `j`. -/
def stepsFor (advanceTo counter : UInt32) (j : Fin 4) : Nat :=
  let shift : UInt32 := UInt32.ofNat ((4 - j.val - 1) * 8)
  let steps : UInt32 := ((advanceTo >>> shift) - (counter >>> shift)) &&& 0xff
  if steps = 0 then if advanceTo < counter then 0x100 else 0 else steps.toNat

/-- The calls for `steps` steps of part `j`. -/
def partCalls (j : Fin 4) : Nat → List (Fin 4 × Fin 4)
  | 0 => []
  | n + 1 => List.replicate n (j, j) ++ ([3, 2, 1, 0].filter (fun i => j ≤ i)).map (fun i => (j, i))

/-- The counter behind them. -/
def counterPast (advanceTo counter : UInt32) (j : Fin 4) : UInt32 :=
  if stepsFor advanceTo counter j = 0 then counter
  else advanceTo &&& ((0xFFFFFFFF : UInt32) <<< UInt32.ofNat ((4 - j.val - 1) * 8))

/-- The calls for some of the parts, in order. -/
def callsFor (advanceTo : UInt32) : UInt32 → List (Fin 4) → List (Fin 4 × Fin 4)
  | _, [] => []
  | counter, j :: parts =>
      partCalls j (stepsFor advanceTo counter j)
        ++ callsFor advanceTo (counterPast advanceTo counter j) parts

/-- All the calls of `megolm_advance_to`. -/
def advanceCalls (counter advanceTo : UInt32) : List (Fin 4 × Fin 4) :=
  callsFor advanceTo counter [0, 1, 2, 3]

/-- The `while` loop hashes one part. -/
theorem foldl_rehashSelf (j : Fin 4) (n : Nat) (data : Fin 4 → P) :
    (List.replicate n (j, j)).foldl (rehashCall hmac) data = rehashSelf hmac j n data := by
  induction n generalizing data with
  | zero => rfl
  | succ n ih =>
      rw [List.replicate_succ, List.foldl_cons, ih]
      rfl

theorem foldl_partCalls (j : Fin 4) (n : Nat) (data : Fin 4 → P) :
    (partCalls j (n + 1)).foldl (rehashCall hmac) data
      = rehashDown hmac (rehashSelf hmac j n data) j := by
  rw [partCalls, List.foldl_append, foldl_rehashSelf, List.foldl_map]
  rfl

/-- One part of the `for` loop makes its calls. -/
theorem advancePart_calls (advanceTo : UInt32) (megolm : Megolm P) (j : Fin 4) :
    advancePart hmac advanceTo megolm j =
      { data := (partCalls j (stepsFor advanceTo megolm.counter j)).foldl (rehashCall hmac)
          megolm.data
        counter := counterPast advanceTo megolm.counter j } := by
  obtain ⟨steps, hs⟩ : ∃ steps, ((advanceTo >>> UInt32.ofNat ((4 - j.val - 1) * 8))
    - (megolm.counter >>> UInt32.ofNat ((4 - j.val - 1) * 8))) &&& 0xff = steps := ⟨_, rfl⟩
  simp only [advancePart, counterPast, stepsFor, hs]
  by_cases hzero : steps = 0
  · rw [if_pos hzero, if_pos hzero]
    by_cases hwrapped : advanceTo < megolm.counter
    · rw [if_pos hwrapped, if_pos hwrapped, if_neg (by decide), foldl_partCalls]
      rfl
    · rw [if_neg hwrapped, if_neg hwrapped, if_pos rfl]
      rfl
  · have hpos : steps.toNat ≠ 0 := fun h => hzero (UInt32.toNat_inj.mp h)
    obtain ⟨n, hn⟩ := Nat.exists_eq_succ_of_ne_zero hpos
    rw [if_neg hzero, if_neg hzero, if_neg hpos, hn, foldl_partCalls]
    rfl

theorem foldl_advancePart (advanceTo : UInt32) (js : List (Fin 4)) (megolm : Megolm P) :
    (js.foldl (advancePart hmac advanceTo) megolm).data
      = (callsFor advanceTo megolm.counter js).foldl (rehashCall hmac) megolm.data := by
  induction js generalizing megolm with
  | nil => rfl
  | cons j js ih =>
      rw [List.foldl_cons, ih, advancePart_calls, callsFor, List.foldl_append]

/-! ## Counting -/

/-- The last step hashes the parts behind as well. -/
theorem length_partCalls_le (j : Fin 4) (n : Nat) : (partCalls j n).length ≤ n + (3 - j.val) := by
  cases n with
  | zero => exact Nat.zero_le _
  | succ n =>
      have hfilter : ([3, 2, 1, 0].filter (fun i => j ≤ i)).length = 4 - j.val := by
        fin_cases j <;> rfl
      rw [partCalls, List.length_append, List.length_replicate, List.length_map, hfilter]
      omega

/-- The steps of a part, with counters that are not wrapped. -/
theorem stepsFor_ofNat {t c : Nat} (j : Fin 4) (hct : c ≤ t) (hspan : t - c < 2 ^ 32)
    (hup : ∀ i, i < j.val → t / partBlock i = c / partBlock i) :
    stepsFor (UInt32.ofNat t) (UInt32.ofNat c) j = t / partBlock j.val - c / partBlock j.val := by
  obtain ⟨hsteps, hle, hwrap, hzero⟩ := steps_digit j hct hspan hup
  have hst := steps_toNat t c (shift_toNat j) (by omega)
  rw [hsteps] at hst
  have hlt : UInt32.ofNat t < UInt32.ofNat c ↔ t % 2 ^ 32 < c % 2 ^ 32 := by
    rw [UInt32.lt_iff_toNat_lt, UInt32.toNat_ofNat', UInt32.toNat_ofNat']
  simp only [stepsFor]
  generalize ((UInt32.ofNat t >>> UInt32.ofNat ((4 - j.val - 1) * 8))
    - (UInt32.ofNat c >>> UInt32.ofNat ((4 - j.val - 1) * 8))) &&& 0xff = steps at hst
  generalize t / partBlock j.val - c / partBlock j.val = n at *
  by_cases hs : steps = 0
  · have hn : n % 256 = 0 := by
      rw [← hst, hs]
      rfl
    rw [if_pos hs]
    by_cases hfull : n = 256
    · rw [if_pos (hlt.mpr (hwrap hfull)), hfull]
    · have hn0 : n = 0 := by omega
      rw [if_neg (mt hlt.mp (hzero hn0)), hn0]
  · have hn : n % 256 ≠ 0 := by
      intro h
      rw [h] at hst
      exact hs (UInt32.toNat_inj.mp hst)
    rw [if_neg hs, hst]
    omega

/-- The counter behind part `j`, not wrapped. -/
theorem counterPast_ofNat {t c : Nat} (j : Fin 4) (hct : c ≤ t) (hspan : t - c < 2 ^ 32)
    (hup : ∀ i, i < j.val → t / partBlock i = c / partBlock i) :
    counterPast (UInt32.ofNat t) (UInt32.ofNat c) j
      = UInt32.ofNat (max c (t / partBlock j.val * partBlock j.val)) := by
  have hpos : 0 < partBlock j.val := Nat.two_pow_pos _
  have hdiv : c / partBlock j.val ≤ t / partBlock j.val := Nat.div_le_div_right hct
  rw [counterPast, stepsFor_ofNat j hct hspan hup, round_ofNat]
  by_cases heq : t / partBlock j.val - c / partBlock j.val = 0
  · have hsame : t / partBlock j.val = c / partBlock j.val := by omega
    rw [if_pos heq, hsame, Nat.max_eq_left (Nat.div_mul_le_self _ _)]
  · have hlt : c / partBlock j.val < t / partBlock j.val := by omega
    rw [if_neg heq, Nat.max_eq_right]
    exact Nat.le_of_lt ((Nat.div_lt_iff_lt_mul hpos).mp hlt)

/-- The counter behind the parts up to `j`: it agrees with the target up to there. -/
theorem counterPast_agrees {t c : Nat} (j : Fin 4) (hct : c ≤ t)
    (hup : ∀ i, i < j.val → t / partBlock i = c / partBlock i) :
    max c (t / partBlock j.val * partBlock j.val) ≤ t ∧
      ∀ i, i < j.val + 1 →
        t / partBlock i = max c (t / partBlock j.val * partBlock j.val) / partBlock i := by
  have hround := Nat.div_mul_le_self t (partBlock j.val)
  have hmax : max c (t / partBlock j.val * partBlock j.val) ≤ t := Nat.max_le.mpr ⟨hct, hround⟩
  refine ⟨hmax, ?_⟩
  intro i hi
  refine Nat.le_antisymm ?_ (Nat.div_le_div_right hmax)
  rcases Nat.lt_or_ge i j.val with hlt | hge
  · rw [hup i hlt]
    exact Nat.div_le_div_right (Nat.le_max_left _ _)
  · obtain rfl : i = j.val := by omega
    have hself : t / partBlock j.val * partBlock j.val / partBlock j.val = t / partBlock j.val :=
      Nat.mul_div_cancel _ (Nat.two_pow_pos _)
    calc t / partBlock j.val
        = t / partBlock j.val * partBlock j.val / partBlock j.val := hself.symm
      _ ≤ max c (t / partBlock j.val * partBlock j.val) / partBlock j.val :=
          Nat.div_le_div_right (Nat.le_max_right _ _)

/-- The numbers of steps of the four parts. -/
theorem length_callsFor {t c : Nat} (hct : c ≤ t) (hspan : t - c < 2 ^ 32) :
    let c₁ := max c (t / 2 ^ 24 * 2 ^ 24)
    let c₂ := max c₁ (t / 2 ^ 16 * 2 ^ 16)
    let c₃ := max c₂ (t / 2 ^ 8 * 2 ^ 8)
    (advanceCalls (UInt32.ofNat c) (UInt32.ofNat t)).length
      = (partCalls 0 (t / 2 ^ 24 - c / 2 ^ 24)).length
        + ((partCalls 1 (t / 2 ^ 16 - c₁ / 2 ^ 16)).length
          + ((partCalls 2 (t / 2 ^ 8 - c₂ / 2 ^ 8)).length
            + (partCalls 3 (t - c₃)).length)) := by
  intro c₁ c₂ c₃
  have h0 : ∀ i, i < (0 : Fin 4).val → t / partBlock i = c / partBlock i :=
    fun i hi => absurd hi (Nat.not_lt_zero i)
  obtain ⟨hle₁, hup₁⟩ := counterPast_agrees 0 hct h0
  obtain ⟨hle₂, hup₂⟩ := counterPast_agrees 1 hle₁ hup₁
  obtain ⟨hle₃, hup₃⟩ := counterPast_agrees 2 hle₂ hup₂
  have hc₁ : c ≤ c₁ := Nat.le_max_left _ _
  have hc₂ : c₁ ≤ c₂ := Nat.le_max_left _ _
  have hc₃ : c₂ ≤ c₃ := Nat.le_max_left _ _
  have hspan₁ : t - c₁ < 2 ^ 32 := by omega
  have hspan₂ : t - c₂ < 2 ^ 32 := by omega
  have hspan₃ : t - c₃ < 2 ^ 32 := by omega
  have hlast : t / partBlock 3 - c₃ / partBlock 3 = t - c₃ := by
    rw [show partBlock 3 = 1 from rfl, Nat.div_one, Nat.div_one]
  simp only [advanceCalls, callsFor, List.length_append, List.length_nil, Nat.add_zero]
  rw [counterPast_ofNat 0 hct hspan h0, stepsFor_ofNat 0 hct hspan h0,
    counterPast_ofNat 1 hle₁ hspan₁ hup₁, stepsFor_ofNat 1 hle₁ hspan₁ hup₁,
    counterPast_ofNat 2 hle₂ hspan₂ hup₂, stepsFor_ofNat 2 hle₂ hspan₂ hup₂,
    stepsFor_ofNat 3 hle₃ hspan₃ hup₃, ← hlast]
  rfl

/-- The steps of the four parts are at most 255 each, or 256 of the first part and fewer
    than 765 of the others. -/
theorem sum_steps_le {c n : Nat} (hn : n < 2 ^ 32) :
    let t := c + n
    let c₁ := max c (t / 2 ^ 24 * 2 ^ 24)
    let c₂ := max c₁ (t / 2 ^ 16 * 2 ^ 16)
    let c₃ := max c₂ (t / 2 ^ 8 * 2 ^ 8)
    (t / 2 ^ 24 - c / 2 ^ 24) + (t / 2 ^ 16 - c₁ / 2 ^ 16) + (t / 2 ^ 8 - c₂ / 2 ^ 8) + (t - c₃)
      ≤ 1020 := by
  intro t c₁ c₂ c₃
  omega

/-- **THE COST OF ADVANCING**: whatever the counters are, the parts are those behind at
    most 1026 calls of `rehash_part`; and some counters take as many. -/
theorem megolmAdvanceTo_cost :
    (∀ (megolm : Megolm P) (advanceTo : UInt32),
      (megolmAdvanceTo hmac megolm advanceTo).data
        = (advanceCalls megolm.counter advanceTo).foldl (rehashCall hmac) megolm.data) ∧
    (∀ counter advanceTo : UInt32, (advanceCalls counter advanceTo).length ≤ 1026) ∧
    ∃ counter advanceTo : UInt32, (advanceCalls counter advanceTo).length = 1026 := by
  refine ⟨?_, ?_, 0, 0xFFFFFFFF, by decide +kernel⟩
  · intro megolm advanceTo
    exact foldl_advancePart hmac advanceTo [0, 1, 2, 3] megolm
  · intro counter advanceTo
    have hsteps := (advanceTo - counter).toNat_lt
    have htarget : UInt32.ofNat (counter.toNat + (advanceTo - counter).toNat) = advanceTo := by
      rw [UInt32.ofNat_add, UInt32.ofNat_toNat, add_ofNat_sub]
    have hlength := length_callsFor (t := counter.toNat + (advanceTo - counter).toNat)
      (c := counter.toNat) (Nat.le_add_right _ _) (by omega)
    rw [UInt32.ofNat_toNat, htarget] at hlength
    have hsum := sum_steps_le (c := counter.toNat) hsteps
    rw [hlength]
    refine Nat.le_trans (Nat.add_le_add (length_partCalls_le 0 _) (Nat.add_le_add
      (length_partCalls_le 1 _) (Nat.add_le_add (length_partCalls_le 2 _)
        (length_partCalls_le 3 _)))) ?_
    simp only at hsum
    have hparts : 3 - (0 : Fin 4).val = 3 ∧ 3 - (1 : Fin 4).val = 2 ∧ 3 - (2 : Fin 4).val = 1 ∧
        3 - (3 : Fin 4).val = 0 := ⟨rfl, rfl, rfl, rfl⟩
    rw [hparts.1, hparts.2.1, hparts.2.2.1, hparts.2.2.2]
    omega

end OlmMegolm
