import SelfOlm.Curve25519ContractProofs

/-! # What is written out

    The limbs are shifted to where their bits begin in a byte and written four bytes at a
    time, so that a byte may get its lower bits from one limb and its upper bits from the
    next one. -/

namespace OlmCurve25519

open CheckedArith Checked MixedRadix MontgomeryLadder LittleEndian

/-- The number in the first `n` bytes. -/
def bytesValue (n : Nat) (output : Nat → UInt8) : Int :=
  value (fun j => 256 ^ j) n fun j => (output j).toNat

theorem toNat_ofInt {b : Int} (hlow : 0 ≤ b) (hhigh : b < 256) :
    ((UInt8.ofInt b).toNat : Int) = b := by
  rw [UInt8.ofInt, UInt8.toNat_ofNat']
  omega

/-- The bytes of a vector as a number. -/
theorem toNat_ofFn (output : Nat → UInt8) (n : Nat) :
    (toNat (List.ofFn fun i : Fin n => output i) : Int) = bytesValue n output := by
  induction n with
  | zero => rfl
  | succ n ih =>
      have hlast : toNat [output n] = (output n).toNat := by
        rw [toNat_cons]
        exact Nat.add_zero _
      have hsplit : (List.ofFn fun i : Fin (n + 1) => output i)
          = (List.ofFn fun i : Fin n => output i) ++ [output n] := List.ofFn_succ_last
      rw [hsplit, toNat_append, List.length_ofFn, hlast, bytesValue, value_succ, ← bytesValue, ← ih]
      push_cast
      ring

/-! ## One limb -/

/-- The lowest bits of a byte are joined by bits above. -/
theorem or_toNat {a : UInt8} {b : Int} {shift : Nat} (ha : a.toNat < 2 ^ shift) (hlow : 0 ≤ b)
    (hhigh : b < 256) (hdvd : (2 ^ shift : Int) ∣ b) :
    ((a ||| UInt8.ofInt b).toNat : Int) = a.toNat + b := by
  have hb := toNat_ofInt hlow hhigh
  have hdvd' : 2 ^ shift ∣ (UInt8.ofInt b).toNat := by
    rw [← hb] at hdvd
    exact_mod_cast hdvd
  obtain ⟨c, hc⟩ := hdvd'
  rw [UInt8.toNat_or, Nat.or_comm, hc, ← Nat.two_pow_add_eq_or_of_lt ha, ← hc, Nat.cast_add, hb,
    add_comm]

/-- The byte at `8 * k` of a number that may have lost its sign. -/
theorem byte_of {u : Int} (hlow : 0 ≤ u) (hhigh : u < 2 ^ 32) :
    (of (castTo 32 u) &&& 0xff : S32).toOption = some (u % 256) ∧
    (of (castTo 32 u) >>> 8 &&& 0xff : S32).toOption = some (u / 2 ^ 8 % 256) ∧
    (of (castTo 32 u) >>> 16 &&& 0xff : S32).toOption = some (u / 2 ^ 16 % 256) ∧
    (of (castTo 32 u) >>> 24 &&& 0xff : S32).toOption = some (u / 2 ^ 24) := by
  have hmask : (0xff : S32) = of (2 ^ 8 - 1) := rfl
  have hcast : castTo 32 u = u ∨ castTo 32 u = u - 2 ^ 32 := by
    rw [castTo, Int.bmod_def]
    norm_num
    split_ifs <;> omega
  have h₀ : castTo 32 u % 2 ^ 8 = u % 256 := by omega
  have h₁ : castTo 32 u / 2 ^ 8 % 2 ^ 8 = u / 2 ^ 8 % 256 := by omega
  have h₂ : castTo 32 u / 2 ^ 16 % 2 ^ 8 = u / 2 ^ 16 % 256 := by omega
  have h₃ : castTo 32 u / 2 ^ 24 % 2 ^ 8 = u / 2 ^ 24 := by omega
  rw [hmask, shiftRight_of, shiftRight_of, shiftRight_of, and_mask_of (by decide),
    and_mask_of (by decide), and_mask_of (by decide), and_mask_of (by decide), h₀, h₁, h₂, h₃]
  exact ⟨rfl, rfl, rfl, rfl⟩

/-- The buffer with four bytes from `s` on. -/
def putBytes (output : Nat → UInt8) (s : Nat) (b₀ b₁ b₂ b₃ : UInt8) : Nat → UInt8 :=
  Function.update (Function.update (Function.update (Function.update output s b₀) (s + 1) b₁)
    (s + 2) b₂) (s + 3) b₃

theorem putBytes_other {output : Nat → UInt8} {s j : Nat} {b₀ b₁ b₂ b₃ : UInt8}
    (h : j < s ∨ s + 4 ≤ j) : putBytes output s b₀ b₁ b₂ b₃ j = output j := by
  rw [putBytes, Function.update_of_ne (by omega), Function.update_of_ne (by omega),
    Function.update_of_ne (by omega), Function.update_of_ne (by omega)]

theorem bytesValue_putBytes (output : Nat → UInt8) (s : Nat) (b₀ b₁ b₂ b₃ : UInt8) :
    bytesValue (s + 4) (putBytes output s b₀ b₁ b₂ b₃) = bytesValue s output
      + (b₀.toNat + b₁.toNat * 256 + b₂.toNat * 256 ^ 2 + b₃.toNat * 256 ^ 3) * 256 ^ s := by
  have h₀ : putBytes output s b₀ b₁ b₂ b₃ s = b₀ := by
    rw [putBytes, Function.update_of_ne (by omega), Function.update_of_ne (by omega),
      Function.update_of_ne (by omega), Function.update_self]
  have h₁ : putBytes output s b₀ b₁ b₂ b₃ (s + 1) = b₁ := by
    rw [putBytes, Function.update_of_ne (by omega), Function.update_of_ne (by omega),
      Function.update_self]
  have h₂ : putBytes output s b₀ b₁ b₂ b₃ (s + 2) = b₂ := by
    rw [putBytes, Function.update_of_ne (by omega), Function.update_self]
  have h₃ : putBytes output s b₀ b₁ b₂ b₃ (s + 3) = b₃ := by
    rw [putBytes, Function.update_self]
  have hfront : bytesValue s (putBytes output s b₀ b₁ b₂ b₃) = bytesValue s output :=
    value_congr fun j hj => by rw [putBytes_other (Or.inl hj)]
  rw [bytesValue, value_succ, value_succ, value_succ, value_succ, ← bytesValue, hfront, h₀, h₁, h₂,
    h₃]
  ring

/-- **FOUR BYTES**: the number grows by that of the limb. -/
theorem contractLimb_spec {output : Nat → UInt8} {u : Int} {s shift : Nat} (hlow : 0 ≤ u)
    (hhigh : u < 2 ^ 32) (hshift : shift ≤ 8) (hdvd : (2 ^ shift : Int) ∣ u)
    (hbegun : (output s).toNat < 2 ^ shift) :
    ∃ output', contractLimb output (castTo 32 u) s = some output' ∧
      bytesValue (s + 4) output' = bytesValue (s + 1) output + u * 256 ^ s ∧
      ((output' (s + 3)).toNat : Int) = u / 2 ^ 24 ∧ ∀ j, s + 4 ≤ j → output' j = output j := by
  obtain ⟨h₀, h₁, h₂, h₃⟩ := byte_of hlow hhigh
  have hdvd' : (2 ^ shift : Int) ∣ u % 256 := by
    have hdvd256 : (2 ^ shift : Int) ∣ 256 := pow_dvd_pow 2 hshift
    rw [Int.emod_def]
    exact dvd_sub hdvd (dvd_mul_of_dvd_left hdvd256 _)
  have hb₀ := or_toNat hbegun (b := u % 256) (by omega) (by omega) hdvd'
  have hb₁ := toNat_ofInt (b := u / 2 ^ 8 % 256) (by omega) (by omega)
  have hb₂ := toNat_ofInt (b := u / 2 ^ 16 % 256) (by omega) (by omega)
  have hb₃ := toNat_ofInt (b := u / 2 ^ 24) (by omega) (by omega)
  refine ⟨putBytes output s (output s ||| UInt8.ofInt (u % 256)) (UInt8.ofInt (u / 2 ^ 8 % 256))
    (UInt8.ofInt (u / 2 ^ 16 % 256)) (UInt8.ofInt (u / 2 ^ 24)), ?_, ?_, ?_, ?_⟩
  · rw [contractLimb, some_bind h₀, some_bind h₁, some_bind h₂, some_bind h₃]
    rfl
  · have hsplit : u = u % 256 + u / 2 ^ 8 % 256 * 256 + u / 2 ^ 16 % 256 * 256 ^ 2
        + u / 2 ^ 24 * 256 ^ 3 := by omega
    have hfirst : bytesValue (s + 1) output = bytesValue s output + (output s).toNat * 256 ^ s :=
      value_succ
    rw [bytesValue_putBytes, hb₀, hb₁, hb₂, hb₃, hfirst]
    linear_combination (-(256 : Int) ^ s) * hsplit
  · rw [putBytes, Function.update_self]
    exact hb₃
  · exact fun j hj => putBytes_other (Or.inr hj)

/-! ## All limbs -/

/-- The first `k` limbs are written, and limb `k` begins in byte `s`. -/
structure Written (x : Limbs) (k s : Nat) (output : Nat → UInt8) : Prop where
  value : bytesValue (s + 1) output = MixedRadix.value weight k x
  begun : (output s).toNat < 2 ^ byteShift k

theorem Written.next {x : Limbs} {k s b : Nat} {v : Int} {output : Nat → UInt8}
    (h : Written x k s output) (hx : Digits x) (hk : k < 10)
    (hv : v = castTo 32 (x k * 2 ^ byteShift k)) (hstart : 8 * s + byteShift k = (51 * k + 1) / 2)
    (hend : byteShift k + limbBits k = 24 + b) (hb : b ≤ 8) :
    ∃ output', contractLimb output v s = some output' ∧
      bytesValue (s + 4) output' = MixedRadix.value weight (k + 1) x ∧
      (output' (s + 3)).toNat < 2 ^ b ∧ ∀ j, s + 4 ≤ j → output' j = output j := by
  obtain ⟨hlow, hhigh⟩ := hx k hk
  have hpos : (0 : Int) < 2 ^ byteShift k := by positivity
  have hnonneg : 0 ≤ x k * 2 ^ byteShift k := mul_nonneg hlow hpos.le
  have hlt : x k * 2 ^ byteShift k < 2 ^ b * 2 ^ 24 := by
    have hpow : (2 ^ b * 2 ^ 24 : Int) = 2 ^ limbBits k * 2 ^ byteShift k := by
      rw [← pow_add, ← pow_add]
      congr 1
      omega
    rw [hpow]
    exact mul_lt_mul_of_pos_right hhigh hpos
  have hbound : (2 ^ b * 2 ^ 24 : Int) ≤ 2 ^ 32 := by
    rw [← pow_add]
    exact pow_le_pow_right₀ (by norm_num) (by omega)
  have hshift : byteShift k ≤ 8 := by
    rcases limbBits_cases k with hbits | hbits <;> omega
  obtain ⟨output', hcall, hvalue, hlast, hothers⟩ := contractLimb_spec hnonneg
    (lt_of_lt_of_le hlt hbound) hshift (dvd_mul_left _ _) h.begun
  have hweight : weight k = 2 ^ byteShift k * 256 ^ s := by
    rw [weight, ← hstart, pow_add, pow_mul, mul_comm]
    norm_num
  rw [← hv] at hcall
  refine ⟨output', hcall, ?_, ?_, hothers⟩
  · rw [hvalue, h.value, value_succ, hweight]
    ring
  · have hdiv : x k * 2 ^ byteShift k / 2 ^ 24 < 2 ^ b :=
      Int.ediv_lt_of_lt_mul (by norm_num) hlt
    rw [← hlast] at hdiv
    exact_mod_cast hdiv

/-- The shifted limbs one after the other. -/
theorem byteStart_spec {x y : Limbs} (hx : Digits x)
    (hy : ∀ i < 10, y i = castTo 32 (x i * 2 ^ byteShift i)) (output : Nat → UInt8)
    (h₀ : output 0 = 0) (h₁₆ : output 16 = 0) :
    ∃ output', byteStart.foldlM (fun output (i, s) => contractLimb output (y i) s) output
        = some output' ∧ bytesValue 32 output' = integer x := by
  have hstart : Written x 0 0 output := by
    refine ⟨?_, ?_⟩
    · rw [bytesValue, value_succ, h₀]
      rfl
    · rw [h₀]
      decide
  obtain ⟨o₁, c₁, v₁, b₁, f₁⟩ := hstart.next hx (by omega)
    (hy 0 (by omega)) rfl (b := byteShift 1) rfl (by decide)
  obtain ⟨o₂, c₂, v₂, b₂, f₂⟩ := (Written.mk v₁ b₁ : Written x 1 3 o₁).next hx (by omega)
    (hy 1 (by omega)) rfl (b := byteShift 2) rfl (by decide)
  obtain ⟨o₃, c₃, v₃, b₃, f₃⟩ := (Written.mk v₂ b₂ : Written x 2 6 o₂).next hx (by omega)
    (hy 2 (by omega)) rfl (b := byteShift 3) rfl (by decide)
  obtain ⟨o₄, c₄, v₄, b₄, f₄⟩ := (Written.mk v₃ b₃ : Written x 3 9 o₃).next hx (by omega)
    (hy 3 (by omega)) rfl (b := byteShift 4) rfl (by decide)
  obtain ⟨o₅, c₅, v₅, -, f₅⟩ := (Written.mk v₄ b₄ : Written x 4 12 o₄).next hx (by omega)
    (hy 4 (by omega)) rfl (b := 8) rfl (by decide)
  -- the next limb has a byte of its own
  have hzero : o₅ 16 = 0 := by
    rw [f₅ 16 (by omega), f₄ 16 (by omega), f₃ 16 (by omega), f₂ 16 (by omega), f₁ 16 (by omega),
      h₁₆]
  have hwritten : Written x 5 16 o₅ := by
    refine ⟨?_, ?_⟩
    · rw [← v₅, bytesValue, value_succ, hzero, ← bytesValue]
      simp
    · rw [hzero]
      decide
  obtain ⟨o₆, c₆, v₆, b₆, -⟩ := hwritten.next hx (by omega)
    (hy 5 (by omega)) rfl (b := byteShift 6) rfl (by decide)
  obtain ⟨o₇, c₇, v₇, b₇, -⟩ := (Written.mk v₆ b₆ : Written x 6 19 o₆).next hx (by omega)
    (hy 6 (by omega)) rfl (b := byteShift 7) rfl (by decide)
  obtain ⟨o₈, c₈, v₈, b₈, -⟩ := (Written.mk v₇ b₇ : Written x 7 22 o₇).next hx (by omega)
    (hy 7 (by omega)) rfl (b := byteShift 8) rfl (by decide)
  obtain ⟨o₉, c₉, v₉, b₉, -⟩ := (Written.mk v₈ b₈ : Written x 8 25 o₈).next hx (by omega)
    (hy 8 (by omega)) rfl (b := byteShift 9) rfl (by decide)
  obtain ⟨o, c, v, -, -⟩ := (Written.mk v₉ b₉ : Written x 9 28 o₉).next hx (by omega)
    (hy 9 (by omega)) rfl (b := 7) rfl (by decide)
  refine ⟨o, ?_, v⟩
  rw [byteStart, List.foldlM_cons, some_bind c₁, List.foldlM_cons, some_bind c₂, List.foldlM_cons,
    some_bind c₃, List.foldlM_cons, some_bind c₄, List.foldlM_cons, some_bind c₅, List.foldlM_cons,
    some_bind c₆, List.foldlM_cons, some_bind c₇, List.foldlM_cons, some_bind c₈, List.foldlM_cons,
    some_bind c₉, List.foldlM_cons, some_bind c]
  rfl

/-- **THE ENCODING**: `fcontract` does not overflow, and writes the number of the element,
    whatever the buffer had before. -/
theorem fcontract_spec (output : Nat → UInt8) {x : Limbs} (hx : Reduced x) :
    ∃ output', fcontract output x = some output' ∧ bytesValue 32 output' = (element x).val := by
  obtain ⟨x₀, hx₀⟩ : ∃ x₀ : Limbs, x₀ = fun i => castTo 32 (x i) := ⟨_, rfl⟩
  have hsame : ∀ i < 10, x₀ i = x i := by
    intro i hi
    rw [hx₀]
    exact castTo_fits (by decide) (hx.fits hi)
  have hreduced : Reduced x₀ := by
    intro i hi
    rw [hsame i hi]
    exact hx i hi
  obtain ⟨x₁, c₁, h₁⟩ := borrowPass_first hreduced
  obtain ⟨x₂, c₂, h₂, e₂⟩ := borrowPass_second h₁
  obtain ⟨x₃, c₃, h₃⟩ := carryPass_first h₂
  obtain ⟨x₄, c₄, h₄, e₄⟩ := carryPass_second h₃
  obtain ⟨x₅, c₅, h₅, e₅⟩ := subtract_spec h₄
  obtain ⟨x₆, c₆, h₆⟩ : ∃ x₆, defined 10 (fun i => (of (x₅ i) <<< byteShift i : S32)) = some x₆ ∧
      ∀ i < 10, x₆ i = castTo 32 (x₅ i * 2 ^ byteShift i) := defined_eq fun i _ => rfl
  obtain ⟨output', hloop, hvalue⟩ := byteStart_spec h₅ h₆
    (Function.update (Function.update output 0 0) 16 0)
    (by rw [Function.update_of_ne (by omega), Function.update_self]) (by rw [Function.update_self])
  refine ⟨output', ?_, ?_⟩
  · rw [fcontract, ← hx₀, some_bind c₁, some_bind c₂, some_bind (borrow_positive h₂),
      some_bind c₃, some_bind c₄, some_bind (modulusMask_eq h₄), some_bind c₅, some_bind c₆]
    exact hloop
  · rw [hvalue, e₅, e₄, e₂, element_congr hsame]

/-! ## The whole function -/

/-- The quotient of the ladder with the bits of the clamped secret. -/
def quotient (secret basepoint : Vector UInt8 32) : ZMod prime :=
  (ladder 121665 (coordinateOf basepoint) (secretBits (clampSecret secret))).x
    * (ladder 121665 (coordinateOf basepoint) (secretBits (clampSecret secret))).z ^ (prime - 2)

/-- Results with the same number are the same bytes. -/
theorem result_inj {v w : Vector UInt8 32} (h : toNat v.toList = toNat w.toList) : v = w :=
  Vector.toList_inj.mp (toNat_inj (by rw [Vector.length_toList, Vector.length_toList]) h)

/-- `curve25519_donna`: nothing overflows, and the result is the number of the quotient. -/
theorem curve25519Donna_spec (secret basepoint : Vector UInt8 32) :
    ∃ result : Vector UInt8 32,
      (∀ mypublic, curve25519Donna mypublic secret basepoint = some result) ∧
      toNat result.toList = (quotient secret basepoint).val := by
  have hcall : ∀ mypublic, ∃ result : Vector UInt8 32,
      curve25519Donna mypublic secret basepoint = some result ∧
      toNat result.toList = (quotient secret basepoint).val := by
    intro mypublic
    obtain ⟨r, hr, hreduced, -, helement⟩ := curve25519Donna_ladder mypublic secret basepoint
    obtain ⟨output, houtput, hvalue⟩ := fcontract_spec mypublic hreduced
    refine ⟨Vector.ofFn fun i => output i, ?_, ?_⟩
    · rw [hr, houtput]
      rfl
    · rw [helement] at hvalue
      have hnumber := toNat_ofFn output 32
      rw [hvalue] at hnumber
      rw [Vector.toList_ofFn]
      exact_mod_cast hnumber
  obtain ⟨result, -, hvalue⟩ := hcall fun _ => 0
  refine ⟨result, fun mypublic => ?_, hvalue⟩
  obtain ⟨other, hother, hsame⟩ := hcall mypublic
  rw [hother, result_inj (hsame.trans hvalue.symm)]

end OlmCurve25519
