import SelfOlm.Curve25519LadderProofs
import SelfOlm.Lib.LittleEndian

/-! # The scalar multiplication on bytes

    `fexpand` reads the number in the bytes of a point without its highest bit, and
    `cmult` the bits of the number in the bytes of a secret.  Before it is written out
    again, the result of `curve25519_donna` is the quotient of the ladder over the
    field. -/

namespace OlmCurve25519

open CheckedArith Checked MixedRadix MontgomeryLadder LittleEndian

theorem limbMask_eq (i : Nat) : limbMask i = 2 ^ limbBits i - 1 := by
  rw [limbMask, limbBits]
  split_ifs <;> norm_num

/-- Four bytes from `start` on. -/
theorem window_eq (bs : List UInt8) (start : Nat) :
    (bs.getD start 0).toNat + (bs.getD (start + 1) 0).toNat * 2 ^ 8
        + (bs.getD (start + 2) 0).toNat * 2 ^ 16 + (bs.getD (start + 3) 0).toNat * 2 ^ 24
      = toNat bs / 2 ^ (8 * start) % 2 ^ 32 := by
  have hpow : 2 ^ (8 * start) = 256 ^ start := by rw [Nat.pow_mul]
  rw [getD_eq, getD_eq, getD_eq, getD_eq, hpow, Nat.pow_add, Nat.pow_add, Nat.pow_add,
    ← Nat.div_div_eq_div_mul, ← Nat.div_div_eq_div_mul, ← Nat.div_div_eq_div_mul]
  omega

/-- A part of a number is a part of its lowest 32 bits. -/
theorem window_part (m : Nat) {shift k : Nat} (h : shift + k ≤ 32) :
    m % 2 ^ 32 / 2 ^ shift % 2 ^ k = m / 2 ^ shift % 2 ^ k := by
  have hsplit : 2 ^ 32 = 2 ^ shift * 2 ^ (32 - shift) := by
    rw [← Nat.pow_add]
    congr 1
    omega
  rw [hsplit, Nat.mod_mul_right_div_self, Nat.mod_mod_of_dvd _ (pow_dvd_pow 2 (by omega))]

/-- A limb of `fexpand` is a part of the number. -/
theorem expandLimb_eq {i : Nat} (input : Vector UInt8 32) (start shift : Nat) {mask : Int}
    (hmask : mask = limbMask i) (hstart : 8 * start + shift = (51 * i + 1) / 2)
    (hfits : shift + limbBits i ≤ 32) :
    expandLimb input start shift mask
      = of ((toNat input.toList : Int) / weight i % 2 ^ limbBits i) := by
  have hbyte : ∀ j, (input.toList.getD (start + j) 0).toNat < 2 ^ 8 := fun j => UInt8.toNat_lt _
  have h₀ := hbyte 0
  have h₁ := hbyte 1
  have h₂ := hbyte 2
  have h₃ := hbyte 3
  have hpart : toNat input.toList / 2 ^ (8 * start) % 2 ^ 32 / 2 ^ shift % 2 ^ limbBits i
      = toNat input.toList / 2 ^ ((51 * i + 1) / 2) % 2 ^ limbBits i := by
    rw [window_part _ hfits, Nat.div_div_eq_div_mul, ← Nat.pow_add, hstart]
  rw [← window_eq] at hpart
  rw [expandLimb, hmask, limbMask_eq]
  dsimp only
  rw [Nat.add_zero] at h₀ ⊢
  rw [or_shiftLeft_of (by decide) h₀ (by omega), or_shiftLeft_of (by decide) (by omega) (by omega),
    or_shiftLeft_of (by decide) (by omega) (by omega), shiftRight_of, and_mask_of (by omega), weight]
  refine congrArg of ?_
  exact_mod_cast hpart

/-- `fexpand`. -/
theorem fexpand_spec (input : Vector UInt8 32) :
    ∃ t, fexpand input = some t ∧ Stands t ((toNat input.toList % 2 ^ 255 : Nat) : ZMod prime) := by
  obtain ⟨t, ht, hvalue⟩ : ∃ t, fexpand input = some t ∧
      ∀ i < 10, t i = (toNat input.toList : Int) / weight i % 2 ^ limbBits i := by
    refine defined_eq fun i hi => ?_
    interval_cases i
    · exact expandLimb_eq input 0 0 rfl rfl (by decide)
    · exact expandLimb_eq input 3 2 rfl rfl (by decide)
    · exact expandLimb_eq input 6 3 rfl rfl (by decide)
    · exact expandLimb_eq input 9 5 rfl rfl (by decide)
    · exact expandLimb_eq input 12 6 rfl rfl (by decide)
    · exact expandLimb_eq input 16 0 rfl rfl (by decide)
    · exact expandLimb_eq input 19 1 rfl rfl (by decide)
    · exact expandLimb_eq input 22 3 rfl rfl (by decide)
    · exact expandLimb_eq input 25 4 rfl rfl (by decide)
    · exact expandLimb_eq input 28 6 rfl rfl (by decide)
  refine ⟨t, ht, ?_, ?_⟩
  · intro i hi
    have hpos : (0 : Int) < 2 ^ limbBits i := by positivity
    have hsize : (2 ^ limbBits i : Int) ≤ 2 ^ 26 := by
      rw [limbBits]
      split_ifs <;> norm_num
    have hlow := Int.emod_nonneg ((toNat input.toList : Int) / weight i) hpos.ne'
    have hhigh := Int.emod_lt_of_pos ((toNat input.toList : Int) / weight i) hpos
    rw [hvalue i hi, abs_of_nonneg hlow]
    omega
  · have hinteger : integer t = ((toNat input.toList % 2 ^ 255 : Nat) : Int) := by
      rw [integer, value_congr hvalue, value_digits rfl weight_succ weight_pos, weight_ten]
      push_cast
      rfl
    rw [element, hinteger, Int.cast_natCast]

/-! ## The bits of a secret -/

theorem foldl_number (bits : List Bool) (n : Nat) :
    bits.foldl (fun n bit => 2 * n + bit.toNat) n = n * 2 ^ bits.length + number bits := by
  induction bits generalizing n with
  | nil => rw [List.foldl_nil, List.length_nil, Nat.pow_zero, Nat.mul_one]; rfl
  | cons bit bits ih =>
      have hnumber : number (bit :: bits) = (2 * 0 + bit.toNat) * 2 ^ bits.length + number bits :=
        ih _
      rw [List.foldl_cons, ih, hnumber, List.length_cons, Nat.pow_succ]
      ring

theorem number_append (a b : List Bool) :
    number (a ++ b) = number a * 2 ^ b.length + number b := by
  rw [number, List.foldl_append, foldl_number]
  rfl

theorem length_byteBits (n : Nat) (byte : UInt8) : (byteBits n byte).length = n := by
  induction n generalizing byte with
  | zero => rfl
  | succ n ih => rw [byteBits, List.length_cons, ih]

theorem number_byteBits (byte : UInt8) : number (byteBits 8 byte) = byte.toNat := by
  have hall : ∀ b : Fin 256, number (byteBits 8 (UInt8.ofFin b)) = b := by decide +kernel
  exact hall byte.toFin

/-- The bits of a secret are those of the number in its bytes. -/
theorem number_secretBits (n : Vector UInt8 32) : number (secretBits n) = toNat n.toList := by
  rw [secretBits]
  induction n.toList with
  | nil => rfl
  | cons byte bytes ih =>
      rw [List.reverse_cons, List.flatMap_append, number_append, ih, List.flatMap_singleton,
        length_byteBits, number_byteBits, toNat_cons]
      ring

/-! ## The whole function -/

/-- The coordinate in the bytes of a point. -/
def coordinateOf (basepoint : Vector UInt8 32) : ZMod prime :=
  (toNat basepoint.toList % 2 ^ 255 : Nat)

/-- **THE SCALAR MULTIPLICATION**: for every secret and every point, no step overflows before
    the result is written out, and the result is the quotient of the ladder over the field
    with the bits of the clamped secret. -/
theorem curve25519Donna_ladder (mypublic : Nat → UInt8) (secret basepoint : Vector UInt8 32) :
    ∃ r, curve25519Donna mypublic secret basepoint
        = (fcontract mypublic r).map (fun output => Vector.ofFn fun i => output i) ∧
      Reduced r ∧
      number (secretBits (clampSecret secret)) = toNat (clampSecret secret).toList ∧
      element r = (ladder 121665 (coordinateOf basepoint) (secretBits (clampSecret secret))).x
        * (ladder 121665 (coordinateOf basepoint) (secretBits (clampSecret secret))).z
          ^ (prime - 2) := by
  obtain ⟨bp, hbp, hstands⟩ := fexpand_spec basepoint
  obtain ⟨x, z, hmult, hx, hz⟩ := cmult_spec (clampSecret secret) hstands
  obtain ⟨zmone, hrecip, hzmone⟩ := crecip_spec hz.reduced
  obtain ⟨r, hr, hresult⟩ := fmul_spec hx.reduced.wide hzmone.reduced.wide
  refine ⟨r, ?_, hresult.reduced, number_secretBits _, ?_⟩
  · rw [curve25519Donna]
    dsimp only
    rw [some_bind hbp, some_bind hmult]
    dsimp only
    rw [some_bind hrecip, some_bind hr]
    cases fcontract mypublic r <;> rfl
  · rw [hresult.value, hx.value, hzmone.value, hz.value]
    rfl

end OlmCurve25519
