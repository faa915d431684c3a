import Mathlib

/-! # Mixing columns over a binary module

    A module over the field of two elements with an endomorphism `x`, written as
    multiplication by `x`.  Four elements are mixed with the coefficients `x`,
    `x + 1`, `1`, `1`; the coefficients `x³ + x² + x`, `x³ + x + 1`, `x³ + x² + 1` and
    `x³ + 1` take this back.  That the product of the two is one does not need that
    `x` is a root of anything: the powers of `x` cancel in pairs.

    Bytes are such a module, with exclusive or as addition and with the
    multiplication by two of a field of 256 elements. -/

namespace BinaryMix

/-! ## Over any endomorphism -/

section Module

variable {M : Type} [AddCommGroup M] [Module (ZMod 2) M] (x : M →ₗ[ZMod 2] M)

/-- Multiplication by `x + 1`, and by the coefficients that take a mix back. -/
def times3 : M →ₗ[ZMod 2] M := x + LinearMap.id
def times9 : M →ₗ[ZMod 2] M := x ∘ₗ x ∘ₗ x + LinearMap.id
def timesB : M →ₗ[ZMod 2] M := x ∘ₗ x ∘ₗ x + x + LinearMap.id
def timesD : M →ₗ[ZMod 2] M := x ∘ₗ x ∘ₗ x + x ∘ₗ x + LinearMap.id
def timesE : M →ₗ[ZMod 2] M := x ∘ₗ x ∘ₗ x + x ∘ₗ x + x

/-- One of four elements mixed with the next ones, in a circle. -/
def mix (a b c d : M) : M := x a + times3 x b + c + d

/-- The mix that takes it back. -/
def unmix (a b c d : M) : M := timesE x a + timesB x b + timesD x c + times9 x d

/-- **A MIX IS TAKEN BACK.** -/
theorem unmix_mix (a b c d : M) :
    unmix x (mix x a b c d) (mix x b c d a) (mix x c d a b) (mix x d a b c) = a := by
  simp only [unmix, mix, times3, times9, timesB, timesD, timesE, LinearMap.add_apply,
    LinearMap.comp_apply, LinearMap.id_apply, map_add]
  -- every power of `x` but the first one of `a` is there an even number of times
  conv_rhs => rw [← one_smul (ZMod 2) a]
  match_scalars <;> decide

/-- And the other way round. -/
theorem mix_unmix (a b c d : M) :
    mix x (unmix x a b c d) (unmix x b c d a) (unmix x c d a b) (unmix x d a b c) = a := by
  simp only [unmix, mix, times3, times9, timesB, timesD, timesE, LinearMap.add_apply,
    LinearMap.comp_apply, LinearMap.id_apply, map_add]
  -- every power of `x` but the first one of `a` is there an even number of times
  conv_rhs => rw [← one_smul (ZMod 2) a]
  match_scalars <;> decide

end Module

/-! ## Bytes -/

/-- A byte as a vector of bits. -/
@[ext] structure Bits where
  byte : UInt8

namespace Bits

instance : Zero Bits := ⟨⟨0⟩⟩
instance : Add Bits := ⟨fun a b => ⟨a.byte ^^^ b.byte⟩⟩
instance : Neg Bits := ⟨fun a => a⟩

@[simp] theorem byte_zero : (0 : Bits).byte = 0 := rfl
@[simp] theorem byte_add (a b : Bits) : (a + b).byte = a.byte ^^^ b.byte := rfl
@[simp] theorem byte_neg (a : Bits) : (-a).byte = a.byte := rfl

instance : AddCommGroup Bits where
  add_assoc a b c := Bits.ext (UInt8.xor_assoc ..)
  zero_add a := Bits.ext UInt8.zero_xor
  add_zero a := Bits.ext UInt8.xor_zero
  add_comm a b := Bits.ext (UInt8.xor_comm ..)
  neg_add_cancel a := Bits.ext UInt8.xor_self
  nsmul := nsmulRec
  zsmul := zsmulRec

theorem two_nsmul (a : Bits) : 2 • a = 0 := by
  rw [two_smul]
  exact Bits.ext UInt8.xor_self

instance : Module (ZMod 2) Bits := AddCommGroup.zmodModule two_nsmul

end Bits

/-- A byte times two: shifted, and reduced where a bit was shifted out. -/
def xtime (b : UInt8) : UInt8 := (b <<< 1) ^^^ (if b.toBitVec.msb then 0x1b else 0)

/-- Shifting and the bit that is shifted out are both additive. -/
theorem xtime_xor (a b : UInt8) : xtime (a ^^^ b) = xtime a ^^^ xtime b := by
  have hswap : ∀ p q r s : UInt8, (p ^^^ q) ^^^ (r ^^^ s) = (p ^^^ r) ^^^ (q ^^^ s) := by
    intro p q r s
    rw [UInt8.xor_assoc, ← UInt8.xor_assoc q, UInt8.xor_comm q, UInt8.xor_assoc r,
      ← UInt8.xor_assoc p]
  have hbit : (if (a ^^^ b).toBitVec.msb then (0x1b : UInt8) else 0)
      = (if a.toBitVec.msb then 0x1b else 0) ^^^ (if b.toBitVec.msb then 0x1b else 0) := by
    rw [UInt8.toBitVec_xor, BitVec.msb_xor]
    cases a.toBitVec.msb <;> cases b.toBitVec.msb <;> rfl
  rw [xtime, hbit, UInt8.shiftLeft_xor, hswap]
  rfl

/-- Multiplication by two as an endomorphism. -/
def xtimeHom : Bits →+ Bits where
  toFun b := ⟨xtime b.byte⟩
  map_zero' := rfl
  map_add' a b := Bits.ext (xtime_xor a.byte b.byte)

def xtimeLinear : Bits →ₗ[ZMod 2] Bits := xtimeHom.toZModLinearMap 2

end BinaryMix
