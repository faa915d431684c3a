import SelfOlm.Crypto
import SelfOlm.Lib.CheckedArith

/-! # The scalar multiplication

    `curve25519-donna.c`.  An element of the field is an array of ten limbs of 26 and 25
    bits, least significant first, with signs.  Every function returns `none` where a
    sum, a difference or a product overflows; left shifts of negative numbers are those
    of two's complement. -/

namespace OlmCurve25519

open CheckedArith Checked OlmCrypto

/-- `limb`. -/
abbrev Limb : Type := Checked 64

/-- `s32`. -/
abbrev S32 : Type := Checked 32

/-- An array of numbers. -/
abbrev Limbs : Type := Nat → Int

/-! ## Sums and products -/

/-- `fsum`. -/
def fsum (output input : Limbs) : Option Limbs :=
  defined 10 fun i => (of (output i) + of (input i) : Limb)

/-- `fdifference`. -/
def fdifference (output input : Limbs) : Option Limbs :=
  defined 10 fun i => (of (input i) - of (output i) : Limb)

/-- `fscalar_product`. -/
def fscalarProduct (input : Limbs) (scalar : Int) : Option Limbs :=
  defined 10 fun i => (of (input i) * of scalar : Limb)

/-- `((limb) ((s32) x))`. -/
def limbOf (x : Int) : Limb := of (castTo 32 x)

section Terms

variable {R : Type} [Add R] [Mul R] [∀ n, OfNat R n]

/-- The sums of products in `fproduct`. -/
def productTerms (a b : Nat → R) : Nat → R
  | 0 => a 0 * b 0
  | 1 => a 0 * b 1 + a 1 * b 0
  | 2 => 2 * a 1 * b 1 + a 0 * b 2 + a 2 * b 0
  | 3 => a 1 * b 2 + a 2 * b 1 + a 0 * b 3 + a 3 * b 0
  | 4 => a 2 * b 2 + 2 * (a 1 * b 3 + a 3 * b 1) + a 0 * b 4 + a 4 * b 0
  | 5 => a 2 * b 3 + a 3 * b 2 + a 1 * b 4 + a 4 * b 1 + a 0 * b 5 + a 5 * b 0
  | 6 => 2 * (a 3 * b 3 + a 1 * b 5 + a 5 * b 1) + a 2 * b 4 + a 4 * b 2 + a 0 * b 6 + a 6 * b 0
  | 7 => a 3 * b 4 + a 4 * b 3 + a 2 * b 5 + a 5 * b 2 + a 1 * b 6 + a 6 * b 1 + a 0 * b 7
      + a 7 * b 0
  | 8 => a 4 * b 4 + 2 * (a 3 * b 5 + a 5 * b 3 + a 1 * b 7 + a 7 * b 1) + a 2 * b 6 + a 6 * b 2
      + a 0 * b 8 + a 8 * b 0
  | 9 => a 4 * b 5 + a 5 * b 4 + a 3 * b 6 + a 6 * b 3 + a 2 * b 7 + a 7 * b 2 + a 1 * b 8
      + a 8 * b 1 + a 0 * b 9 + a 9 * b 0
  | 10 => 2 * (a 5 * b 5 + a 3 * b 7 + a 7 * b 3 + a 1 * b 9 + a 9 * b 1) + a 4 * b 6 + a 6 * b 4
      + a 2 * b 8 + a 8 * b 2
  | 11 => a 5 * b 6 + a 6 * b 5 + a 4 * b 7 + a 7 * b 4 + a 3 * b 8 + a 8 * b 3 + a 2 * b 9
      + a 9 * b 2
  | 12 => a 6 * b 6 + 2 * (a 5 * b 7 + a 7 * b 5 + a 3 * b 9 + a 9 * b 3) + a 4 * b 8 + a 8 * b 4
  | 13 => a 6 * b 7 + a 7 * b 6 + a 5 * b 8 + a 8 * b 5 + a 4 * b 9 + a 9 * b 4
  | 14 => 2 * (a 7 * b 7 + a 5 * b 9 + a 9 * b 5) + a 6 * b 8 + a 8 * b 6
  | 15 => a 7 * b 8 + a 8 * b 7 + a 6 * b 9 + a 9 * b 6
  | 16 => a 8 * b 8 + 2 * (a 7 * b 9 + a 9 * b 7)
  | 17 => a 8 * b 9 + a 9 * b 8
  | 18 => 2 * a 9 * b 9
  | _ => 0

/-- The sums of products in `fsquare_inner`. -/
def squareTerms (a : Nat → R) : Nat → R
  | 0 => a 0 * a 0
  | 1 => 2 * a 0 * a 1
  | 2 => 2 * (a 1 * a 1 + a 0 * a 2)
  | 3 => 2 * (a 1 * a 2 + a 0 * a 3)
  | 4 => a 2 * a 2 + 4 * a 1 * a 3 + 2 * a 0 * a 4
  | 5 => 2 * (a 2 * a 3 + a 1 * a 4 + a 0 * a 5)
  | 6 => 2 * (a 3 * a 3 + a 2 * a 4 + a 0 * a 6 + 2 * a 1 * a 5)
  | 7 => 2 * (a 3 * a 4 + a 2 * a 5 + a 1 * a 6 + a 0 * a 7)
  | 8 => a 4 * a 4 + 2 * (a 2 * a 6 + a 0 * a 8 + 2 * (a 1 * a 7 + a 3 * a 5))
  | 9 => 2 * (a 4 * a 5 + a 3 * a 6 + a 2 * a 7 + a 1 * a 8 + a 0 * a 9)
  | 10 => 2 * (a 5 * a 5 + a 4 * a 6 + a 2 * a 8 + 2 * (a 3 * a 7 + a 1 * a 9))
  | 11 => 2 * (a 5 * a 6 + a 4 * a 7 + a 3 * a 8 + a 2 * a 9)
  | 12 => a 6 * a 6 + 2 * (a 4 * a 8 + 2 * (a 5 * a 7 + a 3 * a 9))
  | 13 => 2 * (a 6 * a 7 + a 5 * a 8 + a 4 * a 9)
  | 14 => 2 * (a 7 * a 7 + a 6 * a 8 + 2 * a 5 * a 9)
  | 15 => 2 * (a 7 * a 8 + a 6 * a 9)
  | 16 => a 8 * a 8 + 4 * a 7 * a 9
  | 17 => 2 * a 8 * a 9
  | 18 => 2 * a 9 * a 9
  | _ => 0

end Terms

/-- `fproduct`. -/
def fproduct (in2 input : Limbs) : Option Limbs :=
  defined 19 (productTerms (fun i => limbOf (in2 i)) fun i => limbOf (input i))

/-- `fsquare_inner`. -/
def fsquareInner (input : Limbs) : Option Limbs :=
  defined 19 (squareTerms fun i => limbOf (input i))

/-! ## Reduction -/

/-- `x` plus 19 times `y`, with shifts. -/
def addNineteenTimes (x y : Int) : Limb := of x + of y <<< 4 + of y <<< 1 + of y

/-- `freduce_degree`. -/
def freduceDegree (output : Limbs) : Option Limbs :=
  defined 19 fun k => if k < 9 then addNineteenTimes (output k) (output (k + 10)) else of (output k)

/-- `div_by_2_26` and `div_by_2_25`, which differ in the two shifts. -/
def divByPow (roundShift shift : Nat) (v : Int) : Option Int :=
  let highword := v % 2 ^ 64 / 2 ^ 32
  let sign := castTo 32 highword / 2 ^ 31
  let roundoff := sign % 2 ^ 32 / 2 ^ roundShift
  ((of v + of roundoff : Limb) >>> shift).toOption

/-- `div_by_2_26`. -/
def divBy226 : Int → Option Int := divByPow 6 26

/-- `div_by_2_25`. -/
def divBy225 : Int → Option Int := divByPow 7 25

/-- What is over `shift` bits in `output[i]` goes to the next limb. -/
def carryOver (div : Int → Option Int) (shift : Nat) (output : Limbs) (i : Nat) : Option Limbs := do
  let excess ← div (output i)
  let rest ← (of (output i) - of excess <<< shift : Limb).toOption
  let next ← (of (output (i + 1)) + of excess : Limb).toOption
  return Function.update (Function.update output i rest) (i + 1) next

/-- `freduce_coefficients`. -/
def freduceCoefficients (output : Limbs) : Option Limbs := do
  let output := Function.update output 10 0
  let output ← [0, 2, 4, 6, 8].foldlM (fun output i => do
    let output ← carryOver divBy226 26 output i
    carryOver divBy225 25 output (i + 1)) output
  let first ← (addNineteenTimes (output 0) (output 10)).toOption
  let output := Function.update (Function.update output 0 first) 10 0
  carryOver divBy226 26 output 0

/-- `fmul`. -/
def fmul (input in2 : Limbs) : Option Limbs := do
  let t ← fproduct input in2
  let t ← freduceDegree t
  freduceCoefficients t

/-- `fsquare`. -/
def fsquare (input : Limbs) : Option Limbs := do
  let t ← fsquareInner input
  let t ← freduceDegree t
  freduceCoefficients t

/-! ## Bytes -/

/-- `F` in `fexpand`. -/
def expandLimb (input : Vector UInt8 32) (start shift : Nat) (mask : Int) : Limb :=
  let byte (i : Nat) : Limb := of (input.toList.getD (start + i) 0).toNat
  (byte 0 ||| byte 1 <<< 8 ||| byte 2 <<< 16 ||| byte 3 <<< 24) >>> shift &&& of mask

/-- `fexpand`. -/
def fexpand (input : Vector UInt8 32) : Option Limbs :=
  defined 10 fun
    | 0 => expandLimb input 0 0 0x3ffffff
    | 1 => expandLimb input 3 2 0x1ffffff
    | 2 => expandLimb input 6 3 0x3ffffff
    | 3 => expandLimb input 9 5 0x1ffffff
    | 4 => expandLimb input 12 6 0x3ffffff
    | 5 => expandLimb input 16 0 0x1ffffff
    | 6 => expandLimb input 19 1 0x3ffffff
    | 7 => expandLimb input 22 3 0x1ffffff
    | 8 => expandLimb input 25 4 0x3ffffff
    | 9 => expandLimb input 28 6 0x1ffffff
    | _ => of 0

/-- `s32_eq`. -/
def s32Eq (a b : Int) : S32 :=
  let a : S32 := ~~~(of a ^^^ of b)
  let a := a &&& a <<< 16
  let a := a &&& a <<< 8
  let a := a &&& a <<< 4
  let a := a &&& a <<< 2
  let a := a &&& a <<< 1
  a >>> 31

/-- `s32_gte`. -/
def s32Gte (a b : Int) : S32 := ~~~((of a - of b) >>> 31)

/-- The bits of a limb in `fcontract`. -/
def limbBits (i : Nat) : Nat := if i % 2 = 1 then 25 else 26

/-- Its largest value. -/
def limbMask (i : Nat) : Int := if i % 2 = 1 then 0x1ffffff else 0x3ffffff

/-- A negative `input[i]` borrows from `input[j]`, where one is `factor`. -/
def borrow (factor : Int) (input : Limbs) (i j : Nat) : Option Limbs := do
  let mask ← (of (input i) >>> 31 : S32).toOption
  let carry ← (-((of (input i) &&& of mask) >>> limbBits i) : S32).toOption
  let rest ← (of (input i) + of carry <<< limbBits i : S32).toOption
  let next ← (of (input j) - of carry * of factor : S32).toOption
  return Function.update (Function.update input i rest) j next

/-- What is over the bits of `input[i]` goes to `input[j]`, where one is `factor`. -/
def carry (factor : Int) (input : Limbs) (i j : Nat) : Option Limbs := do
  let excess ← (of (input i) >>> limbBits i : S32).toOption
  let rest ← (of (input i) &&& of (limbMask i) : S32).toOption
  let next ← (of (input j) + of factor * of excess : S32).toOption
  return Function.update (Function.update input i rest) j next

/-- One pass over all limbs; 2²⁵⁵ is 19. -/
def pass (step : Int → Limbs → Nat → Nat → Option Limbs) (input : Limbs) : Option Limbs := do
  let input ← (List.range 9).foldlM (fun input i => step 1 input i (i + 1)) input
  step 19 input 9 0

/-- Whether `input` is at least 2²⁵⁵ - 19, as a mask. -/
def modulusMask (input : Limbs) : Option Int := do
  let mask ← (s32Gte (input 0) 0x3ffffed).toOption
  (List.range' 1 9).foldlM
    (fun mask i => (of mask &&& s32Eq (input i) (limbMask i) : S32).toOption) mask

/-- The shift of a limb in its first byte. -/
def byteShift : Nat → Nat
  | 1 => 2
  | 2 => 3
  | 3 => 5
  | 4 => 6
  | 6 => 1
  | 7 => 3
  | 8 => 4
  | 9 => 6
  | _ => 0

/-- `F` in `fcontract`: four bytes, of which the first may have been begun. -/
def contractLimb (output : Nat → UInt8) (input : Int) (s : Nat) : Option (Nat → UInt8) := do
  let b0 ← (of input &&& 0xff : S32).toOption
  let b1 ← (of input >>> 8 &&& 0xff : S32).toOption
  let b2 ← (of input >>> 16 &&& 0xff : S32).toOption
  let b3 ← (of input >>> 24 &&& 0xff : S32).toOption
  let output := Function.update output s (output s ||| UInt8.ofInt b0)
  let output := Function.update output (s + 1) (UInt8.ofInt b1)
  let output := Function.update output (s + 2) (UInt8.ofInt b2)
  return Function.update output (s + 3) (UInt8.ofInt b3)

/-- Where the bytes of the limbs begin. -/
def byteStart : List (Nat × Nat) :=
  [(0, 0), (1, 3), (2, 6), (3, 9), (4, 12), (5, 16), (6, 19), (7, 22), (8, 25), (9, 28)]

/-- `fcontract`. -/
def fcontract (output : Nat → UInt8) (inputLimbs : Limbs) : Option (Nat → UInt8) := do
  let input : Limbs := fun i => castTo 32 (inputLimbs i)
  let input ← pass borrow input
  let input ← pass borrow input
  let input ← borrow 1 input 0 1
  let input ← pass carry input
  let input ← pass carry input
  let mask ← modulusMask input
  let input ← defined 10 fun i =>
    (of (input i) - (of mask &&& of (if i = 0 then 0x3ffffed else limbMask i)) : S32)
  let input ← defined 10 fun i => (of (input i) <<< byteShift i : S32)
  let output := Function.update (Function.update output 0 0) 16 0
  byteStart.foldlM (fun output (i, s) => contractLimb output (input i) s) output

/-! ## Points -/

/-- A point and the next one, each as two coordinates. -/
structure Ladder where
  x : Limbs
  z : Limbs
  xprime : Limbs
  zprime : Limbs

/-- `fmonty`: the double of a point and the sum of the two. -/
def fmonty (q : Ladder) (qmqp : Limbs) : Option Ladder := do
  let origx := q.x
  let x ← fsum q.x q.z
  let z ← fdifference q.z origx
  let origxprime := q.xprime
  let xprime ← fsum q.xprime q.zprime
  let zprime ← fdifference q.zprime origxprime
  let xxprime ← fproduct xprime z
  let zzprime ← fproduct x zprime
  let xxprime ← freduceDegree xxprime
  let xxprime ← freduceCoefficients xxprime
  let zzprime ← freduceDegree zzprime
  let zzprime ← freduceCoefficients zzprime
  let origxprime := xxprime
  let xxprime ← fsum xxprime zzprime
  let zzprime ← fdifference zzprime origxprime
  let x3 ← fsquare xxprime
  let zzzprime ← fsquare zzprime
  let zzprime ← fproduct zzzprime qmqp
  let zzprime ← freduceDegree zzprime
  let z3 ← freduceCoefficients zzprime
  let xx ← fsquare x
  let zz ← fsquare z
  let x2 ← fproduct xx zz
  let x2 ← freduceDegree x2
  let x2 ← freduceCoefficients x2
  let zz ← fdifference zz xx
  let zzz ← fscalarProduct zz 121665
  let zzz ← freduceCoefficients zzz
  let zzz ← fsum zzz xx
  let z2 ← fproduct zz zzz
  let z2 ← freduceDegree z2
  let z2 ← freduceCoefficients z2
  return { x := x2, z := z2, xprime := x3, zprime := z3 }

/-- `swap_conditional`. -/
def swapConditional (a b : Limbs) (iswap : Int) : Option (Limbs × Limbs) := do
  let swap := castTo 32 (-iswap)
  let x (i : Nat) : S32 := of swap &&& (of (castTo 32 (a i)) ^^^ of (castTo 32 (b i)))
  let a' ← defined 10 fun i => of (castTo 32 (a i)) ^^^ x i
  let b' ← defined 10 fun i => of (castTo 32 (b i)) ^^^ x i
  return (a', b')

/-- The two points are exchanged for a bit 1. -/
def swapPoints (q : Ladder) (bit : Int) : Option Ladder := do
  let (x, xprime) ← swapConditional q.x q.xprime bit
  let (z, zprime) ← swapConditional q.z q.zprime bit
  return { x, z, xprime, zprime }

/-- The inner loop of `cmult`: the bits of a byte, highest first. -/
def multByte (q : Limbs) : Nat → UInt8 → Ladder → Option Ladder
  | 0, _, s => some s
  | n + 1, byte, s => do
      let bit := (byte >>> 7).toNat
      let s ← swapPoints s bit
      let s ← fmonty s q
      let s ← swapPoints s bit
      multByte q n (byte <<< 1) s

/-- `cmult`. -/
def cmult (n : Vector UInt8 32) (q : Limbs) : Option (Limbs × Limbs) := do
  let zero : Limbs := fun _ => 0
  let one : Limbs := fun i => if i = 0 then 1 else 0
  let s ← n.toList.reverse.foldlM (fun s byte => multByte q 8 byte s)
    { x := one, z := zero, xprime := q, zprime := one }
  return (s.x, s.z)

/-- `n` squarings. -/
def squareTimes : Nat → Limbs → Option Limbs
  | 0, t => some t
  | n + 1, t => do
      let t ← fsquare t
      squareTimes n t

/-- `crecip`. -/
def crecip (z : Limbs) : Option Limbs := do
  let z2 ← fsquare z
  let t ← squareTimes 2 z2
  let z9 ← fmul t z
  let z11 ← fmul z9 z2
  let t ← fsquare z11
  let z2_5_0 ← fmul t z9
  let t ← squareTimes 5 z2_5_0
  let z2_10_0 ← fmul t z2_5_0
  let t ← squareTimes 10 z2_10_0
  let z2_20_0 ← fmul t z2_10_0
  let t ← squareTimes 20 z2_20_0
  let t ← fmul t z2_20_0
  let t ← squareTimes 10 t
  let z2_50_0 ← fmul t z2_10_0
  let t ← squareTimes 50 z2_50_0
  let z2_100_0 ← fmul t z2_50_0
  let t ← squareTimes 100 z2_100_0
  let t ← fmul t z2_100_0
  let t ← squareTimes 50 t
  let t ← fmul t z2_50_0
  let t ← squareTimes 5 t
  fmul t z11

/-- The secret with three bits cleared and the highest but one set. -/
def clampSecret (secret : Vector UInt8 32) : Vector UInt8 32 :=
  let e := secret.setIfInBounds 0 (secret.get 0 &&& 248)
  let e := e.setIfInBounds 31 (e.get 31 &&& 127)
  e.setIfInBounds 31 (e.get 31 ||| 64)

/-- `curve25519_donna`; `mypublic` is what the buffer has before. -/
def curve25519Donna (mypublic : Nat → UInt8) (secret basepoint : Vector UInt8 32) :
    Option (Vector UInt8 32) := do
  let e := clampSecret secret
  let bp ← fexpand basepoint
  let (x, z) ← cmult e bp
  let zmone ← crecip z
  let z ← fmul x zmone
  let output ← fcontract mypublic z
  return Vector.ofFn fun i => output i

end OlmCurve25519
