import SelfOlm.Sha512
import SelfOlm.Account
import SelfOlm.Lib.LittleEndian

/-! # Ed25519

    `keypair.c`, `sign.c` and `verify.c` under `lib/ed25519`, over the
    operations of `ge.c`, which are gathered in `Ed25519Ops`.  `libEd25519` has
    these operations on field elements modulo `2 ^ 255 - 19`, without the windows
    and the limbs of the C code.

    The secret key of libsodium is the seed and the public key, and `crypto_sign`
    hashes the seed again; the private key of the bundled library is the hash
    itself. -/

namespace OlmEd25519

open ByteMemory OlmCrypto OlmAccount

/-- The hash and the point operations. -/
structure Ed25519Ops where
  sha512 : Bytes → Vector UInt8 64
  Point : Type
  /-- `ge_scalarmult_base`. -/
  scalarmultBase : Nat → Point
  /-- `ge_double_scalarmult_vartime(a, A, b)`: `a * A + b * B`. -/
  doubleScalarmult : Nat → Point → Nat → Point
  /-- `ge_p3_tobytes` and `ge_tobytes`. -/
  toBytes : Point → Vector UInt8 32
  /-- `ge_frombytes_negate_vartime`. -/
  fromBytesNegate : Vector UInt8 32 → Option Point

/-- The order of the base point, the modulus of `sc.c`. -/
def groupOrder : Nat := 2 ^ 252 + 27742317777372353535851937790883648493

variable (ops : Ed25519Ops)

/-- `private_key[0] &= 248; private_key[31] &= 63; private_key[31] |= 64;` -/
def clamp (privateKey : Vector UInt8 64) : Vector UInt8 64 :=
  (privateKey.set 0 (privateKey[0] &&& 248)).set 31 ((privateKey[31] &&& 63) ||| 64)

/-- The scalar in the first half of a private key. -/
def scalarOf (privateKey : Vector UInt8 64) : Nat :=
  LittleEndian.toNat (privateKey.toList.take 32)

/-- `ed25519_create_keypair`. -/
def ed25519CreateKeypair (seed : Vector UInt8 32) : Ed25519KeyPair where
  publicKey := ops.toBytes (ops.scalarmultBase (scalarOf (clamp (ops.sha512 seed.toList))))
  privateKey := clamp (ops.sha512 seed.toList)

/-- A hash that was reduced by `sc_reduce`. -/
def hashScalar (bs : Bytes) : Nat := LittleEndian.toNat (ops.sha512 bs).toList % groupOrder

/-- The commitment and the response of a signature, for the string that the
    nonce is hashed from, the public key in the challenge, and the scalar. -/
def signWith (nonceKey publicKey : Bytes) (scalar : Nat) (message : Bytes) : Vector UInt8 64 :=
  let r := hashScalar ops (nonceKey ++ message)
  let commitment := ops.toBytes (ops.scalarmultBase r)
  let hram := hashScalar ops (commitment.toList ++ publicKey ++ message)
  ofBytes 64 (commitment.toList ++ LittleEndian.ofNat 32 ((hram * scalar + r) % groupOrder))

/-- `ed25519_sign`. -/
def ed25519Sign (message : Bytes) (publicKey : Vector UInt8 32) (privateKey : Vector UInt8 64) :
    Vector UInt8 64 :=
  signWith ops (privateKey.toList.drop 32) publicKey.toList (scalarOf privateKey) message

/-- `ed25519_verify`. -/
def ed25519Verify (signature : Vector UInt8 64) (message : Bytes) (publicKey : Vector UInt8 32) :
    Bool :=
  if signature[63] &&& 224 ≠ 0 then false
  else
    match ops.fromBytesNegate publicKey with
    | none => false
    | some a =>
        let h := hashScalar ops (signature.toList.take 32 ++ publicKey.toList ++ message)
        let r := ops.doubleScalarmult h a (LittleEndian.toNat (signature.toList.drop 32))
        ops.toBytes r = ofBytes 32 signature.toList

/-- Primitives with this library for Ed25519. -/
def withEd25519 (prim : Primitives) : Primitives :=
  { prim with
    ed25519CreateKeypair := ed25519CreateKeypair ops
    ed25519Sign := ed25519Sign ops
    ed25519Verify := ed25519Verify ops }

/-- libsodium on the same curve: `crypto_sign_seed_keypair` stores the seed and
    the public key, `crypto_sign` hashes the first half of the secret key and
    takes the second half for the public key. -/
def sodiumEd25519 (skToCurve25519 : Vector UInt8 64 → Option (Vector UInt8 32))
    (pkToCurve25519 : Vector UInt8 32 → Option (Vector UInt8 32)) : Sodium where
  signSeedKeypair := fun seed =>
    let publicKey := (ed25519CreateKeypair ops seed).publicKey
    some (publicKey, ofBytes 64 (seed.toList ++ publicKey.toList))
  skToCurve25519
  pkToCurve25519
  sign := fun message secretKey =>
    let az := ops.sha512 (secretKey.toList.take 32)
    some ((signWith ops (az.toList.drop 32) (secretKey.toList.drop 32) (scalarOf (clamp az))
      message).toList ++ message)

/-! ## The field -/

def fieldPrime : Nat := 2 ^ 255 - 19

/-- A field element from its ten limbs. -/
def feOfLimbs (limbs : List Int) : Nat :=
  ((List.zipWith (fun limb bits => limb * 2 ^ bits) limbs
    [0, 26, 51, 77, 102, 128, 153, 179, 204, 230]).sum % (fieldPrime : Int)).toNat

def feAdd (f g : Nat) : Nat := (f + g) % fieldPrime
def feSub (f g : Nat) : Nat := (f + (fieldPrime - g)) % fieldPrime
def feMul (f g : Nat) : Nat := f * g % fieldPrime
def feNeg (f : Nat) : Nat := feSub 0 f
def feIsnegative (f : Nat) : Nat := f % 2

/-- Powers by repeated squaring, for exponents of at most `n` bits. -/
def fePow (f : Nat) : Nat → Nat → Nat
  | 0, _ => 1
  | n + 1, e =>
      if e = 0 then 1
      else
        let square := feMul (fePow f n (e / 2)) (fePow f n (e / 2))
        if e % 2 = 1 then feMul square f else square

def feInvert (f : Nat) : Nat := fePow f 255 (fieldPrime - 2)

/-- `d`, `sqrtm1` and `d2` of `ge.c`. -/
def edwardsD : Nat :=
  feOfLimbs [-10913610, 13857413, -15372611, 6949391, 114729, -8787816, -6275908, -3247719,
    -18696448, -12055116]
def sqrtm1 : Nat :=
  feOfLimbs [-32595792, -7943725, 9377950, 3500415, 12389472, -272473, -25146209, -2005654,
    326686, 11406482]
def edwardsD2 : Nat :=
  feOfLimbs [-21827239, -5839606, -30745221, 13898782, 229458, 15978800, -12551817, -6495438,
    29715968, 9444199]

/-! ## The curve -/

/-- `ge_p3`. -/
structure GeP3 where
  x : Nat
  y : Nat
  z : Nat
  t : Nat

/-- `ge_p3_0`. -/
def geP3Zero : GeP3 := { x := 0, y := 1, z := 1, t := 0 }

/-- `ge_add`. -/
def geAdd (p q : GeP3) : GeP3 :=
  let a := feMul (feAdd p.y p.x) (feAdd q.y q.x)
  let b := feMul (feSub p.y p.x) (feSub q.y q.x)
  let c := feMul (feMul q.t edwardsD2) p.t
  let d := feMul (feAdd p.z p.z) q.z
  let e := feSub a b
  let h := feAdd a b
  let g := feAdd d c
  let f := feSub d c
  { x := feMul e f, y := feMul h g, z := feMul g f, t := feMul e h }

/-- Multiples by doubling and adding, for scalars of at most `n` bits. -/
def geScalarmult (p : GeP3) : Nat → Nat → GeP3
  | 0, _ => geP3Zero
  | n + 1, scalar =>
      if scalar = 0 then geP3Zero
      else
        let q := geAdd (geScalarmult p n (scalar / 2)) (geScalarmult p n (scalar / 2))
        if scalar % 2 = 1 then geAdd q p else q

/-- The base point, from `y + x` and `y - x` in `precomp_data.h`. -/
def geBase : GeP3 :=
  let yplusx := feOfLimbs [25967493, -14356035, 29566456, 3660896, -12694345, 4014787, 27544626,
    -11754271, -6079156, 2047605]
  let yminusx := feOfLimbs [-12545711, 934262, -2722910, 3049990, -727428, 9406986, 12720692,
    5043384, 19500929, -15469378]
  let x := feMul (feSub yplusx yminusx) (feInvert 2)
  let y := feMul (feAdd yplusx yminusx) (feInvert 2)
  { x, y, z := 1, t := feMul x y }

/-- `ge_p3_tobytes`. -/
def geTobytes (p : GeP3) : Vector UInt8 32 :=
  let recip := feInvert p.z
  ofBytes 32 (LittleEndian.ofNat 32
    (feMul p.y recip + 2 ^ 255 * feIsnegative (feMul p.x recip)))

/-- `ge_frombytes_negate_vartime`. -/
def geFrombytesNegate (s : Vector UInt8 32) : Option GeP3 :=
  let y := LittleEndian.toNat s.toList % 2 ^ 255 % fieldPrime
  let u := feSub (feMul y y) 1
  let v := feAdd (feMul (feMul y y) edwardsD) 1
  let v3 := feMul (feMul v v) v
  let uv7 := feMul (feMul (feMul v3 v3) v) u
  let x := feMul (feMul (fePow uv7 255 ((fieldPrime - 5) / 8)) v3) u
  let vxx := feMul (feMul x x) v
  let root := if vxx = u then some x else if vxx = feNeg u then some (feMul x sqrtm1) else none
  root.map (fun x =>
    let x := if feIsnegative x = (s[31] >>> 7).toNat then feNeg x else x
    { x, y, z := 1, t := feMul x y })

/-- The bundled library. -/
def libEd25519 : Ed25519Ops where
  sha512 := sha512
  Point := GeP3
  scalarmultBase := geScalarmult geBase 256
  doubleScalarmult := fun a p b => geAdd (geScalarmult p 256 a) (geScalarmult geBase 256 b)
  toBytes := geTobytes
  fromBytesNegate := geFrombytesNegate

end OlmEd25519
