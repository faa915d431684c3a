import SelfOlm.HkdfProofs
import SelfOlm.Lib.BlockStream

/-! # SHA-256

    `lib/crypto-algorithms/sha256.c` with its context: up to 63 bytes wait in `data`,
    and `bitlen` counts the bits of the blocks before them.  `sha256_update` counts its
    bytes in a `WORD`, so that a call with 2³² bytes or more never comes to an end.
    Behind it are the functions of `crypto.cpp` on these contexts. -/

namespace OlmSha256

open ByteMemory OlmCrypto BlockStream

/-- `k`. -/
def k : List UInt32 := [
  0x428a2f98, 0x71374491, 0xb5c0fbcf, 0xe9b5dba5, 0x3956c25b, 0x59f111f1, 0x923f82a4, 0xab1c5ed5,
  0xd807aa98, 0x12835b01, 0x243185be, 0x550c7dc3, 0x72be5d74, 0x80deb1fe, 0x9bdc06a7, 0xc19bf174,
  0xe49b69c1, 0xefbe4786, 0x0fc19dc6, 0x240ca1cc, 0x2de92c6f, 0x4a7484aa, 0x5cb0a9dc, 0x76f988da,
  0x983e5152, 0xa831c66d, 0xb00327c8, 0xbf597fc7, 0xc6e00bf3, 0xd5a79147, 0x06ca6351, 0x14292967,
  0x27b70a85, 0x2e1b2138, 0x4d2c6dfc, 0x53380d13, 0x650a7354, 0x766a0abb, 0x81c2c92e, 0x92722c85,
  0xa2bfe8a1, 0xa81a664b, 0xc24b8b70, 0xc76c51a3, 0xd192e819, 0xd6990624, 0xf40e3585, 0x106aa070,
  0x19a4c116, 0x1e376c08, 0x2748774c, 0x34b0bcb5, 0x391c0cb3, 0x4ed8aa4a, 0x5b9cca4f, 0x682e6ff3,
  0x748f82ee, 0x78a5636f, 0x84c87814, 0x8cc70208, 0x90befffa, 0xa4506ceb, 0xbef9a3f7, 0xc67178f2]

/-- `ROTRIGHT`. -/
def rotright (a b : UInt32) : UInt32 := (a >>> b) ||| (a <<< (32 - b))

def ch (x y z : UInt32) : UInt32 := (x &&& y) ^^^ (~~~x &&& z)
def maj (x y z : UInt32) : UInt32 := (x &&& y) ^^^ (x &&& z) ^^^ (y &&& z)
def ep0 (x : UInt32) : UInt32 := rotright x 2 ^^^ rotright x 13 ^^^ rotright x 22
def ep1 (x : UInt32) : UInt32 := rotright x 6 ^^^ rotright x 11 ^^^ rotright x 25
def sig0 (x : UInt32) : UInt32 := rotright x 7 ^^^ rotright x 18 ^^^ (x >>> 3)
def sig1 (x : UInt32) : UInt32 := rotright x 17 ^^^ rotright x 19 ^^^ (x >>> 10)

/-- The eight words of a state. -/
structure Sha256State where
  a : UInt32
  b : UInt32
  c : UInt32
  d : UInt32
  e : UInt32
  f : UInt32
  g : UInt32
  h : UInt32

/-- The loop behind the first sixteen words of `m`, `n` times. -/
def extendWords : Nat → List UInt32 → List UInt32
  | 0, m => m
  | n + 1, m =>
      let i := m.length
      extendWords n (m ++
        [sig1 (m.getD (i - 2) 0) + m.getD (i - 7) 0 + sig0 (m.getD (i - 15) 0) + m.getD (i - 16) 0])

/-- One pass of the last loop. -/
def sha256Round (s : Sha256State) (k m : UInt32) : Sha256State :=
  let t1 := s.h + ep1 s.e + ch s.e s.f s.g + k + m
  let t2 := ep0 s.a + maj s.a s.b s.c
  { a := t1 + t2, b := s.a, c := s.b, d := s.c, e := s.d + t1, f := s.e, g := s.f, h := s.g }

/-- `sha256_transform` on the state of the context. -/
def sha256Transform (state : Sha256State) (data : Bytes) : Sha256State :=
  let first := (List.range 16).map (fun i =>
    ((data.getD (4 * i) 0).toUInt32 <<< 24) ||| ((data.getD (4 * i + 1) 0).toUInt32 <<< 16)
      ||| ((data.getD (4 * i + 2) 0).toUInt32 <<< 8) ||| (data.getD (4 * i + 3) 0).toUInt32)
  let m := extendWords 48 first
  let s := (k.zip m).foldl (fun s km => sha256Round s km.1 km.2) state
  { a := state.a + s.a, b := state.b + s.b, c := state.c + s.c, d := state.d + s.d
    e := state.e + s.e, f := state.f + s.f, g := state.g + s.g, h := state.h + s.h }

/-! ## The context -/

/-- `SHA256_CTX`. -/
structure Sha256Ctx where
  data : Vector UInt8 64
  datalen : UInt32
  bitlen : UInt64
  state : Sha256State

/-- The state that `sha256_init` sets. -/
def initialState : Sha256State where
  a := 0x6a09e667
  b := 0xbb67ae85
  c := 0x3c6ef372
  d := 0xa54ff53a
  e := 0x510e527f
  f := 0x9b05688c
  g := 0x1f83d9ab
  h := 0x5be0cd19

/-- `sha256_init`: `data` is left as it is. -/
def sha256Init (ctx : Sha256Ctx) : Sha256Ctx :=
  { ctx with datalen := 0, bitlen := 0, state := initialState }

/-- The body of the loop of `sha256_update`. -/
def updateByte (ctx : Sha256Ctx) (b : UInt8) : Sha256Ctx :=
  let ctx := { ctx with
    data := ctx.data.setIfInBounds ctx.datalen.toNat b, datalen := ctx.datalen + 1 }
  if ctx.datalen = 64 then
    { ctx with
      state := sha256Transform ctx.state ctx.data.toList
      bitlen := ctx.bitlen + 512
      datalen := 0 }
  else ctx

/-- The loop of `sha256_update` from `i` on; `none` where it is not through after as
    many passes. -/
def updateLoop (input : Bytes) : Nat → UInt32 → Sha256Ctx → Option Sha256Ctx
  | 0, _, _ => none
  | passes + 1, i, ctx =>
      if i.toNat < input.length then
        updateLoop input passes (i + 1) (updateByte ctx (input.getD i.toNat 0))
      else some ctx

/-- `sha256_update`: a loop that ends needs a pass for every byte, and one to see that
    there are no more. -/
def sha256Update (ctx : Sha256Ctx) (input : Bytes) : Option Sha256Ctx :=
  updateLoop input (input.length + 1) 0 ctx

/-- The bytes of `bitlen` from `data[56]` on. -/
def bitlenBytes (bitlen : UInt64) : Bytes :=
  [(bitlen >>> 56).toUInt8, (bitlen >>> 48).toUInt8, (bitlen >>> 40).toUInt8,
    (bitlen >>> 32).toUInt8, (bitlen >>> 24).toUInt8, (bitlen >>> 16).toUInt8,
    (bitlen >>> 8).toUInt8, bitlen.toUInt8]

/-- A word of the state in `hash`. -/
def wordBytes (x : UInt32) : Bytes :=
  [(x >>> 24).toUInt8, (x >>> 16).toUInt8, (x >>> 8).toUInt8, x.toUInt8]

/-- `hash`, from the state. -/
def hashOf (s : Sha256State) : Vector UInt8 32 :=
  ofBytes 32 (wordBytes s.a ++ wordBytes s.b ++ wordBytes s.c ++ wordBytes s.d
    ++ wordBytes s.e ++ wordBytes s.f ++ wordBytes s.g ++ wordBytes s.h)

/-- `sha256_final`: the context that it leaves, and `hash`. -/
def sha256Final (ctx : Sha256Ctx) : Sha256Ctx × Vector UInt8 32 :=
  let i := ctx.datalen.toNat
  let ctx :=
    if ctx.datalen < 56 then
      { ctx with data := fill ctx.data i (0x80 :: List.replicate (55 - i) 0) }
    else
      let data := fill ctx.data i (0x80 :: List.replicate (63 - i) 0)
      { ctx with
        state := sha256Transform ctx.state data.toList
        data := fill data 0 (List.replicate 56 0) }
  let bitlen := ctx.bitlen + (ctx.datalen * 8).toUInt64
  let data := fill ctx.data 56 (bitlenBytes bitlen)
  let state := sha256Transform ctx.state data.toList
  ({ ctx with data := data, bitlen := bitlen, state := state }, hashOf state)

/-! ## The hash of a message -/

/-- What is put behind a message: a one, zeros up to eight bytes before the end of a
    block, and the number of bits. -/
def sha256Padding (messageLength : Nat) : Bytes :=
  0x80 :: (List.replicate ((119 - messageLength % 64) % 64) 0
    ++ bitlenBytes (UInt64.ofNat (8 * messageLength)))

/-- SHA-256 of a whole message. -/
def sha256 (message : Bytes) : Vector UInt8 32 :=
  let padded := message ++ sha256Padding message.length
  hashOf (absorb 64 sha256Transform (padded.length / 64) initialState padded)

/-- The primitives with the hash that is computed here. -/
def withSha256 (prim : Primitives) : Primitives := { prim with sha256 := sha256 }

/-! ## The functions of `crypto.cpp` -/

/-- `_olm_crypto_sha256`; `context` is the uninitialised one on the stack. -/
def cryptoSha256 (context : Sha256Ctx) (input : Bytes) : Option (Vector UInt8 32) := do
  let context ← sha256Update (sha256Init context) input
  return (sha256Final context).2

/-- `hmac_sha256_key`. -/
def hmacSha256Key (context : Sha256Ctx) (inputKey : Bytes) : Option Bytes := do
  if inputKey.length > 64 then
    let context ← sha256Update (sha256Init context) inputKey
    return (sha256Final context).2.toList ++ List.replicate 32 0
  else
    return inputKey ++ List.replicate (64 - inputKey.length) 0

/-- `hmac_sha256_init`. -/
def hmacSha256Init (context : Sha256Ctx) (hmacKey : Bytes) : Option Sha256Ctx :=
  let iPad := hmacKey.map (· ^^^ 0x36)
  sha256Update (sha256Init context) iPad

/-- `hmac_sha256_final`: the context that it leaves, and the output. -/
def hmacSha256Final (context finalContext : Sha256Ctx) (hmacKey : Bytes) :
    Option (Sha256Ctx × Vector UInt8 32) := do
  let (context, inner) := sha256Final context
  let oPad := hmacKey.map (· ^^^ 0x5C) ++ inner.toList
  let finalContext ← sha256Update (sha256Init finalContext) oPad
  return (context, (sha256Final finalContext).2)

/-- `_olm_crypto_hmac_sha256`; the contexts are what lies on the stack. -/
def cryptoHmacSha256 (context finalContext : Sha256Ctx) (key input : Bytes) :
    Option (Vector UInt8 32) := do
  let hmacKey ← hmacSha256Key context key
  let context ← hmacSha256Init context hmacKey
  let context ← sha256Update context input
  let (_, output) ← hmacSha256Final context finalContext hmacKey
  return output

/-- The `while` loop of `_olm_crypto_hkdf_sha256` and the copy after it. -/
def hkdfLoop (finalContext : Sha256Ctx) (hmacKey info : Bytes) (m : Mem) (output : Nat)
    (context : Sha256Ctx) (stepResult : Vector UInt8 32) (iteration : UInt8)
    (bytesRemaining : Nat) : Option Mem :=
  if bytesRemaining > 32 then do
    let m := store m output stepResult
    let iteration := iteration + 1
    let context ← hmacSha256Init context hmacKey
    let context ← sha256Update context stepResult.toList
    let context ← sha256Update context info
    let context ← sha256Update context [iteration]
    let (context, stepResult) ← hmacSha256Final context finalContext hmacKey
    hkdfLoop finalContext hmacKey info m (output + 32) context stepResult iteration
      (bytesRemaining - 32)
  else some (write m output (stepResult.toList.take bytesRemaining))
termination_by bytesRemaining

/-- `_olm_crypto_hkdf_sha256`: memory with the result at `output`; `none` is the null
    salt. -/
def cryptoHkdfSha256 (context finalContext : Sha256Ctx) (input : Bytes) (salt : Option Bytes)
    (info : Bytes) (m : Mem) (output outputLength : Nat) : Option Mem := do
  let iteration : UInt8 := 1
  let salt := salt.getD (List.replicate 32 0)
  -- extract
  let hmacKey ← hmacSha256Key context salt
  let context ← hmacSha256Init context hmacKey
  let context ← sha256Update context input
  let (context, stepResult) ← hmacSha256Final context finalContext hmacKey
  let hmacKey ← hmacSha256Key context stepResult.toList
  -- expand
  let context ← hmacSha256Init context hmacKey
  let context ← sha256Update context info
  let context ← sha256Update context [iteration]
  let (context, stepResult) ← hmacSha256Final context finalContext hmacKey
  hkdfLoop finalContext hmacKey info m output context stepResult iteration outputLength

/-- The digest of `abc` begins with these bytes. -/
example : (sha256 (ascii "abc")).toList.take 4 = [0xba, 0x78, 0x16, 0xbf] := by decide +kernel

end OlmSha256
