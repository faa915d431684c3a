import SelfOlm.Crypto

/-! # SHA-512

    `lib/ed25519/src/sha512.c`: the hash that key generation and signatures
    use.  Words are of 64 bits; the schedule is a window of sixteen words. -/

namespace OlmEd25519

open ByteMemory OlmCrypto

/-- `K`. -/
def sha512K : List UInt64 := [
  0x428a2f98d728ae22, 0x7137449123ef65cd, 0xb5c0fbcfec4d3b2f, 0xe9b5dba58189dbbc,
  0x3956c25bf348b538, 0x59f111f1b605d019, 0x923f82a4af194f9b, 0xab1c5ed5da6d8118,
  0xd807aa98a3030242, 0x12835b0145706fbe, 0x243185be4ee4b28c, 0x550c7dc3d5ffb4e2,
  0x72be5d74f27b896f, 0x80deb1fe3b1696b1, 0x9bdc06a725c71235, 0xc19bf174cf692694,
  0xe49b69c19ef14ad2, 0xefbe4786384f25e3, 0x0fc19dc68b8cd5b5, 0x240ca1cc77ac9c65,
  0x2de92c6f592b0275, 0x4a7484aa6ea6e483, 0x5cb0a9dcbd41fbd4, 0x76f988da831153b5,
  0x983e5152ee66dfab, 0xa831c66d2db43210, 0xb00327c898fb213f, 0xbf597fc7beef0ee4,
  0xc6e00bf33da88fc2, 0xd5a79147930aa725, 0x06ca6351e003826f, 0x142929670a0e6e70,
  0x27b70a8546d22ffc, 0x2e1b21385c26c926, 0x4d2c6dfc5ac42aed, 0x53380d139d95b3df,
  0x650a73548baf63de, 0x766a0abb3c77b2a8, 0x81c2c92e47edaee6, 0x92722c851482353b,
  0xa2bfe8a14cf10364, 0xa81a664bbc423001, 0xc24b8b70d0f89791, 0xc76c51a30654be30,
  0xd192e819d6ef5218, 0xd69906245565a910, 0xf40e35855771202a, 0x106aa07032bbd1b8,
  0x19a4c116b8d2d0c8, 0x1e376c085141ab53, 0x2748774cdf8eeb99, 0x34b0bcb5e19b48a8,
  0x391c0cb3c5c95a63, 0x4ed8aa4ae3418acb, 0x5b9cca4f7763e373, 0x682e6ff3d6b2b8a3,
  0x748f82ee5defb2fc, 0x78a5636f43172f60, 0x84c87814a1f0ab72, 0x8cc702081a6439ec,
  0x90befffa23631e28, 0xa4506cebde82bde9, 0xbef9a3f7b2c67915, 0xc67178f2e372532b,
  0xca273eceea26619c, 0xd186b8c721c0c207, 0xeada7dd6cde0eb1e, 0xf57d4f7fee6ed178,
  0x06f067aa72176fba, 0x0a637dc5a2c898a6, 0x113f9804bef90dae, 0x1b710b35131c471b,
  0x28db77f523047d84, 0x32caab7b40c72493, 0x3c9ebe0a15c9bebc, 0x431d67c49c100d4c,
  0x4cc5d4becb3e42b6, 0x597f299cfc657e2a, 0x5fcb6fab3ad6faec, 0x6c44198c4a475817]

/-- `ROR64c`. -/
def ror64c (x y : UInt64) : UInt64 := (x >>> y) ||| (x <<< (64 - y))

def ch (x y z : UInt64) : UInt64 := z ^^^ (x &&& (y ^^^ z))
def maj (x y z : UInt64) : UInt64 := ((x ||| y) &&& z) ||| (x &&& y)

/-- `Sigma0`, `Sigma1`, `Gamma0` and `Gamma1`. -/
def bigSigma0 (x : UInt64) : UInt64 := ror64c x 28 ^^^ ror64c x 34 ^^^ ror64c x 39
def bigSigma1 (x : UInt64) : UInt64 := ror64c x 14 ^^^ ror64c x 18 ^^^ ror64c x 41
def gamma0 (x : UInt64) : UInt64 := ror64c x 1 ^^^ ror64c x 8 ^^^ (x >>> 7)
def gamma1 (x : UInt64) : UInt64 := ror64c x 19 ^^^ ror64c x 61 ^^^ (x >>> 6)

/-- `LOAD64H`. -/
def load64H (bs : Bytes) : UInt64 :=
  (bs.take 8).foldl (fun x b => (x <<< 8) ||| b.toUInt64) 0

/-- `STORE64H`. -/
def store64H (x : UInt64) : Bytes :=
  [(x >>> 56).toUInt8, (x >>> 48).toUInt8, (x >>> 40).toUInt8, (x >>> 32).toUInt8,
    (x >>> 24).toUInt8, (x >>> 16).toUInt8, (x >>> 8).toUInt8, x.toUInt8]

/-- The eight words of a state. -/
structure Sha512State where
  a : UInt64
  b : UInt64
  c : UInt64
  d : UInt64
  e : UInt64
  f : UInt64
  g : UInt64
  h : UInt64

/-- `RND`, with the words renamed for the next round. -/
def sha512Round (s : Sha512State) (k w : UInt64) : Sha512State :=
  let t0 := s.h + bigSigma1 s.e + ch s.e s.f s.g + k + w
  let t1 := bigSigma0 s.a + maj s.a s.b s.c
  { a := t0 + t1, b := s.a, c := s.b, d := s.c, e := s.d + t0, f := s.e, g := s.f, h := s.g }

/-- The rounds; `w` holds the next sixteen words of the schedule. -/
def sha512Rounds : List UInt64 → Sha512State → List UInt64 → Sha512State
  | [], s, _ => s
  | k :: ks, s, w =>
      sha512Rounds ks (sha512Round s k (w.getD 0 0))
        (w.tail ++ [gamma1 (w.getD 14 0) + w.getD 9 0 + gamma0 (w.getD 1 0) + w.getD 0 0])

/-- The first `n` words of a block. -/
def loadWords : Nat → Bytes → List UInt64
  | 0, _ => []
  | n + 1, bs => load64H bs :: loadWords n (bs.drop 8)

/-- `sha512_compress`. -/
def sha512Compress (s : Sha512State) (block : Bytes) : Sha512State :=
  let r := sha512Rounds sha512K s (loadWords 16 block)
  { a := s.a + r.a, b := s.b + r.b, c := s.c + r.c, d := s.d + r.d
    e := s.e + r.e, f := s.f + r.f, g := s.g + r.g, h := s.h + r.h }

/-- `sha512_init`. -/
def sha512Init : Sha512State where
  a := 0x6a09e667f3bcc908
  b := 0xbb67ae8584caa73b
  c := 0x3c6ef372fe94f82b
  d := 0xa54ff53a5f1d36f1
  e := 0x510e527fade682d1
  f := 0x9b05688c2b3e6c1f
  g := 0x1f83d9abfb41bd6b
  h := 0x5be0cd19137e2179

/-- `sha512_update` on whole blocks of 128 bytes. -/
def sha512Blocks : Nat → Sha512State → Bytes → Sha512State
  | 0, s, _ => s
  | n + 1, s, bs => sha512Blocks n (sha512Compress s (bs.take 128)) (bs.drop 128)

/-- What `sha512_final` puts behind a message. -/
def sha512Padding (messageLength : Nat) : Bytes :=
  let curlen := messageLength % 128 + 1
  0x80 :: (List.replicate (if curlen > 112 then 128 - curlen + 120 else 120 - curlen) 0
    ++ store64H (UInt64.ofNat (8 * messageLength)))

/-- `sha512`. -/
def sha512 (message : Bytes) : Vector UInt8 64 :=
  let padded := message ++ sha512Padding message.length
  let s := sha512Blocks (padded.length / 128) sha512Init padded
  ofBytes 64 (store64H s.a ++ store64H s.b ++ store64H s.c ++ store64H s.d
    ++ store64H s.e ++ store64H s.f ++ store64H s.g ++ store64H s.h)

/-- The digest of `abc` begins with these bytes. -/
example : (sha512 (ascii "abc")).toList.take 4 = [0xdd, 0xaf, 0x35, 0xa1] := by decide +kernel

end OlmEd25519
