import SelfOlm.Ed25519
import SelfOlm.Lib.Schnorr

/-! # When a signature verifies

    `Represents` says that the point operations compute in a group whose base
    has the order of `sc.c`.  Under it, verification is the Schnorr equation: a
    signature is accepted exactly when challenge times scalar agree on both
    sides, which they do when signer and verifier hash the same public key and
    the signer uses the scalar of that key. -/

namespace OlmEd25519

open ByteMemory OlmCrypto

variable (ops : Ed25519Ops)

/-- The points stand for elements of a group that `B` generates. -/
structure Ed25519Ops.Represents {G : Type} [AddCommGroup G] (ops : Ed25519Ops) (B : G)
    (rep : ops.Point → G → Prop) : Prop where
  order : addOrderOf B = groupOrder
  scalarmultBase : ∀ n, n < 2 ^ 255 → rep (ops.scalarmultBase n) (n • B)
  doubleScalarmult : ∀ {a b : Nat} {p : ops.Point} {g : G}, a < 2 ^ 253 → b < 2 ^ 253 → rep p g →
    rep (ops.doubleScalarmult a p b) (a • g + b • B)
  toBytes : ∀ {p q : ops.Point} {g h : G}, rep p g → rep q h →
    (ops.toBytes p = ops.toBytes q ↔ g = h)
  fromBytesNegate : ∀ {p : ops.Point} {g : G}, rep p g →
    ∃ q, ops.fromBytesNegate (ops.toBytes p) = some q ∧ rep q (-g)

/-! ## Scalars -/

theorem groupOrder_lt : groupOrder < 2 ^ 253 := by decide

theorem groupOrder_pos : 0 < groupOrder := by decide

theorem hashScalar_lt (bs : Bytes) : hashScalar ops bs < groupOrder := Nat.mod_lt _ groupOrder_pos

/-- A clamped byte 31 has its top bit clear. -/
theorem clampTop_lt (b : UInt8) : ((b &&& 63) ||| 64).toNat < 128 := by
  have h : (b &&& 63).toNat < 2 ^ 6 := by
    rw [UInt8.toNat_and]
    exact Nat.and_lt_two_pow _ (by decide)
  rw [UInt8.toNat_or]
  exact Nat.or_lt_two_pow (n := 7) (by omega) (by decide)

/-- A clamped scalar fits the precondition of `ge_scalarmult_base`. -/
theorem scalarOf_clamp_lt (privateKey : Vector UInt8 64) :
    scalarOf (clamp privateKey) < 2 ^ 255 := by
  have hlen : (clamp privateKey).toList.length = 64 := Vector.length_toList
  have h31 : 31 < (clamp privateKey).toList.length := by omega
  have htop : (clamp privateKey).toList[31] = (privateKey[31] &&& 63) ||| 64 := by
    rw [Vector.getElem_toList]
    exact Vector.getElem_set_self _
  have hsplit : (clamp privateKey).toList.take 32
      = (clamp privateKey).toList.take 31 ++ [(privateKey[31] &&& 63) ||| 64] := by
    rw [← htop, List.take_concat_get']
  have hlow := LittleEndian.toNat_lt ((clamp privateKey).toList.take 31)
  have hhigh := clampTop_lt privateKey[31]
  have hlen31 : ((clamp privateKey).toList.take 31).length = 31 := by
    rw [List.length_take, hlen]
    rfl
  rw [scalarOf, hsplit, LittleEndian.toNat_append, hlen31, LittleEndian.toNat_cons]
  rw [hlen31] at hlow
  show _ + 256 ^ 31 * (_ + 256 * 0) < _
  generalize ((privateKey[31] &&& 63) ||| 64).toNat = top at hhigh
  omega

/-! ## Signatures as bytes -/

/-- The commitment of a signature. -/
def commitmentOf (nonceKey message : Bytes) : Vector UInt8 32 :=
  ops.toBytes (ops.scalarmultBase (hashScalar ops (nonceKey ++ message)))

/-- The challenge of a signature, for the public key that is hashed. -/
def challengeOf (nonceKey publicKey message : Bytes) : Nat :=
  hashScalar ops ((commitmentOf ops nonceKey message).toList ++ publicKey ++ message)

/-- The response of a signature. -/
def responseOf (nonceKey publicKey : Bytes) (scalar : Nat) (message : Bytes) : Nat :=
  Schnorr.response groupOrder (challengeOf ops nonceKey publicKey message) scalar
    (hashScalar ops (nonceKey ++ message))

theorem responseOf_lt (nonceKey publicKey : Bytes) (scalar : Nat) (message : Bytes) :
    responseOf ops nonceKey publicKey scalar message < 2 ^ 253 :=
  Nat.lt_trans (Nat.mod_lt _ groupOrder_pos) groupOrder_lt

theorem signWith_toList (nonceKey publicKey : Bytes) (scalar : Nat) (message : Bytes) :
    (signWith ops nonceKey publicKey scalar message).toList
      = (commitmentOf ops nonceKey message).toList
        ++ LittleEndian.ofNat 32 (responseOf ops nonceKey publicKey scalar message) := by
  have hlen : ((commitmentOf ops nonceKey message).toList
      ++ LittleEndian.ofNat 32 (responseOf ops nonceKey publicKey scalar message)).length
      = 64 := by
    rw [List.length_append, Vector.length_toList, LittleEndian.length_ofNat]
  exact toList_ofBytes hlen

/-- The bits that `ed25519_verify` tests are clear in a reduced response. -/
theorem signWith_top (nonceKey publicKey : Bytes) (scalar : Nat) (message : Bytes)
    (hlast : 63 < 64) : (signWith ops nonceKey publicKey scalar message)[63] &&& 224 = 0 := by
  have hlt := responseOf_lt ops nonceKey publicKey scalar message
  have hget : (signWith ops nonceKey publicKey scalar message)[63]
      = UInt8.ofNat (responseOf ops nonceKey publicKey scalar message / 256 ^ 31) := by
    apply Option.some.inj
    rw [← LittleEndian.getElem?_ofNat _ (show 31 < 32 by decide), ← Vector.getElem_toList
      (by rw [Vector.length_toList]; decide), ← List.getElem?_eq_getElem, signWith_toList,
      List.getElem?_append_right (by rw [Vector.length_toList]; decide), Vector.length_toList]
  have hsmall : ∀ n, n < 32 → UInt8.ofNat n &&& 224 = 0 := by decide
  rw [hget]
  refine hsmall _ ?_
  rw [Nat.div_lt_iff_lt_mul (by decide)]
  exact hlt

/-! ## Verification -/

/-- **VERIFICATION** of a signature under the public key of `secret`. -/
theorem ed25519Verify_signWith_iff {G : Type} [AddCommGroup G] {B : G}
    {rep : ops.Point → G → Prop} (laws : ops.Represents B rep) {secret : Nat}
    (hsecret : secret < 2 ^ 255) (nonceKey publicKey : Bytes) (scalar : Nat) (message : Bytes) :
    ed25519Verify ops (signWith ops nonceKey publicKey scalar message) message
        (ops.toBytes (ops.scalarmultBase secret)) = true
      ↔ challengeOf ops nonceKey publicKey message * scalar
        ≡ challengeOf ops nonceKey (ops.toBytes (ops.scalarmultBase secret)).toList message * secret
          [MOD groupOrder] := by
  have hbound : ∀ bs, hashScalar ops bs < 2 ^ 253 := fun bs =>
    Nat.lt_trans (hashScalar_lt ops bs) groupOrder_lt
  have hresponse := responseOf_lt ops nonceKey publicKey scalar message
  have htake : (signWith ops nonceKey publicKey scalar message).toList.take 32
      = (commitmentOf ops nonceKey message).toList := by
    rw [signWith_toList]
    exact List.take_left' Vector.length_toList
  have hdrop : LittleEndian.toNat ((signWith ops nonceKey publicKey scalar message).toList.drop 32)
      = responseOf ops nonceKey publicKey scalar message := by
    rw [signWith_toList, List.drop_left' Vector.length_toList]
    exact LittleEndian.toNat_ofNat (Nat.lt_trans hresponse (by decide))
  have hcommitment : ofBytes 32 (signWith ops nonceKey publicKey scalar message).toList
      = commitmentOf ops nonceKey message := by
    rw [signWith_toList]
    exact ofBytes_append _ _
  obtain ⟨key, hkey, hrep⟩ := laws.fromBytesNegate (laws.scalarmultBase secret hsecret)
  have hnonce := laws.scalarmultBase (hashScalar ops (nonceKey ++ message))
    (Nat.lt_trans (hbound _) (by decide))
  rw [ed25519Verify,
    if_neg (not_not_intro (signWith_top ops nonceKey publicKey scalar message (by decide))), hkey]
  simp only
  rw [decide_eq_true_iff, htake, hdrop, hcommitment]
  -- the group equation behind the comparison of the two encodings
  rw [commitmentOf, laws.toBytes (laws.doubleScalarmult (hbound _) hresponse hrep) hnonce]
  have hschnorr := Schnorr.accepts_response_iff B
    (challengeOf ops nonceKey (ops.toBytes (ops.scalarmultBase secret)).toList message)
    (challengeOf ops nonceKey publicKey message) secret scalar
    (hashScalar ops (nonceKey ++ message))
  rw [laws.order] at hschnorr
  exact hschnorr

/-- Signatures of the bundled library verify. -/
theorem withEd25519_signVerifies {G : Type} [AddCommGroup G] {B : G}
    {rep : ops.Point → G → Prop} (laws : ops.Represents B rep) (prim : Primitives) :
    (withEd25519 ops prim).SignVerifies := by
  intro seed message
  exact (ed25519Verify_signWith_iff ops laws (scalarOf_clamp_lt _) _ _ _ message).mpr
    Nat.ModEq.rfl

/-! ## An instance

    The cyclic group of that order in place of the curve, with the same hash. -/

instance : NeZero groupOrder := ⟨by decide⟩

def cyclicEd25519 : Ed25519Ops where
  sha512 := sha512
  Point := ZMod groupOrder
  scalarmultBase := fun n => n
  doubleScalarmult := fun a p b => a * p + b
  toBytes := fun p => ofBytes 32 (LittleEndian.ofNat 32 p.val)
  fromBytesNegate := fun s => some (-(LittleEndian.toNat s.toList : ZMod groupOrder))

/-- An encoded element is read back. -/
theorem toNat_cyclicBytes (p : ZMod groupOrder) :
    LittleEndian.toNat (ofBytes 32 (LittleEndian.ofNat 32 p.val)).toList = p.val := by
  rw [toList_ofBytes (LittleEndian.length_ofNat 32 _)]
  exact LittleEndian.toNat_ofNat
    (Nat.lt_trans (Nat.lt_trans (ZMod.val_lt p) groupOrder_lt) (by decide))

theorem cyclicFromBytes (p : ZMod groupOrder) :
    some (-(LittleEndian.toNat (ofBytes 32 (LittleEndian.ofNat 32 p.val)).toList
      : ZMod groupOrder)) = some (-p) := by
  rw [toNat_cyclicBytes, ZMod.natCast_zmod_val]

theorem cyclicDoubleScalarmult (a b : Nat) (p : ZMod groupOrder) :
    (a : ZMod groupOrder) * p + (b : ZMod groupOrder) = a • p + b • (1 : ZMod groupOrder) := by
  rw [nsmul_eq_mul, nsmul_one]

theorem cyclicEd25519_represents :
    cyclicEd25519.Represents (1 : ZMod groupOrder) (fun p g => p = g) where
  order := ZMod.addOrderOf_one _
  scalarmultBase := fun n _ => (nsmul_one (A := ZMod groupOrder) n).symm
  doubleScalarmult := by
    intro a b p g _ _ h
    obtain rfl := h
    exact cyclicDoubleScalarmult a b p
  toBytes := by
    intro p q g h hp hq
    obtain rfl := hp
    obtain rfl := hq
    constructor
    · intro heq
      have hval := congrArg (fun v => LittleEndian.toNat v.toList) heq
      exact ZMod.val_injective _ ((toNat_cyclicBytes p).symm.trans
        (hval.trans (toNat_cyclicBytes q)))
    · intro heq
      rw [heq]
  fromBytesNegate := by
    intro p g h
    obtain rfl := h
    exact ⟨_, cyclicFromBytes p, rfl⟩

end OlmEd25519
