import Mathlib

/-! # Schnorr signatures in an additive group

    A key is `a • B`, a commitment `r • B`; the response to a challenge `h` is
    `h * a + r` modulo the order of `B`.  The verifier takes the negative of the
    key, as EdDSA verifiers do. -/

namespace Schnorr

variable {G : Type*} [AddCommGroup G]

/-- The verification equation for a key, a commitment, a challenge and a
    response. -/
def Accepts (B key commitment : G) (challenge response : Nat) : Prop :=
  challenge • (-key) + response • B = commitment

/-- The response of a signer. -/
def response (order challenge secret nonce : Nat) : Nat := (challenge * secret + nonce) % order

/-- **ACCEPTANCE**: a response to another challenge or with another secret is
    accepted exactly when the two products agree. -/
theorem accepts_response_iff (B : G) (challenge challenge' secret secret' nonce : Nat) :
    Accepts B (secret • B) (nonce • B) challenge
        (response (addOrderOf B) challenge' secret' nonce)
      ↔ challenge' * secret' ≡ challenge * secret [MOD addOrderOf B] := by
  rw [Accepts, response, mod_addOrderOf_nsmul, neg_nsmul, add_nsmul, ← mul_nsmul',
    neg_add_eq_iff_eq_add, add_left_inj]
  exact nsmul_eq_nsmul_iff_modEq

end Schnorr
