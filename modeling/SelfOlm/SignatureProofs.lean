import SelfOlm.Signature
import SelfOlm.Ed25519Proofs

/-! # Account signatures and the two private key layouts

    `Account::sign` hands the stored private key to `crypto_sign`.  For a derived
    account that key is what libsodium expects.  An account of
    `olm_create_account` holds the clamped hash of the seed instead: libsodium
    hashes its first half once more for the scalar, and puts its second half into
    the challenge in place of the public key. -/

namespace OlmAccount

open ByteMemory OlmCrypto OlmBase64 OlmEd25519
open OlmSession (b64OutputPos b64Output b64Input unset)

variable (ops : Ed25519Ops)

/-! ## The C interface -/

/-- The text that `olm_account_sign` leaves at `signature`. -/
theorem read_olmAccountSign (sodium : Sodium) {a : Account} {m : Mem}
    {message messageLength signature signatureLen : Nat} {raw : Vector UInt8 64}
    {rest : Bytes}
    (hsign : sodium.sign (read m message messageLength) a.identityKeys.ed25519Key.privateKey
      = some (raw.toList ++ rest))
    (hroom : encodeBase64Length signatureLength ≤ signatureLen) :
    (olmAccountSign sodium a m message messageLength signature signatureLen).2.2
        = some (encodeBase64Length signatureLength) ∧
      read (olmAccountSign sodium a m message messageLength signature signatureLen).1 signature
        (encodeBase64Length signatureLength) = base64.encode raw.toList := by
  have hlen : (base64.encode raw.toList).length = encodeBase64Length signatureLength := by
    rw [length_base64_encode, Vector.length_toList]
    rfl
  rw [olmAccountSign, if_neg (by omega), sign, if_neg (Nat.lt_irrefl _), hsign]
  simp only
  refine ⟨rfl, ?_⟩
  rw [b64Output, encodeBase64_eq _ _ _ _ (encodeSafe_tail signature signatureLength)]
  have hread : read (write m (b64OutputPos signature signatureLength) (raw.toList ++ rest))
      (b64OutputPos signature signatureLength) signatureLength = raw.toList := by
    have h := read_prefix (read_write_self m (b64OutputPos signature signatureLength)
      (raw.toList ++ rest))
    rwa [Vector.length_toList] at h
  rw [b64OutputPos] at hread
  simp only [b64OutputPos]
  rw [hread, ← hlen, read_write_self]

/-- `olm_ed25519_verify` on a published key and an encoded signature. -/
theorem olmEd25519Verify_eq (prim : Primitives) (lastError : OlmErrorCode) {m : Mem}
    {key message messageLength signature : Nat} {publicKey : Vector UInt8 32}
    {raw : Vector UInt8 64}
    (hkey : read m key (encodeBase64Length 32) = base64.encode publicKey.toList)
    (hsignature : read m signature (encodeBase64Length signatureLength)
      = base64.encode raw.toList)
    (hdisj : Disjoint message messageLength signature (encodeBase64Length signatureLength)) :
    (OlmUtility.olmEd25519Verify prim lastError m key (encodeBase64Length 32) message
        messageLength signature (encodeBase64Length signatureLength)).2.2
      = if cryptoEd25519Verify prim publicKey (read m message messageLength) raw then some 0
        else none := by
  have hraw : signatureLength = raw.toList.length := Vector.length_toList.symm
  have hle : raw.toList.length ≤ encodeBase64Length signatureLength := by
    rw [← hraw]
    decide
  have hdec : b64Input m signature (encodeBase64Length signatureLength)
      = (write m signature raw.toList, some signatureLength) := by
    rw [b64Input, decodeBase64Length_encode]
    simp only
    rw [hraw, decodeBase64_encode (by rw [← hraw]; exact hsignature) (Or.inl (Nat.le_refl _))]
  have hmessage : read (write m signature raw.toList) message messageLength
      = read m message messageLength := by
    refine read_write_disjoint m ?_
    rcases hdisj with h | h
    · right; omega
    · left; omega
  have hload : load 64 (write m signature raw.toList) signature = raw :=
    load_eq_of_read (by
      have h := read_write_self m signature raw.toList
      rwa [Vector.length_toList] at h)
  rw [OlmUtility.olmEd25519Verify, decodeBase64Length_encode,
    if_neg (by exact not_not_intro rfl), hkey,
    SextetCodec.decode_encode, ofBytes_toList, hdec]
  simp only
  rw [OlmUtility.ed25519Verify, if_neg (show ¬signatureLength < ed25519SignatureLength from
    Nat.lt_irrefl _), hmessage, hload]
  cases cryptoEd25519Verify prim publicKey (read m message messageLength) raw
  · rfl
  · rfl

/-- Where the Ed25519 key stands in the published identity keys. -/
theorem read_identityKeys {a : Account} {m m' : Mem} {a' : Account}
    {identityKeys identityKeyLength n : Nat}
    (h : olmAccountIdentityKeys a m identityKeys identityKeyLength = (m', a', some n)) :
    read m' (identityKeys + 71) (encodeBase64Length 32)
      = base64.encode a.identityKeys.ed25519Key.publicKey.toList := by
  by_cases hroom : identityKeyLength < getIdentityJsonLength
  · rw [olmAccountIdentityKeys, if_pos hroom] at h
    exact absurd (Prod.mk.inj (Prod.mk.inj h).2).2 (by simp)
  rw [olmAccountIdentityKeys, if_neg hroom, Prod.mk.injEq] at h
  obtain ⟨rfl, -⟩ := h
  have hcurve : (base64.encode a.identityKeys.curve25519Key.publicKey.toList).length = 43 := by
    rw [length_base64_encode, Vector.length_toList]
    rfl
  have hed : (base64.encode a.identityKeys.ed25519Key.publicKey.toList).length
      = encodeBase64Length 32 := by
    rw [length_base64_encode, Vector.length_toList]
  have hfront : (ascii "\x7b" ++ keyJsonCurve25519 ++ ascii "\""
      ++ base64.encode a.identityKeys.curve25519Key.publicKey.toList ++ ascii "\","
      ++ keyJsonEd25519 ++ ascii "\"").length = 71 := by
    rw [List.length_append, List.length_append, List.length_append, List.length_append, hcurve]
    decide
  rw [identityJson, List.append_assoc _ _ (ascii "\"\x7d")]
  rw [← hfront, ← hed]
  exact read_middle (read_write_self m identityKeys _)

/-! ## The two constructors -/

/-- The identity keys that the two constructors make from a seed; the flag says
    that the keys were derived by libsodium. -/
inductive Created (prim : Primitives) (sodium : Sodium) :
    Vector UInt8 32 → Bool → IdentityKeys → Prop
  | createAccount {a a' : Account} {m m' : Mem} {random randomLength n : Nat}
      (h : olmCreateAccount prim a m random randomLength = (m', a', some n)) :
      Created prim sodium (load 32 m random) false a'.identityKeys
  | createAccountDerrivedKeys {a a' : Account} {m m' : Mem} {random randomLength n : Nat}
      (h : olmCreateAccountDerrivedKeys sodium a m random randomLength = (m', a', some n)) :
      Created prim sodium (load 32 m random) true a'.identityKeys

theorem newAccount_ed25519Key (prim : Primitives) {a a' : Account} {m : Mem}
    {random randomLength n : Nat} (h : newAccount prim a m random randomLength = (a', some n)) :
    a'.identityKeys.ed25519Key = cryptoEd25519GenerateKey prim (load 32 m random) := by
  rw [newAccount] at h
  by_cases h1 : randomLength < newAccountRandomLength
  · rw [if_pos h1] at h
    exact absurd (Prod.mk.inj h).2 (by simp)
  · rw [if_neg h1, Prod.mk.injEq] at h
    obtain ⟨rfl, -⟩ := h
    rfl

theorem newAccountDerrivedKeys_ed25519Key (sodium : Sodium) {a a' : Account} {m : Mem}
    {random randomLength n : Nat}
    (h : newAccountDerrivedKeys sodium a m random randomLength = (a', some n)) :
    ∃ pk sk, sodium.signSeedKeypair (load 32 m random) = some (pk, sk) ∧
      a'.identityKeys.ed25519Key = { publicKey := pk, privateKey := sk } := by
  rw [newAccountDerrivedKeys] at h
  by_cases h1 : randomLength < 32
  · rw [if_pos h1] at h
    exact absurd (Prod.mk.inj h).2 (by simp)
  rw [if_neg h1] at h
  rcases hseed : sodium.signSeedKeypair (load 32 m random) with _ | ⟨pk, sk⟩
  · rw [hseed] at h
    exact absurd (Prod.mk.inj h).2 (by simp)
  rw [hseed] at h
  refine ⟨pk, sk, rfl, ?_⟩
  simp only at h
  rcases hsk : sodium.skToCurve25519 sk with _ | csk
  · rw [hsk] at h
    exact absurd (Prod.mk.inj h).2 (by simp)
  rcases hpk : sodium.pkToCurve25519 pk with _ | cpk
  · rw [hsk, hpk] at h
    exact absurd (Prod.mk.inj h).2 (by simp)
  rw [hsk, hpk, Prod.mk.injEq] at h
  obtain ⟨rfl, -⟩ := h
  rfl

/-- What `crypto_sign` signs with when it is given the key of an account of
    `olm_create_account`: the scalar is hashed from the stored key, and the
    challenge has the second half of that key for the public key.  The signature
    verifies when the two products of challenge and scalar happen to agree. -/
def LayoutsCoincide (seed : Vector UInt8 32) (message : Bytes) : Prop :=
  let stored := (ed25519CreateKeypair ops seed).privateKey
  let az := ops.sha512 (stored.toList.take 32)
  challengeOf ops (az.toList.drop 32) (stored.toList.drop 32) message * scalarOf (clamp az)
    ≡ challengeOf ops (az.toList.drop 32) (ed25519CreateKeypair ops seed).publicKey.toList message
        * scalarOf stored [MOD groupOrder]

/-- The signature of an account, and whether the bundled library accepts it. -/
theorem created_signature {G : Type} [AddCommGroup G] {ops : Ed25519Ops} {B : G}
    {rep : ops.Point → G → Prop} (laws : ops.Represents B rep) {prim : Primitives}
    {skToCurve25519 : Vector UInt8 64 → Option (Vector UInt8 32)}
    {pkToCurve25519 : Vector UInt8 32 → Option (Vector UInt8 32)} {seed : Vector UInt8 32}
    {derrived : Bool} {keys : IdentityKeys}
    (h : Created (withEd25519 ops prim) (sodiumEd25519 ops skToCurve25519 pkToCurve25519) seed
      derrived keys) (message : Bytes) :
    ∃ raw : Vector UInt8 64,
      (sodiumEd25519 ops skToCurve25519 pkToCurve25519).sign message keys.ed25519Key.privateKey
        = some (raw.toList ++ message) ∧
      (cryptoEd25519Verify (withEd25519 ops prim) keys.ed25519Key.publicKey message raw = true
        ↔ derrived = true ∨ LayoutsCoincide ops seed message) := by
  refine ⟨_, rfl, ?_⟩
  cases h with
  | @createAccount a a' m m' random randomLength n h =>
      rw [olmCreateAccount, Prod.mk.injEq] at h
      rw [newAccount_ed25519Key (withEd25519 ops prim) h.2]
      refine (ed25519Verify_signWith_iff ops laws (scalarOf_clamp_lt _) _ _ _ message).trans ?_
      constructor
      · intro hc
        exact Or.inr hc
      · intro hc
        exact hc.resolve_left (by simp)
  | @createAccountDerrivedKeys a a' m m' random randomLength n h =>
      rw [olmCreateAccountDerrivedKeys, Prod.mk.injEq] at h
      obtain ⟨pk, sk, hpk, hkeys⟩ := newAccountDerrivedKeys_ed25519Key
        (sodiumEd25519 ops skToCurve25519 pkToCurve25519) h.2
      obtain ⟨rfl, rfl⟩ := Prod.mk.inj (Option.some.inj hpk)
      rw [hkeys]
      refine iff_of_true ?_ (Or.inl rfl)
      -- the secret key splits into the seed and the public key
      have hsk : (ofBytes 64 ((load 32 m random).toList
          ++ (ed25519CreateKeypair ops (load 32 m random)).publicKey.toList)).toList
          = (load 32 m random).toList
            ++ (ed25519CreateKeypair ops (load 32 m random)).publicKey.toList :=
        toList_ofBytes (by rw [List.length_append, Vector.length_toList, Vector.length_toList])
      simp only [hsk]
      rw [List.take_left' Vector.length_toList, List.drop_left' Vector.length_toList]
      exact (ed25519Verify_signWith_iff ops laws (scalarOf_clamp_lt _) _ _ _ message).mpr
        Nat.ModEq.rfl

/-- **ACCOUNT SIGNATURES**: what `olm_account_sign` returns is accepted by
    `olm_ed25519_verify` under the published key for every derived account, and
    for an account of `olm_create_account` only where the two layouts coincide. -/
theorem olmAccountSign_verifies_iff {G : Type} [AddCommGroup G] {ops : Ed25519Ops} {B : G}
    {rep : ops.Point → G → Prop} (laws : ops.Represents B rep) {prim : Primitives}
    {skToCurve25519 : Vector UInt8 64 → Option (Vector UInt8 32)}
    {pkToCurve25519 : Vector UInt8 32 → Option (Vector UInt8 32)} {seed : Vector UInt8 32}
    {derrived : Bool} {a a' a'' : Account}
    (hcreated : Created (withEd25519 ops prim)
      (sodiumEd25519 ops skToCurve25519 pkToCurve25519) seed derrived a.identityKeys)
    {m m' : Mem} {message messageLength signature signatureLen n : Nat}
    (hsign : olmAccountSign (sodiumEd25519 ops skToCurve25519 pkToCurve25519) a m message
      messageLength signature signatureLen = (m', a', some n))
    {m₁ m₁' : Mem} {identityKeys identityKeyLength k : Nat}
    (hpublished : olmAccountIdentityKeys a m₁ identityKeys identityKeyLength
      = (m₁', a'', some k))
    (lastError : OlmErrorCode) {m₂ : Mem} {key message₂ signature₂ : Nat}
    (hkey : read m₂ key 43 = read m₁' (identityKeys + 71) 43)
    (hmessage : read m₂ message₂ messageLength = read m message messageLength)
    (hsignature : read m₂ signature₂ n = read m' signature n)
    (hdisj : Disjoint message₂ messageLength signature₂ n) :
    (OlmUtility.olmEd25519Verify (withEd25519 ops prim) lastError m₂ key 43 message₂
        messageLength signature₂ n).2.2 = some 0
      ↔ derrived = true ∨ LayoutsCoincide ops seed (read m message messageLength) := by
  obtain ⟨raw, hraw, hiff⟩ := created_signature laws hcreated (read m message messageLength)
  have hroom : encodeBase64Length signatureLength ≤ signatureLen := by
    by_contra hlt
    rw [olmAccountSign, if_pos (by omega)] at hsign
    exact absurd (Prod.mk.inj (Prod.mk.inj hsign).2).2 (by simp)
  obtain ⟨hn, htext⟩ := read_olmAccountSign _ hraw hroom
  rw [hsign] at hn htext
  obtain rfl := Option.some.inj hn
  rw [show (43 : Nat) = encodeBase64Length 32 from rfl] at hkey ⊢
  rw [olmEd25519Verify_eq (withEd25519 ops prim) lastError
    (hkey.trans (read_identityKeys hpublished)) (hsignature.trans htext) hdisj, hmessage, ← hiff]
  cases cryptoEd25519Verify (withEd25519 ops prim) a.identityKeys.ed25519Key.publicKey
    (read m message messageLength) raw
  · exact iff_of_false (by simp) (by simp)
  · exact iff_of_true rfl rfl

/-! ## Concrete accounts -/

/-- The message of the signing test at address 0. -/
def helloMemory : Mem := write (fun _ => 0) 0 (ascii "Hello, World")

/-- A signature of that message at 100, and a published key at 1000. -/
def checkMemory (signature key : Bytes) : Mem :=
  write (write helloMemory 100 signature) 1000 key

theorem read_helloMemory : read helloMemory 0 12 = ascii "Hello, World" := by decide

theorem read_checkMemory {signature key : Bytes} (hsignature : signature.length = 86)
    (hkey : key.length = 43) :
    read (checkMemory signature key) 0 12 = read helloMemory 0 12 ∧
    read (checkMemory signature key) 100 86 = signature ∧
    read (checkMemory signature key) 1000 43 = key := by
  refine ⟨?_, ?_, ?_⟩
  · rw [checkMemory, read_write_disjoint _ (Or.inr (by decide)),
      read_write_disjoint _ (Or.inr (by decide))]
  · rw [checkMemory, read_write_disjoint _ (Or.inr (by decide)), ← hsignature, read_write_self]
  · rw [checkMemory, ← hkey, read_write_self]

theorem result_eq {n : Option Nat} (x : Mem × Account × Option Nat) (h : x.2.2 = n) :
    x = (x.1, x.2.1, n) := by rw [← h]

/-- libsodium in the cyclic group, and a derived account from a seed of zeros. -/
def cyclicSodium : Sodium :=
  sodiumEd25519 cyclicEd25519 (fun sk => some (ofBytes 32 sk.toList)) some

def derrivedAccount : Account :=
  (olmCreateAccountDerrivedKeys cyclicSodium newAccountObject (fun _ => 0) 0 32).2.1

def derrivedSignature : Bytes :=
  read (olmAccountSign cyclicSodium derrivedAccount helloMemory 0 12 100 86).1 100 86

def derrivedPublished : Bytes :=
  read (olmAccountIdentityKeys derrivedAccount (fun _ => 0) 0 200).1 71 43

/-- The derived account's signature is accepted. -/
theorem olmAccountSign_verifies_derrived :
    (OlmUtility.olmEd25519Verify (withEd25519 cyclicEd25519 demoPrimitives) .success
      (checkMemory derrivedSignature derrivedPublished) 1000 43 0 12 100 86).2.2 = some 0 := by
  obtain ⟨hmessage, hsignature, hkey⟩ := read_checkMemory
    (length_read _ 100 86 : derrivedSignature.length = 86)
    (length_read _ 71 43 : derrivedPublished.length = 43)
  have hcreate : olmCreateAccountDerrivedKeys cyclicSodium newAccountObject (fun _ => 0) 0 32
      = (_, derrivedAccount, some 0) := rfl
  have hcreated : Created (withEd25519 cyclicEd25519 demoPrimitives) cyclicSodium _ true
      derrivedAccount.identityKeys := Created.createAccountDerrivedKeys hcreate
  have hsign := result_eq (olmAccountSign cyclicSodium derrivedAccount helloMemory 0 12 100 86)
    (show _ = some 86 from rfl)
  have hpublished := result_eq (olmAccountIdentityKeys derrivedAccount (fun _ => 0) 0 200)
    (show _ = some _ from rfl)
  exact (olmAccountSign_verifies_iff cyclicEd25519_represents hcreated hsign hpublished .success
    hkey hmessage hsignature (Or.inl (by decide))).mpr (Or.inl rfl)

/-- The bundled library, and libsodium on the same curve. -/
def libPrimitives : Primitives := withEd25519 libEd25519 demoPrimitives

def libSodium : Sodium :=
  sodiumEd25519 libEd25519 (fun sk => some (ofBytes 32 sk.toList)) some

/-- `olm_create_account` from 64 zeros. -/
def createdAccount : Account :=
  (olmCreateAccount libPrimitives newAccountObject (fun _ => 0) 0 64).2.1

def createdSignature : Bytes :=
  read (olmAccountSign libSodium createdAccount helloMemory 0 12 100 86).1 100 86

def createdPublished : Bytes :=
  read (olmAccountIdentityKeys createdAccount (fun _ => 0) 0 200).1 71 43

/-- The raw signature in that account's name. -/
def createdRaw : Vector UInt8 64 :=
  ofBytes 64 ((libSodium.sign (ascii "Hello, World")
    createdAccount.identityKeys.ed25519Key.privateKey).getD [])

/-- The bundled library's own signature of the same message is accepted, and
    the one of libsodium under the stored key is not. -/
theorem createdRaw_rejected :
    cryptoEd25519Verify libPrimitives createdAccount.identityKeys.ed25519Key.publicKey
        (ascii "Hello, World") (cryptoEd25519Sign libPrimitives
          createdAccount.identityKeys.ed25519Key (ascii "Hello, World")) = true ∧
      cryptoEd25519Verify libPrimitives createdAccount.identityKeys.ed25519Key.publicKey
        (ascii "Hello, World") createdRaw = false := by
  decide +kernel

/-- **REJECTED**: the account of `olm_create_account` from 64 zeros signs
    `Hello, World`, and the check under its published key fails. -/
theorem olmAccountSign_rejected_created :
    (olmAccountSign libSodium createdAccount helloMemory 0 12 100 86).2.2 = some 86 ∧
      (OlmUtility.olmEd25519Verify libPrimitives .success
        (checkMemory createdSignature createdPublished) 1000 43 0 12 100 86).2.2 = none := by
  obtain ⟨hmessage, hsignature, hkey⟩ := read_checkMemory
    (length_read _ 100 86 : createdSignature.length = 86)
    (length_read _ 71 43 : createdPublished.length = 43)
  have hsign : libSodium.sign (read helloMemory 0 12)
      createdAccount.identityKeys.ed25519Key.privateKey
      = some (createdRaw.toList ++ ascii "Hello, World") := by
    rw [read_helloMemory]
    exact congrArg some (congrArg (· ++ ascii "Hello, World")
      (congrArg Vector.toList (ofBytes_append _ _)).symm)
  have hread : (olmAccountSign libSodium createdAccount helloMemory 0 12 100 86).2.2 = some 86 ∧
      createdSignature = base64.encode createdRaw.toList :=
    read_olmAccountSign libSodium hsign (by decide)
  have hpublished := read_identityKeys
    (result_eq (olmAccountIdentityKeys createdAccount (fun _ => 0) 0 200)
      (show _ = some _ from rfl))
  refine ⟨hread.1, ?_⟩
  have hverify := olmEd25519Verify_eq libPrimitives .success (hkey.trans hpublished)
    (hsignature.trans hread.2) (show Disjoint 0 12 100 86 from Or.inl (by decide))
  rw [hmessage, read_helloMemory, createdRaw_rejected.2] at hverify
  exact hverify

end OlmAccount
