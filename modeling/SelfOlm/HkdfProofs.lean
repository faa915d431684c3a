import SelfOlm.Crypto
import SelfOlm.Lib.KeyDerivation

/-! # HKDF as it is streamed

    `_olm_crypto_hkdf_sha256` feeds one SHA-256 context piece by piece, and uses the
    context and the block with the key again for every step.  What it stores is HKDF: the
    loop keeps the next block of the expansion in `step_result`, one step ahead of the
    copy. -/

namespace OlmCrypto

open ByteMemory KeyDerivation

variable (prim : Primitives)

/-! ## The code -/

/-- `SHA256_CTX`: what was fed in since `sha256_init`. -/
structure Sha256Ctx where
  fed : Bytes

/-- `sha256_init`. -/
def sha256Init (_context : Sha256Ctx) : Sha256Ctx := { fed := [] }

/-- `sha256_update`. -/
def sha256Update (context : Sha256Ctx) (input : Bytes) : Sha256Ctx :=
  { fed := context.fed ++ input }

/-- `sha256_final`. -/
def sha256Final (context : Sha256Ctx) : Vector UInt8 32 := prim.sha256 context.fed

/-- `hmac_sha256_init`. -/
def hmacSha256Init (context : Sha256Ctx) (hmacKey : Bytes) : Sha256Ctx :=
  let iPad := hmacKey.map (· ^^^ 0x36)
  sha256Update (sha256Init context) iPad

/-- `hmac_sha256_final`. -/
def hmacSha256Final (context : Sha256Ctx) (hmacKey : Bytes) : Vector UInt8 32 :=
  let oPad := hmacKey.map (· ^^^ 0x5C) ++ (sha256Final prim context).toList
  sha256Final prim (sha256Update (sha256Init context) oPad)

/-- The `while` loop of `_olm_crypto_hkdf_sha256` and the copy after it. -/
def hkdfLoop (hmacKey info : Bytes) (m : Mem) (output : Nat) (context : Sha256Ctx)
    (stepResult : Vector UInt8 32) (iteration : UInt8) (bytesRemaining : Nat) : Mem :=
  if bytesRemaining > 32 then
    let m := store m output stepResult
    let iteration := iteration + 1
    let context := hmacSha256Init context hmacKey
    let context := sha256Update context stepResult.toList
    let context := sha256Update context info
    let context := sha256Update context [iteration]
    hkdfLoop hmacKey info m (output + 32) context (hmacSha256Final prim context hmacKey)
      iteration (bytesRemaining - 32)
  else write m output (stepResult.toList.take bytesRemaining)
termination_by bytesRemaining

/-- `_olm_crypto_hkdf_sha256`: memory with the result at `output`.  `context` is the
    uninitialised one on the stack, `none` the null salt. -/
def hkdfSha256Stream (context : Sha256Ctx) (input : Bytes) (salt : Option Bytes) (info : Bytes)
    (m : Mem) (output outputLength : Nat) : Mem :=
  let iteration : UInt8 := 1
  let salt := salt.getD (List.replicate 32 0)
  -- extract
  let hmacKey := hmacSha256Key prim salt
  let context := hmacSha256Init context hmacKey
  let context := sha256Update context input
  let stepResult := hmacSha256Final prim context hmacKey
  let hmacKey := hmacSha256Key prim stepResult.toList
  -- expand
  let context := hmacSha256Init context hmacKey
  let context := sha256Update context info
  let context := sha256Update context [iteration]
  let stepResult := hmacSha256Final prim context hmacKey
  hkdfLoop prim hmacKey info m output context stepResult iteration outputLength

/-! ## What it computes -/

/-- SHA-256 with its blocks of 64 bytes. -/
def sha256Function : HashFunction where
  blockLength := sha256BlockLength
  hashLength := 32
  hash := prim.sha256

theorem keyBlock_eq (key : Bytes) : (sha256Function prim).keyBlock key = hmacSha256Key prim key := rfl

/-- Nothing of the context before `hmac_sha256_init` is left. -/
theorem hmacSha256Final_eq (context : Sha256Ctx) (key input : Bytes) :
    hmacSha256Final prim (sha256Update (hmacSha256Init context (hmacSha256Key prim key)) input)
        (hmacSha256Key prim key)
      = (sha256Function prim).hmac key input := by
  rw [HashFunction.hmac, HashFunction.xorPad_eq_map, HashFunction.xorPad_eq_map, keyBlock_eq]
  rfl

theorem cryptoHmacSha256_eq (key input : Bytes) :
    cryptoHmacSha256 prim key input = (sha256Function prim).hmac key input := by
  rw [HashFunction.hmac, HashFunction.xorPad_eq_map, HashFunction.xorPad_eq_map, keyBlock_eq]
  rfl

theorem sha256Update_append (context : Sha256Ctx) (bs cs : Bytes) :
    sha256Update (sha256Update context bs) cs = sha256Update context (bs ++ cs) := by
  rw [sha256Update, sha256Update, sha256Update, List.append_assoc]

/-- The loop stores the expansion from the block in `step_result` on.  The counter byte
    is the number of that block. -/
theorem hkdfLoop_eq (key info : Bytes) (bytesRemaining : Nat) :
    ∀ (m : Mem) (output : Nat) (context : Sha256Ctx) (stepResult : Vector UInt8 32) (i : Nat),
      stepResult.toList = (sha256Function prim).block key info (i + 1) →
      hkdfLoop prim (hmacSha256Key prim key) info m output context stepResult
          (UInt8.ofNat (i + 1)) bytesRemaining
        = write m output ((sha256Function prim).expandFrom key info (i + 1) bytesRemaining) := by
  have hpos : 0 < (sha256Function prim).hashLength := Nat.succ_pos 31
  induction bytesRemaining using Nat.strongRecOn with
  | ind bytesRemaining ih =>
      intro m output context stepResult i hstep
      rw [hkdfLoop]
      by_cases hmore : bytesRemaining > 32
      · have hcounter : UInt8.ofNat (i + 1) + 1 = UInt8.ofNat (i + 1 + 1) :=
          (UInt8.ofNat_add (i + 1) 1).symm
        -- the next block, computed from this one
        have hnext : (hmacSha256Final prim (sha256Update (sha256Update (sha256Update
              (hmacSha256Init context (hmacSha256Key prim key)) stepResult.toList) info)
              [UInt8.ofNat (i + 1 + 1)]) (hmacSha256Key prim key)).toList
            = (sha256Function prim).block key info (i + 1 + 1) := by
          rw [sha256Update_append, sha256Update_append, hmacSha256Final_eq, hstep,
            ← List.append_assoc]
          rfl
        rw [if_pos hmore]
        simp only [hcounter]
        rw [ih (bytesRemaining - 32) (by omega) _ _ _ _ _ hnext, store,
          HashFunction.expandFrom_next hpos key info i hmore, ← hstep, write_append,
          Vector.length_toList]
        rfl
      · rw [if_neg hmore, HashFunction.expandFrom_last hpos key info i (Nat.not_lt.mp hmore), hstep]

/-- The loop on byte strings, with its bound on the iterations. -/
theorem hkdfExpand_eq (key info : Bytes) :
    ∀ (fuel : Nat) (stepResult : Vector UInt8 32) (i bytesRemaining : Nat),
      bytesRemaining ≤ 32 * (fuel + 1) →
      stepResult.toList = (sha256Function prim).block key info (i + 1) →
      hkdfExpand prim (hmacSha256Key prim key) info fuel stepResult (UInt8.ofNat (i + 1))
          bytesRemaining
        = (sha256Function prim).expandFrom key info (i + 1) bytesRemaining := by
  have hpos : 0 < (sha256Function prim).hashLength := Nat.succ_pos 31
  intro fuel
  induction fuel with
  | zero =>
      intro stepResult i bytesRemaining hfuel hstep
      rw [hkdfExpand, HashFunction.expandFrom_last hpos key info i hfuel, hstep]
  | succ fuel ih =>
      intro stepResult i bytesRemaining hfuel hstep
      rw [hkdfExpand]
      by_cases hmore : bytesRemaining > 32
      · have hcounter : UInt8.ofNat (i + 1) + 1 = UInt8.ofNat (i + 1 + 1) :=
          (UInt8.ofNat_add (i + 1) 1).symm
        have hnext : (hmacSha256Run prim (hmacSha256Key prim key)
              (stepResult.toList ++ info ++ [UInt8.ofNat (i + 1 + 1)])).toList
            = (sha256Function prim).block key info (i + 1 + 1) := by
          rw [hstep]
          exact congrArg Vector.toList (cryptoHmacSha256_eq prim key _)
        rw [if_pos hmore]
        simp only [hcounter]
        rw [ih _ _ _ (by omega) hnext, HashFunction.expandFrom_next hpos key info i hmore, ← hstep]
        rfl
      · rw [if_neg hmore, HashFunction.expandFrom_last hpos key info i (Nat.not_lt.mp hmore), hstep]

theorem cryptoHkdfSha256_eq (input : Bytes) (salt : Option Bytes) (info : Bytes)
    (outputLength : Nat) :
    cryptoHkdfSha256 prim input salt info outputLength
      = (sha256Function prim).hkdf input salt info outputLength := by
  have hprk : hmacSha256Run prim (hmacSha256Key prim (salt.getD (List.replicate 32 0))) input
      = (sha256Function prim).extract salt input := cryptoHmacSha256_eq prim _ input
  simp only [cryptoHkdfSha256]
  rw [hprk]
  exact hkdfExpand_eq prim _ info outputLength _ 0 outputLength (by omega)
    (congrArg Vector.toList (cryptoHmacSha256_eq prim _ (info ++ [1])))

/-- **HKDF**: for every salt and length just the first `output_length` bytes of the
    expansion are stored, whatever the context held. -/
theorem hkdfSha256Stream_eq (context : Sha256Ctx) (input : Bytes) (salt : Option Bytes)
    (info : Bytes) (m : Mem) (output outputLength : Nat) :
    hkdfSha256Stream prim context input salt info m output outputLength
        = write m output ((sha256Function prim).hkdf input salt info outputLength) ∧
      ((sha256Function prim).hkdf input salt info outputLength).length = outputLength := by
  constructor
  · have hfirst : ∀ key : Bytes, (hmacSha256Final prim (sha256Update (sha256Update
          (hmacSha256Init context (hmacSha256Key prim key)) info) [1])
          (hmacSha256Key prim key)).toList
        = (sha256Function prim).block key info (0 + 1) := by
      intro key
      rw [sha256Update_append, hmacSha256Final_eq]
      rfl
    simp only [hkdfSha256Stream]
    rw [hmacSha256Final_eq]
    exact hkdfLoop_eq prim _ info outputLength m output _ _ 0 (hfirst _)
  · rw [← cryptoHkdfSha256_eq, length_cryptoHkdfSha256]

end OlmCrypto
