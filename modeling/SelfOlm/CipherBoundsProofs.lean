import SelfOlm.LoggedCipher

/-! # Bounds of decryption

    `_olm_crypto_aes_decrypt_cbc` goes over its input in whole blocks and takes the
    padding from the byte before the end of its output.  Nothing rounds the length of the
    ciphertext, which the sender chooses: the accesses stay in the two buffers exactly
    for ciphertexts of whole blocks, and at least one. -/

namespace OlmCrypto

open ByteMemory AccessLog Logged

variable {prim : Primitives} {B : Type} {layout : Layout B}

/-! ## The block loop -/

/-- `k` blocks stay in their buffers exactly where the buffers hold `k` blocks. -/
theorem loggedCbcDecryptLoop_inBounds_iff (key : Vector UInt8 32) (k : Nat) :
    ∀ (m : Mem) (block1 : Block) (input output : Pointer B),
      All (Access.InBounds layout) (loggedCbcDecryptLoop prim key k block1 input output) m
        ↔ (k ≠ 0 → layout.Holds input.object input.address (16 * k) ∧
            layout.Holds output.object output.address (16 * k)) := by
  induction k with
  | zero =>
      intro m block1 input output
      exact iff_of_true (all_pure () m) (fun h => absurd rfl h)
  | succ k ih =>
      intro m block1 input output
      simp only [loggedCbcDecryptLoop, all_bind, all_loadArray, all_store, Access.InBounds,
        Access.Within, Vector.length_toList]
      rw [← Access.InBounds, ih]
      simp only [Layout.Holds, Pointer.address_add, Pointer.object_add]
      omega

/-- The block loop and the unpadding: whole blocks, and the byte before the end. -/
theorem loggedAesDecryptCbc_inBounds_iff (key : Vector UInt8 32) (iv : Block) (m : Mem)
    (input : Pointer B) (inputLength : Nat) (output : Pointer B) :
    All (Access.InBounds layout) (loggedAesDecryptCbc prim key iv input inputLength output) m
      ↔ ((inputLength + 15) / 16 ≠ 0 →
            layout.Holds input.object input.address (16 * ((inputLength + 15) / 16)) ∧
            layout.Holds output.object output.address (16 * ((inputLength + 15) / 16))) ∧
          layout.Holds output.object (output.address + inputLength - 1) 1 := by
  simp only [loggedAesDecryptCbc, all_bind, all_load, Access.InBounds, Access.Within]
  rw [← Access.InBounds, loggedCbcDecryptLoop_inBounds_iff]
  exact ⟨fun h => ⟨h.1, h.2.1⟩, fun h => ⟨h.1, h.2, all_pure _ _⟩⟩

/-- What is returned is no longer than the input. -/
theorem cryptoAesDecryptCbc_length_le {key : Vector UInt8 32} {iv : Block} {m : Mem}
    {input inputLength output n : Nat}
    (h : (cryptoAesDecryptCbc prim key iv m input inputLength output).2 = some n) :
    n ≤ inputLength := by
  simp only [cryptoAesDecryptCbc] at h
  split at h
  · cases h
  · obtain rfl := Option.some.inj h
    exact Nat.sub_le _ _

/-! ## The cipher -/

/-- The objects of `aes_sha_256_cipher_decrypt`.  The ciphertext is a region of the
    input. -/
inductive CipherObject where
  | input | ciphertext | plaintext

/-- Where they are, and as long as the caller says. -/
def cipherLayout (start : CipherObject → Nat) (inputLength ciphertextLength
    maxPlaintextLength : Nat) : Layout CipherObject where
  start := start
  size
    | .input => inputLength
    | .ciphertext => ciphertextLength
    | .plaintext => maxPlaintextLength

variable (prim)

/-- `aes_sha_256_cipher_decrypt` on the objects of a layout. -/
def loggedDecryption (kdfInfo key : Bytes) (layout : Layout CipherObject) :
    Logged CipherObject (Option Nat) :=
  loggedCipherDecrypt prim kdfInfo key (layout.pointer .input) (layout.size .input)
    (layout.pointer .ciphertext) (layout.size .ciphertext) (layout.pointer .plaintext)
    (layout.size .plaintext)

/-- The input ends in the MAC of what stands before it. -/
def MacCorrect (kdfInfo key : Bytes) (m : Mem) (input inputLength : Nat) : Prop :=
  cipherMacLength ≤ inputLength ∧
    read m (input + (inputLength - cipherMacLength)) cipherMacLength
      = cipherMac prim kdfInfo key (read m input (inputLength - cipherMacLength))

/-- Decryption stays in its buffers, and returns -1 or at most the length of the
    ciphertext. -/
structure DecryptsInBounds (kdfInfo key : Bytes) (layout : Layout CipherObject) (m : Mem) :
    Prop where
  accesses : All (Access.InBounds layout) (loggedDecryption prim kdfInfo key layout) m
  length : ∀ n, result (loggedDecryption prim kdfInfo key layout) m = some n →
    n ≤ layout.size .ciphertext

variable {prim}

/-- Past the checks the cipher reads the input and decrypts. -/
theorem loggedCipherDecrypt_inBounds_iff {kdfInfo key : Bytes} {m : Mem} {input : Pointer B}
    {inputLength : Nat} {ciphertext : Pointer B} {ciphertextLength : Nat} {plaintext : Pointer B}
    {maxPlaintextLength : Nat} (hmac : MacCorrect prim kdfInfo key m input.address inputLength)
    (hmax : ciphertextLength ≤ maxPlaintextLength)
    (hinput : layout.Holds input.object input.address inputLength) :
    All (Access.InBounds layout) (loggedCipherDecrypt prim kdfInfo key input inputLength ciphertext
        ciphertextLength plaintext maxPlaintextLength) m
      ↔ All (Access.InBounds layout) (loggedAesDecryptCbc prim
          (deriveKeys prim kdfInfo key).aesKey (deriveKeys prim kdfInfo key).aesIv ciphertext
          ciphertextLength plaintext) m := by
  obtain ⟨hlength, hequal⟩ := hmac
  obtain ⟨hstart, hend⟩ := hinput
  have hbody : layout.Holds input.object input.address (inputLength - cipherMacLength) :=
    ⟨hstart, by omega⟩
  have htrailer : layout.Holds input.object (input.address + (inputLength - cipherMacLength))
      cipherMacLength := ⟨by omega, by omega⟩
  -- the comparison succeeds
  have hchecked : ∀ refused decrypted : Logged B (Option Nat),
      All (Access.InBounds layout)
        (if read m (input.address + (inputLength - cipherMacLength)) cipherMacLength
            ≠ cipherMac prim kdfInfo key (read m input.address (inputLength - cipherMacLength))
          then refused else decrypted) m
        ↔ All (Access.InBounds layout) decrypted m := by
    intro refused decrypted
    rw [if_neg (not_not_intro hequal)]
  rw [loggedCipherDecrypt, if_neg (by omega), all_bind, all_bind, all_loadBytes, all_loadBytes]
  exact ⟨fun h => (hchecked _ _).mp h.2.2,
    fun h => ⟨hbody, htrailer, (hchecked (pure none) _).mpr h⟩⟩

/-- What decryption returns is no longer than the ciphertext. -/
theorem aesSha256CipherDecrypt_length_le {kdfInfo key : Bytes} {m : Mem}
    {input inputLength ciphertext ciphertextLength plaintext maxPlaintextLength n : Nat}
    (h : (aesSha256CipherDecrypt prim kdfInfo key m input inputLength ciphertext
      ciphertextLength plaintext maxPlaintextLength).2 = some n) : n ≤ ciphertextLength := by
  rw [aesSha256CipherDecrypt] at h
  split at h
  · cases h
  · simp only at h
    split at h
    · cases h
    · exact cryptoAesDecryptCbc_length_le h

/-- The accesses: the block loop rounds the length up, and an empty plaintext has no last
    byte. -/
theorem loggedDecryption_inBounds_iff {kdfInfo key : Bytes} {m : Mem}
    {start : CipherObject → Nat} {inputLength ciphertextLength maxPlaintextLength : Nat}
    (hmac : MacCorrect prim kdfInfo key m (start .input) inputLength)
    (hmax : ciphertextLength ≤ maxPlaintextLength) (hstart : 0 < start .plaintext) :
    All (Access.InBounds (cipherLayout start inputLength ciphertextLength maxPlaintextLength))
        (loggedDecryption prim kdfInfo key
          (cipherLayout start inputLength ciphertextLength maxPlaintextLength)) m
      ↔ ciphertextLength ≠ 0 ∧ ciphertextLength % 16 = 0 := by
  refine (loggedCipherDecrypt_inBounds_iff hmac hmax ⟨Nat.le_refl _, Nat.le_refl _⟩).trans ?_
  rw [loggedAesDecryptCbc_inBounds_iff]
  show ((ciphertextLength + 15) / 16 ≠ 0 →
      (start .ciphertext ≤ start .ciphertext ∧
        start .ciphertext + 16 * ((ciphertextLength + 15) / 16)
          ≤ start .ciphertext + ciphertextLength) ∧
      (start .plaintext ≤ start .plaintext ∧
        start .plaintext + 16 * ((ciphertextLength + 15) / 16)
          ≤ start .plaintext + maxPlaintextLength)) ∧
    (start .plaintext ≤ start .plaintext + ciphertextLength - 1 ∧
      start .plaintext + ciphertextLength - 1 + 1 ≤ start .plaintext + maxPlaintextLength) ↔ _
  omega

/-- **BOUNDS OF DECRYPTION**: with a correct MAC and enough room for the plaintext, it
    stays in its buffers exactly for ciphertexts of whole blocks, and at least one. -/
theorem aesSha256CipherDecrypt_inBounds_iff (kdfInfo key : Bytes) (m : Mem)
    (start : CipherObject → Nat) (inputLength ciphertextLength maxPlaintextLength : Nat)
    (hmac : MacCorrect prim kdfInfo key m (start .input) inputLength)
    (hmax : ciphertextLength ≤ maxPlaintextLength) (hstart : 0 < start .plaintext) :
    DecryptsInBounds prim kdfInfo key
        (cipherLayout start inputLength ciphertextLength maxPlaintextLength) m
      ↔ ciphertextLength ≠ 0 ∧ ciphertextLength % 16 = 0 := by
  constructor
  · intro h
    exact (loggedDecryption_inBounds_iff hmac hmax hstart).mp h.accesses
  · intro h
    refine ⟨(loggedDecryption_inBounds_iff hmac hmax hstart).mpr h, fun n hn => ?_⟩
    have hcall := congrArg Prod.snd (loggedCipherDecrypt_eq prim kdfInfo key m
      ((cipherLayout start inputLength ciphertextLength maxPlaintextLength).pointer .input)
      inputLength
      ((cipherLayout start inputLength ciphertextLength maxPlaintextLength).pointer .ciphertext)
      ciphertextLength
      ((cipherLayout start inputLength ciphertextLength maxPlaintextLength).pointer .plaintext)
      maxPlaintextLength)
    exact aesSha256CipherDecrypt_length_le (hcall.symm.trans hn)

/-- A string with its MAC behind it. -/
theorem macCorrect_write (kdfInfo key : Bytes) (m : Mem) (input : Nat) (body : Bytes) :
    MacCorrect prim kdfInfo key (write m input (body ++ cipherMac prim kdfInfo key body)) input
      (body.length + cipherMacLength) := by
  have hwhole := read_write_self m input (body ++ cipherMac prim kdfInfo key body)
  have hbody := read_prefix hwhole
  have hmac := read_middle (c := []) (hwhole.trans (by rw [List.append_nil]))
  rw [length_cipherMac] at hmac
  refine ⟨Nat.le_add_left _ _, ?_⟩
  rw [Nat.add_sub_cancel, hbody]
  exact hmac

/-- An input at 100 of which the ciphertext is the start, and a plaintext buffer at 200. -/
def demoCipherStart : CipherObject → Nat
  | .input => 100
  | .ciphertext => 100
  | .plaintext => 200

/-- Memory with `body` and its MAC in the input. -/
def demoCipherMemory (body : Bytes) : Mem :=
  write (fun _ => 0) 100 (body ++ cipherMac demoPrimitives [] [] body)

theorem aesSha256CipherDecrypt_inBounds_block :
    DecryptsInBounds demoPrimitives [] [] (cipherLayout demoCipherStart 24 16 16)
        (demoCipherMemory (List.replicate 16 7)) ↔ 16 ≠ 0 ∧ 16 % 16 = 0 :=
  aesSha256CipherDecrypt_inBounds_iff [] [] _ demoCipherStart 24 16 16
    (macCorrect_write [] [] (fun _ => 0) 100 (List.replicate 16 7)) (Nat.le_refl 16) (by decide)

/-- A ciphertext of one byte is read as a block, and an empty one has its padding read
    before the plaintext buffer. -/
theorem aesSha256CipherDecrypt_overruns :
    (MacCorrect demoPrimitives [] [] (demoCipherMemory [7]) 100 9 ∧
      ¬DecryptsInBounds demoPrimitives [] [] (cipherLayout demoCipherStart 9 1 1)
        (demoCipherMemory [7])) ∧
    (MacCorrect demoPrimitives [] [] (demoCipherMemory []) 100 8 ∧
      ¬DecryptsInBounds demoPrimitives [] [] (cipherLayout demoCipherStart 8 0 0)
        (demoCipherMemory [])) := by
  have hone : MacCorrect demoPrimitives [] [] (demoCipherMemory [7])
      (demoCipherStart .input) 9 := macCorrect_write [] [] (fun _ => 0) 100 [7]
  have hempty : MacCorrect demoPrimitives [] [] (demoCipherMemory [])
      (demoCipherStart .input) 8 := macCorrect_write [] [] (fun _ => 0) 100 []
  refine ⟨⟨hone, fun h => ?_⟩, ⟨hempty, fun h => ?_⟩⟩
  · have hblocks := (loggedDecryption_inBounds_iff hone (Nat.le_refl 1)
      (by decide)).mp h.accesses
    exact absurd hblocks.2 (by decide)
  · have hblocks := (loggedDecryption_inBounds_iff hempty (Nat.le_refl 0)
      (by decide)).mp h.accesses
    exact hblocks.1 rfl

end OlmCrypto
