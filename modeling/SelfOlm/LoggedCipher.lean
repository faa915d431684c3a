import SelfOlm.Cipher
import SelfOlm.Lib.AccessLog

/-! # The accesses of the cipher

    AES in CBC mode and the two operations of the cipher as programs that log their
    accesses.  They compute what the functions on memory do.  Encryption stores as many
    bytes as the ciphertext has, and eight of the MAC; decryption goes over whole blocks
    and reads the last byte before the end of the plaintext buffer. -/

namespace OlmCrypto

open ByteMemory AccessLog Logged

variable (prim : Primitives) {B : Type}

/-! ## The code -/

/-- The `while` loop over full blocks, and the padded last block. -/
def loggedCbcEncryptLoop (key : Vector UInt8 32) :
    Nat → Block → Pointer B → Nat → Pointer B → Logged B Unit
  | 0, inputBlock, input, inputLength, output => do
      let rest ← loadBytes inputLength input
      let padded : Block := Vector.ofFn (fun i =>
        if i.val < inputLength then rest.getD i 0 else UInt8.ofNat (16 - inputLength))
      store output (prim.aesEncrypt key (xorBlock inputBlock padded)).toList
  | k + 1, inputBlock, input, inputLength, output => do
      let block ← loadArray 16 input
      store output (prim.aesEncrypt key (xorBlock inputBlock block)).toList
      let previous ← loadArray 16 output
      loggedCbcEncryptLoop key k previous (input.add 16) (inputLength - 16) (output.add 16)

/-- `_olm_crypto_aes_encrypt_cbc`. -/
def loggedAesEncryptCbc (key : Vector UInt8 32) (iv : Block) (input : Pointer B)
    (inputLength : Nat) (output : Pointer B) : Logged B Unit :=
  loggedCbcEncryptLoop prim key (inputLength / 16) iv input inputLength output

/-- `aes_sha_256_cipher_encrypt`. -/
def loggedCipherEncrypt (kdfInfo key : Bytes) (plaintext : Pointer B) (plaintextLength : Nat)
    (ciphertext : Pointer B) (ciphertextLength : Nat) (output : Pointer B) (outputLength : Nat) :
    Logged B (Option Nat) :=
  if ciphertextLength < cryptoAesEncryptCbcLength plaintextLength
      ∨ outputLength < cipherMacLength then pure none
  else do
    let keys := deriveKeys prim kdfInfo key
    loggedAesEncryptCbc prim keys.aesKey keys.aesIv plaintext plaintextLength ciphertext
    let body ← loadBytes (outputLength - cipherMacLength) output
    let mac := cryptoHmacSha256 prim keys.macKey.toList body
    store (output.add (outputLength - cipherMacLength)) (mac.toList.take cipherMacLength)
    pure (some outputLength)

/-- The `for` loop; `block1` is the previous ciphertext block. -/
def loggedCbcDecryptLoop (key : Vector UInt8 32) :
    Nat → Block → Pointer B → Pointer B → Logged B Unit
  | 0, _, _, _ => pure ()
  | k + 1, block1, input, output => do
      let block2 ← loadArray 16 input
      let block ← loadArray 16 input
      store output (prim.aesDecrypt key block).toList
      let decrypted ← loadArray 16 output
      store output (xorBlock decrypted block1).toList
      loggedCbcDecryptLoop key k block2 (input.add 16) (output.add 16)

/-- `_olm_crypto_aes_decrypt_cbc`. -/
def loggedAesDecryptCbc (key : Vector UInt8 32) (iv : Block) (input : Pointer B)
    (inputLength : Nat) (output : Pointer B) : Logged B (Option Nat) := do
  loggedCbcDecryptLoop prim key ((inputLength + 15) / 16) iv input output
  let last ← load { output with address := output.address + inputLength - 1 }
  let padding := last.toNat
  pure (if padding > inputLength then none else some (inputLength - padding))

/-- `aes_sha_256_cipher_decrypt`. -/
def loggedCipherDecrypt (kdfInfo key : Bytes) (input : Pointer B) (inputLength : Nat)
    (ciphertext : Pointer B) (ciphertextLength : Nat) (plaintext : Pointer B)
    (maxPlaintextLength : Nat) : Logged B (Option Nat) :=
  if maxPlaintextLength < ciphertextLength ∨ inputLength < cipherMacLength then pure none
  else do
    let keys := deriveKeys prim kdfInfo key
    let body ← loadBytes (inputLength - cipherMacLength) input
    let mac := cryptoHmacSha256 prim keys.macKey.toList body
    let inputMac ← loadBytes cipherMacLength (input.add (inputLength - cipherMacLength))
    if inputMac ≠ mac.toList.take cipherMacLength then pure none
    else loggedAesDecryptCbc prim keys.aesKey keys.aesIv ciphertext ciphertextLength plaintext

/-! ## What it computes -/

theorem memory_loggedCbcEncryptLoop (key : Vector UInt8 32) (k : Nat) :
    ∀ (m : Mem) (iv : Block) (input : Pointer B) (inputLength : Nat) (output : Pointer B),
      memory (loggedCbcEncryptLoop prim key k iv input inputLength output) m
        = cbcEncryptLoop prim key k m iv input.address inputLength output.address := by
  induction k with
  | zero =>
      intro m iv input inputLength output
      have hpadded : (Vector.ofFn (fun i : Fin 16 => if i.val < inputLength
            then (read m input.address inputLength).getD i 0 else UInt8.ofNat (16 - inputLength)))
          = Vector.ofFn (fun i : Fin 16 => if i.val < inputLength
            then m (input.address + i) else UInt8.ofNat (16 - inputLength)) := by
        congr 1
        funext i
        by_cases hi : i.val < inputLength
        · rw [if_pos hi, if_pos hi, List.getD_eq_getElem?_getD, getElem?_read, if_pos hi]
          rfl
        · rw [if_neg hi, if_neg hi]
      simp only [loggedCbcEncryptLoop, memory_bind, result_loadBytes, memory_loadBytes,
        memory_store]
      rw [hpadded]
      rfl
  | succ k ih =>
      intro m iv input inputLength output
      simp only [loggedCbcEncryptLoop, memory_bind, result_loadArray, memory_loadArray,
        memory_store]
      rw [ih]
      rfl

/-- The logged cipher is `aes_sha_256_cipher_encrypt`. -/
theorem loggedCipherEncrypt_eq (kdfInfo key : Bytes) (m : Mem) (plaintext : Pointer B)
    (plaintextLength : Nat) (ciphertext : Pointer B) (ciphertextLength : Nat) (output : Pointer B)
    (outputLength : Nat) :
    (memory (loggedCipherEncrypt prim kdfInfo key plaintext plaintextLength ciphertext
        ciphertextLength output outputLength) m,
      result (loggedCipherEncrypt prim kdfInfo key plaintext plaintextLength ciphertext
        ciphertextLength output outputLength) m)
      = aesSha256CipherEncrypt prim kdfInfo key m plaintext.address plaintextLength
          ciphertext.address ciphertextLength output.address outputLength := by
  rw [loggedCipherEncrypt, aesSha256CipherEncrypt]
  by_cases hsmall : ciphertextLength < cryptoAesEncryptCbcLength plaintextLength
      ∨ outputLength < cipherMacLength
  · rw [if_pos hsmall, if_pos hsmall]
    rfl
  · rw [if_neg hsmall, if_neg hsmall, Nat.add_sub_assoc (by omega)]
    have hcbc := memory_loggedCbcEncryptLoop prim (deriveKeys prim kdfInfo key).aesKey
      (plaintextLength / 16) m (deriveKeys prim kdfInfo key).aesIv plaintext plaintextLength
      ciphertext
    simp only [memory_bind, result_bind, loggedAesEncryptCbc, cryptoAesEncryptCbc]
    rw [hcbc]
    rfl

theorem result_loggedCipherEncrypt {kdfInfo key : Bytes} (m : Mem) {plaintext : Pointer B}
    {plaintextLength : Nat} {ciphertext : Pointer B} {ciphertextLength : Nat} {output : Pointer B}
    {outputLength : Nat} (hciphertext : cryptoAesEncryptCbcLength plaintextLength ≤ ciphertextLength)
    (houtput : cipherMacLength ≤ outputLength) :
    result (loggedCipherEncrypt prim kdfInfo key plaintext plaintextLength ciphertext
      ciphertextLength output outputLength) m = some outputLength := by
  rw [loggedCipherEncrypt, if_neg (by omega)]
  rfl

theorem memory_loggedCbcDecryptLoop (key : Vector UInt8 32) (k : Nat) :
    ∀ (m : Mem) (block1 : Block) (input output : Pointer B),
      memory (loggedCbcDecryptLoop prim key k block1 input output) m
        = cbcDecryptLoop prim key k m block1 input.address output.address := by
  induction k with
  | zero =>
      intro m block1 input output
      rfl
  | succ k ih =>
      intro m block1 input output
      simp only [loggedCbcDecryptLoop, memory_bind, result_loadArray, memory_loadArray,
        memory_store]
      rw [ih]
      rfl

/-- The logged block loop and unpadding are `_olm_crypto_aes_decrypt_cbc`. -/
theorem loggedAesDecryptCbc_eq (key : Vector UInt8 32) (iv : Block) (m : Mem) (input : Pointer B)
    (inputLength : Nat) (output : Pointer B) :
    (memory (loggedAesDecryptCbc prim key iv input inputLength output) m,
      result (loggedAesDecryptCbc prim key iv input inputLength output) m)
      = cryptoAesDecryptCbc prim key iv m input.address inputLength output.address := by
  have hloop := memory_loggedCbcDecryptLoop prim key ((inputLength + 15) / 16) m iv input output
  simp only [loggedAesDecryptCbc, memory_bind, result_bind, memory_load, result_load]
  rw [hloop]
  rfl

/-- The logged cipher is `aes_sha_256_cipher_decrypt`. -/
theorem loggedCipherDecrypt_eq (kdfInfo key : Bytes) (m : Mem) (input : Pointer B)
    (inputLength : Nat) (ciphertext : Pointer B) (ciphertextLength : Nat) (plaintext : Pointer B)
    (maxPlaintextLength : Nat) :
    (memory (loggedCipherDecrypt prim kdfInfo key input inputLength ciphertext ciphertextLength
        plaintext maxPlaintextLength) m,
      result (loggedCipherDecrypt prim kdfInfo key input inputLength ciphertext ciphertextLength
        plaintext maxPlaintextLength) m)
      = aesSha256CipherDecrypt prim kdfInfo key m input.address inputLength ciphertext.address
          ciphertextLength plaintext.address maxPlaintextLength := by
  rw [loggedCipherDecrypt, aesSha256CipherDecrypt]
  by_cases hsmall : maxPlaintextLength < ciphertextLength ∨ inputLength < cipherMacLength
  · rw [if_pos hsmall, if_pos hsmall]
    rfl
  · rw [if_neg hsmall, if_neg hsmall, Nat.add_sub_assoc (by omega)]
    let keys := deriveKeys prim kdfInfo key
    let mac := cryptoHmacSha256 prim keys.macKey.toList
      (read m input.address (inputLength - cipherMacLength))
    let decrypted : Logged B (Option Nat) :=
      loggedAesDecryptCbc prim keys.aesKey keys.aesIv ciphertext ciphertextLength plaintext
    let inputMac := read m (input.address + (inputLength - cipherMacLength)) cipherMacLength
    show (memory (if inputMac ≠ mac.toList.take cipherMacLength then pure none else decrypted) m,
        result (if inputMac ≠ mac.toList.take cipherMacLength then pure none else decrypted) m)
      = if inputMac ≠ mac.toList.take cipherMacLength then (m, none)
        else cryptoAesDecryptCbc prim keys.aesKey keys.aesIv m ciphertext.address
          ciphertextLength plaintext.address
    by_cases hmac : inputMac ≠ mac.toList.take cipherMacLength
    · rw [if_pos hmac, if_pos hmac]
      rfl
    · rw [if_neg hmac, if_neg hmac]
      exact loggedAesDecryptCbc_eq prim _ _ m ciphertext ciphertextLength plaintext

/-! ## Bounds -/

variable {prim} {layout : Layout B}

/-- The loop stores whole blocks. -/
theorem loggedCbcEncryptLoop_stores (key : Vector UInt8 32) (k : Nat) :
    ∀ (m : Mem) (iv : Block) (input : Pointer B) (inputLength : Nat) (output : Pointer B),
      layout.Holds output.object output.address (16 * (k + 1)) →
      All (Access.StoreInBounds layout)
        (loggedCbcEncryptLoop prim key k iv input inputLength output) m := by
  induction k with
  | zero =>
      intro m iv input inputLength output h
      simp only [loggedCbcEncryptLoop, all_bind, all_loadBytes, all_store, Access.StoreInBounds,
        Access.Within,
        Vector.length_toList, true_and]
      exact h
  | succ k ih =>
      intro m iv input inputLength output h
      simp only [loggedCbcEncryptLoop, all_bind, all_loadArray, all_store, Access.StoreInBounds,
        Access.Within,
        Vector.length_toList, true_and]
      obtain ⟨hstart, hend⟩ := h
      refine ⟨⟨hstart, by omega⟩, ih _ _ _ _ _ ?_⟩
      show layout.start output.object ≤ output.address + 16 ∧
        output.address + 16 + 16 * (k + 1)
          ≤ layout.start output.object + layout.size output.object
      omega

/-- **STORES** of the cipher: the ciphertext and the MAC. -/
theorem loggedCipherEncrypt_stores {kdfInfo key : Bytes} (m : Mem) {plaintext : Pointer B}
    {plaintextLength : Nat} {ciphertext : Pointer B} {ciphertextLength : Nat} {output : Pointer B}
    {outputLength : Nat}
    (hciphertext : layout.Holds ciphertext.object ciphertext.address
      (cryptoAesEncryptCbcLength plaintextLength))
    (houtput : layout.Holds output.object output.address outputLength) :
    All (Access.StoreInBounds layout) (loggedCipherEncrypt prim kdfInfo key plaintext
      plaintextLength ciphertext ciphertextLength output outputLength) m := by
  rw [loggedCipherEncrypt]
  by_cases hsmall : ciphertextLength < cryptoAesEncryptCbcLength plaintextLength
      ∨ outputLength < cipherMacLength
  · rw [if_pos hsmall]
    exact all_pure _ m
  · rw [if_neg hsmall]
    have hblocks : 16 * (plaintextLength / 16 + 1) = cryptoAesEncryptCbcLength plaintextLength := by
      rw [cryptoAesEncryptCbcLength]
      omega
    simp only [all_bind, all_loadBytes, all_store, Access.StoreInBounds, Access.Within, true_and]
    refine ⟨?_, ?_, all_pure _ _⟩
    · refine loggedCbcEncryptLoop_stores _ _ m _ _ _ _ ?_
      rw [hblocks]
      exact hciphertext
    · obtain ⟨hstart, hend⟩ := houtput
      rw [List.length_take, Vector.length_toList]
      show layout.start output.object ≤ output.address + (outputLength - cipherMacLength) ∧
        output.address + (outputLength - cipherMacLength) + min cipherMacLength 32
          ≤ layout.start output.object + layout.size output.object
      have hmin : min cipherMacLength 32 = cipherMacLength := rfl
      omega

end OlmCrypto
