import SelfOlm.Crypto

/-! # AES-256 in CBC mode

    The block loops of `_olm_crypto_aes_encrypt_cbc` and
    `_olm_crypto_aes_decrypt_cbc`, on memory, so that input and output may be
    the same buffer.  `cbcEncrypt` and `cbcDecryptBlocks` say what the loops
    compute on byte strings; both loops compute just that when the output
    starts at or before the input, or behind its end. -/

namespace OlmCrypto

open ByteMemory

variable (prim : Primitives)

abbrev Block := Vector UInt8 16

/-- `xor_block<AES_BLOCK_LENGTH>`. -/
def xorBlock (block input : Block) : Block := Vector.zipWith (· ^^^ ·) block input

/-- `_olm_crypto_aes_encrypt_cbc_length`. -/
def cryptoAesEncryptCbcLength (inputLength : Nat) : Nat :=
  inputLength + 16 - inputLength % 16

/-! ## The code -/

/-- The `while` loop over full blocks, and the padded last block. -/
def cbcEncryptLoop (key : Vector UInt8 32) :
    Nat → Mem → Block → Nat → Nat → Nat → Mem
  | 0, m, inputBlock, input, inputLength, output =>
      let padded : Block := Vector.ofFn (fun i =>
        if i.val < inputLength then m (input + i) else UInt8.ofNat (16 - inputLength))
      store m output (prim.aesEncrypt key (xorBlock inputBlock padded))
  | k + 1, m, inputBlock, input, inputLength, output =>
      let inputBlock := xorBlock inputBlock (load 16 m input)
      let m := store m output (prim.aesEncrypt key inputBlock)
      cbcEncryptLoop key k m (load 16 m output) (input + 16) (inputLength - 16) (output + 16)

/-- `_olm_crypto_aes_encrypt_cbc`. -/
def cryptoAesEncryptCbc (key : Vector UInt8 32) (iv : Block) (m : Mem)
    (input inputLength output : Nat) : Mem :=
  cbcEncryptLoop prim key (inputLength / 16) m iv input inputLength output

/-- The `for` loop; `block1` is the previous ciphertext block. -/
def cbcDecryptLoop (key : Vector UInt8 32) : Nat → Mem → Block → Nat → Nat → Mem
  | 0, m, _, _, _ => m
  | k + 1, m, block1, input, output =>
      let block2 := load 16 m input
      let m := store m output (prim.aesDecrypt key (load 16 m input))
      let m := store m output (xorBlock (load 16 m output) block1)
      cbcDecryptLoop key k m block2 (input + 16) (output + 16)

/-- `_olm_crypto_aes_decrypt_cbc`.  The loop runs while `i < input_length`, in
    steps of 16.  For an empty input the padding is read at `output[-1]`. -/
def cryptoAesDecryptCbc (key : Vector UInt8 32) (iv : Block) (m : Mem)
    (input inputLength output : Nat) : Mem × Option Nat :=
  let m := cbcDecryptLoop prim key ((inputLength + 15) / 16) m iv input output
  let padding := (m (output + inputLength - 1)).toNat
  (m, if padding > inputLength then none else some (inputLength - padding))

/-! ## What it computes -/

/-- The last block before encryption: the rest of the input and its padding. -/
def padBlock (bs : Bytes) : Block :=
  ofBytes 16 (bs ++ List.replicate (16 - bs.length) (UInt8.ofNat (16 - bs.length)))

/-- CBC encryption of a string with `k` full blocks. -/
def cbcEncryptBlocks (E : Block → Block) : Nat → Block → Bytes → Bytes
  | 0, iv, bs => (E (xorBlock iv (padBlock bs))).toList
  | k + 1, iv, bs =>
      (E (xorBlock iv (ofBytes 16 bs))).toList
        ++ cbcEncryptBlocks E k (E (xorBlock iv (ofBytes 16 bs))) (bs.drop 16)

/-- CBC encryption with PKCS#7 padding. -/
def cbcEncrypt (E : Block → Block) (iv : Block) (bs : Bytes) : Bytes :=
  cbcEncryptBlocks E (bs.length / 16) iv bs

/-- CBC decryption of `k` blocks, padding included. -/
def cbcDecryptBlocks (D : Block → Block) : Nat → Block → Bytes → Bytes
  | 0, _, _ => []
  | k + 1, iv, bs =>
      (xorBlock (D (ofBytes 16 bs)) iv).toList
        ++ cbcDecryptBlocks D k (ofBytes 16 bs) (bs.drop 16)

theorem length_cbcEncryptBlocks (E : Block → Block) :
    ∀ (k : Nat) (iv : Block) (bs : Bytes), (cbcEncryptBlocks E k iv bs).length = 16 * (k + 1) := by
  intro k
  induction k with
  | zero =>
      intro iv bs
      rw [cbcEncryptBlocks, Vector.length_toList]
  | succ k ih =>
      intro iv bs
      rw [cbcEncryptBlocks, List.length_append, Vector.length_toList, ih]
      omega

@[simp] theorem length_cbcEncrypt (E : Block → Block) (iv : Block) (bs : Bytes) :
    (cbcEncrypt E iv bs).length = cryptoAesEncryptCbcLength bs.length := by
  rw [cbcEncrypt, length_cbcEncryptBlocks, cryptoAesEncryptCbcLength]
  omega

theorem length_cbcDecryptBlocks (D : Block → Block) :
    ∀ (k : Nat) (iv : Block) (bs : Bytes), (cbcDecryptBlocks D k iv bs).length = 16 * k := by
  intro k
  induction k with
  | zero => intro iv bs; rfl
  | succ k ih =>
      intro iv bs
      rw [cbcDecryptBlocks, List.length_append, Vector.length_toList, ih]
      omega

/-- Input and output buffers that the block loops may be called with: every
    block is read before the loop writes to it. -/
def Streamable (input inputLength output : Nat) : Prop :=
  output ≤ input ∨ input + inputLength ≤ output

theorem ofBytes_read (m : Mem) (p : Nat) {k n : Nat} (h : k ≤ n) :
    ofBytes k (read m p n) = load k m p := by
  rw [← ofBytes_toList (load k m p), toList_load, ← take_read m p h]
  apply Vector.ext
  intro i hi
  simp [ofBytes]

theorem padBlock_read (m : Mem) (p : Nat) {n : Nat} (h : n < 16) :
    (Vector.ofFn (fun i : Fin 16 =>
      if i.val < n then m (p + i) else UInt8.ofNat (16 - n)) : Block)
      = padBlock (read m p n) := by
  apply Vector.ext
  intro i hi
  simp only [padBlock, ofBytes, Vector.getElem_ofFn, length_read, List.getD_eq_getElem?_getD,
    List.getElem?_append, getElem?_read, List.getElem?_replicate]
  by_cases hn : i < n
  · simp [hn]
  · simp [hn, show i - n < 16 - n by omega]

/-- The encryption loop stores the CBC encryption of its input. -/
theorem cbcEncryptLoop_eq (key : Vector UInt8 32) :
    ∀ (k : Nat) (m : Mem) (iv : Block) (input inputLength output : Nat),
      inputLength / 16 = k → Streamable input inputLength output →
      cbcEncryptLoop prim key k m iv input inputLength output
        = write m output
            (cbcEncryptBlocks (prim.aesEncrypt key) k iv (read m input inputLength)) := by
  intro k
  induction k with
  | zero =>
      intro m iv input n output hk _
      rw [cbcEncryptLoop, cbcEncryptBlocks, padBlock_read m input (by omega)]
      rfl
  | succ k ih =>
      intro m iv input n output hk hs
      have hn : 16 ≤ n := by omega
      rw [cbcEncryptLoop, cbcEncryptBlocks, ofBytes_read m input hn]
      generalize hc : prim.aesEncrypt key (xorBlock iv (load 16 m input)) = c
      -- the unread part of the input is not touched by the store
      have hrest : read (store m output c) (input + 16) (n - 16)
          = (read m input n).drop 16 := by
        rw [drop_read m input hn]
        refine read_write_disjoint m ?_
        rw [Vector.length_toList]
        rcases hs with hs | hs
        · left; omega
        · right; omega
      rw [ih _ _ _ _ _ (by omega) (by rcases hs with hs | hs
                                      · left; omega
                                      · right; omega), hrest, load_store_self]
      show write (write m output c.toList) (output + 16) _ = _
      rw [write_append, Vector.length_toList]

/-- **CBC ENCRYPTION**, in place or not. -/
theorem cryptoAesEncryptCbc_eq (key : Vector UInt8 32) (iv : Block) (m : Mem)
    {input inputLength output : Nat} (hs : Streamable input inputLength output) :
    cryptoAesEncryptCbc prim key iv m input inputLength output
      = write m output (cbcEncrypt (prim.aesEncrypt key) iv (read m input inputLength)) := by
  rw [cryptoAesEncryptCbc, cbcEncryptLoop_eq prim key _ m iv _ _ _ rfl hs, cbcEncrypt,
    length_read]

/-- The decryption loop stores the CBC decryption of its input. -/
theorem cbcDecryptLoop_eq (key : Vector UInt8 32) :
    ∀ (k : Nat) (m : Mem) (iv : Block) (input output : Nat),
      Streamable input (16 * k) output →
      cbcDecryptLoop prim key k m iv input output
        = write m output
            (cbcDecryptBlocks (prim.aesDecrypt key) k iv (read m input (16 * k))) := by
  intro k
  induction k with
  | zero =>
      intro m iv input output _
      rw [cbcDecryptLoop, cbcDecryptBlocks, write_nil]
  | succ k ih =>
      intro m iv input output hs
      have hn : 16 ≤ 16 * (k + 1) := by omega
      rw [cbcDecryptLoop, cbcDecryptBlocks, ofBytes_read m input hn, load_store_self]
      generalize hc : xorBlock (prim.aesDecrypt key (load 16 m input)) iv = c
      have hstore : store (store m output (prim.aesDecrypt key (load 16 m input))) output c
          = store m output c :=
        write_overwrite m output (by rw [Vector.length_toList, Vector.length_toList])
      have hrest : read (store m output c) (input + 16) (16 * k)
          = (read m input (16 * (k + 1))).drop 16 := by
        rw [drop_read m input hn, show 16 * (k + 1) - 16 = 16 * k by omega]
        refine read_write_disjoint m ?_
        rw [Vector.length_toList]
        rcases hs with hs | hs
        · left; omega
        · right; omega
      rw [hstore, ih _ _ _ _ (by rcases hs with hs | hs
                                 · left; omega
                                 · right; omega), hrest]
      show write (write m output c.toList) (output + 16) _ = _
      rw [write_append, Vector.length_toList]

/-! ## Decryption inverts encryption -/

theorem xorBlock_cancel (iv block : Block) : xorBlock (xorBlock iv block) iv = block := by
  apply Vector.ext
  intro i hi
  simp only [xorBlock, Vector.getElem_zipWith]
  rw [UInt8.xor_comm, ← UInt8.xor_assoc, UInt8.xor_self, UInt8.zero_xor]

/-- The padding of a string of length `n`. -/
def cbcPadding (n : Nat) : Bytes :=
  List.replicate (16 - n % 16) (UInt8.ofNat (16 - n % 16))

theorem cbcDecryptBlocks_encrypt {E D : Block → Block} (hinv : ∀ b, D (E b) = b) :
    ∀ (k : Nat) (iv : Block) (bs : Bytes), bs.length / 16 = k →
      cbcDecryptBlocks D (k + 1) iv (cbcEncryptBlocks E k iv bs)
        = bs ++ cbcPadding bs.length := by
  intro k
  induction k with
  | zero =>
      intro iv bs hk
      have hlen : bs.length < 16 := by omega
      rw [cbcEncryptBlocks, cbcDecryptBlocks, cbcDecryptBlocks, ofBytes_toList, hinv,
        xorBlock_cancel, List.append_nil, padBlock, toList_ofBytes, cbcPadding,
        Nat.mod_eq_of_lt hlen]
      rw [List.length_append, List.length_replicate]
      omega
  | succ k ih =>
      intro iv bs hk
      have hlen : 16 ≤ bs.length := by omega
      have hdrop : (bs.drop 16).length = bs.length - 16 := List.length_drop
      rw [cbcEncryptBlocks, cbcDecryptBlocks, ofBytes_append, hinv, xorBlock_cancel,
        List.drop_left' Vector.length_toList, ih _ _ (by omega), toList_ofBytes_take hlen,
        ← List.append_assoc, List.take_append_drop, hdrop, cbcPadding, cbcPadding,
        show (bs.length - 16) % 16 = bs.length % 16 by omega]

/-- **CBC ROUND TRIP** on byte strings: the plaintext and its padding. -/
theorem cbcDecrypt_encrypt {E D : Block → Block} (hinv : ∀ b, D (E b) = b) (iv : Block)
    (bs : Bytes) :
    cbcDecryptBlocks D (bs.length / 16 + 1) iv (cbcEncrypt E iv bs)
      = bs ++ cbcPadding bs.length :=
  cbcDecryptBlocks_encrypt hinv _ iv bs rfl

/-- **CBC DECRYPTION** of an encrypted string, in place or not: the plaintext
    is stored and its length returned. -/
theorem cryptoAesDecryptCbc_encrypt (hinv : prim.AesInverts) (key : Vector UInt8 32)
    (iv : Block) {m : Mem} {input output : Nat} {bs : Bytes}
    (hin : read m input (cryptoAesEncryptCbcLength bs.length)
      = cbcEncrypt (prim.aesEncrypt key) iv bs)
    (hs : Streamable input (cryptoAesEncryptCbcLength bs.length) output) :
    cryptoAesDecryptCbc prim key iv m input (cryptoAesEncryptCbcLength bs.length) output
      = (write m output (bs ++ cbcPadding bs.length), some bs.length) := by
  have hlen : cryptoAesEncryptCbcLength bs.length = 16 * (bs.length / 16 + 1) := by
    rw [cryptoAesEncryptCbcLength]; omega
  have hpad : (bs ++ cbcPadding bs.length).length = cryptoAesEncryptCbcLength bs.length := by
    rw [List.length_append, cbcPadding, List.length_replicate, hlen]; omega
  have hloop : cbcDecryptLoop prim key ((cryptoAesEncryptCbcLength bs.length + 15) / 16) m iv
      input output = write m output (bs ++ cbcPadding bs.length) := by
    rw [show (cryptoAesEncryptCbcLength bs.length + 15) / 16 = bs.length / 16 + 1 by omega,
      cbcDecryptLoop_eq prim key _ m iv _ _ (hlen ▸ hs), ← hlen, hin,
      cbcDecrypt_encrypt (hinv key)]
  -- the last byte is the last padding byte
  have hlast : (write m output (bs ++ cbcPadding bs.length))
      (output + cryptoAesEncryptCbcLength bs.length - 1)
        = UInt8.ofNat (16 - bs.length % 16) := by
    rw [show output + cryptoAesEncryptCbcLength bs.length - 1
      = output + (cryptoAesEncryptCbcLength bs.length - 1) by omega,
      write_inside m output _ (by rw [hpad]; omega), List.getElem_append_right (by omega)]
    exact List.getElem_replicate _
  have hnat : (UInt8.ofNat (16 - bs.length % 16)).toNat = 16 - bs.length % 16 := by
    rw [UInt8.toNat_ofNat']
    omega
  rw [cryptoAesDecryptCbc, hloop]
  simp only [hlast, hnat]
  rw [if_neg (by omega), show cryptoAesEncryptCbcLength bs.length - (16 - bs.length % 16)
    = bs.length by omega]

/-- The loop stores nothing but its blocks. -/
theorem cbcDecryptLoop_frame (key : Vector UInt8 32) :
    ∀ (k : Nat) (m : Mem) (block1 : Block) (input output : Nat),
      SameOutside output (16 * k) m (cbcDecryptLoop prim key k m block1 input output) := by
  intro k
  induction k with
  | zero => intro m block1 input output; exact SameOutside.refl _ _ m
  | succ k ih =>
      intro m block1 input output
      rw [cbcDecryptLoop]
      have hstore : ∀ (m : Mem) (block : Block),
          SameOutside output (16 * (k + 1)) m (store m output block) := by
        intro m block
        refine SameOutside.write_within m (Nat.le_refl _) ?_
        rw [Vector.length_toList]
        omega
      have hblock := (hstore m (prim.aesDecrypt key (load 16 m input))).trans (hstore _
        (xorBlock (load 16 (store m output (prim.aesDecrypt key (load 16 m input))) output) block1))
      exact hblock.trans ((ih _ _ _ _).mono (by omega) (by omega))

/-- Decryption stores whole blocks: up to 15 bytes more than there are in the
    ciphertext. -/
theorem cryptoAesDecryptCbc_frame (key : Vector UInt8 32) (iv : Block) (m : Mem)
    (input inputLength output : Nat) :
    SameOutside output (inputLength + 15) m
      (cryptoAesDecryptCbc prim key iv m input inputLength output).1 := by
  refine (cbcDecryptLoop_frame prim key _ m iv input output).mono (Nat.le_refl _) ?_
  have := Nat.mul_div_le (inputLength + 15) 16
  omega

end OlmCrypto
