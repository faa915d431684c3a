import SelfOlm.Cbc

/-! # CBC mode — placement and padding

    Encryption and decryption give the same bytes whether the output is the input buffer
    itself or shares no byte with it, and decryption returns what was encrypted.  The
    converse fails: the unpadding only compares the last byte with the length, so it
    accepts every last byte up to there, and no other byte of the padding is looked at. -/

namespace OlmCrypto

open ByteMemory

/-! ## Placement -/

/-- Input and output are the same buffer, or have no byte in common. -/
def SameOrDisjoint (input inputLength output outputLength : Nat) : Prop :=
  output = input ∨ Disjoint input inputLength output outputLength

theorem SameOrDisjoint.streamable {input inputLength output outputLength : Nat}
    (h : SameOrDisjoint input inputLength output outputLength) :
    Streamable input inputLength output := by
  rcases h with hsame | hbehind | hbefore
  · exact Or.inl (Nat.le_of_eq hsame)
  · exact Or.inr hbehind
  · exact Or.inl (by omega)

/-- What the unpadding returns for a string. -/
def unpaddedLength (padded : Bytes) : Option Nat :=
  let padding := (padded.getLastD 0).toNat
  if padding > padded.length then none else some (padded.length - padding)

/-- The last byte of a string in memory. -/
theorem write_last (m : Mem) (p : Nat) {bs : Bytes} (h : bs ≠ []) :
    write m p bs (p + bs.length - 1) = bs.getLastD 0 := by
  have hpos : 0 < bs.length := List.length_pos_iff.mpr h
  rw [show p + bs.length - 1 = p + (bs.length - 1) by omega,
    write_inside m p bs (by omega), List.getLastD_eq_getLast?, List.getLast?_eq_getElem?,
    List.getElem?_eq_getElem (by omega)]
  rfl

variable {prim : Primitives}

/-- Decryption of whole blocks, in place or not. -/
theorem cryptoAesDecryptCbc_blocks (key : Vector UInt8 32) (iv : Block) (m : Mem)
    {input output k : Nat} (hk : k ≠ 0) (hs : Streamable input (16 * k) output) :
    cryptoAesDecryptCbc prim key iv m input (16 * k) output
      = (write m output (cbcDecryptBlocks (prim.aesDecrypt key) k iv (read m input (16 * k))),
          unpaddedLength
            (cbcDecryptBlocks (prim.aesDecrypt key) k iv (read m input (16 * k)))) := by
  have hlength := length_cbcDecryptBlocks (prim.aesDecrypt key) k iv (read m input (16 * k))
  have hnonempty : cbcDecryptBlocks (prim.aesDecrypt key) k iv (read m input (16 * k)) ≠ [] := by
    intro h
    rw [h, List.length_nil] at hlength
    omega
  rw [cryptoAesDecryptCbc, show (16 * k + 15) / 16 = k by omega,
    cbcDecryptLoop_eq prim key k m iv input output hs]
  generalize cbcDecryptBlocks (prim.aesDecrypt key) k iv (read m input (16 * k)) = padded
    at hlength hnonempty ⊢
  simp only [← hlength, write_last m output hnonempty, unpaddedLength]

/-- **CBC ROUND TRIP**, in the same buffer or between disjoint ones.  One string of
    `_olm_crypto_aes_encrypt_cbc_length` bytes is all that encryption stores, wherever
    input and output are; decryption of that string stores the plaintext and returns its
    length; and what decryption stores and returns for whole blocks does not depend on
    the place of the output either. -/
theorem cryptoAesCbc_roundTrip (hinv : prim.AesInverts) (key : Vector UInt8 32) (iv : Block) :
    (∀ plaintext : Bytes, ∃ ciphertext : Bytes,
      ciphertext.length = cryptoAesEncryptCbcLength plaintext.length ∧
      (∀ m input output, read m input plaintext.length = plaintext →
        SameOrDisjoint input plaintext.length output ciphertext.length →
        cryptoAesEncryptCbc prim key iv m input plaintext.length output
          = write m output ciphertext) ∧
      (∀ m input output, read m input ciphertext.length = ciphertext →
        SameOrDisjoint input ciphertext.length output ciphertext.length →
        ∃ m', cryptoAesDecryptCbc prim key iv m input ciphertext.length output
            = (m', some plaintext.length) ∧
          read m' output plaintext.length = plaintext ∧
          SameOutside output ciphertext.length m m')) ∧
    (∀ ciphertext : Bytes, ciphertext.length ≠ 0 → ciphertext.length % 16 = 0 →
      ∃ (padded : Bytes) (length : Option Nat), padded.length = ciphertext.length ∧
        ∀ m input output, read m input ciphertext.length = ciphertext →
          SameOrDisjoint input ciphertext.length output ciphertext.length →
          cryptoAesDecryptCbc prim key iv m input ciphertext.length output
            = (write m output padded, length)) := by
  constructor
  · intro plaintext
    refine ⟨cbcEncrypt (prim.aesEncrypt key) iv plaintext, length_cbcEncrypt _ _ _, ?_, ?_⟩
    · intro m input output hread hplace
      rw [cryptoAesEncryptCbc_eq prim key iv m hplace.streamable, hread]
    · intro m input output hread hplace
      rw [length_cbcEncrypt] at hread hplace ⊢
      have hpadded : (plaintext ++ cbcPadding plaintext.length).length
          = cryptoAesEncryptCbcLength plaintext.length := by
        rw [List.length_append, cbcPadding, List.length_replicate, cryptoAesEncryptCbcLength]
        omega
      refine ⟨_, cryptoAesDecryptCbc_encrypt prim hinv key iv hread hplace.streamable,
        read_prefix (read_write_self m output _), ?_⟩
      exact hpadded ▸ SameOutside.write m output _
  · intro ciphertext hpos hblocks
    obtain ⟨k, hk⟩ : ∃ k, ciphertext.length = 16 * k := ⟨ciphertext.length / 16, by omega⟩
    refine ⟨cbcDecryptBlocks (prim.aesDecrypt key) k iv ciphertext,
      unpaddedLength (cbcDecryptBlocks (prim.aesDecrypt key) k iv ciphertext),
      (length_cbcDecryptBlocks _ _ _ _).trans hk.symm, ?_⟩
    intro m input output hread hplace
    rw [hk] at hread hplace ⊢
    rw [cryptoAesDecryptCbc_blocks key iv m (by omega) hplace.streamable, hread]

/-- A block, encrypted and decrypted in its own buffer. -/
theorem cryptoAesCbc_roundTrip_block :
    ∃ ciphertext : Bytes, ciphertext.length = 32 ∧
      (∀ m, read m 100 16 = List.replicate 16 5 →
        cryptoAesEncryptCbc demoPrimitives (Vector.replicate 32 1) (Vector.replicate 16 2) m
          100 16 100 = write m 100 ciphertext) ∧
      (∀ m, read m 100 32 = ciphertext →
        (cryptoAesDecryptCbc demoPrimitives (Vector.replicate 32 1) (Vector.replicate 16 2) m
          100 32 100).2 = some 16) := by
  obtain ⟨ciphertext, hlength, hencrypt, hdecrypt⟩ := (cryptoAesCbc_roundTrip
    demoPrimitives_aesInverts (Vector.replicate 32 1) (Vector.replicate 16 2)).1
    (List.replicate 16 5)
  have hlength : ciphertext.length = 32 := hlength
  rw [hlength] at hdecrypt
  refine ⟨ciphertext, hlength, fun m hm => hencrypt m 100 100 hm (Or.inl rfl), fun m hm => ?_⟩
  obtain ⟨m', hm', -⟩ := hdecrypt m 100 100 hm (Or.inl rfl)
  rw [hm']
  rfl

/-! ## Chained blocks -/

/-- CBC encryption of `k` blocks without padding. -/
def cbcChain (E : Block → Block) : Nat → Block → Bytes → Bytes
  | 0, _, _ => []
  | k + 1, iv, bs =>
      (E (xorBlock iv (ofBytes 16 bs))).toList
        ++ cbcChain E k (E (xorBlock iv (ofBytes 16 bs))) (bs.drop 16)

/-- The chain of a padded string is its encryption. -/
theorem cbcChain_padded (E : Block → Block) :
    ∀ (k : Nat) (iv : Block) (bs : Bytes), bs.length / 16 = k →
      cbcChain E (k + 1) iv (bs ++ cbcPadding bs.length) = cbcEncryptBlocks E k iv bs := by
  intro k
  induction k with
  | zero =>
      intro iv bs hk
      have hlength : bs.length < 16 := by omega
      have hblock : ofBytes 16 (bs ++ cbcPadding bs.length) = padBlock bs := by
        rw [padBlock, cbcPadding, Nat.mod_eq_of_lt hlength]
      rw [cbcChain, cbcChain, cbcEncryptBlocks, hblock, List.append_nil]
  | succ k ih =>
      intro iv bs hk
      have hlength : 16 ≤ bs.length := by omega
      have hdrop : (bs.drop 16).length = bs.length - 16 := List.length_drop
      have hblock : ofBytes 16 (bs ++ cbcPadding bs.length) = ofBytes 16 bs := by
        apply Vector.ext
        intro i hi
        simp [ofBytes, List.getElem?_append, show i < bs.length by omega]
      have hrest : (bs ++ cbcPadding bs.length).drop 16
          = bs.drop 16 ++ cbcPadding (bs.drop 16).length := by
        rw [List.drop_append_of_le_length hlength, hdrop, cbcPadding, cbcPadding,
          show (bs.length - 16) % 16 = bs.length % 16 by omega]
      rw [cbcChain, cbcEncryptBlocks, hblock, hrest, ih _ _ (by omega)]

/-- Decryption undoes the chain. -/
theorem cbcDecryptBlocks_chain {E D : Block → Block} (hinv : ∀ b, D (E b) = b) :
    ∀ (k : Nat) (iv : Block) (bs : Bytes), bs.length = 16 * k →
      cbcDecryptBlocks D k iv (cbcChain E k iv bs) = bs := by
  intro k
  induction k with
  | zero =>
      intro iv bs hlength
      exact (List.length_eq_zero_iff.mp hlength).symm
  | succ k ih =>
      intro iv bs hlength
      have hdrop : (bs.drop 16).length = bs.length - 16 := List.length_drop
      rw [cbcChain, cbcDecryptBlocks, ofBytes_append, hinv, xorBlock_cancel,
        List.drop_left' Vector.length_toList, ih _ _ (by omega),
        toList_ofBytes_take (by omega), List.take_append_drop]

/-- The chain undoes decryption. -/
theorem cbcChain_decryptBlocks {E D : Block → Block} (hinv : ∀ b, E (D b) = b) :
    ∀ (k : Nat) (iv : Block) (bs : Bytes), bs.length = 16 * k →
      cbcChain E k iv (cbcDecryptBlocks D k iv bs) = bs := by
  intro k
  induction k with
  | zero =>
      intro iv bs hlength
      exact (List.length_eq_zero_iff.mp hlength).symm
  | succ k ih =>
      intro iv bs hlength
      have hdrop : (bs.drop 16).length = bs.length - 16 := List.length_drop
      have hblock : xorBlock iv (xorBlock (D (ofBytes 16 bs)) iv) = D (ofBytes 16 bs) := by
        apply Vector.ext
        intro i hi
        simp only [xorBlock, Vector.getElem_zipWith]
        rw [UInt8.xor_comm, UInt8.xor_assoc, UInt8.xor_self, UInt8.xor_zero]
      rw [cbcDecryptBlocks, cbcChain, ofBytes_append, hblock, hinv,
        List.drop_left' Vector.length_toList, ih _ _ (by omega),
        toList_ofBytes_take (by omega), List.take_append_drop]

/-- A block cipher that can be inverted on all blocks is a permutation of them. -/
theorem aesEncrypt_decrypt (hinv : prim.AesInverts) (key : Vector UInt8 32) (block : Block) :
    prim.aesEncrypt key (prim.aesDecrypt key block) = block := by
  have hbytes : Finite UInt8 := Finite.of_injective UInt8.toBitVec (fun a b h =>
    UInt8.eq_of_toBitVec_eq h)
  have hblocks : Finite Block :=
    Finite.of_injective (fun (v : Block) (i : Fin 16) => v[i]) (fun v w h => by
      apply Vector.ext
      intro i hi
      exact congrFun h ⟨i, hi⟩)
  have hinjective : Function.Injective (prim.aesEncrypt key) :=
    Function.LeftInverse.injective (hinv key)
  obtain ⟨b, rfl⟩ := Finite.surjective_of_injective hinjective block
  rw [hinv key]

/-! ## Padding -/

/-- PKCS#7: the last byte counts the padding bytes, at most a block, and all of them are
    equal to it. -/
def PkcsPadded (padded : Bytes) : Prop :=
  ∃ p, 1 ≤ p ∧ p ≤ 16 ∧
    padded.drop (padded.length - p) = List.replicate p (UInt8.ofNat p)

theorem pkcsPadded_iff {padded : Bytes} {k : Nat} (hk : k ≠ 0) (hlength : padded.length = 16 * k) :
    PkcsPadded padded ↔ ∃ bs : Bytes, bs ++ cbcPadding bs.length = padded := by
  constructor
  · rintro ⟨p, hpos, hmax, htail⟩
    refine ⟨padded.take (padded.length - p), ?_⟩
    have hp : 16 - (padded.length - p) % 16 = p := by omega
    rw [cbcPadding, List.length_take, Nat.min_eq_left (Nat.sub_le _ _), hp, ← htail,
      List.take_append_drop]
  · rintro ⟨bs, rfl⟩
    refine ⟨16 - bs.length % 16, by omega, by omega, ?_⟩
    rw [List.length_append, cbcPadding, List.length_replicate, Nat.add_sub_cancel,
      List.drop_left]

variable (prim)

/-- `ciphertext` is what `_olm_crypto_aes_encrypt_cbc` stores for `plaintext`. -/
def IsEncryption (key : Vector UInt8 32) (iv : Block) (plaintext ciphertext : Bytes) : Prop :=
  ∃ m input output, read m input plaintext.length = plaintext ∧
    SameOrDisjoint input plaintext.length output
      (cryptoAesEncryptCbcLength plaintext.length) ∧
    read (cryptoAesEncryptCbc prim key iv m input plaintext.length output) output
      (cryptoAesEncryptCbcLength plaintext.length) = ciphertext

/-- Decryption accepts just what encryption stores, and returns the length of the
    plaintext. -/
structure AcceptsOnlyEncryptions (key : Vector UInt8 32) (iv : Block) (ciphertext : Bytes)
    (returned : Option Nat) : Prop where
  accepted : returned ≠ none ↔ ∃ plaintext, IsEncryption prim key iv plaintext ciphertext
  length : ∀ plaintext, IsEncryption prim key iv plaintext ciphertext →
    returned = some plaintext.length

/-- The ciphertext is the chain of a string that ends in proper padding, or in a byte
    above its length. -/
def PaddedOrTooLarge (key : Vector UInt8 32) (iv : Block) (ciphertext : Bytes) : Prop :=
  ∃ padded : Bytes, padded.length = ciphertext.length ∧
    cbcChain (prim.aesEncrypt key) (ciphertext.length / 16) iv padded = ciphertext ∧
    (PkcsPadded padded ∨ ciphertext.length < (padded.getLastD 0).toNat)

variable {prim}

theorem isEncryption_iff {key : Vector UInt8 32} {iv : Block} {plaintext ciphertext : Bytes} :
    IsEncryption prim key iv plaintext ciphertext
      ↔ cbcEncrypt (prim.aesEncrypt key) iv plaintext = ciphertext := by
  have hstored : ∀ m input output, read m input plaintext.length = plaintext →
      SameOrDisjoint input plaintext.length output
        (cryptoAesEncryptCbcLength plaintext.length) →
      read (cryptoAesEncryptCbc prim key iv m input plaintext.length output) output
          (cryptoAesEncryptCbcLength plaintext.length)
        = cbcEncrypt (prim.aesEncrypt key) iv plaintext := by
    intro m input output hread hplace
    rw [cryptoAesEncryptCbc_eq prim key iv m hplace.streamable, hread]
    exact read_write_of_length m output (length_cbcEncrypt _ _ _)
  constructor
  · rintro ⟨m, input, output, hread, hplace, hciphertext⟩
    exact (hstored m input output hread hplace).symm.trans hciphertext
  · intro h
    exact ⟨write (fun _ => 0) 0 plaintext, 0, 0, read_write_self _ _ _, Or.inl rfl,
      (hstored _ 0 0 (read_write_self _ _ _) (Or.inl rfl)).trans h⟩

/-- An encryption is a ciphertext that decrypts to a padded plaintext. -/
theorem isEncryption_iff_padded (hinv : prim.AesInverts) {key : Vector UInt8 32} {iv : Block}
    {plaintext ciphertext : Bytes} {k : Nat} (hlength : ciphertext.length = 16 * k) :
    IsEncryption prim key iv plaintext ciphertext
      ↔ plaintext ++ cbcPadding plaintext.length
          = cbcDecryptBlocks (prim.aesDecrypt key) k iv ciphertext := by
  rw [isEncryption_iff]
  constructor
  · rintro rfl
    rw [length_cbcEncrypt, cryptoAesEncryptCbcLength] at hlength
    rw [show k = plaintext.length / 16 + 1 by omega]
    exact (cbcDecrypt_encrypt (hinv key) iv plaintext).symm
  · intro h
    have hpadded := congrArg List.length h
    rw [List.length_append, cbcPadding, List.length_replicate, length_cbcDecryptBlocks] at hpadded
    have hk : k = plaintext.length / 16 + 1 := by omega
    have hchain := cbcChain_decryptBlocks (aesEncrypt_decrypt hinv key) k iv ciphertext hlength
    rw [← h, hk, cbcChain_padded _ _ _ _ rfl] at hchain
    exact hchain

/-- The last byte of a padded string is the number of padding bytes. -/
theorem PkcsPadded.unpaddedLength {bs : Bytes} :
    unpaddedLength (bs ++ cbcPadding bs.length) = some bs.length := by
  have hnat : (UInt8.ofNat (16 - bs.length % 16)).toNat = 16 - bs.length % 16 := by
    rw [UInt8.toNat_ofNat']
    omega
  have hlast : (bs ++ cbcPadding bs.length).getLastD 0 = UInt8.ofNat (16 - bs.length % 16) := by
    rw [List.getLastD_eq_getLast?, cbcPadding, List.getLast?_append, List.getLast?_replicate,
      if_neg (by omega)]
    rfl
  simp only [OlmCrypto.unpaddedLength, hlast, hnat]
  rw [List.length_append, cbcPadding, List.length_replicate, if_neg (by omega),
    Nat.add_sub_cancel]

/-- The comparison of the unpadding against a proper one. -/
theorem accepts_iff (hinv : prim.AesInverts) {key : Vector UInt8 32} {iv : Block}
    {ciphertext : Bytes} {k : Nat} (hk : k ≠ 0) (hlength : ciphertext.length = 16 * k) :
    AcceptsOnlyEncryptions prim key iv ciphertext
        (unpaddedLength (cbcDecryptBlocks (prim.aesDecrypt key) k iv ciphertext))
      ↔ PkcsPadded (cbcDecryptBlocks (prim.aesDecrypt key) k iv ciphertext) ∨
          ciphertext.length
            < ((cbcDecryptBlocks (prim.aesDecrypt key) k iv ciphertext).getLastD 0).toNat := by
  have hpaddedLength := length_cbcDecryptBlocks (prim.aesDecrypt key) k iv ciphertext
  have hencryption : ∀ plaintext, IsEncryption prim key iv plaintext ciphertext
      ↔ plaintext ++ cbcPadding plaintext.length
        = cbcDecryptBlocks (prim.aesDecrypt key) k iv ciphertext :=
    fun plaintext => isEncryption_iff_padded hinv hlength
  generalize cbcDecryptBlocks (prim.aesDecrypt key) k iv ciphertext = padded at *
  have hpkcs := pkcsPadded_iff hk hpaddedLength
  by_cases hpadded : PkcsPadded padded
  · refine iff_of_true ⟨?_, ?_⟩ (Or.inl hpadded)
    · obtain ⟨bs, hbs⟩ := hpkcs.mp hpadded
      rw [← hbs, PkcsPadded.unpaddedLength]
      exact iff_of_true (Option.some_ne_none _) ⟨bs, (hencryption bs).mpr hbs⟩
    · intro bs hbs
      rw [← (hencryption bs).mp hbs, PkcsPadded.unpaddedLength]
  · -- nothing encrypts to this ciphertext
    have hnone : ¬∃ plaintext, IsEncryption prim key iv plaintext ciphertext := by
      rintro ⟨bs, hbs⟩
      exact hpadded (hpkcs.mpr ⟨bs, (hencryption bs).mp hbs⟩)
    rw [unpaddedLength, hpaddedLength, ← hlength]
    by_cases hlast : (padded.getLastD 0).toNat > ciphertext.length
    · refine iff_of_true ⟨?_, fun bs hbs => absurd ⟨bs, hbs⟩ hnone⟩ (Or.inr hlast)
      rw [if_pos hlast]
      exact iff_of_false (fun h => h rfl) hnone
    · refine iff_of_false ?_ (fun h => h.elim hpadded hlast)
      rintro ⟨haccepted, -⟩
      rw [if_neg hlast] at haccepted
      exact hnone (haccepted.mp (Option.some_ne_none _))

/-- **UNPADDING**: decryption of whole blocks accepts just the encryptions, if and only if
    what was chained ends in proper padding or in a byte above the length. -/
theorem cryptoAesDecryptCbc_accepts_iff (hinv : prim.AesInverts) (key : Vector UInt8 32)
    (iv : Block) (ciphertext : Bytes) (hnonempty : ciphertext.length ≠ 0)
    (hblocks : ciphertext.length % 16 = 0) (m : Mem) (input output : Nat)
    (hread : read m input ciphertext.length = ciphertext)
    (hplace : SameOrDisjoint input ciphertext.length output ciphertext.length) :
    AcceptsOnlyEncryptions prim key iv ciphertext
        (cryptoAesDecryptCbc prim key iv m input ciphertext.length output).2
      ↔ PaddedOrTooLarge prim key iv ciphertext := by
  obtain ⟨k, hk⟩ : ∃ k, ciphertext.length = 16 * k := ⟨ciphertext.length / 16, by omega⟩
  have hdecrypt : (cryptoAesDecryptCbc prim key iv m input ciphertext.length output).2
      = unpaddedLength (cbcDecryptBlocks (prim.aesDecrypt key) k iv ciphertext) := by
    rw [hk] at hread hplace ⊢
    rw [cryptoAesDecryptCbc_blocks key iv m (by omega) hplace.streamable, hread]
  rw [hdecrypt, accepts_iff hinv (by omega) hk, PaddedOrTooLarge,
    show ciphertext.length / 16 = k by omega]
  have hchain := cbcChain_decryptBlocks (aesEncrypt_decrypt hinv key) k iv ciphertext hk
  constructor
  · intro h
    exact ⟨_, (length_cbcDecryptBlocks _ _ _ _).trans hk.symm, hchain, h⟩
  · rintro ⟨padded, hlength, hpadded, h⟩
    -- the chain is injective
    rw [← cbcDecryptBlocks_chain (hinv key) k iv padded (hlength.trans hk), hpadded] at h
    exact h

/-- Two blocks, under a key that flips the lowest bit of every byte: the chain of twenty bytes
    and their padding. -/
def demoPadded : Bytes := List.replicate 16 7 ++ List.replicate 4 1 ++ List.replicate 12 10

theorem cryptoAesDecryptCbc_accepts_iff_padded :
    (cryptoAesDecryptCbc demoPrimitives (Vector.replicate 32 1) (Vector.replicate 16 3)
        (write (fun _ => 0) 100 demoPadded) 100 32 200).2 = some 20 ∧
      AcceptsOnlyEncryptions demoPrimitives (Vector.replicate 32 1) (Vector.replicate 16 3)
        demoPadded (cryptoAesDecryptCbc demoPrimitives (Vector.replicate 32 1)
          (Vector.replicate 16 3) (write (fun _ => 0) 100 demoPadded) 100 demoPadded.length
          200).2 := by
  have hread : read (write (fun _ => 0) 100 demoPadded) 100 demoPadded.length = demoPadded :=
    read_write_self _ _ _
  refine ⟨by decide +kernel, ?_⟩
  refine (cryptoAesDecryptCbc_accepts_iff demoPrimitives_aesInverts (Vector.replicate 32 1)
    (Vector.replicate 16 3) demoPadded (by decide) (by decide) _ 100 200 hread
    (Or.inr (Or.inl (by decide)))).mpr ?_
  refine ⟨List.replicate 16 5 ++ List.replicate 4 7 ++ List.replicate 12 12, rfl,
    by decide +kernel, Or.inl ⟨12, by decide, by decide, by decide⟩⟩

/-- A block of zeros, under keys that leave it as it is: the last byte is zero. -/
theorem zeroBlock_decrypted :
    cbcDecryptBlocks (demoPrimitives.aesDecrypt (Vector.replicate 32 0)) 1 (Vector.replicate 16 0)
      (List.replicate 16 0) = List.replicate 16 0 := by
  decide +kernel

/-- A plaintext that ends in zero is accepted whole, though no plaintext encrypts to that
    ciphertext. -/
theorem cryptoAesDecryptCbc_acceptsZero :
    (cryptoAesDecryptCbc demoPrimitives (Vector.replicate 32 0) (Vector.replicate 16 0)
        (fun _ => 0) 100 16 100).2 = some 16 ∧
      ¬∃ plaintext, IsEncryption demoPrimitives (Vector.replicate 32 0) (Vector.replicate 16 0)
        plaintext (List.replicate 16 0) := by
  constructor
  · have hread : read (fun _ => 0) 100 16 = List.replicate 16 0 := by decide
    have hdecrypt : cryptoAesDecryptCbc demoPrimitives (Vector.replicate 32 0)
        (Vector.replicate 16 0) (fun _ => 0) 100 (16 * 1) 100 = _ :=
      cryptoAesDecryptCbc_blocks _ _ _ Nat.one_ne_zero (Or.inl (Nat.le_refl 100))
    rw [show 16 * 1 = 16 from rfl, hread, zeroBlock_decrypted] at hdecrypt
    rw [hdecrypt]
    rfl
  · rintro ⟨plaintext, hencryption⟩
    rw [isEncryption_iff_padded demoPrimitives_aesInverts (show (List.replicate 16
      (0 : UInt8)).length = 16 * 1 from rfl), zeroBlock_decrypted] at hencryption
    obtain ⟨p, hpos, hmax, htail⟩ := (pkcsPadded_iff Nat.one_ne_zero (by rfl)).mpr
      ⟨plaintext, hencryption⟩
    have hall : ∀ p < 17, 1 ≤ p → (List.replicate 16 (0 : UInt8)).drop (16 - p)
        ≠ List.replicate p (UInt8.ofNat p) := by
      decide
    exact hall p (by omega) hpos htail

end OlmCrypto
