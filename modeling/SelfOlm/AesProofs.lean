import SelfOlm.Lib.BinaryMix
import SelfOlm.Aes

/-! # Decryption of a block inverts encryption

    Every step of a round has its inverse: the two boxes are inverse tables, the rows
    are shifted back, adding a round key is its own inverse, and the columns are mixed
    back, since the six columns of `gf_mul` are the multiplications that they are said
    to be.  `aes_decrypt` goes through the rounds backwards, and a round of its own
    begins where the last step of the other one ends. -/

namespace OlmAes

open OlmCrypto BinaryMix

/-! ## The tables -/

theorem forall_byte {p : UInt8 → Prop} (h : ∀ i : Fin 256, p (UInt8.ofFin i)) (b : UInt8) : p b := by
  rw [← UInt8.ofFin_toFin b]
  exact h b.toFin

theorem invsbox_sbox (b : UInt8) : invsbox (sbox b) = b := by
  have htable : ∀ i : Fin 256, invsbox (sbox (UInt8.ofFin i)) = UInt8.ofFin i := by decide +kernel
  exact forall_byte (p := fun b => invsbox (sbox b) = b) htable b

theorem sbox_invsbox (b : UInt8) : sbox (invsbox b) = b := by
  have htable : ∀ i : Fin 256, sbox (invsbox (UInt8.ofFin i)) = UInt8.ofFin i := by decide +kernel
  exact forall_byte (p := fun b => sbox (invsbox b) = b) htable b

/-- The products that a row of `gf_mul` holds. -/
def products (b : UInt8) : Vector UInt8 6 :=
  let b2 := xtime b
  let b4 := xtime b2
  let b8 := xtime b4
  #v[b2, b2 ^^^ b, b8 ^^^ b, b8 ^^^ b2 ^^^ b, b8 ^^^ b4 ^^^ b, b8 ^^^ b4 ^^^ b2]

set_option maxRecDepth 4000 in
theorem gfMul_toList :
    gfMul.toList = (List.range 256).map (fun i => products (UInt8.ofNat i)) := by
  decide +kernel

theorem gfMul_get (b : UInt8) : gfMul.get b.toFin = products b := by
  have hget : gfMul.toList[b.toNat]? = some (gfMul.get b.toFin) := by
    rw [List.getElem?_eq_getElem (by rw [Vector.length_toList]; exact b.toNat_lt),
      Vector.getElem_toList]
    rfl
  rw [gfMul_toList, List.getElem?_map, List.getElem?_range b.toNat_lt, Option.map_some,
    UInt8.ofNat_toNat] at hget
  exact (Option.some.inj hget).symm

/-! ## Cells -/

@[simp] theorem cells_cell (f : Fin 4 → Fin 4 → UInt8) (r c : Fin 4) :
    cell (cells f) r c = f r c := by
  simp only [cell, cells, Vector.get_ofFn]

theorem state_ext {s t : State} (h : ∀ r c : Fin 4, cell s r c = cell t r c) : s = t := by
  refine Vector.ext ?_
  intro r hr
  refine Vector.ext ?_
  intro c hc
  exact h ⟨r, hr⟩ ⟨c, hc⟩

/-! ## The steps -/

theorem addRoundKey_self (key : List UInt32) (idx : Nat) (s : State) :
    addRoundKey key idx (addRoundKey key idx s) = s := by
  refine state_ext ?_
  intro r c
  rw [addRoundKey, cells_cell, addRoundKey, cells_cell, UInt8.xor_assoc, UInt8.xor_self,
    UInt8.xor_zero]

theorem invSubBytes_subBytes (s : State) : invSubBytes (subBytes s) = s := by
  refine state_ext ?_
  intro r c
  rw [invSubBytes, cells_cell, subBytes, cells_cell, invsbox_sbox]

theorem subBytes_invSubBytes (s : State) : subBytes (invSubBytes s) = s := by
  refine state_ext ?_
  intro r c
  rw [subBytes, cells_cell, invSubBytes, cells_cell, sbox_invsbox]

theorem invShiftRows_shiftRows (s : State) : invShiftRows (shiftRows s) = s := by
  refine state_ext ?_
  intro r c
  fin_cases r <;> fin_cases c <;> rfl

theorem shiftRows_invShiftRows (s : State) : shiftRows (invShiftRows s) = s := by
  refine state_ext ?_
  intro r c
  fin_cases r <;> fin_cases c <;> rfl

/-- A cell of `MixColumns` is a cell of its column mixed with the ones below it. -/
theorem mixColumns_cell (s : State) (r c : Fin 4) :
    cell (mixColumns s) r c
      = (mix xtimeLinear ⟨cell s r c⟩ ⟨cell s (r + 1) c⟩ ⟨cell s (r + 2) c⟩ ⟨cell s (r + 3) c⟩).byte := by
  have hmul0 : ∀ b, mul b 0 = xtime b := fun b => by rw [mul, gfMul_get]; rfl
  have hmul1 : ∀ b, mul b 1 = xtime b ^^^ b := fun b => by rw [mul, gfMul_get]; rfl
  have hmix : ∀ a b c d : UInt8, (mix xtimeLinear ⟨a⟩ ⟨b⟩ ⟨c⟩ ⟨d⟩).byte
      = mul a 0 ^^^ mul b 1 ^^^ c ^^^ d := by
    intro a b c d
    rw [hmul0, hmul1]
    rfl
  rw [mixColumns, cells_cell, hmix]
  fin_cases r
  · rfl
  · show cell s 0 c ^^^ mul (cell s 1 c) 0 ^^^ mul (cell s 2 c) 1 ^^^ cell s 3 c
      = mul (cell s 1 c) 0 ^^^ mul (cell s 2 c) 1 ^^^ cell s 3 c ^^^ cell s 0 c
    ac_rfl
  · show cell s 0 c ^^^ cell s 1 c ^^^ mul (cell s 2 c) 0 ^^^ mul (cell s 3 c) 1
      = mul (cell s 2 c) 0 ^^^ mul (cell s 3 c) 1 ^^^ cell s 0 c ^^^ cell s 1 c
    ac_rfl
  · show mul (cell s 0 c) 1 ^^^ cell s 1 c ^^^ cell s 2 c ^^^ mul (cell s 3 c) 0
      = mul (cell s 3 c) 0 ^^^ mul (cell s 0 c) 1 ^^^ cell s 1 c ^^^ cell s 2 c
    ac_rfl

theorem invMixColumns_cell (s : State) (r c : Fin 4) :
    cell (invMixColumns s) r c
      = (unmix xtimeLinear ⟨cell s r c⟩ ⟨cell s (r + 1) c⟩ ⟨cell s (r + 2) c⟩ ⟨cell s (r + 3) c⟩).byte := by
  have hunmix : ∀ a b c d : UInt8, (unmix xtimeLinear ⟨a⟩ ⟨b⟩ ⟨c⟩ ⟨d⟩).byte
      = mul a 5 ^^^ mul b 3 ^^^ mul c 4 ^^^ mul d 2 := by
    intro a b c d
    rw [mul, mul, mul, mul, gfMul_get, gfMul_get, gfMul_get, gfMul_get]
    rfl
  rw [invMixColumns, cells_cell, hunmix]
  fin_cases r
  · rfl
  · show mul (cell s 0 c) 2 ^^^ mul (cell s 1 c) 5 ^^^ mul (cell s 2 c) 3 ^^^ mul (cell s 3 c) 4
      = mul (cell s 1 c) 5 ^^^ mul (cell s 2 c) 3 ^^^ mul (cell s 3 c) 4 ^^^ mul (cell s 0 c) 2
    ac_rfl
  · show mul (cell s 0 c) 4 ^^^ mul (cell s 1 c) 2 ^^^ mul (cell s 2 c) 5 ^^^ mul (cell s 3 c) 3
      = mul (cell s 2 c) 5 ^^^ mul (cell s 3 c) 3 ^^^ mul (cell s 0 c) 4 ^^^ mul (cell s 1 c) 2
    ac_rfl
  · show mul (cell s 0 c) 3 ^^^ mul (cell s 1 c) 4 ^^^ mul (cell s 2 c) 2 ^^^ mul (cell s 3 c) 5
      = mul (cell s 3 c) 5 ^^^ mul (cell s 0 c) 3 ^^^ mul (cell s 1 c) 4 ^^^ mul (cell s 2 c) 2
    ac_rfl

/-- **MIXED COLUMNS** are mixed back. -/
theorem invMixColumns_mixColumns (s : State) : invMixColumns (mixColumns s) = s := by
  refine state_ext ?_
  intro r c
  rw [invMixColumns_cell, mixColumns_cell, mixColumns_cell, mixColumns_cell, mixColumns_cell]
  fin_cases r
  · exact congrArg Bits.byte (unmix_mix xtimeLinear _ _ _ _)
  · exact congrArg Bits.byte (unmix_mix xtimeLinear _ _ _ _)
  · exact congrArg Bits.byte (unmix_mix xtimeLinear _ _ _ _)
  · exact congrArg Bits.byte (unmix_mix xtimeLinear _ _ _ _)

theorem mixColumns_invMixColumns (s : State) : mixColumns (invMixColumns s) = s := by
  refine state_ext ?_
  intro r c
  rw [mixColumns_cell, invMixColumns_cell, invMixColumns_cell, invMixColumns_cell,
    invMixColumns_cell]
  fin_cases r
  · exact congrArg Bits.byte (mix_unmix xtimeLinear _ _ _ _)
  · exact congrArg Bits.byte (mix_unmix xtimeLinear _ _ _ _)
  · exact congrArg Bits.byte (mix_unmix xtimeLinear _ _ _ _)
  · exact congrArg Bits.byte (mix_unmix xtimeLinear _ _ _ _)

theorem storeState_loadState (b : Vector UInt8 16) : storeState (loadState b) = b := by
  refine Vector.ext ?_
  intro i hi
  have hcell : (storeState (loadState b))[i]
      = cell (loadState b) ⟨i % 4, Nat.mod_lt _ (by decide)⟩ ⟨i / 4, by omega⟩ := by
    rw [storeState, Vector.getElem_ofFn]
  have hplace : 4 * (i / 4) + i % 4 = i := Nat.div_add_mod i 4
  rw [hcell, loadState, cells_cell, Vector.get]
  simp only [hplace]
  rfl

theorem loadState_storeState (s : State) : loadState (storeState s) = s := by
  refine state_ext ?_
  intro r c
  have hrow : (4 * c.val + r.val) % 4 = r.val := by omega
  have hcol : (4 * c.val + r.val) / 4 = c.val := by omega
  rw [loadState, cells_cell, storeState, Vector.get_eq_getElem, Vector.getElem_ofFn]
  simp only [hrow, hcol]

/-! ## The rounds -/

/-- The state in front of the key of a round: boxes and shifted rows. -/
def beforeKey (s : State) : State := shiftRows (subBytes s)

theorem beforeKey_inv (s : State) : invSubBytes (invShiftRows (beforeKey s)) = s := by
  rw [beforeKey, invShiftRows_shiftRows, invSubBytes_subBytes]

theorem inv_beforeKey (s : State) : beforeKey (invSubBytes (invShiftRows s)) = s := by
  rw [beforeKey, subBytes_invSubBytes, shiftRows_invShiftRows]

theorem decryptRound_encryptRound (key : List UInt32) (s : State) (idx : Nat) :
    decryptRound key (beforeKey (encryptRound key s idx)) idx = beforeKey s := by
  rw [decryptRound, beforeKey_inv, encryptRound, addRoundKey_self, invMixColumns_mixColumns]
  rfl

theorem encryptRound_decryptRound (key : List UInt32) (s : State) (idx : Nat) :
    encryptRound key (invSubBytes (invShiftRows (decryptRound key s idx))) idx
      = invSubBytes (invShiftRows s) := by
  rw [encryptRound, ← beforeKey, inv_beforeKey, decryptRound, mixColumns_invMixColumns,
    addRoundKey_self]

/-- **ANY NUMBER OF ROUNDS** is taken back in the other order. -/
theorem decryptRounds_encryptRounds (key : List UInt32) (idxs : List Nat) (s : State) :
    idxs.reverse.foldl (decryptRound key) (beforeKey (idxs.foldl (encryptRound key) s))
      = beforeKey s := by
  induction idxs generalizing s with
  | nil => rfl
  | cons idx idxs ih =>
      rw [List.reverse_cons, List.foldl_append]
      show decryptRound key (idxs.reverse.foldl (decryptRound key)
        (beforeKey (idxs.foldl (encryptRound key) (encryptRound key s idx)))) idx = beforeKey s
      rw [ih]
      exact decryptRound_encryptRound key s idx

theorem encryptRounds_decryptRounds (key : List UInt32) (idxs : List Nat) (s : State) :
    idxs.reverse.foldl (encryptRound key)
        (invSubBytes (invShiftRows (idxs.foldl (decryptRound key) s)))
      = invSubBytes (invShiftRows s) := by
  induction idxs generalizing s with
  | nil => rfl
  | cons idx idxs ih =>
      rw [List.reverse_cons, List.foldl_append]
      show encryptRound key (idxs.reverse.foldl (encryptRound key) (invSubBytes (invShiftRows
        (idxs.foldl (decryptRound key) (decryptRound key s idx))))) idx = _
      rw [ih]
      exact encryptRound_decryptRound key s idx

/-- Encryption with the rounds `idxs` between the first and the last key. -/
def encryptWith (key : List UInt32) (idxs : List Nat) (last : Nat) (input : Vector UInt8 16) :
    Vector UInt8 16 :=
  storeState (lastRound key (idxs.foldl (encryptRound key) (addRoundKey key 0 (loadState input)))
    last)

/-- Decryption with the rounds `idxs`. -/
def decryptWith (key : List UInt32) (idxs : List Nat) (last : Nat) (input : Vector UInt8 16) :
    Vector UInt8 16 :=
  storeState (addRoundKey key 0 (invSubBytes (invShiftRows (idxs.foldl (decryptRound key)
    (addRoundKey key last (loadState input))))))

theorem decryptWith_encryptWith (key : List UInt32) (idxs : List Nat) (last : Nat)
    (b : Vector UInt8 16) :
    decryptWith key idxs.reverse last (encryptWith key idxs last b) = b := by
  rw [decryptWith, encryptWith, loadState_storeState, lastRound, addRoundKey_self, ← beforeKey,
    decryptRounds_encryptRounds, beforeKey_inv, addRoundKey_self, storeState_loadState]

theorem encryptWith_decryptWith (key : List UInt32) (idxs : List Nat) (last : Nat)
    (b : Vector UInt8 16) :
    encryptWith key idxs.reverse last (decryptWith key idxs last b) = b := by
  rw [encryptWith, decryptWith, loadState_storeState, addRoundKey_self,
    encryptRounds_decryptRounds, lastRound, ← beforeKey, inv_beforeKey, addRoundKey_self,
    storeState_loadState]

/-- The keys of the first nine rounds, those that 192 bits add, and those of 256 bits. -/
def rounds128 : List Nat := [4, 8, 12, 16, 20, 24, 28, 32, 36]
def rounds192 : List Nat := rounds128 ++ [40, 44]
def rounds256 : List Nat := rounds192 ++ [48, 52]

theorem aesEncrypt_eq (b : Vector UInt8 16) (key : List UInt32) (keysize : Int) :
    aesEncrypt b key keysize =
      if keysize = 128 then encryptWith key rounds128 40 b
      else if keysize = 192 then encryptWith key rounds192 48 b
      else encryptWith key rounds256 56 b := by
  rw [aesEncrypt, encryptWith, encryptWith, encryptWith, rounds256, rounds192, rounds128,
    List.foldl_append, List.foldl_append, List.foldl_append]
  by_cases h128 : keysize = 128
  · rw [if_pos h128, if_neg (not_not_intro h128)]
  rw [if_neg h128, if_pos h128]
  by_cases h192 : keysize = 192
  · rw [if_pos h192, if_neg (not_not_intro h192)]
  · rw [if_neg h192, if_pos h192]

theorem reverse_rounds192 :
    rounds192.reverse = [44, 40] ++ [36, 32, 28, 24, 20, 16, 12, 8, 4] := rfl

theorem reverse_rounds256 :
    rounds256.reverse = [52, 48] ++ ([44, 40] ++ [36, 32, 28, 24, 20, 16, 12, 8, 4]) := rfl

theorem aesDecrypt_eq (b : Vector UInt8 16) (key : List UInt32) (keysize : Int) :
    aesDecrypt b key keysize =
      if keysize > 192 then decryptWith key rounds256.reverse 56 b
      else if keysize > 128 then decryptWith key rounds192.reverse 48 b
      else decryptWith key rounds128.reverse 40 b := by
  rw [aesDecrypt, decryptWith, decryptWith, decryptWith, reverse_rounds256, reverse_rounds192,
    show rounds128.reverse = [36, 32, 28, 24, 20, 16, 12, 8, 4] from rfl, List.foldl_append,
    List.foldl_append, List.foldl_append]
  by_cases h128 : keysize > 128
  · rw [if_pos h128, if_pos h128]
    by_cases h192 : keysize > 192
    · rw [if_pos h192, if_pos h192]
    · rw [if_neg h192, if_neg h192]
  · have h192 : ¬keysize > 192 := fun h => h128 (by omega)
    rw [if_neg h128, if_neg h192, if_neg h128]

/-! ## Other key sizes -/

/-- A state with one value everywhere. -/
def uniform (b : UInt8) : State := cells (fun _ _ => b)

/-- Without keys, a state with one value everywhere stays so: two and three times a
    value and twice the value itself is the value. -/
theorem mixColumns_uniform (b : UInt8) : mixColumns (uniform b) = uniform b := by
  have hcell : ∀ r c : Fin 4, cell (uniform b) r c = b := fun r c => cells_cell _ r c
  have hmix : mix xtimeLinear (⟨b⟩ : Bits) ⟨b⟩ ⟨b⟩ ⟨b⟩ = ⟨b⟩ := by
    simp only [mix, times3, LinearMap.add_apply, LinearMap.id_apply]
    conv_rhs => rw [← one_smul (ZMod 2) (⟨b⟩ : Bits)]
    match_scalars <;> decide
  refine state_ext ?_
  intro r c
  rw [mixColumns_cell, hcell, hcell, hcell, hcell, hmix]

theorem invMixColumns_uniform (b : UInt8) : invMixColumns (uniform b) = uniform b := by
  rw [← mixColumns_uniform, invMixColumns_mixColumns, mixColumns_uniform]

theorem addRoundKey_zero (idx : Nat) (s : State) : addRoundKey [] idx s = s := by
  refine state_ext ?_
  intro r c
  have hzero : ∀ n : UInt32, ((0 : UInt32) >>> n).toUInt8 = 0 := by
    intro n
    rw [UInt32.zero_shiftRight]
    rfl
  rw [addRoundKey, cells_cell, List.getD_nil, hzero, UInt8.xor_zero]

theorem beforeKey_uniform (b : UInt8) : beforeKey (uniform b) = uniform (sbox b) := by
  have hsub : subBytes (uniform b) = uniform (sbox b) := by
    refine state_ext ?_
    intro r c
    rw [subBytes, cells_cell, uniform, cells_cell, uniform, cells_cell]
  have hshift : ∀ (s : State) (r c : Fin 4), cell (shiftRows s) r c = cell s r (r + c) := by
    intro s r c
    fin_cases r <;> fin_cases c <;> rfl
  rw [beforeKey, hsub]
  refine state_ext ?_
  intro r c
  rw [hshift, uniform, cells_cell, cells_cell]

theorem inv_uniform (b : UInt8) : invSubBytes (invShiftRows (uniform b)) = uniform (invsbox b) := by
  rw [← beforeKey_inv (uniform (invsbox b)), beforeKey_uniform, sbox_invsbox]

theorem encryptRounds_uniform (idxs : List Nat) (b : UInt8) :
    idxs.foldl (encryptRound []) (uniform b) = uniform (sbox^[idxs.length] b) := by
  induction idxs generalizing b with
  | nil => rfl
  | cons idx idxs ih =>
      rw [List.foldl_cons, encryptRound, addRoundKey_zero, ← beforeKey, beforeKey_uniform,
        mixColumns_uniform, ih]
      rfl

theorem decryptRounds_uniform (idxs : List Nat) (b : UInt8) :
    idxs.foldl (decryptRound []) (uniform b) = uniform (invsbox^[idxs.length] b) := by
  induction idxs generalizing b with
  | nil => rfl
  | cons idx idxs ih =>
      rw [List.foldl_cons, decryptRound, inv_uniform, addRoundKey_zero, invMixColumns_uniform, ih]
      rfl

/-- Without keys, rounds more than are taken back stay as boxes. -/
theorem decryptWith_encryptWith_uniform {idxs idxs' : List Nat} {n : Nat}
    (hlength : idxs.length = idxs'.length + n) (last last' : Nat) (b : UInt8) :
    decryptWith [] idxs' last' (encryptWith [] idxs last (storeState (uniform b)))
      = storeState (uniform (sbox^[n] b)) := by
  have hinv : Function.LeftInverse invsbox sbox := invsbox_sbox
  have hback : invsbox (invsbox^[idxs'.length] (sbox (sbox^[idxs.length] b))) = sbox^[n] b := by
    rw [← Function.iterate_succ_apply' invsbox, ← Function.iterate_succ_apply' sbox, hlength,
      show (idxs'.length + n).succ = idxs'.length.succ + n by omega, Function.iterate_add_apply]
    exact hinv.iterate _ _
  rw [encryptWith, decryptWith, loadState_storeState, loadState_storeState, lastRound,
    addRoundKey_zero, addRoundKey_zero, addRoundKey_zero, addRoundKey_zero,
    encryptRounds_uniform, ← beforeKey, beforeKey_uniform, decryptRounds_uniform, inv_uniform,
    hback]

theorem storeState_injective {s t : State} (h : storeState s = storeState t) : s = t := by
  rw [← loadState_storeState s, h, loadState_storeState]

/-- The two directions disagree where the one takes `n` rounds more. -/
theorem storeState_uniform_ne {n : Nat} {b : UInt8} (h : sbox^[n] b ≠ b) :
    storeState (uniform (sbox^[n] b)) ≠ storeState (uniform b) := by
  intro heq
  have hcell := congrArg (fun s : State => cell s ((0 : Fin 4)) (0 : Fin 4)) (storeState_injective heq)
  simp only [uniform, cells_cell] at hcell
  exact h hcell

/-- The rounds that both functions take, for the key sizes where they agree. -/
theorem rounds_agree {keysize : Int} (h : keysize = 128 ∨ keysize = 192 ∨ keysize > 192) :
    ∃ idxs last, ∀ key b, aesEncrypt b key keysize = encryptWith key idxs last b ∧
      aesDecrypt b key keysize = decryptWith key idxs.reverse last b := by
  by_cases h256 : keysize > 192
  · have hne : keysize ≠ 128 ∧ keysize ≠ 192 := by omega
    refine ⟨rounds256, 56, ?_⟩
    intro key b
    rw [aesEncrypt_eq, if_neg hne.1, if_neg hne.2, aesDecrypt_eq, if_pos h256]
    exact ⟨rfl, rfl⟩
  by_cases h128 : keysize = 128
  · refine ⟨rounds128, 40, ?_⟩
    intro key b
    rw [aesEncrypt_eq, if_pos h128, aesDecrypt_eq, if_neg h256, if_neg (by omega)]
    exact ⟨rfl, rfl⟩
  · have h192 : keysize = 192 := by omega
    refine ⟨rounds192, 48, ?_⟩
    intro key b
    rw [aesEncrypt_eq, if_neg h128, if_pos h192, aesDecrypt_eq, if_neg h256, if_pos (by omega)]
    exact ⟨rfl, rfl⟩

/-- For the other sizes some block is not decrypted. -/
theorem rounds_disagree {keysize : Int} (h : ¬(keysize = 128 ∨ keysize = 192 ∨ keysize > 192)) :
    ∃ block, aesDecrypt (aesEncrypt block [] keysize) [] keysize ≠ block := by
  have hencrypt : ∀ b, aesEncrypt b [] keysize = encryptWith [] rounds256 56 b := by
    intro b
    rw [aesEncrypt_eq, if_neg (by omega), if_neg (by omega)]
  refine ⟨storeState (uniform 0), ?_⟩
  rw [hencrypt, aesDecrypt_eq, if_neg (by omega)]
  by_cases h128 : keysize > 128
  · rw [if_pos h128, decryptWith_encryptWith_uniform (n := 2) rfl]
    exact storeState_uniform_ne (by decide +kernel)
  · rw [if_neg h128, decryptWith_encryptWith_uniform (n := 4) rfl]
    exact storeState_uniform_ne (by decide +kernel)

/-- **BLOCKS ARE DECRYPTED AGAIN** under every schedule, also one that no key has, for the
    key sizes that `aes_key_setup` knows and for all greater than 192, and for no
    other size: there the two functions take different numbers of rounds.  With the bundled
    AES in its place, the parameter of the other modules inverts. -/
theorem aesDecrypt_aesEncrypt_iff :
    (∀ keysize : Int, (∀ key block,
        aesDecrypt (aesEncrypt block key keysize) key keysize = block ∧
          aesEncrypt (aesDecrypt block key keysize) key keysize = block) ↔
      keysize = 128 ∨ keysize = 192 ∨ keysize > 192) ∧
    ∀ schedule prim, (withAes schedule prim).AesInverts := by
  have hinverse : ∀ keysize : Int, keysize = 128 ∨ keysize = 192 ∨ keysize > 192 →
      ∀ key block, aesDecrypt (aesEncrypt block key keysize) key keysize = block ∧
        aesEncrypt (aesDecrypt block key keysize) key keysize = block := by
    intro keysize hsize key block
    obtain ⟨idxs, last, hrounds⟩ := rounds_agree hsize
    have hother := encryptWith_decryptWith key idxs.reverse last block
    rw [List.reverse_reverse] at hother
    rw [(hrounds key _).2, (hrounds key _).1, (hrounds key _).1, (hrounds key _).2]
    exact ⟨decryptWith_encryptWith key idxs last block, hother⟩
  refine ⟨?_, ?_⟩
  · intro keysize
    refine ⟨?_, hinverse keysize⟩
    intro h
    by_contra hsize
    obtain ⟨block, hne⟩ := rounds_disagree hsize
    exact hne (h [] block).1
  · intro schedule prim key block
    exact (hinverse 256 (Or.inr (Or.inr (by decide))) _ block).1

end OlmAes
