import SelfOlm.Sha256
import SelfOlm.Lib.CheckedArith

/-! # What the SHA-256 contexts compute

    Behind any updates, a context is a stream of blocks of 64 bytes to which everything
    was fed: the state is behind the last whole block, `data` begins with what is left
    over, and `bitlen` counts the bits before it.  `sha256_final` completes this stream
    with the padding, so that only the bytes count and not how they were cut into
    pieces.  HMAC and HKDF on these contexts are the ones on whole strings. -/

namespace OlmSha256

open ByteMemory OlmCrypto BlockStream KeyDerivation CheckedArith

/-! ## Updates -/

/-- `fed` was fed to the context since it was initialised. -/
structure Holds (ctx : Sha256Ctx) (fed : Bytes) : Prop where
  stream : Fed 64 sha256Transform initialState fed ctx.state
    (ctx.data.toList.take ctx.datalen.toNat)
  datalen : ctx.datalen.toNat = fed.length % 64
  bitlen : ctx.bitlen = UInt64.ofNat (512 * (fed.length / 64))

theorem holds_init (ctx : Sha256Ctx) : Holds (sha256Init ctx) [] := by
  constructor
  · exact Fed.nil
  · rfl
  · rfl

theorem Holds.datalen_lt {ctx : Sha256Ctx} {fed : Bytes} (h : Holds ctx fed) :
    ctx.datalen.toNat < 64 := by
  rw [h.datalen]
  exact Nat.mod_lt _ (by decide)

theorem Holds.length_rest {ctx : Sha256Ctx} {fed : Bytes} (h : Holds ctx fed) :
    (ctx.data.toList.take ctx.datalen.toNat).length = ctx.datalen.toNat := by
  rw [List.length_take, Vector.length_toList, Nat.min_eq_left (le_of_lt h.datalen_lt)]

/-- A byte is put behind the ones that wait; the last one of a block is absorbed with
    them. -/
theorem Holds.updateByte {ctx : Sha256Ctx} {fed : Bytes} (h : Holds ctx fed) (b : UInt8) :
    Holds (updateByte ctx b) (fed ++ [b]) := by
  have hlt := h.datalen_lt
  have hlen := h.datalen
  have hnext : (ctx.datalen + 1).toNat = ctx.datalen.toNat + 1 := by
    rw [UInt32.toNat_add]
    exact Nat.mod_eq_of_lt (lt_trans (Nat.succ_lt_succ hlt) (by decide))
  have hstored : (ctx.data.setIfInBounds ctx.datalen.toNat b).toList.take (ctx.datalen.toNat + 1)
      = ctx.data.toList.take ctx.datalen.toNat ++ [b] :=
    take_fill ctx.data [b] hlt
  have hlength : (fed ++ [b]).length = fed.length + 1 := List.length_append
  rw [OlmSha256.updateByte]
  by_cases hfull : ctx.datalen + 1 = 64
  · have hsixty : ctx.datalen.toNat + 1 = 64 := by
      rw [← hnext, hfull]
      rfl
    have hblock : (ctx.data.setIfInBounds ctx.datalen.toNat b).toList
        = ctx.data.toList.take ctx.datalen.toNat ++ [b] := by
      rw [← hstored, hsixty]
      exact (List.take_of_length_le (le_of_eq (Vector.length_toList ..))).symm
    rw [if_pos hfull]
    constructor
    · show Fed 64 _ _ _ (sha256Transform ctx.state
        (ctx.data.setIfInBounds ctx.datalen.toNat b).toList) (List.take 0 _)
      rw [hblock, List.take_zero]
      refine h.stream.block (by decide) ?_
      rw [h.length_rest]
      exact hsixty
    · show 0 = _
      rw [hlength]
      omega
    · show ctx.bitlen + 512 = _
      have hcount : 512 * ((fed ++ [b]).length / 64) = 512 * (fed.length / 64) + 512 := by
        rw [hlength]
        omega
      rw [h.bitlen, hcount, UInt64.ofNat_add]
      rfl
  · have hmore : ctx.datalen.toNat + 1 ≠ 64 := by
      intro heq
      refine hfull (UInt32.toNat_inj.mp ?_)
      rw [hnext, heq]
      rfl
    rw [if_neg hfull]
    constructor
    · show Fed 64 _ _ _ ctx.state
        ((ctx.data.setIfInBounds ctx.datalen.toNat b).toList.take (ctx.datalen + 1).toNat)
      rw [hnext, hstored]
      refine h.stream.more ?_
      rw [h.length_rest]
      exact lt_of_le_of_ne hlt hmore
    · show (ctx.datalen + 1).toNat = _
      rw [hnext, hlength]
      omega
    · show ctx.bitlen = _
      have hcount : (fed ++ [b]).length / 64 = fed.length / 64 := by
        rw [hlength]
        omega
      rw [h.bitlen, hcount]

theorem Holds.updateBytes {ctx : Sha256Ctx} {fed : Bytes} (h : Holds ctx fed) (input : Bytes) :
    Holds (input.foldl OlmSha256.updateByte ctx) (fed ++ input) := by
  induction input generalizing ctx fed with
  | nil =>
      rw [List.append_nil]
      exact h
  | cons b input ih =>
      have hrest := ih (h.updateByte b)
      rw [List.append_assoc] at hrest
      exact hrest

/-- The loop goes through the bytes from `i` on. -/
theorem updateLoop_eq {input : Bytes} (hsize : input.length < 2 ^ 32) :
    ∀ (passes : Nat) (i : UInt32) (ctx : Sha256Ctx), i.toNat ≤ input.length →
      input.length < i.toNat + passes →
      updateLoop input passes i ctx
        = some ((input.drop i.toNat).foldl updateByte ctx) := by
  intro passes
  induction passes with
  | zero =>
      intro i ctx hi hpasses
      exact absurd hpasses (Nat.not_lt.mpr hi)
  | succ passes ih =>
      intro i ctx hi hpasses
      rw [updateLoop]
      by_cases hmore : i.toNat < input.length
      · have hnext : (i + 1).toNat = i.toNat + 1 := by
          rw [UInt32.toNat_add]
          exact Nat.mod_eq_of_lt (lt_of_le_of_lt hmore hsize)
        have hbyte : input.getD i.toNat 0 = input[i.toNat] := List.getD_eq_getElem _ _ hmore
        rw [if_pos hmore, ih _ _ (by rw [hnext]; exact hmore) (by rw [hnext]; omega), hnext, hbyte,
          List.drop_eq_getElem_cons hmore, List.foldl_cons]
      · have hend : input.drop i.toNat = [] := List.drop_eq_nil_of_le (Nat.not_lt.mp hmore)
        rw [if_neg hmore, hend]
        rfl

/-- With 2³² bytes or more, `i` never reaches their number. -/
theorem updateLoop_endless {input : Bytes} (hsize : 2 ^ 32 ≤ input.length) (passes : Nat) :
    ∀ (i : UInt32) (ctx : Sha256Ctx), updateLoop input passes i ctx = none := by
  induction passes with
  | zero => exact fun _ _ => rfl
  | succ passes ih =>
      intro i ctx
      rw [updateLoop, if_pos (lt_of_lt_of_le i.toNat_lt hsize)]
      exact ih _ _

theorem sha256Update_eq {input : Bytes} (hsize : input.length < 2 ^ 32) (ctx : Sha256Ctx) :
    sha256Update ctx input = some (input.foldl updateByte ctx) :=
  updateLoop_eq hsize _ 0 ctx (Nat.zero_le _) (by
    show input.length < 0 + (input.length + 1)
    omega)

theorem Holds.update {ctx : Sha256Ctx} {fed : Bytes} (h : Holds ctx fed) {input : Bytes}
    (hsize : input.length < 2 ^ 32) :
    ∃ ctx', sha256Update ctx input = some ctx' ∧ Holds ctx' (fed ++ input) :=
  ⟨_, sha256Update_eq hsize ctx, h.updateBytes input⟩

theorem Holds.updateOne {ctx : Sha256Ctx} {fed : Bytes} (h : Holds ctx fed) (b : UInt8) :
    ∃ ctx', sha256Update ctx [b] = some ctx' ∧ Holds ctx' (fed ++ [b]) :=
  h.update (Nat.one_lt_two_pow (by decide))

/-! ## The digest -/

theorem length_bitlenBytes (bitlen : UInt64) : (bitlenBytes bitlen).length = 8 := rfl

theorem Holds.bits {ctx : Sha256Ctx} {fed : Bytes} (h : Holds ctx fed) :
    ctx.bitlen + (ctx.datalen * 8).toUInt64 = UInt64.ofNat (8 * fed.length) := by
  have hrest : (ctx.datalen * 8).toUInt64.toNat = ctx.datalen.toNat * 8 := by
    rw [UInt32.toNat_toUInt64, UInt32.toNat_mul]
    exact Nat.mod_eq_of_lt (lt_trans (Nat.mul_lt_mul_of_pos_right h.datalen_lt (by decide))
      (by decide))
  refine UInt64.toNat_inj.mp ?_
  rw [UInt64.toNat_add, hrest, h.bitlen, h.datalen, UInt64.toNat_ofNat', UInt64.toNat_ofNat']
  omega

/-- Where the padding completes the block, or the next one, `hash` is the digest. -/
theorem digest_of_fed {message : Bytes} {s : Sha256State}
    (h : Fed 64 sha256Transform initialState (message ++ sha256Padding message.length) s []) :
    hashOf s = sha256 message := by
  rw [h.state, sha256]

/-- **THE DIGEST**: what `sha256_final` returns is the hash of all that was fed in. -/
theorem Holds.final {ctx : Sha256Ctx} {fed : Bytes} (h : Holds ctx fed) :
    (sha256Final ctx).2 = sha256 fed := by
  have hlt := h.datalen_lt
  have hbits := h.bits
  rw [sha256Final]
  by_cases hfits : ctx.datalen < 56
  · have hroom : ctx.datalen.toNat < 56 := UInt32.lt_iff_toNat_lt.mp hfits
    have hzeros : (119 - fed.length % 64) % 64 = 55 - ctx.datalen.toNat := by
      rw [← h.datalen]
      omega
    rw [if_pos hfits]
    refine digest_of_fed ?_
    -- the padding completes the block
    have hdata : (fill (fill ctx.data ctx.datalen.toNat
          (0x80 :: List.replicate (55 - ctx.datalen.toNat) 0)) 56
          (bitlenBytes (ctx.bitlen + (ctx.datalen * 8).toUInt64))).toList
        = ctx.data.toList.take ctx.datalen.toNat ++ sha256Padding fed.length := by
      have hend : 56 = ctx.datalen.toNat
          + (0x80 :: List.replicate (55 - ctx.datalen.toNat) (0 : UInt8)).length := by
        rw [List.length_cons, List.length_replicate]
        omega
      rw [toList_fill _ _ (by rw [length_bitlenBytes]), hend, take_fill _ _ (by rw [← hend]; decide),
        hbits, sha256Padding, hzeros, List.append_assoc, List.cons_append]
    show Fed 64 _ _ _ (sha256Transform ctx.state _) []
    rw [hdata]
    refine h.stream.block (by decide) ?_
    rw [h.length_rest, sha256Padding, hzeros, List.length_cons, List.length_append,
      List.length_replicate, length_bitlenBytes]
    omega
  · have hfull : 56 ≤ ctx.datalen.toNat := Nat.not_lt.mp fun hlt =>
      hfits (UInt32.lt_iff_toNat_lt.mpr hlt)
    have hzeros : (119 - fed.length % 64) % 64 = (63 - ctx.datalen.toNat) + 56 := by
      rw [← h.datalen]
      omega
    have hsplit : sha256Padding fed.length
        = (0x80 :: List.replicate (63 - ctx.datalen.toNat) 0)
          ++ (List.replicate 56 0 ++ bitlenBytes (UInt64.ofNat (8 * fed.length))) := by
      rw [sha256Padding, hzeros, List.replicate_add, List.append_assoc, List.cons_append]
    have hone : ctx.datalen.toNat
        + (0x80 :: List.replicate (63 - ctx.datalen.toNat) (0 : UInt8)).length = 64 := by
      rw [List.length_cons, List.length_replicate]
      omega
    -- the zeros complete one block, and the number of bits the next one
    have hfirst : (fill ctx.data ctx.datalen.toNat
          (0x80 :: List.replicate (63 - ctx.datalen.toNat) 0)).toList
        = ctx.data.toList.take ctx.datalen.toNat
          ++ (0x80 :: List.replicate (63 - ctx.datalen.toNat) 0) := toList_fill _ _ hone
    have hsecond : ∀ data : Vector UInt8 64, (fill (fill data 0 (List.replicate 56 0)) 56
          (bitlenBytes (ctx.bitlen + (ctx.datalen * 8).toUInt64))).toList
        = List.replicate 56 0 ++ bitlenBytes (UInt64.ofNat (8 * fed.length)) := by
      intro data
      have hzero := take_fill data (i := 0) (List.replicate 56 0) (by decide)
      rw [List.length_replicate, Nat.zero_add, List.take_zero, List.nil_append] at hzero
      rw [toList_fill _ _ (by rw [length_bitlenBytes]), hzero, hbits]
    rw [if_neg hfits]
    refine digest_of_fed ?_
    show Fed 64 _ _ _ (sha256Transform (sha256Transform ctx.state _) _) []
    rw [hfirst, hsecond, hsplit, ← List.append_assoc]
    have hlength : ([] : Bytes).length
        + (List.replicate 56 0 ++ bitlenBytes (UInt64.ofNat (8 * fed.length))).length = 64 := by
      rw [List.length_append, List.length_replicate, length_bitlenBytes]
      rfl
    have hblock : (ctx.data.toList.take ctx.datalen.toNat).length
        + (0x80 :: List.replicate (63 - ctx.datalen.toNat) (0 : UInt8)).length = 64 := by
      rw [h.length_rest]
      exact hone
    have hlast := (h.stream.block (by decide) hblock).block (by decide) hlength
    rw [List.nil_append] at hlast
    exact hlast

/-- **STREAMING**: the hash of the pieces put together comes out behind any updates with
    fewer than 2³² bytes each, whatever the context held before; an update with more
    does not end. -/
theorem sha256_streams (ctx : Sha256Ctx) (pieces : List Bytes) :
    ((∀ piece ∈ pieces, piece.length < 2 ^ 32) → ∃ ctx',
      pieces.foldlM sha256Update (sha256Init ctx) = some ctx' ∧
        (sha256Final ctx').2 = sha256 pieces.flatten) ∧
    ∀ piece : Bytes, 2 ^ 32 ≤ piece.length → ∀ passes ctx', updateLoop piece passes 0 ctx' = none := by
  refine ⟨?_, fun piece hsize passes => updateLoop_endless hsize passes 0⟩
  intro hpieces
  have hrun : ∀ (pieces : List Bytes) (ctx : Sha256Ctx) (fed : Bytes), Holds ctx fed →
      (∀ piece ∈ pieces, piece.length < 2 ^ 32) →
      ∃ ctx', pieces.foldlM sha256Update ctx = some ctx' ∧ Holds ctx' (fed ++ pieces.flatten) := by
    intro pieces
    induction pieces with
    | nil =>
        intro ctx fed h _
        refine ⟨ctx, rfl, ?_⟩
        rw [List.flatten_nil, List.append_nil]
        exact h
    | cons piece pieces ih =>
        intro ctx fed h hsizes
        obtain ⟨hsize, hsizes⟩ := List.forall_mem_cons.mp hsizes
        obtain ⟨next, hnext, hholds⟩ := h.update hsize
        obtain ⟨last, hlast, hfed⟩ := ih next _ hholds hsizes
        refine ⟨last, ?_, ?_⟩
        · rw [List.foldlM_cons, hnext]
          exact hlast
        · rw [List.flatten_cons, ← List.append_assoc]
          exact hfed
  obtain ⟨last, hlast, hfed⟩ := hrun pieces _ [] (holds_init ctx) hpieces
  exact ⟨last, hlast, hfed.final⟩

/-! ## HMAC and HKDF -/

section Hmac

variable (prim : Primitives)

theorem hmacSha256Key_eq (context : Sha256Ctx) {key : Bytes} (hsize : key.length < 2 ^ 32) :
    hmacSha256Key context key = some (OlmCrypto.hmacSha256Key (withSha256 prim) key) := by
  rw [hmacSha256Key, OlmCrypto.hmacSha256Key, sha256BlockLength]
  by_cases hlong : key.length > 64
  · obtain ⟨hashed, hupdate, hholds⟩ := (holds_init context).update hsize
    rw [List.nil_append] at hholds
    rw [if_pos hlong, if_pos hlong, hupdate, Vector.length_toList]
    show some ((sha256Final hashed).2.toList ++ _) = _
    rw [hholds.final]
    rfl
  · rw [if_neg hlong, if_neg hlong]
    rfl

theorem length_hmacSha256Key (key : Bytes) : (OlmCrypto.hmacSha256Key prim key).length = 64 := by
  rw [OlmCrypto.hmacSha256Key, sha256BlockLength, List.length_append, List.length_replicate]
  by_cases hlong : key.length > 64
  · rw [if_pos hlong, Vector.length_toList]
  · rw [if_neg hlong]
    exact Nat.add_sub_cancel' (Nat.not_lt.mp hlong)

theorem hmacSha256Init_holds (context : Sha256Ctx) {hmacKey : Bytes} (hkey : hmacKey.length = 64) :
    ∃ next, hmacSha256Init context hmacKey = some next ∧
      Holds next (hmacKey.map (· ^^^ 0x36)) := by
  have hsize : (hmacKey.map (· ^^^ 0x36)).length < 2 ^ 32 := by
    rw [List.length_map, hkey]
    decide
  exact (holds_init context).update hsize

/-- The outer hash takes the digest of what was fed in. -/
theorem Holds.hmacFinal {context : Sha256Ctx} {hmacKey input : Bytes}
    (h : Holds context (hmacKey.map (· ^^^ 0x36) ++ input)) (finalContext : Sha256Ctx)
    (hkey : hmacKey.length = 64) :
    ∃ next, hmacSha256Final context finalContext hmacKey
      = some (next, hmacSha256Run (withSha256 prim) hmacKey input) := by
  have hsize : (hmacKey.map (· ^^^ 0x5C) ++ (sha256Final context).2.toList).length < 2 ^ 32 := by
    rw [List.length_append, List.length_map, hkey, Vector.length_toList]
    decide
  obtain ⟨hashed, hupdate, hholds⟩ := (holds_init finalContext).update hsize
  rw [List.nil_append, h.final] at hholds
  refine ⟨(sha256Final context).1, ?_⟩
  simp only [hmacSha256Final, hupdate, Option.bind_eq_bind, Option.bind_some, Option.pure_def]
  rw [hholds.final]
  rfl

/-- **HMAC** on contexts. -/
theorem cryptoHmacSha256_streams (context finalContext : Sha256Ctx) {key input : Bytes}
    (hkey : key.length < 2 ^ 32) (hinput : input.length < 2 ^ 32) :
    cryptoHmacSha256 context finalContext key input
      = some (OlmCrypto.cryptoHmacSha256 (withSha256 prim) key input) := by
  have hlength := length_hmacSha256Key (withSha256 prim) key
  obtain ⟨keyed, hkeyed, hpad⟩ := hmacSha256Init_holds context hlength
  obtain ⟨fed, hfed, hall⟩ := hpad.update hinput
  obtain ⟨last, hlast⟩ := hall.hmacFinal prim finalContext hlength
  simp only [cryptoHmacSha256, hmacSha256Key_eq prim context hkey, hkeyed, hfed, hlast,
    Option.bind_eq_bind, Option.bind_some, Option.pure_def]
  rfl

/-- A step of the expansion: the block before, the info and the counter. -/
theorem hmacSha256_pieces (context finalContext : Sha256Ctx) {hmacKey : Bytes}
    (hkey : hmacKey.length = 64) {first info : Bytes} (hfirst : first.length < 2 ^ 32)
    (hinfo : info.length < 2 ^ 32) (iteration : UInt8) :
    ∃ c₁ c₂ c₃ c₄ next, hmacSha256Init context hmacKey = some c₁ ∧
      sha256Update c₁ first = some c₂ ∧ sha256Update c₂ info = some c₃ ∧
      sha256Update c₃ [iteration] = some c₄ ∧
      hmacSha256Final c₄ finalContext hmacKey
        = some (next, hmacSha256Run (withSha256 prim) hmacKey (first ++ info ++ [iteration])) := by
  obtain ⟨c₁, h₁, hpad⟩ := hmacSha256Init_holds context hkey
  obtain ⟨c₂, h₂, hholds₂⟩ := hpad.update hfirst
  obtain ⟨c₃, h₃, hholds₃⟩ := hholds₂.update hinfo
  obtain ⟨c₄, h₄, hholds₄⟩ := hholds₃.updateOne iteration
  rw [List.append_assoc, List.append_assoc, ← List.append_assoc first] at hholds₄
  obtain ⟨next, hfinal⟩ := hholds₄.hmacFinal prim finalContext hkey
  exact ⟨c₁, c₂, c₃, c₄, next, h₁, h₂, h₃, h₄, hfinal⟩

/-- The loop on contexts is the loop on what was fed into them. -/
theorem hkdfLoop_eq (finalContext : Sha256Ctx) {hmacKey info : Bytes} (hkey : hmacKey.length = 64)
    (hinfo : info.length < 2 ^ 32) (bytesRemaining : Nat) :
    ∀ (m : Mem) (output : Nat) (context : Sha256Ctx) (fed : OlmCrypto.Sha256Ctx)
      (stepResult : Vector UInt8 32) (iteration : UInt8),
      hkdfLoop finalContext hmacKey info m output context stepResult iteration bytesRemaining
        = some (OlmCrypto.hkdfLoop (withSha256 prim) hmacKey info m output fed stepResult iteration
          bytesRemaining) := by
  induction bytesRemaining using Nat.strongRecOn with
  | ind bytesRemaining ih =>
      intro m output context fed stepResult iteration
      rw [hkdfLoop, OlmCrypto.hkdfLoop]
      by_cases hmore : bytesRemaining > 32
      · have hblock : stepResult.toList.length < 2 ^ 32 := by
          rw [Vector.length_toList]
          decide
        obtain ⟨c₁, c₂, c₃, c₄, next, h₁, h₂, h₃, h₄, hfinal⟩ :=
          hmacSha256_pieces prim context finalContext hkey hblock hinfo (iteration + 1)
        rw [if_pos hmore, if_pos hmore]
        rw [some_bind h₁, some_bind h₂, some_bind h₃, some_bind h₄, some_bind hfinal]
        dsimp only
        rw [ih (bytesRemaining - 32) (by omega) _ _ _
          (OlmCrypto.sha256Update (OlmCrypto.sha256Update (OlmCrypto.sha256Update
            (OlmCrypto.hmacSha256Init fed hmacKey) stepResult.toList) info) [iteration + 1])]
        simp only [hmacSha256Run, OlmCrypto.hmacSha256Final, OlmCrypto.hmacSha256Init,
          OlmCrypto.sha256Update, OlmCrypto.sha256Final, OlmCrypto.sha256Init, List.append_assoc,
          List.nil_append]
      · rw [if_neg hmore, if_neg hmore]

/-- **HKDF** on contexts: for every key, salt, info and output length that the calls can
    have, and whatever lies on the stack, just the first `output_length` bytes of the
    expansion are stored. -/
theorem cryptoHkdfSha256_streams (context finalContext : Sha256Ctx) {input info : Bytes}
    {salt : Option Bytes} (hinput : input.length < 2 ^ 32) (hinfo : info.length < 2 ^ 32)
    (hsalt : ∀ s ∈ salt, s.length < 2 ^ 32) (m : Mem) (output outputLength : Nat) :
    cryptoHkdfSha256 context finalContext input salt info m output outputLength
      = some (write m output
        (OlmCrypto.cryptoHkdfSha256 (withSha256 prim) input salt info outputLength)) := by
  have hsize : (salt.getD (List.replicate 32 0)).length < 2 ^ 32 := by
    cases salt with
    | none => decide
    | some s => exact hsalt s rfl
  have hlength := length_hmacSha256Key (withSha256 prim)
  -- extract
  obtain ⟨c₁, h₁, hpad⟩ := hmacSha256Init_holds context (hlength (salt.getD (List.replicate 32 0)))
  obtain ⟨c₂, h₂, hfed⟩ := hpad.update hinput
  obtain ⟨c₃, h₃⟩ := hfed.hmacFinal prim finalContext (hlength _)
  have hprk : hmacSha256Run (withSha256 prim) (OlmCrypto.hmacSha256Key (withSha256 prim)
        (salt.getD (List.replicate 32 0))) input
      = (sha256Function (withSha256 prim)).extract salt input := cryptoHmacSha256_eq _ _ input
  generalize hmacSha256Run (withSha256 prim) (OlmCrypto.hmacSha256Key (withSha256 prim)
    (salt.getD (List.replicate 32 0))) input = prk at h₃ hprk
  have hblock : prk.toList.length < 2 ^ 32 := by
    rw [Vector.length_toList]
    decide
  -- expand
  obtain ⟨c₄, h₄, hpad⟩ := hmacSha256Init_holds c₃ (hlength prk.toList)
  obtain ⟨c₅, h₅, hholds⟩ := hpad.update hinfo
  obtain ⟨c₆, h₆, hall⟩ := hholds.updateOne 1
  rw [List.append_assoc] at hall
  obtain ⟨c₇, h₇⟩ := hall.hmacFinal prim finalContext (hlength _)
  have hfirst : (hmacSha256Run (withSha256 prim)
        (OlmCrypto.hmacSha256Key (withSha256 prim) prk.toList) (info ++ [1])).toList
      = (sha256Function (withSha256 prim)).block prk.toList info (0 + 1) :=
    congrArg Vector.toList (cryptoHmacSha256_eq _ _ _)
  rw [cryptoHkdfSha256, some_bind (hmacSha256Key_eq prim context hsize), some_bind h₁, some_bind h₂,
    some_bind h₃]
  dsimp only
  rw [some_bind (hmacSha256Key_eq prim c₃ hblock), some_bind h₄, some_bind h₅, some_bind h₆,
    some_bind h₇]
  dsimp only
  rw [hkdfLoop_eq prim finalContext (hlength _) hinfo outputLength _ _ _ { fed := [] },
    cryptoHkdfSha256_eq, HashFunction.hkdf, ← hprk]
  exact congrArg some
    (OlmCrypto.hkdfLoop_eq _ prk.toList info outputLength m output _ _ 0 hfirst)

end Hmac

/-- The root chain: 64 bytes behind a secret, without a salt. -/
theorem cryptoHkdfSha256_streams_root :
    cryptoHkdfSha256 ⟨Vector.replicate 64 7, 9, 9, initialState⟩
        ⟨Vector.replicate 64 5, 1, 1, initialState⟩ (ascii "secret") none (ascii "OLM_ROOT")
        (fun _ => 0) 3 64
      = some (write (fun _ => 0) 3 (OlmCrypto.cryptoHkdfSha256 (withSha256 demoPrimitives)
        (ascii "secret") none (ascii "OLM_ROOT") 64)) :=
  cryptoHkdfSha256_streams demoPrimitives _ _ (by decide) (by decide) (by simp) _ _ _

end OlmSha256
