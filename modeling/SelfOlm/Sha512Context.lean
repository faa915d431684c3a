import SelfOlm.Sha512
import SelfOlm.Lib.BlockStream

/-! # The SHA-512 contexts

    `sha512_init`, `sha512_update` and `sha512_final` of `lib/ed25519/src/sha512.c`.
    Unlike the other hash, an update takes whole blocks from the input where nothing
    waits in `buf`, and copies as much as there is room for where something does.
    Signing and verifying feed one context piece by piece; what comes out is the hash
    of the pieces put together, which the rest of the development takes for it. -/

namespace OlmSha512

open ByteMemory OlmCrypto OlmEd25519 BlockStream

/-! ## The code -/

/-- `sha512_context`. -/
structure Sha512Context where
  length : UInt64
  state : Sha512State
  curlen : Nat
  buf : Vector UInt8 128

/-- `sha512_init`: `buf` is left as it is. -/
def sha512Init (md : Sha512Context) : Sha512Context :=
  { md with curlen := 0, length := 0, state := OlmEd25519.sha512Init }

/-- The other branch of the loop of `sha512_update`: `n` bytes are copied. -/
def copyInput (md : Sha512Context) (input : Bytes) (n : Nat) : Sha512Context :=
  let md := { md with buf := fill md.buf md.curlen (input.take n), curlen := md.curlen + n }
  if md.curlen = 128 then
    { md with
      state := sha512Compress md.state md.buf.toList
      length := md.length + 8 * 128
      curlen := 0 }
  else md

/-- The loop of `sha512_update`, as many passes of it at most. -/
def updateLoop : Nat → Sha512Context → Bytes → Sha512Context
  | 0, md, _ => md
  | passes + 1, md, input =>
      if 0 < input.length then
        if md.curlen = 0 ∧ 128 ≤ input.length then
          updateLoop passes
            { md with state := sha512Compress md.state (input.take 128), length := md.length + 128 * 8 }
            (input.drop 128)
        else
          let n := min input.length (128 - md.curlen)
          updateLoop passes (copyInput md input n) (input.drop n)
      else md

/-- `sha512_update`; `none` is the return value 1.  A pass takes at least one byte. -/
def sha512Update (md : Sha512Context) (input : Bytes) : Option Sha512Context :=
  if md.curlen > 128 then none else some (updateLoop (input.length + 1) md input)

/-- `out`, from the state. -/
def outOf (s : Sha512State) : Vector UInt8 64 :=
  ofBytes 64 (store64H s.a ++ store64H s.b ++ store64H s.c ++ store64H s.d
    ++ store64H s.e ++ store64H s.f ++ store64H s.g ++ store64H s.h)

/-- The padding of `sha512_final`, and the last block: the context that it leaves. -/
def finish (md : Sha512Context) : Sha512Context :=
  let md := { md with length := md.length + UInt64.ofNat md.curlen * 8 }
  let md := { md with buf := fill md.buf md.curlen [0x80], curlen := md.curlen + 1 }
  let md :=
    if md.curlen > 112 then
      let buf := fill md.buf md.curlen (List.replicate (128 - md.curlen) 0)
      { md with buf := buf, state := sha512Compress md.state buf.toList, curlen := 0 }
    else md
  let buf := fill md.buf md.curlen (List.replicate (120 - md.curlen) 0)
  let buf := fill buf 120 (store64H md.length)
  { md with
    buf := buf
    state := sha512Compress md.state buf.toList
    curlen := 120 }

/-- `sha512_final`: the context and `out`; `none` is the return value 1. -/
def sha512Final (md : Sha512Context) : Option (Sha512Context × Vector UInt8 64) :=
  if md.curlen ≥ 128 then none else some (finish md, outOf (finish md).state)

/-! ## Updates -/

/-- `fed` was fed to the context since it was initialised. -/
structure Holds (md : Sha512Context) (fed : Bytes) : Prop where
  stream : Fed 128 sha512Compress OlmEd25519.sha512Init fed md.state
    (md.buf.toList.take md.curlen)
  curlen : md.curlen = fed.length % 128
  length : md.length = UInt64.ofNat (1024 * (fed.length / 128))

theorem holds_init (md : Sha512Context) : Holds (sha512Init md) [] := by
  constructor
  · exact Fed.nil
  · rfl
  · rfl

theorem Holds.curlen_lt {md : Sha512Context} {fed : Bytes} (h : Holds md fed) : md.curlen < 128 := by
  rw [h.curlen]
  exact Nat.mod_lt _ (by decide)

theorem Holds.length_rest {md : Sha512Context} {fed : Bytes} (h : Holds md fed) :
    (md.buf.toList.take md.curlen).length = md.curlen := by
  rw [List.length_take, Vector.length_toList, Nat.min_eq_left (le_of_lt h.curlen_lt)]

/-- A whole block that is taken from the input. -/
theorem Holds.takeBlock {md : Sha512Context} {fed block : Bytes} (h : Holds md fed)
    (hempty : md.curlen = 0) (hblock : block.length = 128) :
    Holds { md with state := sha512Compress md.state block, length := md.length + 128 * 8 }
      (fed ++ block) := by
  have hstream := h.stream
  have hcurlen := h.curlen
  have hlength : (fed ++ block).length = fed.length + 128 := by
    rw [List.length_append, hblock]
  rw [hempty, List.take_zero] at hstream
  constructor
  · show Fed 128 _ _ _ (sha512Compress md.state block) (md.buf.toList.take md.curlen)
    rw [hempty, List.take_zero]
    have hnext := hstream.block (by decide) (by rw [hblock]; rfl)
    rw [List.nil_append] at hnext
    exact hnext
  · show md.curlen = _
    rw [hlength, Nat.add_mod_right]
    exact hcurlen
  · show md.length + 128 * 8 = _
    have hcount : 1024 * ((fed ++ block).length / 128) = 1024 * (fed.length / 128) + 1024 := by
      rw [hlength, Nat.add_div_right _ (by decide)]
      exact Nat.mul_succ _ _
    rw [h.length, hcount, UInt64.ofNat_add]
    rfl

/-- Bytes that are copied behind the ones that wait. -/
theorem Holds.copyInput {md : Sha512Context} {fed input : Bytes} {n : Nat} (h : Holds md fed)
    (hinput : n ≤ input.length) (hroom : md.curlen + n ≤ 128) :
    Holds (copyInput md input n) (fed ++ input.take n) := by
  have hcurlen := h.curlen
  have htaken : (input.take n).length = n := by
    rw [List.length_take, Nat.min_eq_left hinput]
  have hlength : (fed ++ input.take n).length = fed.length + n := by
    rw [List.length_append, htaken]
  rw [OlmSha512.copyInput]
  by_cases hfull : md.curlen + n = 128
  · have hfilled : (fill md.buf md.curlen (input.take n)).toList
        = md.buf.toList.take md.curlen ++ input.take n :=
      toList_fill _ _ (by rw [htaken, hfull])
    rw [if_pos hfull]
    constructor
    · show Fed 128 _ _ _ (sha512Compress md.state
        (fill md.buf md.curlen (input.take n)).toList) (List.take 0 _)
      rw [hfilled, List.take_zero]
      refine h.stream.block (by decide) ?_
      rw [h.length_rest, htaken]
      exact hfull
    · show 0 = _
      rw [hlength]
      omega
    · show md.length + 8 * 128 = _
      have hcount : 1024 * ((fed ++ input.take n).length / 128)
          = 1024 * (fed.length / 128) + 1024 := by
        rw [hlength]
        omega
      rw [h.length, hcount, UInt64.ofNat_add]
      rfl
  · have hless : md.curlen + n < 128 := lt_of_le_of_ne hroom hfull
    have hfilled : (fill md.buf md.curlen (input.take n)).toList.take (md.curlen + n)
        = md.buf.toList.take md.curlen ++ input.take n := by
      have hcopy := take_fill md.buf (input.take n) (by rw [htaken]; exact hroom)
      rw [htaken] at hcopy
      exact hcopy
    rw [if_neg hfull]
    constructor
    · show Fed 128 _ _ _ md.state
        ((fill md.buf md.curlen (input.take n)).toList.take (md.curlen + n))
      rw [hfilled]
      refine h.stream.more ?_
      rw [h.length_rest, htaken]
      exact hless
    · show md.curlen + n = _
      rw [hlength]
      omega
    · show md.length = _
      have hcount : (fed ++ input.take n).length / 128 = fed.length / 128 := by
        rw [hlength]
        omega
      rw [h.length, hcount]

/-- The loop feeds the whole input, since every pass takes some of it. -/
theorem Holds.updateLoop {passes : Nat} {md : Sha512Context} {fed input : Bytes} (h : Holds md fed)
    (hpasses : input.length < passes) :
    Holds (updateLoop passes md input) (fed ++ input) := by
  induction passes generalizing md fed input with
  | zero => exact absurd hpasses (Nat.not_lt_zero _)
  | succ passes ih =>
      have hroom := h.curlen_lt
      rw [OlmSha512.updateLoop]
      by_cases hmore : 0 < input.length
      · rw [if_pos hmore]
        by_cases hblock : md.curlen = 0 ∧ 128 ≤ input.length
        · obtain ⟨hempty, hlong⟩ := hblock
          have htaken : (input.take 128).length = 128 := by
            rw [List.length_take, Nat.min_eq_left hlong]
          have hrest : (input.drop 128).length < passes := by
            rw [List.length_drop]
            omega
          have hnext := ih (h.takeBlock hempty htaken) hrest
          rw [List.append_assoc, List.take_append_drop] at hnext
          rw [if_pos ⟨hempty, hlong⟩]
          exact hnext
        · have hcopied := h.copyInput (Nat.min_le_left input.length (128 - md.curlen)) (by omega)
          have hrest : (input.drop (min input.length (128 - md.curlen))).length < passes := by
            rw [List.length_drop]
            omega
          have hnext := ih hcopied hrest
          rw [List.append_assoc, List.take_append_drop] at hnext
          rw [if_neg hblock]
          exact hnext
      · have hnil : input = [] := List.eq_nil_of_length_eq_zero (Nat.eq_zero_of_not_pos hmore)
        rw [if_neg hmore, hnil, List.append_nil]
        exact h

theorem Holds.update {md : Sha512Context} {fed : Bytes} (h : Holds md fed) (input : Bytes) :
    ∃ md', sha512Update md input = some md' ∧ Holds md' (fed ++ input) := by
  refine ⟨_, ?_, h.updateLoop (Nat.lt_succ_self input.length)⟩
  rw [sha512Update, if_neg (Nat.not_lt.mpr (le_of_lt h.curlen_lt))]

/-! ## The digest -/

theorem length_store64H (x : UInt64) : (store64H x).length = 8 := rfl

theorem Holds.bits {md : Sha512Context} {fed : Bytes} (h : Holds md fed) :
    md.length + UInt64.ofNat md.curlen * 8 = UInt64.ofNat (8 * fed.length) := by
  have hlt := h.curlen_lt
  have hcurlen := h.curlen
  refine UInt64.toNat_inj.mp ?_
  rw [UInt64.toNat_add, UInt64.toNat_mul, h.length, UInt64.toNat_ofNat', UInt64.toNat_ofNat',
    UInt64.toNat_ofNat']
  show ((1024 * (fed.length / 128)) % 2 ^ 64 + (md.curlen % 2 ^ 64) * 8 % 2 ^ 64) % 2 ^ 64 = _
  omega

theorem sha512Blocks_eq (n : Nat) (s : Sha512State) (bs : Bytes) :
    sha512Blocks n s bs = absorb 128 sha512Compress n s bs := by
  induction n generalizing s bs with
  | zero => rfl
  | succ n ih =>
      rw [sha512Blocks, absorb]
      exact ih _ _

/-- Where the padding completes the block, or the next one, `out` is the digest. -/
theorem digest_of_fed {message : Bytes} {s : Sha512State}
    (h : Fed 128 sha512Compress OlmEd25519.sha512Init (message ++ sha512Padding message.length) s []) :
    outOf s = sha512 message := by
  rw [h.state, sha512, sha512Blocks_eq]
  rfl

/-- The padding is fed, and nothing is left over. -/
theorem Holds.finish {md : Sha512Context} {fed : Bytes} (h : Holds md fed) :
    Fed 128 sha512Compress OlmEd25519.sha512Init (fed ++ sha512Padding fed.length)
      (finish md).state [] := by
  have hlt := h.curlen_lt
  have hcurlen := h.curlen
  have hbits := h.bits
  have hmarked : (fill md.buf md.curlen [0x80]).toList.take (md.curlen + 1)
      = md.buf.toList.take md.curlen ++ [0x80] := take_fill md.buf [0x80] hlt
  rw [OlmSha512.finish]
  by_cases hlong : md.curlen + 1 > 112
  · simp only [if_pos hlong]
    have hsplit : sha512Padding fed.length
        = (0x80 :: List.replicate (127 - md.curlen) 0)
          ++ (List.replicate 120 0 ++ store64H (UInt64.ofNat (8 * fed.length))) := by
      have hzeros : 128 - (md.curlen + 1) + 120 = (127 - md.curlen) + 120 := by omega
      rw [sha512Padding]
      simp only [← hcurlen, if_pos hlong]
      rw [hzeros, List.replicate_add, List.append_assoc, List.cons_append]
    have hone : md.curlen + (0x80 :: List.replicate (127 - md.curlen) (0 : UInt8)).length = 128 := by
      rw [List.length_cons, List.length_replicate]
      omega
    -- the zeros complete one block, and the number of bits the next one
    have hfirst : (fill (fill md.buf md.curlen [0x80]) (md.curlen + 1)
          (List.replicate (128 - (md.curlen + 1)) 0)).toList
        = md.buf.toList.take md.curlen ++ (0x80 :: List.replicate (127 - md.curlen) 0) := by
      have hroom : md.curlen + 1 + (List.replicate (128 - (md.curlen + 1)) (0 : UInt8)).length
          = 128 := by
        rw [List.length_replicate]
        omega
      have hcount : 128 - (md.curlen + 1) = 127 - md.curlen := by omega
      rw [toList_fill _ _ hroom, hmarked, hcount, List.append_assoc, List.singleton_append]
    have hsecond : ∀ buf : Vector UInt8 128, (fill (fill buf 0 (List.replicate (120 - 0) 0)) 120
          (store64H (md.length + UInt64.ofNat md.curlen * 8))).toList
        = List.replicate 120 0 ++ store64H (UInt64.ofNat (8 * fed.length)) := by
      intro buf
      have hroom : 0 + (List.replicate 120 (0 : UInt8)).length ≤ 128 := by
        rw [List.length_replicate]
        decide
      have hzero := take_fill buf _ hroom
      rw [List.length_replicate, Nat.zero_add, List.take_zero, List.nil_append] at hzero
      rw [toList_fill _ _ (by rw [length_store64H]), Nat.sub_zero, hzero, hbits]
    have hlength : ([] : Bytes).length
        + (List.replicate 120 0 ++ store64H (UInt64.ofNat (8 * fed.length))).length = 128 := by
      rw [List.length_append, List.length_replicate, length_store64H]
      rfl
    have hblock : (md.buf.toList.take md.curlen).length
        + (0x80 :: List.replicate (127 - md.curlen) (0 : UInt8)).length = 128 := by
      rw [h.length_rest]
      exact hone
    have hlast := (h.stream.block (by decide) hblock).block (by decide) hlength
    rw [List.nil_append] at hlast
    rw [hfirst, hsecond, hsplit, ← List.append_assoc]
    exact hlast
  · simp only [if_neg hlong]
    have hpadding : sha512Padding fed.length
        = 0x80 :: (List.replicate (120 - (md.curlen + 1)) 0
          ++ store64H (UInt64.ofNat (8 * fed.length))) := by
      rw [sha512Padding]
      simp only [← hcurlen, if_neg hlong]
    -- the padding completes the block
    have hdata : (fill (fill (fill md.buf md.curlen [0x80]) (md.curlen + 1)
          (List.replicate (120 - (md.curlen + 1)) 0)) 120
          (store64H (md.length + UInt64.ofNat md.curlen * 8))).toList
        = md.buf.toList.take md.curlen ++ sha512Padding fed.length := by
      have hend : 120 = md.curlen + 1
          + (List.replicate (120 - (md.curlen + 1)) (0 : UInt8)).length := by
        rw [List.length_replicate]
        omega
      have hzeros := take_fill (fill md.buf md.curlen [0x80])
        (List.replicate (120 - (md.curlen + 1)) 0) (le_trans (le_of_eq hend.symm) (by decide))
      rw [← hend, hmarked] at hzeros
      rw [toList_fill _ _ (by rw [length_store64H]), hzeros, hbits, hpadding, List.append_assoc,
        List.append_assoc, List.singleton_append]
    rw [hdata]
    refine h.stream.block (by decide) ?_
    rw [h.length_rest, hpadding, List.length_cons, List.length_append, List.length_replicate,
      length_store64H]
    omega

/-- **THE DIGEST**: what `sha512_final` returns is the hash of all that was fed in. -/
theorem Holds.final {md : Sha512Context} {fed : Bytes} (h : Holds md fed) :
    sha512Final md = some (OlmSha512.finish md, sha512 fed) := by
  rw [sha512Final, if_neg (Nat.not_le.mpr h.curlen_lt), digest_of_fed h.finish]

/-- **STREAMING**: no update and no end of a stream fails, and the hash of the pieces
    put together comes out, whatever the context held before. -/
theorem sha512_streams (md : Sha512Context) (pieces : List Bytes) :
    ∃ md' last, pieces.foldlM sha512Update (sha512Init md) = some md' ∧
      sha512Final md' = some (last, sha512 pieces.flatten) := by
  have hrun : ∀ (md : Sha512Context) (fed : Bytes), Holds md fed →
      ∃ md', pieces.foldlM sha512Update md = some md' ∧ Holds md' (fed ++ pieces.flatten) := by
    induction pieces with
    | nil =>
        intro md fed h
        refine ⟨md, rfl, ?_⟩
        rw [List.flatten_nil, List.append_nil]
        exact h
    | cons piece pieces ih =>
        intro md fed h
        obtain ⟨next, hnext, hholds⟩ := h.update piece
        obtain ⟨last, hlast, hfed⟩ := ih next _ hholds
        refine ⟨last, ?_, ?_⟩
        · rw [List.foldlM_cons, hnext]
          exact hlast
        · rw [List.flatten_cons, ← List.append_assoc]
          exact hfed
  obtain ⟨md', hupdates, hfed⟩ := hrun _ [] (holds_init md)
  exact ⟨md', _, hupdates, hfed.final⟩

end OlmSha512
