import SelfOlm.Base64
import SelfOlm.Lib.AccessLog

/-! # The accesses of base64

    `encode_base64` and `decode_base64` again, as programs that log their accesses.
    They compute what the functions on memory do.  Which bytes they touch depends on
    the length alone: decoding a length that is 1 modulo 4 reads one byte behind the
    input. -/

namespace OlmBase64

open ByteMemory OlmCrypto AccessLog Logged

variable {B : Type}

/-! ## The code -/

/-- Three bytes are read and four characters are stored. -/
def loggedEncodeGroup (pos output : Pointer B) : Logged B Unit := do
  let a ← load pos
  let b ← load (pos.add 1)
  let c ← load (pos.add 2)
  store output (base64.encodeGroup (SextetCodec.pack a b c))

/-- The `while` loop of `encode_base64`. -/
def loggedEncodeLoop : Nat → Pointer B → Pointer B → Logged B Unit
  | 0, _, _ => pure ()
  | n + 1, pos, output => do
      loggedEncodeGroup pos output
      loggedEncodeLoop n (pos.add 3) (output.add 4)

/-- What `encode_base64` does with the last one or two bytes. -/
def loggedEncodeRest (remainder : Nat) (pos output : Pointer B) : Logged B Unit :=
  if remainder ≠ 0 then do
    let a ← load pos
    if remainder = 2 then do
      let b ← load (pos.add 1)
      let value := (a.toNat <<< 8 ||| b.toNat) <<< 2
      store output [base64.char (value >>> 6 >>> 6), base64.char (value >>> 6 &&& 0x3F),
        base64.char (value &&& 0x3F)]
    else
      let value := a.toNat <<< 4
      store output [base64.char (value >>> 6), base64.char (value &&& 0x3F)]
  else pure ()

/-- `encode_base64`. -/
def loggedEncode (input : Pointer B) (inputLength : Nat) (output : Pointer B) : Logged B Unit := do
  loggedEncodeLoop (inputLength / 3) input output
  loggedEncodeRest (inputLength - inputLength / 3 * 3) (input.add (inputLength / 3 * 3))
    (output.add (inputLength / 3 * 4))

/-- Four characters are read and three bytes are stored. -/
def loggedDecodeGroup (pos output : Pointer B) : Logged B Unit := do
  let a ← load pos
  let b ← load (pos.add 1)
  let c ← load (pos.add 2)
  let d ← load (pos.add 3)
  store output (SextetCodec.decodeGroup (base64.unpack a b c d))

/-- The `while` loop of `decode_base64`. -/
def loggedDecodeLoop : Nat → Pointer B → Pointer B → Logged B Unit
  | 0, _, _ => pure ()
  | n + 1, pos, output => do
      loggedDecodeGroup pos output
      loggedDecodeLoop n (pos.add 4) (output.add 3)

/-- What `decode_base64` does with the last characters: the second one is read also
    where there is only one. -/
def loggedDecodeRest (remainder : Nat) (pos output : Pointer B) : Logged B Unit :=
  if remainder ≠ 0 then do
    let a ← load pos
    let b ← load (pos.add 1)
    if remainder = 3 then do
      let c ← load (pos.add 2)
      let value := ((base64.digit a <<< 6 ||| base64.digit b) <<< 6 ||| base64.digit c) >>> 2
      store output [UInt8.ofNat (value >>> 8), UInt8.ofNat value]
    else store output [UInt8.ofNat ((base64.digit a <<< 6 ||| base64.digit b) >>> 4)]
  else pure ()

/-- `decode_base64`. -/
def loggedDecode (input : Pointer B) (inputLength : Nat) (output : Pointer B) : Logged B Unit := do
  loggedDecodeLoop (inputLength / 4) input output
  loggedDecodeRest (inputLength - inputLength / 4 * 4) (input.add (inputLength / 4 * 4))
    (output.add (inputLength / 4 * 3))

/-! ## What it computes -/

theorem memory_loggedEncodeLoop (n : Nat) :
    ∀ (m : Mem) (pos output : Pointer B),
      memory (loggedEncodeLoop n pos output) m
        = encodeBase64Loop n m pos.address output.address := by
  induction n with
  | zero =>
      intro m pos output
      rfl
  | succ n ih =>
      intro m pos output
      exact ih _ _ _

/-- The logged encoder is `encode_base64`. -/
theorem memory_loggedEncode (m : Mem) (input : Pointer B) (inputLength : Nat)
    (output : Pointer B) :
    memory (loggedEncode input inputLength output) m
      = encodeBase64 m input.address inputLength output.address := by
  rw [loggedEncode, memory_bind, memory_loggedEncodeLoop, encodeBase64]
  simp only [Nat.add_sub_add_left]
  rw [loggedEncodeRest]
  by_cases hzero : inputLength - inputLength / 3 * 3 ≠ 0
  · rw [if_pos hzero, if_pos hzero]
    by_cases htwo : inputLength - inputLength / 3 * 3 = 2
    · simp only [if_pos htwo]
      rfl
    · simp only [if_neg htwo]
      rfl
  · rw [if_neg hzero, if_neg hzero]
    rfl

theorem memory_loggedDecodeLoop (n : Nat) :
    ∀ (m : Mem) (pos output : Pointer B),
      memory (loggedDecodeLoop n pos output) m
        = decodeBase64Loop n m pos.address output.address := by
  induction n with
  | zero =>
      intro m pos output
      rfl
  | succ n ih =>
      intro m pos output
      exact ih _ _ _

/-- The logged decoder is `decode_base64`. -/
theorem memory_loggedDecode (m : Mem) (input : Pointer B) (inputLength : Nat)
    (output : Pointer B) :
    memory (loggedDecode input inputLength output) m
      = decodeBase64 m input.address inputLength output.address := by
  rw [loggedDecode, memory_bind, memory_loggedDecodeLoop, decodeBase64]
  simp only [Nat.add_sub_add_left]
  rw [loggedDecodeRest]
  by_cases hzero : inputLength - inputLength / 4 * 4 ≠ 0
  · rw [if_pos hzero, if_pos hzero]
    by_cases hthree : inputLength - inputLength / 4 * 4 = 3
    · simp only [if_pos hthree]
      rfl
    · simp only [if_neg hthree]
      rfl
  · rw [if_neg hzero, if_neg hzero]
    rfl

/-! ## Bounds -/

/-- How many characters are read: one more where one character is left over. -/
def decodeLoads (n : Nat) : Nat := if n % 4 = 1 then n + 1 else n

/-- How many bytes are stored: one also where one character is left over. -/
def decodeStores (n : Nat) : Nat := n / 4 * 3 + (n % 4 + 1) / 2

theorem decodeLoads_add_four (n : Nat) : decodeLoads (n + 4) = 4 + decodeLoads n := by
  rw [decodeLoads, decodeLoads, Nat.add_mod_right]
  by_cases h : n % 4 = 1
  · rw [if_pos h, if_pos h]
    omega
  · rw [if_neg h, if_neg h]
    omega

theorem decodeStores_add_four (n : Nat) : decodeStores (n + 4) = 3 + decodeStores n := by
  rw [decodeStores, decodeStores]
  omega

theorem decodeLoads_pos {n : Nat} (h : 0 < n) : 0 < decodeLoads n := by
  rw [decodeLoads]
  split
  · omega
  · exact h

theorem decodeStores_pos {n : Nat} (h : 0 < n) : 0 < decodeStores n := by
  rw [decodeStores]
  omega

theorem loggedDecode_short {n : Nat} (hn : n < 4) (input output : Pointer B) :
    loggedDecode input n output = loggedDecodeRest n input output := by
  rw [loggedDecode, Nat.div_eq_of_lt hn]
  rfl

theorem loggedDecode_add_four (input : Pointer B) (n : Nat) (output : Pointer B) :
    loggedDecode input (n + 4) output
      = loggedDecodeGroup input output >>= fun _ => loggedDecode (input.add 4) n (output.add 3) := by
  have hdiv : (n + 4) / 4 = n / 4 + 1 := by omega
  have hrest : n + 4 - (n / 4 + 1) * 4 = n - n / 4 * 4 := by omega
  rw [loggedDecode, hdiv, loggedDecodeLoop, hrest, loggedDecode, Pointer.add_add, Pointer.add_add,
    show 4 + n / 4 * 4 = (n / 4 + 1) * 4 by omega, show 3 + n / 4 * 3 = (n / 4 + 1) * 3 by omega]
  exact bind_assoc _ _ _

variable {loads stores : B → Nat → Nat → Prop} (hloads : Bytewise loads)
  (hstores : Bytewise stores)

include hloads in
theorem loggedDecodeGroup_within_iff (pos output : Pointer B) (m : Mem) :
    All (Access.Within loads stores) (loggedDecodeGroup pos output) m
      ↔ loads pos.object pos.address 4 ∧ stores output.object output.address 3 := by
  simp only [loggedDecodeGroup, all_bind, all_load, all_store, Access.Within, Pointer.add,
    SextetCodec.decodeGroup, List.length_cons, List.length_nil]
  rw [hloads.four, and_assoc, and_assoc, and_assoc]

include hloads in
theorem loggedDecodeRest_within_iff {n : Nat} (hn : 0 < n) (hlt : n < 4) (pos output : Pointer B)
    (m : Mem) :
    All (Access.Within loads stores) (loggedDecodeRest n pos output) m
      ↔ loads pos.object pos.address (decodeLoads n) ∧
        stores output.object output.address (decodeStores n) := by
  rw [loggedDecodeRest, if_pos (Nat.ne_of_gt hn), decodeLoads, decodeStores]
  by_cases hthree : n = 3
  · subst hthree
    simp only [all_bind, all_load, if_true, all_store, Access.Within, Pointer.add,
      List.length_cons, List.length_nil]
    rw [if_neg (by decide), hloads.three, and_assoc, and_assoc]
  · simp only [all_bind, all_load, if_neg hthree, all_store, Access.Within, Pointer.add,
      List.length_cons, List.length_nil]
    have hsmall : n = 1 ∨ n = 2 := by omega
    rcases hsmall with rfl | rfl
    · rw [if_pos rfl, hloads.two, and_assoc]
    · rw [if_neg (by decide), hloads.two, and_assoc]

include hloads hstores in
/-- **BOUNDS** of `decode_base64`. -/
theorem loggedDecode_within_iff :
    ∀ (n : Nat) (m : Mem) (input output : Pointer B), 0 < n →
      (All (Access.Within loads stores) (loggedDecode input n output) m
        ↔ loads input.object input.address (decodeLoads n) ∧
          stores output.object output.address (decodeStores n)) := by
  intro n
  induction n using Nat.strongRecOn with
  | ind n ih =>
      intro m input output hn
      by_cases hshort : n < 4
      · rw [loggedDecode_short hshort]
        exact loggedDecodeRest_within_iff hloads hn hshort input output m
      · obtain ⟨k, rfl⟩ := Nat.exists_eq_add_of_le' (Nat.le_of_not_lt hshort)
        rw [loggedDecode_add_four, all_bind, loggedDecodeGroup_within_iff hloads]
        cases k with
        | zero => exact and_iff_left (all_pure () _)
        | succ k =>
            have hpos := Nat.succ_pos k
            rw [ih (k + 1) (by omega) _ _ _ hpos, decodeLoads_add_four, decodeStores_add_four,
              hloads _ _ 4 _ (by decide) (decodeLoads_pos hpos),
              hstores _ _ 3 _ (by decide) (decodeStores_pos hpos)]
            exact and_and_and_comm

/-- From the start of one object to the start of another one. -/
theorem loggedDecode_inBounds_iff {layout : Layout B} (n : Nat) (m : Mem) (input output : B) :
    All (Access.InBounds layout)
        (loggedDecode (layout.pointer input) n (layout.pointer output)) m
      ↔ decodeLoads n ≤ layout.size input ∧ decodeStores n ≤ layout.size output := by
  rcases Nat.eq_zero_or_pos n with rfl | hn
  · exact iff_of_true (all_pure () m) ⟨Nat.zero_le _, Nat.zero_le _⟩
  · exact (loggedDecode_within_iff layout.bytewise_holds layout.bytewise_holds n m _ _ hn).trans
      (and_congr Layout.holds_start_iff Layout.holds_start_iff)

/-! ## Bounds of the encoder -/

theorem loggedEncode_short {n : Nat} (hn : n < 3) (input output : Pointer B) :
    loggedEncode input n output = loggedEncodeRest n input output := by
  rw [loggedEncode, Nat.div_eq_of_lt hn]
  rfl

theorem loggedEncode_add_three (input : Pointer B) (n : Nat) (output : Pointer B) :
    loggedEncode input (n + 3) output
      = loggedEncodeGroup input output >>= fun _ => loggedEncode (input.add 3) n (output.add 4) := by
  have hdiv : (n + 3) / 3 = n / 3 + 1 := by omega
  have hrest : n + 3 - (n / 3 + 1) * 3 = n - n / 3 * 3 := by omega
  rw [loggedEncode, hdiv, loggedEncodeLoop, hrest, loggedEncode, Pointer.add_add, Pointer.add_add,
    show 3 + n / 3 * 3 = (n / 3 + 1) * 3 by omega, show 4 + n / 3 * 4 = (n / 3 + 1) * 4 by omega]
  exact bind_assoc _ _ _

include hloads in
theorem loggedEncodeGroup_within_iff (pos output : Pointer B) (m : Mem) :
    All (Access.Within loads stores) (loggedEncodeGroup pos output) m
      ↔ loads pos.object pos.address 3 ∧ stores output.object output.address 4 := by
  simp only [loggedEncodeGroup, all_bind, all_load, all_store, Access.Within, Pointer.add,
    SextetCodec.encodeGroup, List.length_cons, List.length_nil]
  rw [hloads.three, and_assoc, and_assoc]

include hloads in
theorem loggedEncodeRest_within_iff {n : Nat} (hn : 0 < n) (hlt : n < 3) (pos output : Pointer B)
    (m : Mem) :
    All (Access.Within loads stores) (loggedEncodeRest n pos output) m
      ↔ loads pos.object pos.address n ∧
        stores output.object output.address (encodeBase64Length n) := by
  rw [loggedEncodeRest, if_pos (Nat.ne_of_gt hn), encodeBase64Length]
  have hsmall : n = 1 ∨ n = 2 := by omega
  rcases hsmall with rfl | rfl
  · simp only [all_bind, all_load, if_neg (show ¬1 = 2 by decide), all_store, Access.Within,
      Pointer.add, List.length_cons, List.length_nil]
  · simp only [all_bind, all_load, if_true, all_store, Access.Within, Pointer.add,
      List.length_cons, List.length_nil]
    rw [hloads.two, and_assoc]

theorem encodeBase64Length_add_three (n : Nat) :
    encodeBase64Length (n + 3) = 4 + encodeBase64Length n := by
  rw [Nat.add_comm 4]
  exact SextetCodec.encodedLength_add_three n

include hloads hstores in
/-- **BOUNDS** of `encode_base64`. -/
theorem loggedEncode_within_iff :
    ∀ (n : Nat) (m : Mem) (input output : Pointer B), 0 < n →
      (All (Access.Within loads stores) (loggedEncode input n output) m
        ↔ loads input.object input.address n ∧
          stores output.object output.address (encodeBase64Length n)) := by
  intro n
  induction n using Nat.strongRecOn with
  | ind n ih =>
      intro m input output hn
      by_cases hshort : n < 3
      · rw [loggedEncode_short hshort]
        exact loggedEncodeRest_within_iff hloads hn hshort input output m
      · obtain ⟨k, rfl⟩ := Nat.exists_eq_add_of_le' (Nat.le_of_not_lt hshort)
        rw [loggedEncode_add_three, all_bind, loggedEncodeGroup_within_iff hloads]
        cases k with
        | zero => exact and_iff_left (all_pure () _)
        | succ k =>
            have hpos := Nat.succ_pos k
            have hlength : 0 < encodeBase64Length (k + 1) := by
              rw [encodeBase64Length]
              omega
            rw [ih (k + 1) (by omega) _ _ _ hpos, encodeBase64Length_add_three,
              Nat.add_comm (k + 1), hloads _ _ 3 _ (by decide) hpos,
              hstores _ _ 4 _ (by decide) hlength]
            exact and_and_and_comm

/-- The stores of `encode_base64`, wherever its input is. -/
theorem loggedEncode_stores_iff {layout : Layout B} {n : Nat} (hn : 0 < n) (m : Mem)
    (input output : Pointer B) :
    All (Access.StoreInBounds layout) (loggedEncode input n output) m
      ↔ layout.Holds output.object output.address (encodeBase64Length n) :=
  (loggedEncode_within_iff bytewise_true layout.bytewise_holds n m input output hn).trans
    (Iff.of_eq (true_and _))

end OlmBase64
