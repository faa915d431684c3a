import SelfOlm.LoggedBase64

/-! # Base64 — round trip in one buffer

    Almost every call of the library encodes a string that lies at the end of the output
    buffer, and decodes a string into its own buffer.  Encoding stores four characters
    behind every three bytes, so that the distance to the input shrinks by one; it starts
    at a third of the input at least.  Decoding falls behind by one in every group.  So
    no byte is stored before it is read. -/

namespace OlmBase64

open ByteMemory OlmCrypto AccessLog Logged

variable {B : Type}

/-! ## The order of the accesses -/

/-- The first address from which on loads are allowed. -/
theorem bytewise_ge (e : Nat) : Bytewise (fun (_ : B) q (_ : Nat) => e ≤ q) := by
  intro object p n k hn hk
  constructor
  · intro h
    exact ⟨h, Nat.le_add_right_of_le h⟩
  · intro h
    exact h.1

theorem loggedEncodeGroup_readsFirst (pos output : Pointer B) (m : Mem) :
    ReadsFirst (loggedEncodeGroup pos output) m := by
  show [_, _, _, _].Pairwise Access.Unseen
  simp [Access.Unseen]

theorem loggedEncodeRest_readsFirst (n : Nat) (pos output : Pointer B) (m : Mem) :
    ReadsFirst (loggedEncodeRest n pos output) m := by
  rw [loggedEncodeRest]
  by_cases hzero : n ≠ 0
  · rw [if_pos hzero]
    by_cases htwo : n = 2
    · simp only [if_pos htwo]
      show [_, _, _].Pairwise Access.Unseen
      simp [Access.Unseen]
    · simp only [if_neg htwo]
      show [_, _].Pairwise Access.Unseen
      simp [Access.Unseen]
  · rw [if_neg hzero]
    exact readsFirst_pure () m

/-- Encoding reads first where the input is a third of its length behind the output. -/
theorem loggedEncode_readsFirst :
    ∀ (n : Nat) (m : Mem) (input output : Pointer B), output.address + n / 3 ≤ input.address →
      ReadsFirst (loggedEncode input n output) m := by
  intro n
  induction n using Nat.strongRecOn with
  | ind n ih =>
      intro m input output h
      by_cases hshort : n < 3
      · rw [loggedEncode_short hshort]
        exact loggedEncodeRest_readsFirst n input output m
      · obtain ⟨k, rfl⟩ := Nat.exists_eq_add_of_le' (Nat.le_of_not_lt hshort)
        have hdistance : output.address + 4 ≤ input.address + 3 := by omega
        rw [loggedEncode_add_three]
        refine (loggedEncodeGroup_readsFirst input output m).bind (e := output.address + 4) ?_ ?_ ?_
        · refine ih k (by omega) _ _ _ ?_
          rw [Pointer.address_add, Pointer.address_add]
          omega
        · exact (loggedEncodeGroup_within_iff bytewise_true input output m).mpr
            ⟨trivial, Nat.le_refl _⟩
        · -- what is left is read behind the group
          rcases Nat.eq_zero_or_pos k with rfl | hk
          · exact all_pure () _
          · exact (loggedEncode_within_iff (bytewise_ge _) bytewise_true k _ _ _ hk).mpr
              ⟨hdistance, trivial⟩

theorem loggedDecodeGroup_readsFirst (pos output : Pointer B) (m : Mem) :
    ReadsFirst (loggedDecodeGroup pos output) m := by
  show [_, _, _, _, _].Pairwise Access.Unseen
  simp [Access.Unseen]

theorem loggedDecodeRest_readsFirst (n : Nat) (pos output : Pointer B) (m : Mem) :
    ReadsFirst (loggedDecodeRest n pos output) m := by
  rw [loggedDecodeRest]
  by_cases hzero : n ≠ 0
  · rw [if_pos hzero]
    by_cases hthree : n = 3
    · simp only [if_pos hthree]
      show [_, _, _, _].Pairwise Access.Unseen
      simp [Access.Unseen]
    · simp only [if_neg hthree]
      show [_, _, _].Pairwise Access.Unseen
      simp [Access.Unseen]
  · rw [if_neg hzero]
    exact readsFirst_pure () m

/-- Decoding reads first where the output does not start behind the input. -/
theorem loggedDecode_readsFirst :
    ∀ (n : Nat) (m : Mem) (input output : Pointer B), output.address ≤ input.address →
      ReadsFirst (loggedDecode input n output) m := by
  intro n
  induction n using Nat.strongRecOn with
  | ind n ih =>
      intro m input output h
      by_cases hshort : n < 4
      · rw [loggedDecode_short hshort]
        exact loggedDecodeRest_readsFirst n input output m
      · obtain ⟨k, rfl⟩ := Nat.exists_eq_add_of_le' (Nat.le_of_not_lt hshort)
        have hdistance : output.address + 3 ≤ input.address + 4 := by omega
        rw [loggedDecode_add_four]
        refine (loggedDecodeGroup_readsFirst input output m).bind (e := output.address + 3) ?_ ?_ ?_
        · refine ih k (by omega) _ _ _ ?_
          rw [Pointer.address_add, Pointer.address_add]
          omega
        · exact (loggedDecodeGroup_within_iff bytewise_true input output m).mpr
            ⟨trivial, Nat.le_refl _⟩
        · rcases Nat.eq_zero_or_pos k with rfl | hk
          · exact all_pure () _
          · exact (loggedDecode_within_iff (bytewise_ge _) bytewise_true k _ _ _ hk).mpr
              ⟨hdistance, trivial⟩

/-! ## The round trip -/

theorem base64_char_mem (v : Nat) (h : v < 64) : base64.char v ∈ encodeTable := by
  have hall : ∀ v < 64, base64.char v ∈ encodeTable := by decide +kernel
  exact hall v h

/-- The input may end where the output ends, or share no byte with it. -/
def EncodePlace (input inputLength output : Nat) : Prop :=
  input = output + encodeBase64Length inputLength - inputLength ∨
    Disjoint input inputLength output (encodeBase64Length inputLength)

theorem EncodePlace.safe {input inputLength output : Nat}
    (h : EncodePlace input inputLength output) : EncodeSafe input inputLength output := by
  rcases h with rfl | hbehind | hbefore
  · exact encodeSafe_tail output inputLength
  · exact Or.inr hbehind
  · have hlength := SextetCodec.add_div_le_encodedLength inputLength
    rw [encodeBase64Length_eq] at hbefore
    exact Or.inl (by omega)

/-- The output may be the input buffer, or share no byte with it. -/
def DecodePlace (input inputLength output outputLength : Nat) : Prop :=
  output = input ∨ Disjoint input inputLength output outputLength

theorem DecodePlace.safe {input inputLength output outputLength : Nat}
    (h : DecodePlace input inputLength output outputLength) :
    DecodeSafe input inputLength output := by
  rcases h with hsame | hbehind | hbefore
  · exact Or.inl (Nat.le_of_eq hsame)
  · exact Or.inr hbehind
  · exact Or.inl (by omega)

theorem base64_encode_alphabet {bs : Bytes} {c : UInt8} (h : c ∈ base64.encode bs) :
    c ∈ encodeTable := by
  obtain ⟨v, hv, rfl⟩ := base64.isChar_encode bs c h
  exact base64_char_mem v hv

/-- **BASE64 ROUND TRIP**.  One string of `encode_base64_length` characters of the
    alphabet is what encoding stores, apart from its input or over its own end; decoding
    it, apart or in place, stores the bytes again; and what any string of a decodable
    length is decoded to does not depend on the place.  In the overlapping forms no byte
    is stored before it is read. -/
theorem base64_roundTrip :
    (∀ x : Bytes, ∃ encoded : Bytes,
      encoded.length = encodeBase64Length x.length ∧ (∀ c ∈ encoded, c ∈ encodeTable) ∧
      decodeBase64Length (encodeBase64Length x.length) = some x.length ∧
      (∀ m input output, read m input x.length = x → EncodePlace input x.length output →
        encodeBase64 m input x.length output = write m output encoded) ∧
      (∀ m input output, read m input encoded.length = encoded →
        DecodePlace input encoded.length output x.length →
        decodeBase64 m input encoded.length output = write m output x)) ∧
    (∀ (encoded : Bytes) (n : Nat), decodeBase64Length encoded.length = some n →
      ∃ decoded : Bytes, decoded.length = n ∧ ∀ m input output,
        read m input encoded.length = encoded → DecodePlace input encoded.length output n →
        decodeBase64 m input encoded.length output = write m output decoded) ∧
    (∀ (n : Nat) (m : Mem) (object : B) (p : Nat),
      ReadsFirst (loggedEncode ⟨object, p + encodeBase64Length n - n⟩ n ⟨object, p⟩) m ∧
      ReadsFirst (loggedDecode ⟨object, p⟩ n ⟨object, p⟩) m) := by
  refine ⟨fun x => ?_, fun encoded n hn => ?_, fun n m object p => ⟨?_, ?_⟩⟩
  · refine ⟨base64.encode x, length_base64_encode x, fun c hc => base64_encode_alphabet hc,
      decodeBase64Length_encode x.length, fun m input output hread hplace => ?_,
      fun m input output hread hplace => ?_⟩
    · rw [encodeBase64_eq _ m input output hplace.safe, hread]
    · rw [length_base64_encode] at hread hplace ⊢
      exact decodeBase64_encode hread hplace.safe
  · have hmod : encoded.length % 4 ≠ 1 := by
      intro h
      rw [decodeBase64Length, if_pos h] at hn
      cases hn
    rw [decodeBase64Length, if_neg hmod, Option.some.injEq] at hn
    refine ⟨base64.decode encoded, (base64.length_decode encoded hmod).trans hn,
      fun m input output hread hplace => ?_⟩
    rw [decodeBase64_eq _ m input output hmod hplace.safe, hread]
  · have hlength := SextetCodec.add_div_le_encodedLength n
    refine loggedEncode_readsFirst n m _ _ ?_
    show p + n / 3 ≤ p + encodeBase64Length n - n
    rw [encodeBase64Length_eq]
    omega
  · exact loggedDecode_readsFirst n m _ _ (Nat.le_refl p)

end OlmBase64
