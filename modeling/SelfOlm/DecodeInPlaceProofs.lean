import SelfOlm.LoggedBase64

/-! # Decoding in place

    `_olm_decode_base64(buf, n, buf)`, as the calls for group sessions and for SAS make
    it: the length is what the caller of the library supplied, and the result is looked
    at behind the call, or not at all. -/

namespace OlmBase64

open ByteMemory OlmCrypto AccessLog Logged

variable {B : Type}

/-- `_olm_decode_base64`. -/
def loggedOlmDecodeBase64 (input : Pointer B) (inputLength : Nat) (output : Pointer B) :
    Logged B (Option Nat) := do
  loggedDecode input inputLength output
  pure (decodeBase64Length inputLength)

/-- It is the call on memory that `olm_group_decrypt` and the others begin with. -/
theorem loggedOlmDecodeBase64_eq (m : Mem) (input : Pointer B) (inputLength : Nat)
    (output : Pointer B) :
    memory (loggedOlmDecodeBase64 input inputLength output) m
        = decodeBase64 m input.address inputLength output.address ∧
      result (loggedOlmDecodeBase64 input inputLength output) m
        = decodeBase64Length inputLength := by
  refine ⟨?_, rfl⟩
  rw [loggedOlmDecodeBase64, memory_bind, memory_pure, memory_loggedDecode]

/-- Some of the first `n` bytes of the buffer. -/
def InFirst (buf n : Nat) (_object : B) (p k : Nat) : Prop := buf ≤ p ∧ p + k ≤ buf + n

/-- Some of the bytes that are decoded from `n` characters; none for another length. -/
def InDecoded (buf n : Nat) (object : B) (p k : Nat) : Prop :=
  match decodeBase64Length n with
  | none => False
  | some decoded => InFirst buf decoded object p k

/-- Loads in the buffer, and stores in what is decoded. -/
def DecodesInPlace (buf n : Nat) (object : B) (m : Mem) : Prop :=
  All (Access.Within (InFirst buf n) (InDecoded buf n))
    (loggedOlmDecodeBase64 ⟨object, buf⟩ n ⟨object, buf⟩) m

theorem bytewise_inFirst (buf n : Nat) : Bytewise (InFirst (B := B) buf n) := by
  intro object p k l hk hl
  rw [InFirst, InFirst, InFirst]
  omega

theorem bytewise_inDecoded (buf n : Nat) : Bytewise (InDecoded (B := B) buf n) := by
  intro object p k l hk hl
  unfold InDecoded
  cases decodeBase64Length n with
  | none => exact (and_self_iff).symm
  | some decoded => exact bytewise_inFirst buf decoded object p k l hk hl

/-- For a valid length the stores are exactly the decoded bytes. -/
theorem decodeBase64Length_stores {n : Nat} (h : n % 4 ≠ 1) :
    decodeBase64Length n = some (decodeStores n) := by
  rw [decodeBase64Length, if_neg h, decodeStores]
  congr 1
  omega

/-- **IN PLACE**, decoding keeps to its buffer where the length is valid, and only there. -/
theorem olmDecodeBase64_inPlace_iff (buf n : Nat) (object : B) (m : Mem) :
    (memory (loggedOlmDecodeBase64 ⟨object, buf⟩ n ⟨object, buf⟩) m = decodeBase64 m buf n buf ∧
      result (loggedOlmDecodeBase64 ⟨object, buf⟩ n ⟨object, buf⟩) m = decodeBase64Length n) ∧
    (DecodesInPlace buf n object m ↔ n % 4 ≠ 1) := by
  refine ⟨loggedOlmDecodeBase64_eq m _ n _, ?_⟩
  rw [DecodesInPlace, loggedOlmDecodeBase64, all_bind]
  rcases Nat.eq_zero_or_pos n with rfl | hn
  · exact iff_of_true ⟨all_pure () m, all_pure _ _⟩ (by decide)
  rw [loggedDecode_within_iff (bytewise_inFirst buf n) (bytewise_inDecoded buf n) n m _ _ hn]
  constructor
  · -- the character behind the buffer is read
    rintro ⟨⟨hload, -⟩, -⟩ hrest
    rw [decodeLoads, if_pos hrest, InFirst] at hload
    omega
  · intro hrest
    have hload : InFirst buf n object buf (decodeLoads n) := by
      rw [decodeLoads, if_neg hrest]
      exact ⟨Nat.le_refl _, Nat.le_refl _⟩
    have hstore : InDecoded buf n object buf (decodeStores n) := by
      rw [InDecoded, decodeBase64Length_stores hrest]
      exact ⟨Nat.le_refl _, Nat.le_refl _⟩
    exact ⟨⟨hload, hstore⟩, all_pure _ _⟩

/-- Five characters: the sixth is read, and a fourth byte is stored. -/
theorem olmDecodeBase64_five :
    ¬DecodesInPlace 0 5 () (fun _ => 0) ∧
      Access.load () 5 1 ∈ accesses (loggedOlmDecodeBase64 ⟨(), 0⟩ 5 ⟨(), 0⟩) (fun _ => 0) ∧
      Access.store () 3 1 ∈ accesses (loggedOlmDecodeBase64 ⟨(), 0⟩ 5 ⟨(), 0⟩) (fun _ => 0) := by
  have hload : Access.load () 5 1
      ∈ accesses (loggedOlmDecodeBase64 ⟨(), 0⟩ 5 ⟨(), 0⟩) (fun _ => 0) := by decide
  refine ⟨fun h => ?_, hload, by decide⟩
  have hbound : 5 + 1 ≤ 0 + 5 := (h _ hload).2
  exact absurd hbound (by decide)

end OlmBase64
