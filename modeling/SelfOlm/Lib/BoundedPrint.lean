import SelfOlm.Lib.AccessLog

/-! # Printing into a buffer

    Texts that are printed one behind another with `snprintf`: the position moves on by
    the length that each text would need, the size that is left is an unsigned
    difference.  Once a text does not fit, the difference is no bound any more. -/

namespace BoundedPrint

open ByteMemory AccessLog Logged

/-! ## Text -/

/-- The decimal digits of a number. -/
def digits (n : Nat) : List UInt8 := (Nat.toDigits 10 n).map (fun c => UInt8.ofNat c.toNat)

/-- A number as `%d` prints it. -/
def decimal (n : Int) : List UInt8 := if n < 0 then 45 :: digits n.natAbs else digits n.natAbs

theorem length_digits_le {n k : Nat} (hk : 0 < k) (h : n < 10 ^ k) : (digits n).length ≤ k := by
  rw [digits, List.length_map]
  exact (Nat.length_toDigits_le_iff (by decide) hk).mpr h

/-- A number of 32 bits has at most eleven characters. -/
theorem length_decimal_le {n : Int} (h : n.natAbs ≤ 2 ^ 32) : (decimal n).length ≤ 11 := by
  have hdigits : (digits n.natAbs).length ≤ 10 := length_digits_le (by decide) (by omega)
  rw [decimal]
  split
  · rw [List.length_cons]
    omega
  · omega

/-! ## Printing -/

variable {B : Type}

/-- `snprintf` of a text: at most `size` bytes with the terminating zero, and the length
    that the text would need. -/
def snprintf (buffer : Pointer B) (size : Nat) (text : List UInt8) : Logged B Int :=
  if size = 0 then pure text.length
  else do
    store buffer (text.take (size - 1) ++ [0])
    pure text.length

/-- Print at a position of a buffer of `buflen` bytes; the new position. -/
def printText (buffer : Pointer B) (buflen : UInt64) (pos : Nat) (text : List UInt8) :
    Logged B Nat := do
  let size ← snprintf (buffer.add pos) (buflen - UInt64.ofNat pos).toNat text
  pure (if 0 < size then pos + size.toNat else pos)

/-- Print texts one behind another. -/
def printTexts (buffer : Pointer B) (buflen : UInt64) : List (List UInt8) → Nat → Logged B Nat
  | [], pos => pure pos
  | text :: texts, pos => do
      let pos ← printText buffer buflen pos text
      printTexts buffer buflen texts pos

theorem printTexts_append (buffer : Pointer B) (buflen : UInt64) (texts texts' : List (List UInt8)) :
    ∀ pos, printTexts buffer buflen (texts ++ texts') pos
      = printTexts buffer buflen texts pos >>= printTexts buffer buflen texts' := by
  induction texts with
  | nil =>
      intro pos
      rfl
  | cons text texts ih =>
      intro pos
      rw [List.cons_append, printTexts, printTexts, bind_assoc]
      exact congrArg _ (funext ih)

/-! ## What is left of the buffer -/

theorem remaining_of_le {buflen : UInt64} {pos : Nat} (h : pos ≤ buflen.toNat) :
    (buflen - UInt64.ofNat pos).toNat = buflen.toNat - pos := by
  have hlt := buflen.toNat_lt
  rw [UInt64.toNat_sub, UInt64.toNat_ofNat']
  omega

/-- Behind the end of the buffer the difference wraps around. -/
theorem remaining_of_lt {buflen : UInt64} {pos : Nat} (h : buflen.toNat < pos)
    (hpos : pos < buflen.toNat + 2 ^ 32) : (buflen - UInt64.ofNat pos).toNat ≠ 0 := by
  have hlt := buflen.toNat_lt
  rw [UInt64.toNat_sub, UInt64.toNat_ofNat']
  omega

theorem result_snprintf (buffer : Pointer B) (size : Nat) (text : List UInt8) (m : Mem) :
    result (snprintf buffer size text) m = text.length := by
  rw [snprintf]
  split
  · rfl
  · rfl

theorem result_printText (buffer : Pointer B) (buflen : UInt64) (pos : Nat) (text : List UInt8)
    (m : Mem) : result (printText buffer buflen pos text) m = pos + text.length := by
  rw [printText, result_bind, result_snprintf, result_pure]
  split
  · rw [Int.toNat_natCast]
  · omega

/-! ## Bounds -/

variable {layout : Layout B} {object : B} {buflen : UInt64}

theorem snprintf_inBounds_iff (p : Nat) (size : Nat) (text : List UInt8) (m : Mem) :
    All (Access.InBounds layout) (snprintf ⟨object, p⟩ size text) m
      ↔ size = 0 ∨ layout.Holds object p (min (size - 1) text.length + 1) := by
  rw [snprintf]
  by_cases hsize : size = 0
  · rw [if_pos hsize]
    exact iff_of_true (all_pure _ m) (Or.inl hsize)
  · rw [if_neg hsize, all_bind, all_store]
    show layout.Holds object p _ ∧ _ ↔ _
    rw [List.length_append, List.length_take, List.length_singleton, or_iff_right hsize]
    exact and_iff_left (all_pure _ _)

theorem printText_inBounds (hsize : layout.size object = buflen.toNat) {pos : Nat}
    (hpos : pos ≤ buflen.toNat) (text : List UInt8) (m : Mem) :
    All (Access.InBounds layout) (printText (layout.pointer object) buflen pos text) m := by
  refine (all_bind _ _ m).mpr ⟨?_, all_pure _ _⟩
  refine (snprintf_inBounds_iff _ _ text m).mpr ?_
  rw [remaining_of_le hpos]
  rcases Nat.eq_or_lt_of_le hpos with rfl | hlt
  · left
    omega
  · right
    show layout.start object ≤ layout.start object + pos ∧
      layout.start object + pos + _ ≤ layout.start object + layout.size object
    omega

/-- Behind the end of the buffer at least a zero is stored. -/
theorem printText_overflows (hsize : layout.size object = buflen.toNat) {pos : Nat}
    (hpos : buflen.toNat < pos) (hlt : pos < buflen.toNat + 2 ^ 32) (text : List UInt8) (m : Mem) :
    ¬All (Access.InBounds layout) (printText (layout.pointer object) buflen pos text) m := by
  intro h
  have hprint := (snprintf_inBounds_iff _ _ text m).mp ((all_bind _ _ m).mp h).1
  obtain ⟨-, hend⟩ := hprint.resolve_left (remaining_of_lt hpos hlt)
  change layout.start object + pos + _ ≤ layout.start object + layout.size object at hend
  omega

/-- **BOUNDS**: the texts before the last one have to fit. -/
theorem printTexts_inBounds_iff (hsize : layout.size object = buflen.toNat)
    {texts : List (List UInt8)} (htexts : ∀ text ∈ texts, text.length < 2 ^ 32) :
    ∀ (pos : Nat) (m : Mem), pos ≤ buflen.toNat →
      (All (Access.InBounds layout) (printTexts (layout.pointer object) buflen texts pos) m
        ↔ pos + texts.dropLast.flatten.length ≤ buflen.toNat) := by
  induction texts with
  | nil =>
      intro pos m hpos
      exact iff_of_true (all_pure pos m) hpos
  | cons text texts ih =>
      intro pos m hpos
      rw [printTexts, all_bind, result_printText,
        and_iff_right (printText_inBounds hsize hpos text m)]
      cases texts with
      | nil => exact iff_of_true (all_pure _ _) hpos
      | cons next texts =>
          rw [List.dropLast_cons_cons, List.flatten_cons, List.length_append, ← Nat.add_assoc]
          by_cases hfits : pos + text.length ≤ buflen.toNat
          · exact ih (fun text htext => htexts text (List.mem_cons_of_mem _ htext)) _ _ hfits
          · have hlength := htexts text List.mem_cons_self
            refine iff_of_false ?_ (by omega)
            rw [printTexts, all_bind]
            exact fun h => printText_overflows hsize (by omega) (by omega) next _ h.1

/-! ## The terminating zero -/

/-- The zero stands at the position, or in the last byte of a full buffer. -/
def Terminated (buffer : Nat) (buflen : UInt64) (pos : Nat) (m : Mem) : Prop :=
  m (buffer + min pos (buflen.toNat - 1)) = 0

theorem printText_terminated {buffer : Pointer B} {pos : Nat} (hpos : pos ≤ buflen.toNat)
    (text : List UInt8) {m : Mem} (h : Terminated buffer.address buflen pos m) :
    Terminated buffer.address buflen (pos + text.length)
      (memory (printText buffer buflen pos text) m) := by
  rw [printText, memory_bind, memory_pure, snprintf, remaining_of_le hpos]
  rw [Terminated] at h ⊢
  rcases Nat.eq_or_lt_of_le hpos with rfl | hlt
  · rw [if_pos (by omega), memory_pure, Nat.min_eq_right (by omega)]
    rwa [Nat.min_eq_right (by omega)] at h
  · rw [if_neg (by omega), memory_bind, memory_pure, memory_store]
    have hzero : min (pos + text.length) (buflen.toNat - 1)
        = pos + (text.take (buflen.toNat - pos - 1)).length := by
      rw [List.length_take]
      omega
    rw [hzero, ← Nat.add_assoc, Pointer.address_add, write_inside _ _ _ (by
      rw [List.length_append]
      exact Nat.lt_succ_self _)]
    exact List.getElem_concat_length rfl _

/-- **TERMINATION** of the text, where it does not overflow. -/
theorem printTexts_terminated {buffer : Pointer B} {texts : List (List UInt8)} :
    ∀ (pos : Nat) (m : Mem), pos + texts.dropLast.flatten.length ≤ buflen.toNat →
      Terminated buffer.address buflen pos m →
      Terminated buffer.address buflen (pos + texts.flatten.length)
        (memory (printTexts buffer buflen texts pos) m) := by
  induction texts with
  | nil =>
      intro pos m _ h
      exact h
  | cons text texts ih =>
      intro pos m hfits h
      rw [printTexts, memory_bind, result_printText, List.flatten_cons, List.length_append,
        ← Nat.add_assoc]
      have hprinted := printText_terminated (by omega) text h
      cases texts with
      | nil => exact hprinted
      | cons next texts =>
          rw [List.dropLast_cons_cons, List.flatten_cons, List.length_append, ← Nat.add_assoc] at hfits
          exact ih _ _ hfits hprinted

end BoundedPrint
