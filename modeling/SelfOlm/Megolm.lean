import SelfOlm.Lib.CarryRatchet

/-! # The Megolm ratchet

    `megolm.c`: four chained hash values `R(0)..R(3)` under a 32-bit counter,
    one for every byte of the counter.  The hash `hmac key seed` stands for
    `_olm_crypto_hmac_sha256` on a 32-byte key and a one-byte seed; the type
    `P` of the parts is left open, so nothing here depends on which hash it
    is.  Counters are `UInt32`, with the wrap-around of the C code. -/

namespace OlmMegolm

variable {P : Type} (hmac : P → UInt8 → P)

/-- `MEGOLM_RATCHET_PARTS` is positive: the parts have the numbers 0 to 3. -/
instance neZero_ratchetParts : NeZero 4 := ⟨Nat.succ_ne_zero 3⟩

/-- `MEGOLM_RATCHET_PARTS` values and the counter. -/
structure Megolm (P : Type) where
  data : Fin 4 → P
  counter : UInt32

theorem Megolm.ext' {m₁ m₂ : Megolm P} (h1 : m₁.data = m₂.data)
    (h2 : m₁.counter = m₂.counter) : m₁ = m₂ := by
  cases m₁; cases m₂
  cases h1; cases h2
  rfl

/-- `HASH_KEY_SEEDS`. -/
def hashKeySeeds : Fin 4 → UInt8
  | 0 => 0x00
  | 1 => 0x01
  | 2 => 0x02
  | 3 => 0x03

/-- `rehash_part`. -/
def rehashPart (data : Fin 4 → P) (rehashFromPart rehashToPart : Fin 4) :
    Fin 4 → P :=
  Function.update data rehashToPart
    (hmac (data rehashFromPart) (hashKeySeeds rehashToPart))

/-- The loop `for (i = 3; i >= h; i--) rehash_part(data, h, i)`.  Part `h`
    itself comes last, so every part is computed from its old value. -/
def rehashDown (data : Fin 4 → P) (h : Fin 4) : Fin 4 → P :=
  ([3, 2, 1, 0].filter (fun i => h ≤ i)).foldl
    (fun d i => rehashPart hmac d h i) data

/-- The `while` loop of `megolm_advance`: how much has to be rekeyed.  The
    first argument counts the iterations that `h < MEGOLM_RATCHET_PARTS`
    still allows. -/
def rekeyLevel (counter : UInt32) : Nat → UInt32 → Nat → Nat
  | 0, _, h => h
  | n + 1, mask, h =>
      if counter &&& mask = 0 then h
      else rekeyLevel counter n (mask >>> 8) (h + 1)

/-- `megolm_init`. -/
def megolmInit (randomData : Fin 4 → P) (counter : UInt32) : Megolm P where
  data := randomData
  counter := counter

/-- `megolm_advance`. -/
def megolmAdvance (megolm : Megolm P) : Megolm P :=
  let counter := megolm.counter + 1
  let h := rekeyLevel counter 4 0x00FFFFFF 0
  -- with `h = 4` the rekeying loop would have no iteration
  { data := if hh : h < 4 then rehashDown hmac megolm.data ⟨h, hh⟩ else megolm.data
    counter := counter }

/-- `while (steps > 1) { rehash_part(data, j, j); steps--; }`, for
    `n = steps - 1` iterations. -/
def rehashSelf (j : Fin 4) : Nat → (Fin 4 → P) → Fin 4 → P
  | 0, data => data
  | n + 1, data => rehashSelf j n (rehashPart hmac data j j)

/-- The body of the `for` loop of `megolm_advance_to`, for part `j`. -/
def advancePart (advanceTo : UInt32) (megolm : Megolm P) (j : Fin 4) : Megolm P :=
  let shift : UInt32 := UInt32.ofNat ((4 - j.val - 1) * 8)
  let mask : UInt32 := 0xFFFFFFFF <<< shift
  let steps : UInt32 := ((advanceTo >>> shift) - (megolm.counter >>> shift)) &&& 0xff
  let bump (steps : UInt32) : Megolm P :=
    { data := rehashDown hmac (rehashSelf hmac j (steps.toNat - 1) megolm.data) j
      counter := advanceTo &&& mask }
  if steps = 0 then
    -- `advance_to` has wrapped around: advance `R(0)` 256 times
    if advanceTo < megolm.counter then bump 0x100 else megolm
  else bump steps

/-- `megolm_advance_to`. -/
def megolmAdvanceTo (megolm : Megolm P) (advanceTo : UInt32) : Megolm P :=
  [0, 1, 2, 3].foldl (advancePart hmac advanceTo) megolm

/-! ## What the rehashing loops compute -/

/-- Every part from `h` on is rehashed from part `h`; the parts above stay. -/
theorem rehashDown_apply (data : Fin 4 → P) (h i : Fin 4) :
    rehashDown hmac data h i
      = if h ≤ i then hmac (data h) (hashKeySeeds i) else data i := by
  fin_cases h <;> fin_cases i <;> rfl

/-- Bumping part `j` alone only changes part `j`. -/
theorem rehashSelf_of_ne (j : Fin 4) {i : Fin 4} (hij : i ≠ j) :
    ∀ (n : Nat) (data : Fin 4 → P), rehashSelf hmac j n data i = data i := by
  intro n
  induction n with
  | zero => intro data; rfl
  | succ n ih =>
      intro data
      show rehashSelf hmac j n (rehashPart hmac data j j) i = data i
      rw [ih]
      exact Function.update_of_ne hij _ _

/-- On part `j` it is the same as bumping everything from `j` on. -/
theorem rehashSelf_self (j : Fin 4) :
    ∀ (n : Nat) (data : Fin 4 → P),
      rehashSelf hmac j n data j = ((rehashDown hmac · j)^[n] data) j := by
  intro n
  induction n with
  | zero => intro data; rfl
  | succ n ih =>
      intro data
      have hcongr : ∀ (n : Nat) (d₁ d₂ : Fin 4 → P), d₁ j = d₂ j →
          ((rehashDown hmac · j)^[n] d₁) j = ((rehashDown hmac · j)^[n] d₂) j := by
        intro n
        induction n with
        | zero => intro d₁ d₂ h; exact h
        | succ n ihn =>
            intro d₁ d₂ h
            refine ihn _ _ ?_
            show rehashDown hmac d₁ j j = rehashDown hmac d₂ j j
            rw [rehashDown_apply, rehashDown_apply, h]
      show rehashSelf hmac j n (rehashPart hmac data j j) j
        = ((rehashDown hmac · j)^[n] (rehashDown hmac data j)) j
      rw [ih]
      refine hcongr n _ _ ?_
      rw [rehashDown_apply, if_pos (le_refl j)]
      exact Function.update_self _ _ _

end OlmMegolm
