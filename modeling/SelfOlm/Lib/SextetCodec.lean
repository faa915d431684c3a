import Mathlib

/-! # Sextet codecs

    Three bytes as four digits of six bits, without padding characters: the
    scheme of base64, for any alphabet of 64 characters.  `decode` reads every
    character that `digit` gives a value to; on what `encode` wrote it returns
    the bytes. -/

/-- An alphabet: a character for every six bits, and the value of a character. -/
structure SextetCodec where
  char : Nat → UInt8
  digit : UInt8 → Nat
  digit_char : ∀ v, v < 64 → digit (char v) = v

namespace SextetCodec

variable (C : SextetCodec)

/-- Three bytes as a number. -/
def pack (a b c : UInt8) : Nat := (a.toNat <<< 8 ||| b.toNat) <<< 8 ||| c.toNat

/-- Four characters for three bytes. -/
def encodeGroup (value : Nat) : List UInt8 :=
  [C.char (value >>> 6 >>> 6 >>> 6), C.char (value >>> 6 >>> 6 &&& 0x3F),
    C.char (value >>> 6 &&& 0x3F), C.char (value &&& 0x3F)]

/-- All characters of a string of bytes. -/
def encode : List UInt8 → List UInt8
  | a :: b :: c :: rest => C.encodeGroup (pack a b c) ++ encode rest
  | [a, b] =>
      let value := (a.toNat <<< 8 ||| b.toNat) <<< 2
      [C.char (value >>> 6 >>> 6), C.char (value >>> 6 &&& 0x3F), C.char (value &&& 0x3F)]
  | [a] =>
      let value := a.toNat <<< 4
      [C.char (value >>> 6), C.char (value &&& 0x3F)]
  | [] => []

/-- The number of four characters. -/
def unpack (a b c d : UInt8) : Nat :=
  ((C.digit a <<< 6 ||| C.digit b) <<< 6 ||| C.digit c) <<< 6 ||| C.digit d

/-- Three bytes for four characters. -/
def decodeGroup (value : Nat) : List UInt8 :=
  [UInt8.ofNat (value >>> 8 >>> 8), UInt8.ofNat (value >>> 8), UInt8.ofNat value]

/-- All bytes of a string of characters; a single last character has no byte. -/
def decode : List UInt8 → List UInt8
  | a :: b :: c :: d :: rest => decodeGroup (C.unpack a b c d) ++ decode rest
  | [a, b, c] =>
      let value := ((C.digit a <<< 6 ||| C.digit b) <<< 6 ||| C.digit c) >>> 2
      [UInt8.ofNat (value >>> 8), UInt8.ofNat value]
  | [a, b] => [UInt8.ofNat ((C.digit a <<< 6 ||| C.digit b) >>> 4)]
  | _ => []

/-! ## Lengths -/

/-- The number of characters for `n` bytes. -/
def encodedLength (n : Nat) : Nat := 4 * ((n + 2) / 3) + (n + 2) % 3 - 2

/-- The number of bytes in `n` characters. -/
def decodedLength (n : Nat) : Nat := 3 * ((n + 2) / 4) + (n + 2) % 4 - 2

theorem encodedLength_add_three (n : Nat) : encodedLength (n + 3) = encodedLength n + 4 := by
  rw [encodedLength, encodedLength]
  omega

@[simp] theorem length_encode : ∀ bs : List UInt8,
    (C.encode bs).length = encodedLength bs.length
  | [] => rfl
  | [_] => show 2 = encodedLength 1 by decide
  | [_, _] => show 3 = encodedLength 2 by decide
  | _ :: _ :: _ :: rest => by
      rw [encode, List.length_append, length_encode rest, List.length_cons, List.length_cons,
        List.length_cons, encodedLength_add_three]
      exact Nat.add_comm _ _

/-- The characters of whole bytes decode to as many bytes as are announced. -/
theorem length_decode : ∀ cs : List UInt8, cs.length % 4 ≠ 1 →
    (C.decode cs).length = decodedLength cs.length
  | [], _ => rfl
  | [_], h => absurd rfl h
  | [_, _], _ => by
      rw [decode]
      show 1 = decodedLength 2
      decide
  | [_, _, _], _ => by
      rw [decode]
      show 2 = decodedLength 3
      decide
  | a :: b :: c :: d :: rest, h => by
      have hrest := length_decode rest (by
        simp only [List.length_cons] at h
        omega)
      rw [decode, List.length_append, hrest]
      simp only [List.length_cons, List.length_nil, decodeGroup, decodedLength]
      omega

theorem decodedLength_encodedLength (n : Nat) : decodedLength (encodedLength n) = n := by
  rw [decodedLength, encodedLength]
  omega

/-- The number of characters is never one more than a multiple of four. -/
theorem encodedLength_mod (n : Nat) : encodedLength n % 4 ≠ 1 := by
  rw [encodedLength]
  omega

/-- How far the characters reach beyond the bytes. -/
theorem add_div_le_encodedLength (n : Nat) : n + n / 3 ≤ encodedLength n := by
  rw [encodedLength]
  omega

/-! ## Digits -/

theorem shift_or (x : Nat) {k y : Nat} (h : y < 2 ^ k) : x <<< k ||| y = x * 2 ^ k + y := by
  rw [Nat.shiftLeft_eq, Nat.mul_comm]
  exact (Nat.two_pow_add_eq_or_of_lt h x).symm

theorem and_sextet (x : Nat) : x &&& 0x3F = x % 64 :=
  Nat.and_two_pow_sub_one_eq_mod x 6

theorem pack_eq (a b c : UInt8) : pack a b c = (a.toNat * 256 + b.toNat) * 256 + c.toNat := by
  rw [pack, shift_or _ (show b.toNat < 2 ^ 8 from b.toNat_lt),
    shift_or _ (show c.toNat < 2 ^ 8 from c.toNat_lt), show (2 : Nat) ^ 8 = 256 by rfl]

/-- The digits of a number of 24 bits give it back. -/
theorem unpack_encodeGroup {value : Nat} (h : value < 2 ^ 24) :
    C.unpack (C.char (value >>> 6 >>> 6 >>> 6)) (C.char (value >>> 6 >>> 6 &&& 0x3F))
      (C.char (value >>> 6 &&& 0x3F)) (C.char (value &&& 0x3F)) = value := by
  simp only [unpack, Nat.shiftRight_eq_div_pow, and_sextet, show (2 : Nat) ^ 6 = 64 by rfl]
  rw [C.digit_char _ (by omega), C.digit_char _ (Nat.mod_lt _ (by decide)),
    C.digit_char _ (Nat.mod_lt _ (by decide)), C.digit_char _ (Nat.mod_lt _ (by decide)),
    shift_or _ (show value / 64 / 64 % 64 < 2 ^ 6 from Nat.mod_lt _ (by decide)),
    shift_or _ (show value / 64 % 64 < 2 ^ 6 from Nat.mod_lt _ (by decide)),
    shift_or _ (show value % 64 < 2 ^ 6 from Nat.mod_lt _ (by decide))]
  omega

theorem ofNat_eq {n : Nat} {a : UInt8} (h : n % 256 = a.toNat) : UInt8.ofNat n = a := by
  apply UInt8.toNat_inj.mp
  rw [UInt8.toNat_ofNat']
  exact h

theorem decodeGroup_pack (a b c : UInt8) : decodeGroup (pack a b c) = [a, b, c] := by
  have ha := a.toNat_lt
  have hb := b.toNat_lt
  have hc := c.toNat_lt
  rw [decodeGroup, pack_eq]
  simp only [Nat.shiftRight_eq_div_pow, show (2 : Nat) ^ 8 = 256 by rfl]
  rw [ofNat_eq (a := a) (by omega), ofNat_eq (a := b) (by omega), ofNat_eq (a := c) (by omega)]

/-- **ROUND TRIP** for every string of bytes. -/
theorem decode_encode : ∀ bs : List UInt8, C.decode (C.encode bs) = bs
  | [] => rfl
  | [a] => by
      have ha := a.toNat_lt
      simp only [encode, decode, and_sextet, Nat.shiftLeft_eq, Nat.shiftRight_eq_div_pow,
        show (2 : Nat) ^ 6 = 64 by rfl, show (2 : Nat) ^ 4 = 16 by rfl]
      rw [C.digit_char _ (by omega), C.digit_char _ (Nat.mod_lt _ (by decide)),
        ← Nat.shiftLeft_eq _ 6,
        shift_or _ (show a.toNat * 16 % 64 < 2 ^ 6 from Nat.mod_lt _ (by decide)),
        ofNat_eq (a := a) (by omega)]
  | [a, b] => by
      have ha := a.toNat_lt
      have hb := b.toNat_lt
      simp only [encode, decode, and_sextet, Nat.shiftRight_eq_div_pow,
        shift_or a.toNat (show b.toNat < 2 ^ 8 from b.toNat_lt)]
      simp only [show (2 : Nat) ^ 6 = 64 by rfl, show (2 : Nat) ^ 2 = 4 by rfl,
        show (2 : Nat) ^ 8 = 256 by rfl, Nat.shiftLeft_eq _ 2]
      generalize hv : (a.toNat * 256 + b.toNat) * 4 = v
      rw [C.digit_char _ (by omega), C.digit_char _ (Nat.mod_lt _ (by decide)),
        C.digit_char _ (Nat.mod_lt _ (by decide)),
        shift_or _ (show v / 64 % 64 < 2 ^ 6 from Nat.mod_lt _ (by decide)),
        shift_or _ (show v % 64 < 2 ^ 6 from Nat.mod_lt _ (by decide)),
        ofNat_eq (a := a) (by omega), ofNat_eq (a := b) (by omega)]
  | a :: b :: c :: rest => by
      have hlt : pack a b c < 2 ^ 24 := by
        have ha := a.toNat_lt
        have hb := b.toNat_lt
        have hc := c.toNat_lt
        rw [pack_eq]
        omega
      rw [encode, encodeGroup]
      simp only [List.cons_append, List.nil_append]
      rw [decode, C.unpack_encodeGroup hlt, decodeGroup_pack, decode_encode rest]
      rfl

theorem encode_injective : Function.Injective C.encode := by
  intro bs bs' h
  rw [← C.decode_encode bs, h, C.decode_encode]

/-! ## Canonical strings

    `decode` gives bytes for every string.  The strings that `encode` writes are those of
    characters of the alphabet, of a possible length, in which the bits behind the last byte
    are zero; two of them never stand for the same bytes. -/

/-- A string that `encode` writes. -/
def Canonical (cs : List UInt8) : Prop := ∃ bs, C.encode bs = cs

theorem canonical_iff (cs : List UInt8) : C.Canonical cs ↔ C.encode (C.decode cs) = cs := by
  constructor
  · rintro ⟨bs, rfl⟩
    rw [C.decode_encode]
  · intro h
    exact ⟨C.decode cs, h⟩

instance (cs : List UInt8) : Decidable (C.Canonical cs) :=
  decidable_of_iff _ (C.canonical_iff cs).symm

theorem Canonical.decode_inj {cs cs' : List UInt8} (h : C.Canonical cs) (h' : C.Canonical cs')
    (hsame : C.decode cs = C.decode cs') : cs = cs' := by
  rw [← (C.canonical_iff cs).mp h, hsame, (C.canonical_iff cs').mp h']

/-- A character of the alphabet. -/
def IsChar (c : UInt8) : Prop := ∃ v < 64, C.char v = c

/-- The bits behind the last byte are zero. -/
def ZeroTail : List UInt8 → Prop
  | _ :: _ :: _ :: _ :: rest => ZeroTail rest
  | [_, _, c] => C.digit c % 4 = 0
  | [_, b] => C.digit b % 16 = 0
  | _ => True

theorem IsChar.char_digit {c : UInt8} (h : C.IsChar c) :
    C.digit c < 64 ∧ C.char (C.digit c) = c := by
  obtain ⟨v, hv, rfl⟩ := h
  rw [C.digit_char v hv]
  exact ⟨hv, rfl⟩

theorem unpack_eq {a b c d : UInt8} (hb : C.digit b < 64) (hc : C.digit c < 64)
    (hd : C.digit d < 64) :
    C.unpack a b c d = ((C.digit a * 64 + C.digit b) * 64 + C.digit c) * 64 + C.digit d := by
  rw [unpack, shift_or _ (show C.digit b < 2 ^ 6 from hb),
    shift_or _ (show C.digit c < 2 ^ 6 from hc), shift_or _ (show C.digit d < 2 ^ 6 from hd),
    show (2 : Nat) ^ 6 = 64 by rfl]

theorem pack_decodeGroup {value : Nat} (h : value < 2 ^ 24) :
    pack (UInt8.ofNat (value >>> 8 >>> 8)) (UInt8.ofNat (value >>> 8)) (UInt8.ofNat value)
      = value := by
  rw [pack_eq]
  simp only [UInt8.toNat_ofNat', Nat.shiftRight_eq_div_pow, show (2 : Nat) ^ 8 = 256 by rfl]
  omega

/-- A string of these is encoded from what it decodes to. -/
theorem encode_decode : ∀ cs : List UInt8, (∀ c ∈ cs, C.IsChar c) → cs.length % 4 ≠ 1 →
    C.ZeroTail cs → C.encode (C.decode cs) = cs
  | [], _, _, _ => rfl
  | [_], _, hlength, _ => absurd rfl hlength
  | [a, b], hchars, _, htail => by
      obtain ⟨ha, hca⟩ := (hchars a (by simp)).char_digit
      obtain ⟨hb, hcb⟩ := (hchars b (by simp)).char_digit
      have htail : C.digit b % 16 = 0 := htail
      have hvalue : (UInt8.ofNat ((C.digit a <<< 6 ||| C.digit b) >>> 4)).toNat <<< 4
          = C.digit a * 64 + C.digit b := by
        rw [shift_or _ (show C.digit b < 2 ^ 6 from hb), UInt8.toNat_ofNat', Nat.shiftLeft_eq,
          Nat.shiftRight_eq_div_pow, show (2 : Nat) ^ 6 = 64 by rfl, show (2 : Nat) ^ 4 = 16 by rfl,
          show (2 : Nat) ^ 8 = 256 by rfl]
        omega
      simp only [decode, encode]
      rw [hvalue]
      simp only [and_sextet, Nat.shiftRight_eq_div_pow, show (2 : Nat) ^ 6 = 64 by rfl]
      rw [show (C.digit a * 64 + C.digit b) / 64 = C.digit a by omega,
        show (C.digit a * 64 + C.digit b) % 64 = C.digit b by omega, hca, hcb]
  | [a, b, c], hchars, _, htail => by
      obtain ⟨ha, hca⟩ := (hchars a (by simp)).char_digit
      obtain ⟨hb, hcb⟩ := (hchars b (by simp)).char_digit
      obtain ⟨hc, hcc⟩ := (hchars c (by simp)).char_digit
      have htail : C.digit c % 4 = 0 := htail
      generalize hv : ((C.digit a <<< 6 ||| C.digit b) <<< 6 ||| C.digit c) >>> 2 = v
      have hdecode : C.decode [a, b, c] = [UInt8.ofNat (v >>> 8), UInt8.ofNat v] := by
        rw [← hv]
        rfl
      rw [shift_or _ (show C.digit b < 2 ^ 6 from hb), shift_or _ (show C.digit c < 2 ^ 6 from hc),
        Nat.shiftRight_eq_div_pow, show (2 : Nat) ^ 6 = 64 by rfl,
        show (2 : Nat) ^ 2 = 4 by rfl] at hv
      have hvalue : ((UInt8.ofNat (v >>> 8)).toNat <<< 8 ||| (UInt8.ofNat v).toNat) <<< 2
          = (C.digit a * 64 + C.digit b) * 64 + C.digit c := by
        rw [shift_or _ (show (UInt8.ofNat v).toNat < 2 ^ 8 from (UInt8.ofNat v).toNat_lt),
          UInt8.toNat_ofNat', UInt8.toNat_ofNat', Nat.shiftLeft_eq, Nat.shiftRight_eq_div_pow,
          show (2 : Nat) ^ 8 = 256 by rfl, show (2 : Nat) ^ 2 = 4 by rfl]
        omega
      rw [hdecode]
      simp only [encode]
      rw [hvalue]
      simp only [and_sextet, Nat.shiftRight_eq_div_pow, show (2 : Nat) ^ 6 = 64 by rfl]
      generalize hw : (C.digit a * 64 + C.digit b) * 64 + C.digit c = w
      rw [show w / 64 / 64 = C.digit a by omega, show w / 64 % 64 = C.digit b by omega,
        show w % 64 = C.digit c by omega, hca, hcb, hcc]
  | a :: b :: c :: d :: rest, hchars, hlength, htail => by
      obtain ⟨ha, hca⟩ := (hchars a (by simp)).char_digit
      obtain ⟨hb, hcb⟩ := (hchars b (by simp)).char_digit
      obtain ⟨hc, hcc⟩ := (hchars c (by simp)).char_digit
      obtain ⟨hd, hcd⟩ := (hchars d (by simp)).char_digit
      have hrest : C.encode (C.decode rest) = rest := by
        refine encode_decode rest (fun e he => hchars e (by simp [he])) ?_ htail
        simp only [List.length_cons] at hlength
        omega
      have hvalue := C.unpack_eq (a := a) hb hc hd
      have hpack := pack_decodeGroup (show C.unpack a b c d < 2 ^ 24 by omega)
      rw [decode, decodeGroup]
      simp only [List.cons_append, List.nil_append]
      rw [encode, hpack, hrest, hvalue, encodeGroup]
      simp only [and_sextet, Nat.shiftRight_eq_div_pow, show (2 : Nat) ^ 6 = 64 by rfl]
      generalize hw : ((C.digit a * 64 + C.digit b) * 64 + C.digit c) * 64 + C.digit d = w
      rw [show w / 64 / 64 / 64 = C.digit a by omega, show w / 64 / 64 % 64 = C.digit b by omega,
        show w / 64 % 64 = C.digit c by omega, show w % 64 = C.digit d by omega, hca, hcb, hcc, hcd]
      rfl

theorem isChar_encode : ∀ (bs : List UInt8) (c : UInt8), c ∈ C.encode bs → C.IsChar c
  | [], c, h => by cases h
  | [a], c, h => by
      have ha := a.toNat_lt
      simp only [encode, and_sextet, Nat.shiftLeft_eq, Nat.shiftRight_eq_div_pow,
        show (2 : Nat) ^ 6 = 64 by rfl, show (2 : Nat) ^ 4 = 16 by rfl] at h
      rcases List.mem_cons.mp h with rfl | h
      · exact ⟨_, by omega, rfl⟩
      · rw [List.mem_singleton.mp h]
        exact ⟨_, Nat.mod_lt _ (by decide), rfl⟩
  | [a, b], c, h => by
      have ha := a.toNat_lt
      have hb := b.toNat_lt
      simp only [encode, and_sextet, Nat.shiftRight_eq_div_pow,
        shift_or a.toNat (show b.toNat < 2 ^ 8 from b.toNat_lt), Nat.shiftLeft_eq _ 2,
        show (2 : Nat) ^ 6 = 64 by rfl, show (2 : Nat) ^ 2 = 4 by rfl,
        show (2 : Nat) ^ 8 = 256 by rfl] at h
      rcases List.mem_cons.mp h with rfl | h
      · exact ⟨_, by omega, rfl⟩
      · rcases List.mem_cons.mp h with rfl | h
        · exact ⟨_, Nat.mod_lt _ (by decide), rfl⟩
        · rw [List.mem_singleton.mp h]
          exact ⟨_, Nat.mod_lt _ (by decide), rfl⟩
  | x :: y :: z :: rest, c, h => by
      rw [encode] at h
      rcases List.mem_append.mp h with h | h
      · have hx := x.toNat_lt
        have hy := y.toNat_lt
        have hz := z.toNat_lt
        rw [encodeGroup, pack_eq] at h
        simp only [and_sextet, Nat.shiftRight_eq_div_pow, show (2 : Nat) ^ 6 = 64 by rfl] at h
        rcases List.mem_cons.mp h with rfl | h
        · exact ⟨_, by omega, rfl⟩
        · rcases List.mem_cons.mp h with rfl | h
          · exact ⟨_, Nat.mod_lt _ (by decide), rfl⟩
          · rcases List.mem_cons.mp h with rfl | h
            · exact ⟨_, Nat.mod_lt _ (by decide), rfl⟩
            · rw [List.mem_singleton.mp h]
              exact ⟨_, Nat.mod_lt _ (by decide), rfl⟩
      · exact isChar_encode rest c h

theorem zeroTail_encode : ∀ bs : List UInt8, C.ZeroTail (C.encode bs)
  | [] => trivial
  | [a] => by
      show C.digit (C.char (a.toNat <<< 4 &&& 0x3F)) % 16 = 0
      rw [and_sextet, C.digit_char _ (Nat.mod_lt _ (by decide)), Nat.shiftLeft_eq,
        show (2 : Nat) ^ 4 = 16 by rfl]
      omega
  | [a, b] => by
      show C.digit (C.char ((a.toNat <<< 8 ||| b.toNat) <<< 2 &&& 0x3F)) % 4 = 0
      rw [and_sextet, C.digit_char _ (Nat.mod_lt _ (by decide)), Nat.shiftLeft_eq,
        show (2 : Nat) ^ 2 = 4 by rfl]
      omega
  | _ :: _ :: _ :: rest => zeroTail_encode rest

/-! ## Encoding over the own input

    An encoder that stores its characters from the first byte of its input on reads, from
    the second group on, bytes that it has overwritten. -/

/-- Whole groups are encoded one after another. -/
theorem encode_append : ∀ (bs cs : List UInt8), bs.length % 3 = 0 →
    C.encode (bs ++ cs) = C.encode bs ++ C.encode cs
  | [], _, _ => rfl
  | [_], _, h => absurd h (show ¬1 % 3 = 0 by decide)
  | [_, _], _, h => absurd h (show ¬2 % 3 = 0 by decide)
  | _ :: _ :: _ :: rest, cs, h => by
      simp only [List.length_cons] at h
      rw [List.cons_append, List.cons_append, List.cons_append, encode, encode,
        encode_append rest cs (by omega), List.append_assoc]

/-- The characters of the first groups depend on their bytes alone. -/
theorem getElem?_encode_congr {bs bs' : List UInt8} {k i : Nat} (hbs : 3 * k ≤ bs.length)
    (hbs' : 3 * k ≤ bs'.length) (h : bs.take (3 * k) = bs'.take (3 * k)) (hi : i < 4 * k) :
    (C.encode bs)[i]? = (C.encode bs')[i]? := by
  have hgroups : ∀ {cs : List UInt8}, 3 * k ≤ cs.length →
      (C.encode cs)[i]? = (C.encode (cs.take (3 * k)))[i]? := by
    intro cs hcs
    have hlength : (cs.take (3 * k)).length = 3 * k := List.length_take_of_le hcs
    rw [← List.take_append_drop (3 * k) cs, C.encode_append _ _ (by omega),
      List.take_left' hlength, List.getElem?_append_left]
    rw [length_encode, hlength, encodedLength]
    omega
  rw [hgroups hbs, hgroups hbs', h]

/-- Byte `i` is overwritten before its group is read. -/
def Overwritten (i : Nat) : Prop := i < i / 3 * 4

instance : DecidablePred Overwritten := fun i => Nat.decLt i (i / 3 * 4)

/-- What is read where `bs` stood before: a byte that was overwritten is a character. -/
structure ReadsOver (bs reads : List UInt8) : Prop where
  length : reads.length = bs.length
  byte : ∀ i < bs.length, reads[i]? = if Overwritten i then (C.encode reads)[i]? else bs[i]?

variable {C}

/-- **DETERMINED** by the bytes that are not overwritten. -/
theorem ReadsOver.unique {bs bs' reads reads' : List UInt8} (h : C.ReadsOver bs reads)
    (h' : C.ReadsOver bs' reads') (hlength : bs.length = bs'.length)
    (hkept : ∀ i, ¬Overwritten i → bs[i]? = bs'[i]?) : reads = reads' := by
  apply List.ext_getElem?
  intro i
  induction i using Nat.strongRecOn with
  | ind i ih =>
      by_cases hi : i < bs.length
      · rw [h.byte i hi, h'.byte i (hlength ▸ hi)]
        by_cases hover : Overwritten i
        · rw [if_pos hover, if_pos hover]
          have hreads := h.length
          have hreads' := h'.length
          -- the characters over the group of byte `i` are those of earlier groups
          refine C.getElem?_encode_congr (k := i / 3) (by omega) (by omega) ?_
            (by rw [Overwritten] at hover; omega)
          apply List.ext_getElem?
          intro j
          rw [List.getElem?_take, List.getElem?_take]
          by_cases hj : j < 3 * (i / 3)
          · rw [if_pos hj, if_pos hj]
            exact ih j (by omega)
          · rw [if_neg hj, if_neg hj]
        · rw [if_neg hover, if_neg hover]
          exact hkept i hover
      · have hreads := h.length
        have hreads' := h'.length
        rw [List.getElem?_eq_none (by omega), List.getElem?_eq_none (by omega)]

/-- **UNDISTURBED**: the characters are those of the bytes just where every byte that is
    overwritten is the character that is stored there. -/
theorem ReadsOver.encode_eq_iff {bs reads : List UInt8} (h : C.ReadsOver bs reads) :
    C.encode reads = C.encode bs
      ↔ ∀ i < bs.length, Overwritten i → bs[i]? = (C.encode bs)[i]? := by
  constructor
  · intro heq i hi hover
    have hreads := C.encode_injective heq
    have hbyte := h.byte i hi
    rwa [if_pos hover, hreads] at hbyte
  · intro hchars
    have hself : C.ReadsOver bs bs := by
      refine ⟨rfl, fun i hi => ?_⟩
      by_cases hover : Overwritten i
      · rw [if_pos hover]
        exact hchars i hi hover
      · rw [if_neg hover]
    rw [h.unique hself rfl (fun _ _ => rfl)]

end SextetCodec
