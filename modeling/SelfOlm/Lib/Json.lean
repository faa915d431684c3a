import Mathlib

/-! # JSON texts of strings and objects

    The part of JSON that has strings without escapes, objects, and no blanks.  The
    parser reads a text from the left and says what is behind the value; a text that is
    printed is read back as the value it was printed from. -/

namespace Json

/-- A string, or an object with its members in their order. -/
inductive Value where
  | string (characters : List UInt8)
  | object (members : List (List UInt8 × Value))

/-! ## Characters -/

def quote : UInt8 := 0x22
def comma : UInt8 := 0x2C
def colon : UInt8 := 0x3A
def backslash : UInt8 := 0x5C
def openBrace : UInt8 := 0x7B
def closeBrace : UInt8 := 0x7D

/-- A character that stands for itself in a string. -/
def Plain (c : UInt8) : Prop := 0x20 ≤ c ∧ c < 0x80 ∧ c ≠ quote ∧ c ≠ backslash

instance : DecidablePred Plain := fun c =>
  inferInstanceAs (Decidable (0x20 ≤ c ∧ c < 0x80 ∧ c ≠ quote ∧ c ≠ backslash))

/-- A string that is written between quotation marks as it is. -/
def PlainString (s : List UInt8) : Prop := ∀ c ∈ s, Plain c

mutual
/-- Every string of a value is plain, names too. -/
def PlainValue : Value → Prop
  | .string s => PlainString s
  | .object members => PlainMembers members

def PlainMembers : List (List UInt8 × Value) → Prop
  | [] => True
  | (name, value) :: members => PlainString name ∧ PlainValue value ∧ PlainMembers members
end

/-! ## The parser -/

/-- What is behind one given character. -/
def expect (c : UInt8) : List UInt8 → Option (List UInt8)
  | [] => none
  | d :: rest => if d = c then some rest else none

/-- The characters up to a quotation mark, and what is behind it. -/
def parseCharacters : List UInt8 → Option (List UInt8 × List UInt8)
  | [] => none
  | c :: rest =>
      if c = quote then some ([], rest)
      else if Plain c then (parseCharacters rest).map (fun r => (c :: r.1, r.2))
      else none

mutual
/-- A value, and what is behind it. -/
def parseValue : Nat → List UInt8 → Option (Value × List UInt8)
  | 0, _ => none
  | n + 1, text =>
      match expect quote text with
      | some rest => (parseCharacters rest).map (fun r => (.string r.1, r.2))
      | none =>
          match expect openBrace text with
          | none => none
          | some rest =>
              match expect closeBrace rest with
              | some rest => some (.object [], rest)
              | none => (parseMembers n rest).map (fun r => (.object r.1, r.2))

/-- One member or more, up to the closing brace. -/
def parseMembers : Nat → List UInt8 → Option (List (List UInt8 × Value) × List UInt8)
  | 0, _ => none
  | n + 1, text => do
      let rest ← expect quote text
      let (name, rest) ← parseCharacters rest
      let rest ← expect colon rest
      let (value, rest) ← parseValue n rest
      match expect comma rest with
      | some rest => (parseMembers n rest).map (fun r => ((name, value) :: r.1, r.2))
      | none => (expect closeBrace rest).map (fun rest => ([(name, value)], rest))
end

/-- The value of a whole text. -/
def parse (text : List UInt8) : Option Value :=
  match parseValue text.length text with
  | some (value, []) => some value
  | _ => none

/-! ## The printer -/

/-- A string between quotation marks. -/
def printString (s : List UInt8) : List UInt8 := quote :: (s ++ [quote])

mutual
def print : Value → List UInt8
  | .string s => printString s
  | .object [] => [openBrace, closeBrace]
  | .object ((name, value) :: members) =>
      openBrace :: (printString name ++ colon :: (print value ++ printRest members))

/-- The members behind the first one, and the closing brace. -/
def printRest : List (List UInt8 × Value) → List UInt8
  | [] => [closeBrace]
  | (name, value) :: members =>
      comma :: (printString name ++ colon :: (print value ++ printRest members))
end

/-! ## Reading back -/

theorem expect_self (c : UInt8) (rest : List UInt8) : expect c (c :: rest) = some rest :=
  if_pos rfl

theorem parseCharacters_printed {s : List UInt8} (h : PlainString s) (rest : List UInt8) :
    parseCharacters (s ++ quote :: rest) = some (s, rest) := by
  induction s with
  | nil => exact if_pos rfl
  | cons c s ih =>
      have hc : Plain c := h c List.mem_cons_self
      rw [List.cons_append, parseCharacters, if_neg hc.2.2.1, if_pos hc,
        ih (fun d hd => h d (List.mem_cons_of_mem c hd))]
      rfl

theorem printString_append (s rest : List UInt8) :
    printString s ++ rest = quote :: (s ++ quote :: rest) := by
  rw [printString, List.cons_append, List.append_assoc, List.singleton_append]

/-- A printed object is no string and not empty. -/
theorem parseValue_members {n : Nat} {name rest : List UInt8} :
    parseValue (n + 1) (openBrace :: (printString name ++ rest))
      = (parseMembers n (printString name ++ rest)).map (fun r => (.object r.1, r.2)) := by
  rw [printString_append]
  rfl

/-- The rest of a member list is read where its first value is. -/
theorem parseMembers_value {n : Nat} {name : List UInt8} (hname : PlainString name)
    {text rest : List UInt8} {value : Value}
    (hvalue : parseValue n (text ++ rest) = some (value, rest)) :
    parseMembers (n + 1) (printString name ++ colon :: (text ++ rest))
      = match expect comma rest with
        | some rest => (parseMembers n rest).map (fun r => ((name, value) :: r.1, r.2))
        | none => (expect closeBrace rest).map (fun rest => ([(name, value)], rest)) := by
  rw [printString_append, parseMembers, expect_self]
  simp only [Option.bind_eq_bind, Option.bind_some, parseCharacters_printed hname, expect_self,
    hvalue]

theorem length_printString (s : List UInt8) : (printString s).length = s.length + 2 := by
  rw [printString, List.length_cons, List.length_append, List.length_singleton]

theorem length_printRest_cons (name : List UInt8) (value : Value)
    (members : List (List UInt8 × Value)) :
    (printRest ((name, value) :: members)).length
      = name.length + 4 + (print value).length + (printRest members).length := by
  rw [printRest, List.length_cons, List.length_append, List.length_cons, List.length_append,
    length_printString]
  omega

mutual
/-- **A PRINTED VALUE** is read back, with fuel for each of its characters. -/
theorem parseValue_print : ∀ (value : Value), PlainValue value → ∀ (n : Nat) (rest : List UInt8),
    (print value).length ≤ n → parseValue n (print value ++ rest) = some (value, rest)
  | .string s, h, 0, rest, hn => by
      rw [print, length_printString] at hn
      omega
  | .string s, h, n + 1, rest, hn => by
      have hs : PlainString s := h
      rw [print, printString_append, parseValue, expect_self]
      simp only [parseCharacters_printed hs, Option.map_some]
  | .object [], h, 0, rest, hn => absurd hn (by decide)
  | .object [], h, n + 1, rest, hn => rfl
  | .object ((name, value) :: members), h, n, rest, hn => by
      obtain ⟨hname, hvalue, hmembers⟩ := h
      rw [print, List.length_cons, List.length_append, List.length_cons, List.length_append,
        length_printString] at hn
      obtain ⟨k, rfl⟩ := Nat.exists_eq_add_of_le' (show 2 ≤ n by omega)
      have hread := parseMembers_printRest members hmembers hname k rest
        (fun rest => parseValue_print value hvalue k rest (by omega)) (by omega)
      rw [print, List.cons_append, List.append_assoc, List.cons_append, List.append_assoc,
        parseValue_members, hread]
      rfl

/-- The members of an object, up to its end. -/
theorem parseMembers_printRest : ∀ (members : List (List UInt8 × Value)), PlainMembers members →
    ∀ {name : List UInt8} {value : Value}, PlainString name → ∀ (n : Nat) (rest : List UInt8),
      (∀ rest, parseValue n (print value ++ rest) = some (value, rest)) →
      (printRest members).length ≤ n →
      parseMembers (n + 1)
          (printString name ++ colon :: (print value ++ (printRest members ++ rest)))
        = some ((name, value) :: members, rest)
  | [], h, name, value, hname, n, rest, hread, hn => by
      rw [parseMembers_value hname (hread _)]
      rfl
  | (name', value') :: members, h, name, value, hname, n, rest, hread, hn => by
      obtain ⟨hname', hvalue', hmembers⟩ := h
      rw [length_printRest_cons] at hn
      obtain ⟨k, rfl⟩ := Nat.exists_eq_add_of_le' (show 1 ≤ n by omega)
      have hnext := parseMembers_printRest members hmembers hname' k rest
        (fun rest => parseValue_print value' hvalue' k rest (by omega)) (by omega)
      rw [parseMembers_value hname (hread _), printRest, List.cons_append, expect_self,
        List.append_assoc, List.cons_append, List.append_assoc]
      show Option.map _ (parseMembers (k + 1) _) = _
      rw [hnext]
      rfl
end

/-- **ROUND TRIP**: the text of a value is read as that value. -/
theorem parse_print {value : Value} (h : PlainValue value) : parse (print value) = some value := by
  have hread := parseValue_print value h (print value).length [] (Nat.le_refl _)
  rw [List.append_nil] at hread
  rw [parse, hread]

end Json
