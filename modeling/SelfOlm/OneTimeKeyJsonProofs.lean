import SelfOlm.Signature
import SelfOlm.Pickle
import SelfOlm.Base64RoundTripProofs
import SelfOlm.Lib.Json

/-! # One-time keys as JSON

    `get_one_time_keys_json` writes the unpublished keys one behind another.  The length
    is computed in a loop of its own, and the separator of the first key is the brace
    that opens the inner object. -/

namespace OlmAccount

open ByteMemory OlmCrypto OlmBase64 OlmPickle

/-! ## The code -/

/-- The `for` loop of `get_one_time_keys_json_length`, with `length` and `is_empty`. -/
def jsonLengthLoop : List OneTimeKey → Nat → Bool → Nat × Bool
  | [], length, isEmpty => (length, isEmpty)
  | key :: keys, length, isEmpty =>
      if key.published then jsonLengthLoop keys length isEmpty
      else
        let length := length + 2
        let length := length + encodeBase64Length (pickleLength key.id)
        let length := length + 3
        let length := length + encodeBase64Length curve25519KeyLength
        jsonLengthLoop keys (length + 1) false

/-- `get_one_time_keys_json_length`. -/
def getOneTimeKeysJsonLength (a : Account) : Nat :=
  let (length, isEmpty) := jsonLengthLoop a.oneTimeKeys.toList 0 true
  let length := if isEmpty then length + 1 else length
  length + 3 + keyJsonCurve25519.length

/-- Bytes are stored at a position, and the position moves behind them. -/
def put (s : Mem × Nat) (bs : Bytes) : Mem × Nat := (write s.1 s.2 bs, s.2 + bs.length)

/-- The `for` loop of `get_one_time_keys_json`, with `sep`. -/
def jsonLoop : List OneTimeKey → Mem × Nat → UInt8 → (Mem × Nat) × UInt8
  | [], s, sep => (s, sep)
  | key :: keys, s, sep =>
      if key.published then jsonLoop keys s sep
      else
        let s := put s [sep]
        let s := put s (ascii "\"")
        let keyId := pickle key.id
        let s := put s (base64.encode keyId)
        let s := put s (ascii "\":\"")
        let s := put s (base64.encode key.key.publicKey.toList)
        let s := put s (ascii "\"")
        jsonLoop keys s 0x2C

/-- `get_one_time_keys_json`. -/
def getOneTimeKeysJson (a : Account) (m : Mem) (oneTimeJson oneTimeJsonLength : Nat) :
    Mem × Account × Option Nat :=
  if oneTimeJsonLength < getOneTimeKeysJsonLength a then
    (m, { a with lastError := .outputBufferTooSmall }, none)
  else
    let s := put (m, oneTimeJson) (ascii "\x7b")
    let s := put s keyJsonCurve25519
    let (s, sep) := jsonLoop a.oneTimeKeys.toList s 0x7B
    let s := if sep ≠ 0x2C then put s [sep] else s
    let s := put s (ascii "\x7d")
    let s := put s (ascii "\x7d")
    (s.1, a, some (s.2 - oneTimeJson))

/-! ## What the text says -/

/-- The four bytes of a number, the highest first. -/
def bigEndian (id : UInt32) : Bytes :=
  [UInt8.ofNat (id.toNat / 2 ^ 24), UInt8.ofNat (id.toNat / 2 ^ 16),
    UInt8.ofNat (id.toNat / 2 ^ 8), UInt8.ofNat id.toNat]

/-- The keys of a list that were not published. -/
def unpublished (keys : List OneTimeKey) : List OneTimeKey :=
  keys.filter (fun key => !key.published)

/-- The member of a key. -/
def keyMember (key : OneTimeKey) : Bytes × Json.Value :=
  (base64.encode (bigEndian key.id), .string (base64.encode key.key.publicKey.toList))

/-- The object that publishes some keys. -/
def keysObject (keys : List OneTimeKey) : Json.Value :=
  .object [(ascii "curve25519", .object (keys.map keyMember))]

/-- In every buffer that is large enough, the call stores one text of the length that was
    asked for, and the text is the JSON text of the keys. -/
def WritesKeys (a : Account) (keys : List OneTimeKey) : Prop :=
  ∀ (m : Mem) (oneTimeJson oneTimeJsonLength : Nat),
    getOneTimeKeysJsonLength a ≤ oneTimeJsonLength →
    ∃ text : Bytes, text.length = getOneTimeKeysJsonLength a ∧
      getOneTimeKeysJson a m oneTimeJson oneTimeJsonLength
        = (write m oneTimeJson text, a, some text.length) ∧
      Json.parse text = some (keysObject keys)

theorem toNat_shiftRight_eight (value : UInt32) : (value >>> 8).toNat = value.toNat / 2 ^ 8 := by
  rw [UInt32.toNat_shiftRight]
  exact Nat.shiftRight_eq_div_pow _ _

/-- A pickled number is the number with its highest byte first. -/
theorem pickle_bigEndian (id : UInt32) : pickle id = bigEndian id := by
  show [UInt8.ofNat (id >>> 8 >>> 8 >>> 8).toNat, UInt8.ofNat (id >>> 8 >>> 8).toNat,
    UInt8.ofNat (id >>> 8).toNat, UInt8.ofNat id.toNat] = bigEndian id
  simp only [toNat_shiftRight_eight, Nat.div_div_eq_div_mul, ← Nat.pow_add]
  rfl

/-! ## One member after another -/

theorem put_put (s : Mem × Nat) (bs cs : Bytes) : put (put s bs) cs = put s (bs ++ cs) := by
  rw [put, put, put, write_append, List.length_append, Nat.add_assoc]

theorem put_nil (s : Mem × Nat) : put s [] = s := by
  rw [put, write_nil]
  rfl

/-- The separator is stored where no member was. -/
theorem put_lastSep (s : Mem × Nat) (sep : UInt8) :
    (if sep ≠ 0x2C then put s [sep] else s) = put s (if sep ≠ 0x2C then [sep] else []) := by
  by_cases h : sep = 0x2C
  · rw [if_neg (not_not_intro h), if_neg (not_not_intro h), put_nil]
  · rw [if_pos h, if_pos h]

/-- The text of a key's member. -/
def memberText (key : OneTimeKey) : Bytes :=
  Json.printString (keyMember key).1 ++ Json.colon :: Json.print (keyMember key).2

/-- The members, each behind its separator. -/
def membersText : UInt8 → List OneTimeKey → Bytes
  | _, [] => []
  | sep, key :: keys => sep :: (memberText key ++ membersText Json.comma keys)

/-- The separator behind the members. -/
def lastSep : UInt8 → List OneTimeKey → UInt8
  | sep, [] => sep
  | _, _ :: _ => Json.comma

theorem unpublished_cons_published {key : OneTimeKey} (h : key.published) (keys : List OneTimeKey) :
    unpublished (key :: keys) = unpublished keys :=
  List.filter_cons_of_neg (by rw [h]; decide)

theorem unpublished_cons {key : OneTimeKey} (h : ¬key.published) (keys : List OneTimeKey) :
    unpublished (key :: keys) = key :: unpublished keys :=
  List.filter_cons_of_pos (by rw [Bool.not_eq_true] at h; rw [h]; rfl)

theorem length_memberText (key : OneTimeKey) :
    (memberText key).length = 1 + encodeBase64Length 4 + 3 + encodeBase64Length 32 + 1 := by
  rw [memberText, List.length_append, List.length_cons, Json.length_printString]
  show (base64.encode (bigEndian key.id)).length + 2
    + ((Json.printString (base64.encode key.key.publicKey.toList)).length + 1) = _
  rw [Json.length_printString, length_base64_encode, length_base64_encode, Vector.length_toList]
  show encodeBase64Length 4 + 2 + (encodeBase64Length 32 + 2 + 1) = _
  omega

theorem lastSep_comma (keys : List OneTimeKey) : lastSep Json.comma keys = Json.comma := by
  cases keys with
  | nil => rfl
  | cons key keys => rfl

/-- The pieces of a member, as they are stored. -/
theorem memberText_written (sep : UInt8) (key : OneTimeKey) (rest : Bytes) :
    [sep] ++ ascii "\"" ++ base64.encode (bigEndian key.id) ++ ascii "\":\""
        ++ base64.encode key.key.publicKey.toList ++ ascii "\"" ++ rest
      = sep :: (memberText key ++ rest) := by
  rw [memberText, Json.printString_append]
  show _ = sep :: (Json.quote :: _ ++ rest)
  simp only [Json.print, Json.printString, keyMember, List.append_assoc, List.cons_append,
    List.nil_append]
  rfl

/-- **THE LOOP** writes the members of the keys that were not published. -/
theorem jsonLoop_eq (keys : List OneTimeKey) :
    ∀ (s : Mem × Nat) (sep : UInt8),
      jsonLoop keys s sep
        = (put s (membersText sep (unpublished keys)), lastSep sep (unpublished keys)) := by
  induction keys with
  | nil =>
      intro s sep
      show (s, sep) = (put s [], sep)
      rw [put_nil]
  | cons key keys ih =>
      intro s sep
      by_cases h : key.published
      · rw [jsonLoop, if_pos h, ih, unpublished_cons_published h]
      · rw [jsonLoop, if_neg h, ih, unpublished_cons h]
        simp only [put_put, pickle_bigEndian]
        rw [memberText_written, membersText]
        exact congrArg (Prod.mk _) (lastSep_comma _)

/-- **THE LENGTH LOOP** counts what the other one writes. -/
theorem jsonLengthLoop_eq (keys : List OneTimeKey) :
    ∀ (length : Nat) (isEmpty : Bool) (sep : UInt8),
      jsonLengthLoop keys length isEmpty
        = (length + (membersText sep (unpublished keys)).length,
            isEmpty && (unpublished keys).isEmpty) := by
  induction keys with
  | nil =>
      intro length isEmpty sep
      show (length, isEmpty) = (length + 0, isEmpty && true)
      rw [Nat.add_zero, Bool.and_true]
  | cons key keys ih =>
      intro length isEmpty sep
      by_cases h : key.published
      · rw [jsonLengthLoop, if_pos h, ih _ _ sep, unpublished_cons_published h]
      · rw [jsonLengthLoop, if_neg h, ih _ _ Json.comma, unpublished_cons h, membersText,
          List.length_cons, List.length_append, length_memberText]
        refine Prod.ext ?_ (by rw [Bool.false_and, List.isEmpty_cons, Bool.and_false])
        show length + 2 + encodeBase64Length 4 + 3 + encodeBase64Length 32 + 1 + _ = length + _
        omega

/-! ## The whole text -/

theorem printRest_members (keys : List OneTimeKey) :
    Json.printRest (keys.map keyMember) = membersText Json.comma keys ++ [Json.closeBrace] := by
  induction keys with
  | nil => rfl
  | cons key keys ih =>
      rw [List.map_cons, membersText, Json.printRest, ih]
      simp only [memberText, List.append_assoc, List.cons_append]

/-- The braces of the inner object: the first separator opens it. -/
theorem print_members (keys : List OneTimeKey) :
    membersText Json.openBrace keys
        ++ (if lastSep Json.openBrace keys ≠ Json.comma then [lastSep Json.openBrace keys] else [])
        ++ [Json.closeBrace]
      = Json.print (.object (keys.map keyMember)) := by
  cases keys with
  | nil => rfl
  | cons key keys =>
      rw [List.map_cons, membersText, lastSep, if_neg (not_not_intro rfl), Json.print,
        printRest_members, List.append_nil]
      simp only [memberText, List.append_assoc, List.cons_append]

theorem plain_encodeTable : ∀ c ∈ encodeTable, Json.Plain c := by decide +kernel

theorem plainString_base64 (bs : Bytes) : Json.PlainString (base64.encode bs) :=
  fun c hc => plain_encodeTable c (base64_encode_alphabet hc)

theorem plain_curve25519 : Json.PlainString (ascii "curve25519") := by
  unfold Json.PlainString
  decide +kernel

theorem plainMembers_keys (keys : List OneTimeKey) :
    Json.PlainMembers (keys.map keyMember) := by
  induction keys with
  | nil => trivial
  | cons key keys ih => exact ⟨plainString_base64 _, plainString_base64 _, ih⟩

theorem plainValue_keysObject (keys : List OneTimeKey) : Json.PlainValue (keysObject keys) :=
  ⟨plain_curve25519, plainMembers_keys keys, trivial⟩

/-- The text of a call, and its length. -/
theorem print_keysObject (keys : List OneTimeKey) :
    Json.print (keysObject keys)
      = ascii "\x7b" ++ keyJsonCurve25519 ++ Json.print (.object (keys.map keyMember))
        ++ ascii "\x7d" := by
  rw [keysObject, Json.print]
  simp only [Json.printRest, List.append_assoc]
  rfl

/-- The inner object has one brace more where the list is empty. -/
theorem length_print_members (keys : List OneTimeKey) :
    (Json.print (.object (keys.map keyMember))).length
      = (membersText Json.openBrace keys).length + (if keys.isEmpty then 2 else 1) := by
  rw [← print_members]
  cases keys with
  | nil => rfl
  | cons key keys =>
      rw [lastSep, if_neg (not_not_intro rfl), List.append_nil, List.length_append]
      rfl

/-- The predicted length is the length of the text. -/
theorem length_print_keysObject (a : Account) :
    (Json.print (keysObject (unpublished a.oneTimeKeys.toList))).length
      = getOneTimeKeysJsonLength a := by
  rw [print_keysObject, List.length_append, List.length_append, List.length_append,
    length_print_members]
  unfold getOneTimeKeysJsonLength
  simp only [jsonLengthLoop_eq _ 0 true Json.openBrace, Bool.true_and, Nat.zero_add]
  show 1 + keyJsonCurve25519.length + _ + 1 = _
  split
  · omega
  · omega

example : Json.print (keysObject []) = ascii "\x7b\"curve25519\":\x7b\x7d\x7d" := by
  decide +kernel

/-- **EVERY CALL** with a sufficient buffer writes the text of the unpublished keys. -/
theorem writesKeys_unpublished (a : Account) : WritesKeys a (unpublished a.oneTimeKeys.toList) := by
  intro m oneTimeJson oneTimeJsonLength hroom
  refine ⟨Json.print (keysObject (unpublished a.oneTimeKeys.toList)), length_print_keysObject a, ?_,
    Json.parse_print (plainValue_keysObject _)⟩
  unfold getOneTimeKeysJson
  simp only [if_neg (Nat.not_lt.mpr hroom), jsonLoop_eq, put_lastSep]
  simp only [put_put]
  have htext := print_keysObject (unpublished a.oneTimeKeys.toList)
  rw [← print_members] at htext
  simp only [← List.append_assoc] at htext
  rw [htext]
  refine Prod.ext rfl (Prod.ext rfl (congrArg some ?_))
  exact Nat.add_sub_cancel_left _ _

theorem unpublished_markKeysAsPublished (a : Account) :
    unpublished (markKeysAsPublished a).1.oneTimeKeys.toList = [] := by
  refine List.filter_eq_nil_iff.mpr fun key hkey => ?_
  obtain ⟨key, -, rfl⟩ := List.mem_map.mp hkey
  exact Bool.false_ne_true

/-- **ONE-TIME KEYS AS JSON**: one member for each key that was not published, in the order
    of the list, and none once the keys are marked as published. -/
theorem getOneTimeKeysJson_exact (a : Account) :
    WritesKeys a (unpublished a.oneTimeKeys.toList) ∧ WritesKeys (markKeysAsPublished a).1 [] := by
  refine ⟨writesKeys_unpublished a, ?_⟩
  have hmarked := writesKeys_unpublished (markKeysAsPublished a).1
  rwa [unpublished_markKeysAsPublished] at hmarked

end OlmAccount
