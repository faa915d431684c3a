import SelfOlm.Pickles
import SelfOlm.GroupMessageProofs

/-! # Pickles round trip

    `Unread` says that the bytes of a pickle lie between position and end.  A
    lawful type takes its own bytes from the front and leaves the rest, whatever
    the old value was; objects read field by field.  The encryption and base64 in
    one buffer are undone by decoding and decrypting in place. -/

namespace OlmPickle

open ByteMemory OlmCrypto OlmBase64 OlmList OlmAccount OlmRatchet OlmSession OlmMegolm
open OlmGroupSession (Part OutboundGroupSession InboundGroupSession megolmGetData partsOfBytes)

/-! ## Reading from the front -/

/-- The bytes between position and end that are still to be read. -/
structure Unread (m : Mem) (pos fin : Nat) (bs : Bytes) : Prop where
  bytes : read m pos bs.length = bs
  bound : pos + bs.length ≤ fin

theorem Unread.left {m : Mem} {pos fin : Nat} {a b : Bytes} (h : Unread m pos fin (a ++ b)) :
    Unread m pos fin a where
  bytes := read_prefix h.bytes
  bound := by
    have := h.bound
    rw [List.length_append] at this
    omega

theorem Unread.right {m : Mem} {pos fin : Nat} {a b : Bytes} (h : Unread m pos fin (a ++ b)) :
    Unread m (pos + a.length) fin b where
  bytes := read_middle (c := []) (by rw [List.append_nil]; exact h.bytes)
  bound := by
    have := h.bound
    rw [List.length_append] at this
    omega

/-- What holds of the overloads for a type whose values are stored whole. -/
class LawfulPickle (T : Type) [Pickle T] : Prop where
  length_pickle : ∀ v : T, (pickle v).length = pickleLength v
  pickleLength_pos : ∀ v : T, 0 < pickleLength v
  unpickle_pickle : ∀ {m : Mem} {pos fin : Nat} (old v : T), Unread m pos fin (pickle v) →
    unpickle m pos fin old = (v, pos + pickleLength v)

export LawfulPickle (length_pickle pickleLength_pos unpickle_pickle)

/-- One field: its value, and what is left to be read. -/
theorem Unread.unpickle {T : Type} [Pickle T] [LawfulPickle T] {m : Mem} {pos fin : Nat} {v : T}
    {rest : Bytes} (h : Unread m pos fin (pickle v ++ rest)) (old : T) :
    OlmPickle.unpickle m pos fin old = (v, pos + pickleLength v) ∧
      Unread m (pos + pickleLength v) fin rest := by
  have hright := h.right
  rw [length_pickle] at hright
  exact ⟨unpickle_pickle old v h.left, hright⟩

/-! ## Numbers, flags and byte arrays -/

theorem pickleShift_toNat (value : UInt32) : (value >>> 8).toNat = value.toNat / 256 := by
  rw [UInt32.toNat_shiftRight, show (8 : UInt32).toNat % 32 = 8 by rfl, Nat.shiftRight_eq_div_pow]

theorem unpickleLoop_pickleLoop (value : UInt32) : unpickleLoop (pickleLoop 4 value []) = value := by
  have hv := value.toNat_lt
  apply UInt32.toNat_inj.mp
  simp only [pickleLoop, unpickleLoop, List.foldl_cons, List.foldl_nil,
    OlmGroupSession.pushByte_toNat, UInt32.toNat_toUInt8, pickleShift_toNat,
    show (0 : UInt32).toNat = 0 by rfl]
  omega

instance : LawfulPickle UInt32 where
  length_pickle := fun _ => rfl
  pickleLength_pos := fun _ => show 0 < 4 by decide
  unpickle_pickle := by
    intro m pos fin old v h
    have hbound := h.bound
    have hread : read m pos 4 = pickleLoop 4 v [] := h.bytes
    show (if fin < pos + 4 then (0, fin) else (unpickleLoop (read m pos 4), pos + 4)) = _
    rw [if_neg (by exact Nat.not_lt.mpr hbound), hread, unpickleLoop_pickleLoop]
    rfl

instance : LawfulPickle Bool where
  length_pickle := fun _ => rfl
  pickleLength_pos := fun _ => show 0 < 1 by decide
  unpickle_pickle := by
    intro m pos fin old v h
    have hbound : pos + 1 ≤ fin := h.bound
    have hread : read m pos 1 = [if v then 1 else 0] := h.bytes
    have hbyte : m pos = if v then 1 else 0 := (List.cons.inj hread).1
    show (if pos = fin then (old, fin) else (m pos != 0, pos + 1)) = _
    rw [if_neg (by omega), hbyte]
    cases v
    · rfl
    · rfl

instance {n : Nat} [NeZero n] : LawfulPickle (Vector UInt8 n) where
  length_pickle := fun v => Vector.length_toList
  pickleLength_pos := fun _ => Nat.pos_of_ne_zero (NeZero.ne n)
  unpickle_pickle := by
    intro m pos fin old v h
    have hbound := h.bound
    have hbytes : read m pos v.toList.length = v.toList := h.bytes
    rw [show (pickle v).length = n from Vector.length_toList] at hbound
    rw [Vector.length_toList] at hbytes
    show (if fin < pos + n then (old, fin) else (load n m pos, pos + n)) = _
    rw [if_neg (Nat.not_lt.mpr hbound), load_eq_of_read hbytes]
    rfl

/-! ## Items of several fields -/

section Fields

variable {A B C T : Type} [Pickle A] [Pickle B] [Pickle C] [Pickle T]
  [LawfulPickle A] [LawfulPickle B] [LawfulPickle C]

/-- The overload of a type reads two fields. -/
def ReadsTwoFields (mk : A → B → T) (a : T → A) (b : T → B) : Prop :=
  ∀ m pos fin v, unpickle m pos fin v =
    (let (x, pos) := unpickle m pos fin (a v)
    let (y, pos) := unpickle m pos fin (b v)
    (mk x y, pos))

/-- The overload of a type reads three fields. -/
def ReadsThreeFields (mk : A → B → C → T) (a : T → A) (b : T → B) (c : T → C) : Prop :=
  ∀ m pos fin v, unpickle m pos fin v =
    (let (x, pos) := unpickle m pos fin (a v)
    let (y, pos) := unpickle m pos fin (b v)
    let (z, pos) := unpickle m pos fin (c v)
    (mk x y z, pos))

/-- A type whose overloads go through two fields. -/
theorem lawful_twoFields (mk : A → B → T) (a : T → A) (b : T → B)
    (hmk : ∀ v, mk (a v) (b v) = v)
    (hlength : ∀ v, pickleLength v = pickleLength (a v) + pickleLength (b v))
    (hpickle : ∀ v, pickle v = pickle (a v) ++ pickle (b v))
    (hunpickle : ReadsTwoFields mk a b) : LawfulPickle T where
  length_pickle := fun v => by
    rw [hpickle, hlength, List.length_append, length_pickle, length_pickle]
  pickleLength_pos := fun v => by
    rw [hlength]
    exact Nat.add_pos_left (pickleLength_pos _) _
  unpickle_pickle := by
    intro m pos fin old v h
    rw [hpickle] at h
    obtain ⟨h1, h⟩ := h.unpickle (a old)
    have h2 := unpickle_pickle (b old) (b v) h
    rw [hunpickle, h1]
    simp only
    rw [h2, hmk, hlength, Nat.add_assoc]

/-- A type whose overloads go through three fields. -/
theorem lawful_threeFields (mk : A → B → C → T) (a : T → A) (b : T → B) (c : T → C)
    (hmk : ∀ v, mk (a v) (b v) (c v) = v)
    (hlength : ∀ v, pickleLength v = pickleLength (a v) + (pickleLength (b v) + pickleLength (c v)))
    (hpickle : ∀ v, pickle v = pickle (a v) ++ (pickle (b v) ++ pickle (c v)))
    (hunpickle : ReadsThreeFields mk a b c) : LawfulPickle T where
  length_pickle := fun v => by
    rw [hpickle, hlength, List.length_append, List.length_append, length_pickle, length_pickle,
      length_pickle]
  pickleLength_pos := fun v => by
    rw [hlength]
    exact Nat.add_pos_left (pickleLength_pos _) _
  unpickle_pickle := by
    intro m pos fin old v h
    rw [hpickle] at h
    obtain ⟨h1, h⟩ := h.unpickle (a old)
    obtain ⟨h2, h⟩ := h.unpickle (b old)
    have h3 := unpickle_pickle (c old) (c v) h
    rw [hunpickle, h1]
    simp only
    rw [h2]
    simp only
    rw [h3, hmk, hlength, Nat.add_assoc, Nat.add_assoc]

end Fields

theorem curve25519KeyPair_fields :
    ReadsTwoFields Curve25519KeyPair.mk (·.publicKey) (·.privateKey) :=
  fun _ _ _ _ => rfl

instance : LawfulPickle Curve25519KeyPair :=
  lawful_twoFields Curve25519KeyPair.mk (·.publicKey) (·.privateKey) (fun _ => rfl) (fun _ => rfl)
    (fun _ => rfl) curve25519KeyPair_fields

theorem ed25519KeyPair_fields :
    ReadsTwoFields Ed25519KeyPair.mk (·.publicKey) (·.privateKey) :=
  fun _ _ _ _ => rfl

instance : LawfulPickle Ed25519KeyPair :=
  lawful_twoFields Ed25519KeyPair.mk (·.publicKey) (·.privateKey) (fun _ => rfl) (fun _ => rfl)
    (fun _ => rfl) ed25519KeyPair_fields

theorem identityKeys_fields :
    ReadsTwoFields IdentityKeys.mk (·.ed25519Key) (·.curve25519Key) :=
  fun _ _ _ _ => rfl

instance : LawfulPickle IdentityKeys :=
  lawful_twoFields IdentityKeys.mk (·.ed25519Key) (·.curve25519Key) (fun _ => rfl) (fun _ => rfl)
    (fun _ => rfl) identityKeys_fields

theorem oneTimeKey_fields :
    ReadsThreeFields OneTimeKey.mk (·.id) (·.published) (·.key) :=
  fun _ _ _ _ => rfl

instance : LawfulPickle OneTimeKey :=
  lawful_threeFields OneTimeKey.mk (·.id) (·.published) (·.key) (fun _ => rfl) (fun _ => rfl)
    (fun _ => rfl) oneTimeKey_fields

theorem senderChain_fields : ReadsThreeFields
    (fun ratchetKey key index => (⟨ratchetKey, ⟨index, key⟩⟩ : SenderChain SharedKey))
    (·.ratchetKey) (·.chainKey.key) (·.chainKey.index) :=
  fun _ _ _ _ => rfl

instance : LawfulPickle (SenderChain SharedKey) :=
  lawful_threeFields (fun ratchetKey key index => ⟨ratchetKey, ⟨index, key⟩⟩) (·.ratchetKey)
    (·.chainKey.key) (·.chainKey.index) (fun _ => rfl) (fun _ => rfl) (fun _ => rfl)
    senderChain_fields

theorem receiverChain_fields : ReadsThreeFields
    (fun ratchetKey key index => (⟨ratchetKey, ⟨index, key⟩⟩ : ReceiverChain SharedKey))
    (·.ratchetKey) (·.chainKey.key) (·.chainKey.index) :=
  fun _ _ _ _ => rfl

instance : LawfulPickle (ReceiverChain SharedKey) :=
  lawful_threeFields (fun ratchetKey key index => ⟨ratchetKey, ⟨index, key⟩⟩) (·.ratchetKey)
    (·.chainKey.key) (·.chainKey.index) (fun _ => rfl) (fun _ => rfl) (fun _ => rfl)
    receiverChain_fields

theorem skippedMessageKey_fields : ReadsThreeFields
    (fun ratchetKey key index => (⟨ratchetKey, ⟨index, key⟩⟩ : SkippedMessageKey SharedKey))
    (·.ratchetKey) (·.messageKey.key) (·.messageKey.index) :=
  fun _ _ _ _ => rfl

instance : LawfulPickle (SkippedMessageKey SharedKey) :=
  lawful_threeFields (fun ratchetKey key index => ⟨ratchetKey, ⟨index, key⟩⟩) (·.ratchetKey)
    (·.messageKey.key) (·.messageKey.index) (fun _ => rfl) (fun _ => rfl) (fun _ => rfl)
    skippedMessageKey_fields

/-- The four parts of a ratchet are stored as one array. -/
instance : LawfulPickle (Megolm Part) where
  length_pickle := fun v => by
    show (megolmGetData v ++ pickle v.counter).length = _
    rw [List.length_append, OlmGroupSession.length_megolmGetData, length_pickle]
    rfl
  pickleLength_pos := fun v => Nat.add_pos_left (by decide) _
  unpickle_pickle := by
    intro m pos fin old v h
    have hdata : Unread m pos fin (megolmGetData v) := Unread.left h
    have hcounter := Unread.right (a := megolmGetData v) (b := pickle v.counter) h
    have hbound := hdata.bound
    have hread := hdata.bytes
    rw [OlmGroupSession.length_megolmGetData] at hbound hread hcounter
    have h2 := unpickle_pickle old.counter v.counter hcounter
    have hparts := OlmGroupSession.partsOfBytes_getData v []
    rw [List.append_nil] at hparts
    show (let (data, pos) :=
        if fin < pos + 128 then (old.data, fin) else (partsOfBytes (read m pos 128), pos + 128)
      let (counter, pos) := unpickle m pos fin old.counter
      (({ data, counter } : Megolm Part), pos)) = _
    rw [if_neg (Nat.not_lt.mpr hbound), hread, hparts]
    simp only
    rw [h2, Nat.add_assoc]
    rfl

/-! ## Lists -/

section Lists

variable {T : Type} [Pickle T] [LawfulPickle T] {maxSize : Nat}

theorem length_flatMap_pickle (items : List T) :
    (items.flatMap pickle).length = (items.map pickleLength).sum := by
  induction items with
  | nil => rfl
  | cons item items ih =>
      rw [List.flatMap_cons, List.length_append, ih, length_pickle, List.map_cons, List.sum_cons]

theorem length_pickle_list (list : BoundedList T maxSize) :
    (pickle list).length = pickleLength list := by
  show (pickle (UInt32.ofNat list.toList.length) ++ list.toList.flatMap pickle).length = _
  rw [List.length_append, length_flatMap_pickle]
  rfl

/-- The loop appends the items that were pickled. -/
theorem unpickleItems_pickle {m : Mem} {fin : Nat} {rest : Bytes} :
    ∀ (items : List T) {pos : Nat} (list : BoundedList T maxSize),
      list.toList.length + items.length ≤ maxSize →
      Unread m pos fin (items.flatMap pickle ++ rest) →
      (unpickleItems m fin items.length pos list).1.toList = list.toList ++ items ∧
        (unpickleItems m fin items.length pos list).2
          = pos + (items.map pickleLength).sum := by
  intro items
  induction items with
  | nil =>
      intro pos list _ _
      exact ⟨(List.append_nil _).symm, rfl⟩
  | cons item items ih =>
      intro pos list hlen h
      rw [List.length_cons] at hlen
      rw [List.flatMap_cons, List.append_assoc] at h
      have hlt : pos ≠ fin := by
        have hbound := h.left.bound
        have hpos := pickleLength_pos item
        rw [length_pickle] at hbound
        omega
      obtain ⟨h1, h⟩ := h.unpickle (list.endPlace Pickle.zero)
      have hend := BoundedList.toList_insertEnd (l := list) (by omega) item
      have hrec := ih (list.insertEnd item) (by
        rw [hend, List.length_append, List.length_singleton]
        omega) h
      rw [List.length_cons, unpickleItems, if_neg hlt, h1]
      simp only
      rw [hrec.1, hrec.2, hend, List.append_assoc, List.map_cons, List.sum_cons, Nat.add_assoc]
      exact ⟨rfl, rfl⟩

/-- A list is read back into an empty one. -/
theorem Unread.unpickleList {m : Mem} {pos fin : Nat} {list : BoundedList T maxSize}
    {rest : Bytes} (h : Unread m pos fin (pickle list ++ rest)) (hmax : maxSize < 2 ^ 32) :
    OlmPickle.unpickle m pos fin (.empty : BoundedList T maxSize)
        = (list, pos + pickleLength list) ∧
      Unread m (pos + pickleLength list) fin rest := by
  have hright := h.right
  rw [length_pickle_list] at hright
  have hle := list.length_le
  have hall : Unread m pos fin (pickle (UInt32.ofNat list.toList.length)
      ++ (list.toList.flatMap pickle ++ rest)) := by
    rw [← List.append_assoc]
    exact h
  obtain ⟨hsize, hitems⟩ := hall.unpickle (0 : UInt32)
  have hloop := unpickleItems_pickle list.toList (.empty : BoundedList T maxSize)
    (by rw [BoundedList.toList_empty, List.length_nil]; omega) hitems
  refine ⟨?_, hright⟩
  show (let (size, pos) := OlmPickle.unpickle m pos fin (0 : UInt32)
    unpickleItems m fin size.toNat pos (.empty : BoundedList T maxSize)) = _
  rw [hsize]
  simp only
  rw [UInt32.toNat_ofNat', Nat.mod_eq_of_lt (by omega)]
  refine Prod.ext (BoundedList.ext' hloop.1) ?_
  rw [hloop.2, Nat.add_assoc]
  rfl

end Lists

/-! ## The encrypted encoding -/

section Encoding

variable (prim : Primitives)

/-- The encrypted pickle with its MAC. -/
def encryptedPickle (key raw : Bytes) : Bytes :=
  cipherText prim pickleKdfInfo key raw
    ++ cipherMac prim pickleKdfInfo key (cipherText prim pickleKdfInfo key raw)

/-- The text of a pickle. -/
def pickledText (key raw : Bytes) : Bytes := base64.encode (encryptedPickle prim key raw)

theorem length_encryptedPickle (key raw : Bytes) :
    (encryptedPickle prim key raw).length = cryptoAesEncryptCbcLength raw.length + 8 := by
  rw [encryptedPickle, List.length_append, length_cipherText, length_cipherMac]
  rfl

theorem encOutputLength_eq (rawLength : Nat) :
    encOutputLength prim rawLength
      = encodeBase64Length (cryptoAesEncryptCbcLength rawLength + 8) := rfl

theorem length_pickledText (key raw : Bytes) :
    (pickledText prim key raw).length = encOutputLength prim raw.length := by
  rw [pickledText, length_base64_encode, length_encryptedPickle, encOutputLength_eq]

/-- The raw pickle fits in front of its padding and MAC. -/
theorem rawLength_le (rawLength : Nat) :
    rawLength ≤ cryptoAesEncryptCbcLength rawLength := by
  rw [cryptoAesEncryptCbcLength]
  omega

/-- The raw bytes are encrypted where they stand. -/
theorem encrypt_inPlace (m : Mem) (pos : Nat) (key raw : Bytes) :
    aesSha256CipherEncrypt prim pickleKdfInfo key (write m pos raw) pos raw.length pos
        (cryptoAesEncryptCbcLength raw.length) pos (cryptoAesEncryptCbcLength raw.length + 8)
      = (write m pos (encryptedPickle prim key raw),
          some (cryptoAesEncryptCbcLength raw.length + 8)) := by
  have hraw := rawLength_le raw.length
  have hbody : cryptoAesEncryptCbcLength raw.length + 8 - cipherMacLength
      = (cipherText prim pickleKdfInfo key raw).length := by
    rw [length_cipherText]
    rfl
  rw [aesSha256CipherEncrypt_eq prim _ _ _ (Nat.le_refl _) (by show 8 ≤ _; omega)
    (Or.inl (Nat.le_refl _))]
  simp only [read_write_self]
  rw [hbody, read_write_self, ← write_append,
    write_overwrite _ _ (by rw [List.length_append, length_cipherText]; omega)]
  rfl

/-- `_olm_enc_output` behind the raw bytes. -/
theorem encOutput_eq (m : Mem) {key keyLength output : Nat} {raw : Bytes}
    (hdisj : Disjoint key keyLength output (encOutputLength prim raw.length)) :
    encOutput prim (write m (encOutputPos prim output raw.length) raw) key keyLength output
        raw.length
      = (write m output (pickledText prim (read m key keyLength) raw),
          encOutputLength prim raw.length) := by
  have hraw := rawLength_le raw.length
  have hbase := le_encodeBase64Length (cryptoAesEncryptCbcLength raw.length + 8)
  have hpos : encOutputPos prim output raw.length
      = output + encodeBase64Length (cryptoAesEncryptCbcLength raw.length + 8)
        - (cryptoAesEncryptCbcLength raw.length + 8) := rfl
  rw [encOutputLength_eq] at hdisj
  -- the raw pickle does not touch the key
  have hkey : read (write m (encOutputPos prim output raw.length) raw) key keyLength
      = read m key keyLength := by
    rw [hpos]
    refine read_write_disjoint m ?_
    rcases hdisj with h | h
    · right; omega
    · left; omega
  have htail := encodeBase64_tail m output (encryptedPickle prim (read m key keyLength) raw)
  rw [length_encryptedPickle, ← hpos] at htail
  rw [encOutput, hkey]
  simp only [show (pickleCipher prim).encryptCiphertextLength raw.length
      = cryptoAesEncryptCbcLength raw.length from rfl, show (pickleCipher prim).macLength = 8 from rfl,
    show (pickleCipher prim).encrypt = aesSha256CipherEncrypt prim pickleKdfInfo from rfl]
  rw [← hpos, encrypt_inPlace]
  simp only
  rw [htail]
  rfl

/-- **PICKLING** in one buffer: raw bytes, encryption and base64. -/
theorem olmPickle_eq {X : Type} {pickleLength : X → Nat} {pickle : X → Bytes}
    (withError : OlmErrorCode → X → X) {object : X}
    (hlen : (pickle object).length = pickleLength object) (m : Mem)
    {key keyLength pickled pickledLength : Nat}
    (hroom : encOutputLength prim (pickleLength object) ≤ pickledLength)
    (hdisj : Disjoint key keyLength pickled (encOutputLength prim (pickleLength object))) :
    olmPickle prim pickleLength pickle withError object m key keyLength pickled pickledLength
      = (write m pickled (pickledText prim (read m key keyLength) (pickle object)), object,
          some (encOutputLength prim (pickleLength object))) := by
  rw [← hlen] at hdisj
  rw [olmPickle, if_neg (Nat.not_lt.mpr hroom), ← hlen]
  simp only
  rw [encOutput_eq prim m hdisj]

/-- **UNPICKLING** up to the raw bytes. -/
theorem encInput_eq (hinv : prim.AesInverts) {m : Mem} {key keyLength input : Nat} {raw : Bytes}
    (hread : read m input (encOutputLength prim raw.length)
      = pickledText prim (read m key keyLength) raw)
    (hdisj : Disjoint key keyLength input (encOutputLength prim raw.length)) :
    ∃ m', encInput prim m key keyLength input (encOutputLength prim raw.length)
        = (m', .ok raw.length) ∧ read m' input raw.length = raw := by
  have hbase := le_encodeBase64Length (cryptoAesEncryptCbcLength raw.length + 8)
  rw [encOutputLength_eq, ← length_encryptedPickle prim (read m key keyLength)] at hread hdisj ⊢
  rw [← length_encryptedPickle prim (read m key keyLength)] at hbase
  have hdecode := decodeBase64_encode hread (Or.inl (Nat.le_refl input))
  have hkey : read (write m input (encryptedPickle prim (read m key keyLength) raw)) key keyLength
      = read m key keyLength := by
    refine read_write_disjoint m ?_
    rcases hdisj with h | h
    · right; omega
    · left; omega
  have hwhole := read_write_self m input (encryptedPickle prim (read m key keyLength) raw)
  have hct := read_prefix (a := cipherText prim pickleKdfInfo (read m key keyLength) raw) hwhole
  have hrawLength : (encryptedPickle prim (read m key keyLength) raw).length
      - (pickleCipher prim).macLength
      = (cipherText prim pickleKdfInfo (read m key keyLength) raw).length := by
    rw [length_encryptedPickle, length_cipherText]
    rfl
  have hdecrypt := aesSha256CipherDecrypt_eq prim hinv (Nat.le_refl _) hwhole hct
    (Or.inl (Nat.le_refl input))
  refine ⟨write (write m input (encryptedPickle prim (read m key keyLength) raw)) input
    (raw ++ cbcPadding raw.length), ?_, read_prefix (read_write_self _ input _)⟩
  rw [encInput, decodeBase64Length_encode]
  simp only
  rw [hdecode, hkey, hrawLength]
  rw [show (pickleCipher prim).decrypt = aesSha256CipherDecrypt prim pickleKdfInfo from rfl,
    hdecrypt]

end Encoding

/-! ## Objects -/

theorem length_accountPickle (a : Account) : (accountPickle a).length = accountPickleLength a := by
  rw [accountPickle, List.length_append, List.length_append, List.length_append, length_pickle,
    length_pickle, length_pickle_list, length_pickle]
  rfl

/-- An account is read back into one without one-time keys. -/
theorem accountUnpickle_pickle {old : Account} (hold : old.oneTimeKeys = .empty) (a : Account)
    {m : Mem} {pos fin : Nat} (h : Unread m pos fin (accountPickle a)) :
    accountUnpickle m pos fin old
      = ({ a with lastError := old.lastError }, pos + accountPickleLength a) := by
  obtain ⟨h1, h⟩ := h.unpickle (0 : UInt32)
  obtain ⟨h2, h⟩ := h.unpickle old.identityKeys
  obtain ⟨h3, h⟩ := h.unpickleList (by decide)
  have h4 := unpickle_pickle old.nextOneTimeKeyId a.nextOneTimeKeyId h
  rw [accountUnpickle, h1]
  simp only
  rw [if_pos trivial, h2]
  simp only
  rw [hold, h3]
  simp only
  rw [h4, accountPickleLength]
  simp only [Nat.add_assoc]

theorem length_ratchetPickle (r : Ratchet SharedKey) :
    (ratchetPickle r).length = ratchetPickleLength r := by
  rw [ratchetPickle, List.length_append, List.length_append, List.length_append, length_pickle,
    length_pickle_list, length_pickle_list, length_pickle_list]
  rfl

/-- A ratchet is read back into one with empty lists. -/
theorem ratchetUnpickle_pickle {old : Ratchet SharedKey}
    (hold : old.senderChain = .empty ∧ old.receiverChains = .empty ∧
      old.skippedMessageKeys = .empty) (r : Ratchet SharedKey) {m : Mem} {pos fin : Nat}
    (h : Unread m pos fin (ratchetPickle r)) :
    ratchetUnpickle m pos fin old false
      = ({ r with lastError := old.lastError }, pos + ratchetPickleLength r) := by
  obtain ⟨hsender, hreceiver, hskipped⟩ := hold
  rw [ratchetPickle, ← List.append_nil (pickle r.skippedMessageKeys)] at h
  obtain ⟨h1, h⟩ := h.unpickle old.rootKey
  obtain ⟨h2, h⟩ := h.unpickleList (by decide)
  obtain ⟨h3, h⟩ := h.unpickleList (by decide)
  obtain ⟨h4, -⟩ := h.unpickleList (by decide)
  rw [ratchetUnpickle, h1]
  simp only
  rw [hsender, h2]
  simp only
  rw [hreceiver, h3]
  simp only
  rw [hskipped, h4, ratchetPickleLength]
  simp only [Nat.add_assoc]
  rfl

theorem length_sessionPickle (s : Session) : (sessionPickle s).length = sessionPickleLength s := by
  rw [sessionPickle, List.length_append, List.length_append, List.length_append, List.length_append,
    List.length_append, length_pickle, length_pickle, length_pickle, length_pickle, length_pickle,
    length_ratchetPickle]
  rfl

/-- A session is read back into one with an empty ratchet. -/
theorem sessionUnpickle_pickle {old : Session}
    (hold : old.ratchet.senderChain = .empty ∧ old.ratchet.receiverChains = .empty ∧
      old.ratchet.skippedMessageKeys = .empty) (s : Session) {m : Mem} {pos fin : Nat}
    (h : Unread m pos fin (sessionPickle s)) :
    sessionUnpickle m pos fin old
      = ({ s with
            lastError := old.lastError
            ratchet := { s.ratchet with lastError := old.ratchet.lastError } },
          pos + sessionPickleLength s) := by
  obtain ⟨h1, h⟩ := h.unpickle (0 : UInt32)
  obtain ⟨h2, h⟩ := h.unpickle old.receivedMessage
  obtain ⟨h3, h⟩ := h.unpickle old.aliceIdentityKey
  obtain ⟨h4, h⟩ := h.unpickle old.aliceBaseKey
  obtain ⟨h5, h⟩ := h.unpickle old.bobOneTimeKey
  have h6 := ratchetUnpickle_pickle hold s.ratchet h
  rw [sessionUnpickle, h1]
  simp only
  rw [if_pos (by rfl), sessionUnpickleFields, h2]
  simp only
  rw [h3]
  simp only
  rw [h4]
  simp only
  rw [h5]
  simp only
  rw [h6, sessionPickleLength]
  simp only [Nat.add_assoc]

theorem length_pkDecryptionPickle (d : PkDecryption) :
    (pkDecryptionPickle d).length = pkDecryptionPickleLength d := by
  rw [pkDecryptionPickle, List.length_append, length_pickle, length_pickle]
  rfl

theorem pkDecryptionUnpickle_pickle (old d : PkDecryption) {m : Mem} {pos fin : Nat}
    (h : Unread m pos fin (pkDecryptionPickle d)) :
    pkDecryptionUnpickle m pos fin old
      = ({ d with lastError := old.lastError }, pos + pkDecryptionPickleLength d) := by
  obtain ⟨h1, h⟩ := h.unpickle (0 : UInt32)
  have h2 := unpickle_pickle old.keyPair d.keyPair h
  rw [pkDecryptionUnpickle, h1]
  simp only
  rw [if_pos (by rfl), h2, pkDecryptionPickleLength, Nat.add_assoc]

theorem length_outboundPickle (s : OutboundGroupSession) :
    (outboundPickle s).length = outboundPickleLength s := by
  rw [outboundPickle, List.length_append, List.length_append, length_pickle, length_pickle,
    length_pickle]
  rfl

theorem length_inboundPickle (s : InboundGroupSession) :
    (inboundPickle s).length = inboundPickleLength s := by
  rw [inboundPickle, List.length_append, List.length_append, List.length_append,
    List.length_append, length_pickle, length_pickle, length_pickle, length_pickle, length_pickle]
  rfl

/-! ## The C interface -/

section Interface

variable (prim : Primitives)

/-- What it means that an object survives pickling: `olm_pickle_X` writes and
    returns as many bytes as `olm_pickle_X_length` says, and `olm_unpickle_X`
    with the same key makes `cleared object` of a fresh object, in any memory
    that holds the pickle. -/
def RoundTrips {X : Type} (olmPickleLength : X → Nat)
    (olmPickle olmUnpickle : X → Mem → Nat → Nat → Nat → Nat → Mem × X × Option Nat) (fresh : X)
    (cleared : X → X) : Prop :=
  ∀ (object : X) (m : Mem) (key keyLength pickled pickledLength : Nat),
    olmPickleLength object ≤ pickledLength →
    Disjoint key keyLength pickled (olmPickleLength object) →
    ∃ text : Bytes, text.length = olmPickleLength object ∧
      olmPickle object m key keyLength pickled pickledLength
        = (write m pickled text, object, some (olmPickleLength object)) ∧
      ∀ (m₂ : Mem) (key₂ keyLength₂ pickled₂ : Nat),
        read m₂ key₂ keyLength₂ = read m key keyLength →
        read m₂ pickled₂ (olmPickleLength object) = text →
        Disjoint key₂ keyLength₂ pickled₂ (olmPickleLength object) →
        ∃ m₃, olmUnpickle fresh m₂ key₂ keyLength₂ pickled₂ (olmPickleLength object)
          = (m₃, cleared object, some (olmPickleLength object))

/-- An object round trips when its raw bytes are read back behind the decoding
    and decryption. -/
theorem roundTrips_of_raw (hinv : prim.AesInverts) {X : Type} {pickleLength : X → Nat}
    {pickle : X → Bytes} (withError : OlmErrorCode → X → X)
    (hlength : ∀ object, (pickle object).length = pickleLength object)
    {olmUnpickle : X → Mem → Nat → Nat → Nat → Nat → Mem × X × Option Nat} {fresh : X}
    {cleared : X → X}
    (hraw : ∀ (object : X) (m m' : Mem) (key keyLength pickled pickledLength : Nat),
      encInput prim m key keyLength pickled pickledLength = (m', .ok (pickleLength object)) →
      read m' pickled (pickle object).length = pickle object →
      ∃ m'', olmUnpickle fresh m key keyLength pickled pickledLength
        = (m'', cleared object, some pickledLength)) :
    RoundTrips (fun object => encOutputLength prim (pickleLength object))
      (olmPickle prim pickleLength pickle withError) olmUnpickle fresh cleared := by
  intro object m key keyLength pickled pickledLength hroom hdisj
  refine ⟨pickledText prim (read m key keyLength) (pickle object), ?_,
    olmPickle_eq prim withError (hlength object) m hroom hdisj, ?_⟩
  · rw [length_pickledText, hlength]
  · intro m₂ key₂ keyLength₂ pickled₂ hkey htext hdisj₂
    simp only at htext hdisj₂ ⊢
    rw [← hlength] at htext hdisj₂ ⊢
    rw [← hkey] at htext
    obtain ⟨m₃, hinput, hread⟩ := encInput_eq prim hinv htext hdisj₂
    exact hraw object m₂ m₃ key₂ keyLength₂ pickled₂ _ (by rw [hinput, hlength]) hread

/-- The same for the objects that `olmUnpickle` reads. -/
theorem roundTrips_of_unpickle (hinv : prim.AesInverts) {X : Type} {pickleLength : X → Nat}
    {pickle : X → Bytes} {unpickle : Mem → Nat → Nat → X → X × Nat} (lastError : X → OlmErrorCode)
    (withError : OlmErrorCode → X → X)
    (hlength : ∀ object, (pickle object).length = pickleLength object) {fresh : X} {cleared : X → X}
    (hunpickle : ∀ (object : X) {m : Mem} {pos fin : Nat}, Unread m pos fin (pickle object) →
      unpickle m pos fin fresh = (cleared object, pos + pickleLength object)) :
    RoundTrips (fun object => encOutputLength prim (pickleLength object))
      (olmPickle prim pickleLength pickle withError)
      (olmUnpickle prim unpickle lastError withError) fresh cleared := by
  refine roundTrips_of_raw prim hinv withError hlength ?_
  intro object m m' key keyLength pickled pickledLength hinput hread
  have hunread : Unread m' pickled (pickled + pickleLength object + 1) (pickle object) :=
    ⟨hread, by rw [hlength]; omega⟩
  refine ⟨m', ?_⟩
  rw [olmUnpickle, hinput]
  simp only
  rw [hunpickle object hunread]
  simp only
  rw [if_neg (by exact not_not_intro rfl)]

theorem account_roundTrips (hinv : prim.AesInverts) :
    RoundTrips (olmPickleAccountLength prim) (olmPickleAccount prim) (olmUnpickleAccount prim)
      newAccountObject (fun a => { a with lastError := .success }) :=
  roundTrips_of_unpickle prim hinv _ _ length_accountPickle
    (fun a _ _ _ h => accountUnpickle_pickle rfl a h)

theorem session_roundTrips (hinv : prim.AesInverts) :
    RoundTrips (olmPickleSessionLength prim) (olmPickleSession prim) (olmUnpickleSession prim)
      newSession (fun s => { s with
        lastError := .success, ratchet := { s.ratchet with lastError := .success } }) :=
  roundTrips_of_unpickle prim hinv _ _ length_sessionPickle
    (fun s _ _ _ h => sessionUnpickle_pickle ⟨rfl, rfl, rfl⟩ s h)

theorem pkDecryption_roundTrips (hinv : prim.AesInverts) {pubkey : Option Nat} {pubkeyLength : Nat}
    (hpubkey : pubkey ≠ none → olmPkKeyLength ≤ pubkeyLength) :
    RoundTrips (olmPicklePkDecryptionLength prim) (olmPicklePkDecryption prim)
      (olmUnpicklePkDecryption prim pubkey pubkeyLength) newPkDecryption
      (fun d => { d with lastError := .success }) := by
  refine roundTrips_of_raw prim hinv _ length_pkDecryptionPickle ?_
  intro d m m' key keyLength pickled pickledLength hinput hread
  have hunread : Unread m' pickled (pickled + pkDecryptionPickleLength d + 1)
      (pkDecryptionPickle d) := ⟨hread, by rw [length_pkDecryptionPickle]; omega⟩
  have hnone : ¬(pubkey.isSome ∧ pubkeyLength < olmPkKeyLength) := by
    intro h
    have := hpubkey (by
      intro hn
      rw [hn] at h
      exact absurd h.1 (by simp))
    omega
  rw [olmUnpicklePkDecryption, if_neg hnone, olmUnpickle, hinput]
  simp only
  rw [pkDecryptionUnpickle_pickle newPkDecryption d hunread]
  simp only
  rw [if_neg (by exact not_not_intro rfl)]
  exact ⟨_, rfl⟩

/-- The raw pickle of an outbound session is loaded into a new one. -/
theorem olmUnpickleOutbound_pickle (s : OutboundGroupSession) {m m' : Mem}
    {key keyLength pickled pickledLength : Nat}
    (hinput : encInput prim m key keyLength pickled pickledLength
      = (m', .ok (outboundPickleLength s)))
    (hread : read m' pickled (outboundPickle s).length = outboundPickle s) :
    olmUnpickleOutboundGroupSession prim newOutboundGroupSession m key keyLength pickled
      pickledLength = (m', { s with lastError := .success }, some pickledLength) := by
  have h : Unread m' pickled (pickled + outboundPickleLength s) (outboundPickle s) :=
    ⟨hread, by rw [length_outboundPickle]⟩
  obtain ⟨h1, h⟩ := h.unpickle (0 : UInt32)
  obtain ⟨h2, h⟩ := h.unpickle newOutboundGroupSession.ratchet
  have h3 := unpickle_pickle newOutboundGroupSession.signingKey s.signingKey h
  rw [olmUnpickleOutboundGroupSession, hinput]
  simp only
  rw [h1]
  simp only
  rw [if_neg (by exact not_not_intro rfl), h2]
  simp only
  rw [h3]
  simp only
  rw [if_neg (by rw [outboundPickleLength]; simp only [Nat.add_assoc]; exact not_not_intro rfl)]
  rfl

theorem outboundGroupSession_roundTrips (hinv : prim.AesInverts) :
    RoundTrips (olmPickleOutboundGroupSessionLength prim) (olmPickleOutboundGroupSession prim)
      (olmUnpickleOutboundGroupSession prim) newOutboundGroupSession
      (fun s => { s with lastError := .success }) := by
  refine roundTrips_of_raw prim hinv _ length_outboundPickle ?_
  intro s m m' key keyLength pickled pickledLength hinput hread
  exact ⟨m', olmUnpickleOutbound_pickle prim s hinput hread⟩

/-- The raw pickle of an inbound session is loaded into a new one. -/
theorem olmUnpickleInbound_pickle (s : InboundGroupSession) {m m' : Mem}
    {key keyLength pickled pickledLength : Nat}
    (hinput : encInput prim m key keyLength pickled pickledLength
      = (m', .ok (inboundPickleLength s)))
    (hread : read m' pickled (inboundPickle s).length = inboundPickle s) :
    olmUnpickleInboundGroupSession prim newInboundGroupSession m key keyLength pickled
      pickledLength = (m', { s with lastError := .success }, some pickledLength) := by
  have h : Unread m' pickled (pickled + inboundPickleLength s) (inboundPickle s) :=
    ⟨hread, by rw [length_inboundPickle]⟩
  obtain ⟨h1, h⟩ := h.unpickle (0 : UInt32)
  obtain ⟨h2, h⟩ := h.unpickle newInboundGroupSession.initialRatchet
  obtain ⟨h3, h⟩ := h.unpickle newInboundGroupSession.latestRatchet
  obtain ⟨h4, h⟩ := h.unpickle newInboundGroupSession.signingKey
  have h5 := unpickle_pickle newInboundGroupSession.signingKeyVerified s.signingKeyVerified h
  rw [olmUnpickleInboundGroupSession, hinput]
  simp only
  rw [h1]
  simp only
  rw [if_neg (by decide), h2]
  simp only
  rw [h3]
  simp only
  rw [h4]
  simp only
  rw [if_neg (show ¬inboundPickleVersion = 1 by decide), h5]
  simp only
  rw [if_neg (by rw [inboundPickleLength]; simp only [Nat.add_assoc]; exact not_not_intro rfl)]
  rfl

theorem inboundGroupSession_roundTrips (hinv : prim.AesInverts) :
    RoundTrips (olmPickleInboundGroupSessionLength prim) (olmPickleInboundGroupSession prim)
      (olmUnpickleInboundGroupSession prim) newInboundGroupSession
      (fun s => { s with lastError := .success }) := by
  refine roundTrips_of_raw prim hinv _ length_inboundPickle ?_
  intro s m m' key keyLength pickled pickledLength hinput hread
  exact ⟨m', olmUnpickleInbound_pickle prim s hinput hread⟩

/-- **PICKLE ROUND TRIP** for the five kinds of objects: all fields but the last
    errors come back, and the lengths are those that were announced. -/
theorem pickles_roundTrip (hinv : prim.AesInverts) :
    RoundTrips (olmPickleAccountLength prim) (olmPickleAccount prim) (olmUnpickleAccount prim)
      newAccountObject (fun a => { a with lastError := .success }) ∧
    RoundTrips (olmPickleSessionLength prim) (olmPickleSession prim) (olmUnpickleSession prim)
      newSession (fun s => { s with
        lastError := .success, ratchet := { s.ratchet with lastError := .success } }) ∧
    (∀ (pubkey : Option Nat) (pubkeyLength : Nat),
      (pubkey ≠ none → olmPkKeyLength ≤ pubkeyLength) →
      RoundTrips (olmPicklePkDecryptionLength prim) (olmPicklePkDecryption prim)
        (olmUnpicklePkDecryption prim pubkey pubkeyLength) newPkDecryption
        (fun d => { d with lastError := .success })) ∧
    RoundTrips (olmPickleOutboundGroupSessionLength prim) (olmPickleOutboundGroupSession prim)
      (olmUnpickleOutboundGroupSession prim) newOutboundGroupSession
      (fun s => { s with lastError := .success }) ∧
    RoundTrips (olmPickleInboundGroupSessionLength prim) (olmPickleInboundGroupSession prim)
      (olmUnpickleInboundGroupSession prim) newInboundGroupSession
      (fun s => { s with lastError := .success }) :=
  ⟨account_roundTrips prim hinv, session_roundTrips prim hinv,
    fun _ _ hpubkey => pkDecryption_roundTrips prim hinv hpubkey,
    outboundGroupSession_roundTrips prim hinv, inboundGroupSession_roundTrips prim hinv⟩

/-- Sessions round trip with the concrete primitives. -/
theorem pickles_roundTrip_demo :
    RoundTrips (olmPickleSessionLength demoPrimitives) (olmPickleSession demoPrimitives)
      (olmUnpickleSession demoPrimitives) newSession (fun s => { s with
        lastError := .success, ratchet := { s.ratchet with lastError := .success } }) :=
  (pickles_roundTrip demoPrimitives demoPrimitives_aesInverts).2.1

end Interface

end OlmPickle
