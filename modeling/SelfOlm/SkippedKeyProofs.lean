import SelfOlm.RatchetMessageProofs

/-! # Which skipped keys can be used

    `decrypt` looks at the skipped keys only where it has found the chain of the
    message, past its counter.  The receiver chains are cut off at five and the
    skipped keys at forty, independently: a key stays in its list when its chain
    has left the other, and is of no use from then on.  As long as the chain is
    there, past the counter, the first skipped key that opens a message takes it. -/

namespace OlmCrypto

open ByteMemory

variable (prim : Primitives)

/-! ## What an attempt depends on -/

/-- A ciphertext without blocks is decrypted without a store. -/
theorem aesSha256CipherDecrypt_empty (kdfInfo key : Bytes) (m : Mem)
    (input inputLength ciphertext plaintext maxPlaintextLength : Nat) :
    (aesSha256CipherDecrypt prim kdfInfo key m input inputLength ciphertext 0 plaintext
      maxPlaintextLength).1 = m := by
  rw [aesSha256CipherDecrypt]
  by_cases h1 : maxPlaintextLength < 0 ∨ inputLength < cipherMacLength
  · rw [if_pos h1]
  · rw [if_neg h1]
    simp only
    split
    · rfl
    · rfl

/-- The outcome of the decryption of whole blocks is in the ciphertext alone. -/
theorem cryptoAesDecryptCbc_congr (key : Vector UInt8 32) (iv : Block) {m m₁ : Mem}
    {input inputLength output : Nat} (hs : Streamable input inputLength output)
    (hblocks : inputLength % 16 = 0) (hsome : inputLength ≠ 0)
    (hread : read m₁ input inputLength = read m input inputLength) :
    (cryptoAesDecryptCbc prim key iv m₁ input inputLength output).2
      = (cryptoAesDecryptCbc prim key iv m input inputLength output).2 := by
  obtain ⟨k, rfl⟩ : ∃ k, inputLength = 16 * k := Nat.dvd_of_mod_eq_zero hblocks
  have hlast : ∀ m, (cbcDecryptLoop prim key ((16 * k + 15) / 16) m iv input output)
      (output + 16 * k - 1)
      = (cbcDecryptBlocks (prim.aesDecrypt key) k iv (read m input (16 * k))).getD
          (16 * k - 1) 0 := by
    intro m
    have hlength := length_cbcDecryptBlocks (prim.aesDecrypt key) k iv (read m input (16 * k))
    rw [show (16 * k + 15) / 16 = k by omega, cbcDecryptLoop_eq prim key k m iv _ _ hs,
      show output + 16 * k - 1 = output + (16 * k - 1) by omega,
      write_inside _ _ _ (by omega), List.getD_eq_getElem _ _ (by omega)]
  rw [cryptoAesDecryptCbc, cryptoAesDecryptCbc]
  simp only
  rw [hlast, hlast, hread]

/-- An attempt does not depend on what is in the plaintext buffer. -/
theorem aesSha256CipherDecrypt_congr (kdfInfo key : Bytes) {m m₁ : Mem}
    {input inputLength ciphertext ciphertextLength plaintext maxPlaintextLength : Nat}
    (hseparate : Disjoint plaintext (maxPlaintextLength + 15) input inputLength)
    (hinside : input ≤ ciphertext ∧ ciphertext + ciphertextLength ≤ input + inputLength)
    (hblocks : ciphertextLength % 16 = 0) (hsome : ciphertextLength ≠ 0)
    (hsame : SameOutside plaintext (maxPlaintextLength + 15) m m₁) :
    (aesSha256CipherDecrypt prim kdfInfo key m₁ input inputLength ciphertext ciphertextLength
        plaintext maxPlaintextLength).2
      = (aesSha256CipherDecrypt prim kdfInfo key m input inputLength ciphertext ciphertextLength
          plaintext maxPlaintextLength).2 := by
  have hread : read m₁ input inputLength = read m input inputLength := hsame.read_eq hseparate
  have hs : Streamable ciphertext ciphertextLength plaintext := by
    rcases hseparate with hd | hd
    · left; omega
    · right; omega
  rw [aesSha256CipherDecrypt, aesSha256CipherDecrypt]
  by_cases h1 : maxPlaintextLength < ciphertextLength ∨ inputLength < cipherMacLength
  · rw [if_pos h1, if_pos h1]
  · rw [if_neg h1, if_neg h1]
    have hlong : cipherMacLength ≤ inputLength := by omega
    have hmac := read_sub hread (Nat.sub_add_cancel hlong).le
    have hbody := read_sub hread (show 0 + (inputLength - cipherMacLength) ≤ inputLength by omega)
    have hct := read_sub hread
      (show ciphertext - input + ciphertextLength ≤ inputLength by omega)
    rw [← Nat.add_sub_assoc hlong] at hmac
    rw [Nat.add_zero] at hbody
    rw [show input + (ciphertext - input) = ciphertext by omega] at hct
    simp only [hmac, hbody]
    split
    · rfl
    · exact cryptoAesDecryptCbc_congr prim _ _ hs hblocks hsome hct

end OlmCrypto

namespace OlmRatchet

open ByteMemory OlmCrypto OlmMessage OlmList

/-! ## The loop over the skipped keys -/

section Attempts

variable {K I : Type} (S : Suite K I)

theorem FailedAttempts.append {S : Suite K I} {reader : MessageReader}
    {plaintext maxPlaintextLength : Nat} {m m₁ m₂ : Mem}
    (h : FailedAttempts S reader plaintext maxPlaintextLength m m₁) (key : MessageKey K)
    (hfailed : verifyMacAndDecrypt S key reader m₁ plaintext maxPlaintextLength = (m₂, none)) :
    FailedAttempts S reader plaintext maxPlaintextLength m m₂ := by
  induction h with
  | refl m => exact FailedAttempts.attempt key hfailed (FailedAttempts.refl m₂)
  | attempt other hother _ ih => exact FailedAttempts.attempt other hother (ih hfailed)

/-- Attempts that fail do not change what another attempt returns. -/
def Retries (reader : MessageReader) (m : Mem) (plaintext maxPlaintextLength : Nat) : Prop :=
  ∀ m₁, FailedAttempts S reader plaintext maxPlaintextLength m m₁ → ∀ key,
    (verifyMacAndDecrypt S key reader m₁ plaintext maxPlaintextLength).2
      = (verifyMacAndDecrypt S key reader m plaintext maxPlaintextLength).2

/-- The skipped key is for this message, and opens it. -/
def fits (reader : MessageReader) (m : Mem) (plaintext maxPlaintextLength : Nat)
    (skipped : SkippedMessageKey K) : Bool :=
  decide (reader.counter = skipped.messageKey.index
      ∧ skipped.ratchetKey = readerRatchetKey m reader)
    && (verifyMacAndDecrypt S skipped.messageKey reader m plaintext maxPlaintextLength).2.isSome

/-- The loop finds the first key that fits. -/
theorem trySkippedKeys_place {reader : MessageReader} {m : Mem}
    {plaintext maxPlaintextLength : Nat} (hframed : S.ratchetCipher.Framed)
    (hdisjoint : Disjoint plaintext (maxPlaintextLength + 15) (reader.ratchetKey.getD 0) 32)
    (hretries : Retries S reader m plaintext maxPlaintextLength) :
    ∀ (keys : List (SkippedMessageKey K)) (pos : Nat) (m₁ : Mem),
      FailedAttempts S reader plaintext maxPlaintextLength m m₁ →
      (trySkippedKeys S reader plaintext maxPlaintextLength pos keys m₁).2.map Prod.fst
        = (keys.findIdx? (fits S reader m plaintext maxPlaintextLength)).map (· + pos) := by
  intro keys
  induction keys with
  | nil => intro pos m₁ _; rfl
  | cons skipped keys ih =>
      intro pos m₁ hattempts
      have hkey : readerRatchetKey m₁ reader = readerRatchetKey m reader :=
        load_congr ((hattempts.frame hframed).read_eq hdisjoint)
      have hresult := hretries m₁ hattempts skipped.messageKey
      have hlater : ∀ x : Option Nat, (x.map (· + 1)).map (· + pos) = x.map (· + (pos + 1)) := by
        intro x
        rw [Option.map_map]
        congr 1
        funext i
        simp only [Function.comp]
        omega
      rw [trySkippedKeys, List.findIdx?_cons, hkey]
      by_cases hfor : reader.counter = skipped.messageKey.index
          ∧ skipped.ratchetKey = readerRatchetKey m reader
      · rw [if_pos hfor]
        rcases hv : verifyMacAndDecrypt S skipped.messageKey reader m₁ plaintext
          maxPlaintextLength with ⟨m₂, _ | result⟩
        · have hno : fits S reader m plaintext maxPlaintextLength skipped = false := by
            rw [fits, ← hresult, hv, decide_eq_true hfor]
            rfl
          rw [hno, if_neg Bool.false_ne_true, hlater]
          exact ih (pos + 1) m₂ (hattempts.append skipped.messageKey hv)
        · have hyes : fits S reader m plaintext maxPlaintextLength skipped = true := by
            rw [fits, ← hresult, hv, decide_eq_true hfor]
            rfl
          rw [hyes, if_pos rfl]
          exact congrArg some (Nat.zero_add pos).symm
      · have hno : fits S reader m plaintext maxPlaintextLength skipped = false := by
          rw [fits, decide_eq_false hfor]
          rfl
        rw [if_neg hfor, hno, if_neg Bool.false_ne_true, hlater]
        exact ih (pos + 1) m₁ hattempts

/-! ## One call -/

/-- The call decrypts a message and only takes out the skipped key in this place. -/
def TakesOut (r : Ratchet K) (call : Mem × Ratchet K × Option Nat) (place : Nat) : Prop :=
  call.2.2 ≠ none ∧ call.2.1 = { r with skippedMessageKeys := r.skippedMessageKeys.erase place }

/-- The chain of a skipped key is there, past the key. -/
def HasChainPast (r : Ratchet K) (ratchetKey : Curve25519PublicKey) (index : UInt32) : Prop :=
  ∃ chain ∈ r.receiverChains.toList, chain.ratchetKey = ratchetKey ∧ index < chain.chainKey.index

/-- Only where its chain is there, past the counter, does a message take a skipped key. -/
theorem Accepted.hasChainPast {r r' : Ratchet K} {m m' : Mem} {reader : MessageReader}
    {plaintext maxPlaintextLength n place : Nat} {key : MessageKey K}
    (h : Accepted S r m reader plaintext maxPlaintextLength m' n key r')
    (htaken : r' = { r with skippedMessageKeys := r.skippedMessageKeys.erase place }) :
    HasChainPast r (readerRatchetKey m reader) reader.counter := by
  cases h with
  | newChain hfind hsender =>
      -- the sender chain is dropped
      have hsame := congrArg (fun r : Ratchet K => r.senderChain.toList) htaken
      rw [hsender] at hsame
      cases hsame
  | @nextKey pos chain hfind hchain hcounter hgap hverify =>
      -- the chain is moved
      have hsame := congrArg (fun r : Ratchet K => r.receiverChains.toList[pos]?) htaken
      obtain ⟨hpos, -⟩ := List.getElem?_eq_some_iff.mp hchain
      simp only [BoundedList.toList_set] at hsame
      rw [List.getElem?_set_self hpos, hchain, Option.some.injEq] at hsame
      have hindex := congrArg (fun c : ReceiverChain K => c.chainKey.index.toNat) hsame
      have hadd := index_add_gap hcounter
      have hlt := reader.counter.toNat_lt
      rw [maxMessageGap] at hgap
      rw [chainPast_eq S hcounter] at hindex
      have hnext : (reader.counter + 1).toNat = chain.chainKey.index.toNat := hindex
      rw [UInt32.toNat_add, show (1 : UInt32).toNat = 1 from rfl] at hnext
      omega
  | skippedKey hfind hchain hcounter hskipped hindex hattempts hverify =>
      obtain ⟨chain, hchain', hkey⟩ := findChain_some hfind
      obtain rfl := Option.some.inj (hchain'.symm.trans hchain)
      exact ⟨chain, List.mem_of_getElem? hchain', hkey, hcounter⟩

/-- Where it is, the first key that fits is taken. -/
theorem decrypt_takesOut (hframed : S.ratchetCipher.Framed) {r : Ratchet K}
    {started : List Curve25519PublicKey} (hinv : ListsInv r started) {stack : MessageReader}
    {m : Mem} {input inputLength plaintext maxPlaintextLength place : Nat}
    (hseparate : Separate plaintext maxPlaintextLength input inputLength)
    (hheader : Header S (decodeMessage stack m input inputLength S.ratchetCipher.macLength)
      maxPlaintextLength)
    (hretries : Retries S (decodeMessage stack m input inputLength S.ratchetCipher.macLength) m
      plaintext maxPlaintextLength)
    (hplace : r.skippedMessageKeys.toList.findIdx?
      (fits S (decodeMessage stack m input inputLength S.ratchetCipher.macLength) m plaintext
        maxPlaintextLength) = some place)
    (hchain : HasChainPast r
      (readerRatchetKey m (decodeMessage stack m input inputLength S.ratchetCipher.macLength))
      (decodeMessage stack m input inputLength S.ratchetCipher.macLength).counter) :
    TakesOut r (decrypt S r stack m input inputLength plaintext maxPlaintextLength) place := by
  have hdisjoint := hheader.ratchetKey_disjoint S hseparate
  rw [decrypt_eq S hheader]
  generalize decodeMessage stack m input inputLength S.ratchetCipher.macLength = reader at *
  obtain ⟨chain, hmem, hkey, hindex⟩ := hchain
  obtain ⟨i, hi⟩ := List.mem_iff_getElem?.mp hmem
  -- the search finds this chain and no other
  obtain ⟨pos, hfind⟩ : ∃ pos, findChain r m reader = some pos := by
    refine Option.ne_none_iff_exists'.mp ?_
    intro hnone
    exact findChain_none hnone (List.mem_map.mpr ⟨chain, hmem, hkey⟩)
  obtain ⟨chain', hchain', hkey'⟩ := findChain_some hfind
  obtain rfl := hinv.oneMatch _ i pos chain chain' hi hchain' hkey hkey'
  obtain rfl := Option.some.inj (hi.symm.trans hchain')
  have htry := trySkippedKeys_place S hframed hdisjoint hretries r.skippedMessageKeys.toList 0 m
    (FailedAttempts.refl m)
  rw [hplace] at htry
  rw [decryptChecked_skipped S hfind hchain' hindex]
  rcases hv : trySkippedKeys S reader plaintext maxPlaintextLength 0 r.skippedMessageKeys.toList m
    with ⟨m₁, _ | ⟨found, result⟩⟩
  · rw [hv] at htry
    cases htry
  · rw [hv] at htry
    obtain rfl : found = place := Option.some.inj htry
    exact ⟨Option.some_ne_none _, rfl⟩

end Attempts

/-! ## Runs -/

section Runs

variable {K I : Type} (S : Suite K I)

/-- The runs in which no receiver chain is started a second time and no index goes back to
    zero. -/
inductive FreshRun (zero : K) : Ratchet K → List Curve25519PublicKey → Prop
  | alice (sharedSecret : I) (ourRatchetKey : Curve25519KeyPair) :
      FreshRun zero (initialiseAsAlice S (newRatchet zero) sharedSecret ourRatchetKey) []
  | bob (sharedSecret : I) (theirRatchetKey : Curve25519PublicKey) :
      FreshRun zero (initialiseAsBob S (newRatchet zero) sharedSecret theirRatchetKey)
        [theirRatchetKey]
  | encrypt {r : Ratchet K} {started : List Curve25519PublicKey} (m : Mem)
      (plaintext plaintextLength random randomLength output maxOutputLength : Nat)
      (run : FreshRun zero r started) :
      FreshRun zero (encrypt S r m plaintext plaintextLength random randomLength output
        maxOutputLength).2.1 started
  | decrypt {r : Ratchet K} {started : List Curve25519PublicKey} (stack : MessageReader) (m : Mem)
      (input inputLength plaintext maxPlaintextLength : Nat)
      (hseparate : Separate plaintext maxPlaintextLength input inputLength)
      (hnew : ∀ key ∈ startedChain r m
          (decodeMessage stack m input inputLength S.ratchetCipher.macLength)
          (decrypt S r stack m input inputLength plaintext maxPlaintextLength).2.2,
        key ∉ started)
      (hlast : (decrypt S r stack m input inputLength plaintext maxPlaintextLength).2.2.isSome →
        (decodeMessage stack m input inputLength S.ratchetCipher.macLength).counter ≠ 0xFFFFFFFF)
      (run : FreshRun zero r started) :
      FreshRun zero (decrypt S r stack m input inputLength plaintext maxPlaintextLength).2.1
        (startedChain r m (decodeMessage stack m input inputLength S.ratchetCipher.macLength)
          (decrypt S r stack m input inputLength plaintext maxPlaintextLength).2.2 ++ started)

theorem FreshRun.run {zero : K} {r : Ratchet K} {started : List Curve25519PublicKey}
    (h : FreshRun S zero r started) : Run S zero r started := by
  induction h with
  | alice sharedSecret ourRatchetKey => exact Run.alice sharedSecret ourRatchetKey
  | bob sharedSecret theirRatchetKey => exact Run.bob sharedSecret theirRatchetKey
  | encrypt m plaintext plaintextLength random randomLength output maxOutputLength _ ih =>
      exact Run.encrypt m _ _ _ _ _ _ ih
  | decrypt stack m input inputLength plaintext maxPlaintextLength hseparate _ _ _ ih =>
      exact Run.decrypt stack m _ _ _ _ hseparate ih

/-- What a message says about its skipped key. -/
def skippedName (skipped : SkippedMessageKey K) : Curve25519PublicKey × UInt32 :=
  (skipped.ratchetKey, skipped.messageKey.index)

/-- Ratchet key and counter of a message. -/
abbrev KeyName := Curve25519PublicKey × UInt32

/-- The names of the keys that are passed over between two indices, the last one first. -/
def passedNames (key : Curve25519PublicKey) (index counter : UInt32) : List KeyName :=
  (List.range' index.toNat (counter.toNat - index.toNat)).reverse.map
    (fun i => (key, UInt32.ofNat i))

theorem mem_passedNames {key : Curve25519PublicKey} {index counter : UInt32} {name : KeyName} :
    name ∈ passedNames key index counter
      ↔ name.1 = key ∧ index ≤ name.2 ∧ name.2 < counter := by
  have hcounter := counter.toNat_lt
  have hname := name.2.toNat_lt
  constructor
  · intro h
    obtain ⟨i, hi, rfl⟩ := List.mem_map.mp h
    rw [List.mem_reverse, List.mem_range'_1] at hi
    have hi' : (UInt32.ofNat i).toNat = i := UInt32.toNat_ofNat_of_lt' (show i < 2 ^ 32 by omega)
    refine ⟨rfl, UInt32.le_iff_toNat_le.mpr ?_, UInt32.lt_iff_toNat_lt.mpr ?_⟩
    · show _ ≤ (UInt32.ofNat i).toNat
      omega
    · show (UInt32.ofNat i).toNat < _
      omega
  · rintro ⟨rfl, hle, hlt⟩
    refine List.mem_map.mpr ⟨name.2.toNat, ?_, ?_⟩
    · have hle := UInt32.le_iff_toNat_le.mp hle
      have hlt := UInt32.lt_iff_toNat_lt.mp hlt
      rw [List.mem_reverse, List.mem_range'_1]
      omega
    · rw [UInt32.ofNat_toNat]

theorem nodup_passedNames (key : Curve25519PublicKey) (index counter : UInt32) :
    (passedNames key index counter).Nodup := by
  have hcounter := counter.toNat_lt
  refine List.Nodup.map_on ?_ (List.nodup_reverse.mpr List.nodup_range')
  intro i hi j hj hsame
  rw [List.mem_reverse, List.mem_range'_1] at hi hj
  have hindex := congrArg UInt32.toNat (Prod.mk.inj hsame).2
  rwa [UInt32.toNat_ofNat_of_lt' (show i < 2 ^ 32 by omega),
    UInt32.toNat_ofNat_of_lt' (show j < 2 ^ 32 by omega)] at hindex

theorem passedNames_of_le {key : Curve25519PublicKey} {index counter : UInt32}
    (h : counter ≤ index) : passedNames key index counter = [] := by
  rw [passedNames, Nat.sub_eq_zero_of_le (UInt32.le_iff_toNat_le.mp h)]
  rfl

theorem map_passedOver (chain : ReceiverChain K) (counter : UInt32) :
    (passedOver S chain counter).map skippedName
      = passedNames chain.ratchetKey chain.chainKey.index counter := by
  rw [passedOver, List.map_map]
  rfl

/-- The skipped keys are of chains that were started, and a chain that is there is past
    them. -/
structure SkippedInv (r : Ratchet K) (started : List Curve25519PublicKey) : Prop where
  known : ∀ skipped ∈ r.skippedMessageKeys.toList, skipped.ratchetKey ∈ started
  distinct : (r.skippedMessageKeys.toList.map skippedName).Nodup
  past : ∀ skipped ∈ r.skippedMessageKeys.toList, ∀ chain ∈ r.receiverChains.toList,
    chain.ratchetKey = skipped.ratchetKey → skipped.messageKey.index < chain.chainKey.index

theorem SkippedInv.congr {r r' : Ratchet K} {started : List Curve25519PublicKey}
    (h : SkippedInv r started) (hsame : SameExceptError r r') : SkippedInv r' started := by
  obtain ⟨e, rfl⟩ := hsame
  exact ⟨h.known, h.distinct, h.past⟩

/-- There is one entry for a ratchet key and an index. -/
theorem SkippedInv.unique {r : Ratchet K} {started : List Curve25519PublicKey}
    (h : SkippedInv r started) {i place : Nat} {other skipped : SkippedMessageKey K}
    (hother : r.skippedMessageKeys.toList[i]? = some other)
    (hplace : r.skippedMessageKeys.toList[place]? = some skipped)
    (hname : skippedName other = skippedName skipped) : i = place := by
  have hsame : (r.skippedMessageKeys.toList.map skippedName)[i]?
      = (r.skippedMessageKeys.toList.map skippedName)[place]? := by
    rw [List.getElem?_map, List.getElem?_map, hother, hplace, Option.map_some, Option.map_some,
      hname]
  have hlt : i < (r.skippedMessageKeys.toList.map skippedName).length := by
    rw [List.length_map]
    exact (List.getElem?_eq_some_iff.mp hother).1
  exact (List.getElem?_inj hlt h.distinct).mp hsame

/-- A skipped key behind a message was there before or was passed over. -/
theorem mem_skippedPast {chain : ReceiverChain K} {counter : UInt32}
    {old : BoundedList (SkippedMessageKey K) maxSkippedMessageKeys}
    {skipped : SkippedMessageKey K} (hcounter : ¬counter < chain.chainKey.index)
    (h : skipped ∈ (skippedPast S chain counter old).toList) :
    skipped ∈ old.toList ∨
      skipped.ratchetKey = chain.ratchetKey ∧ skipped.messageKey.index < counter := by
  rw [skippedPast_eq S hcounter] at h
  rcases List.mem_append.mp (List.mem_of_mem_take h) with hpassed | hold
  · have hname : skippedName skipped
        ∈ passedNames chain.ratchetKey chain.chainKey.index counter := by
      rw [← map_passedOver S]
      exact List.mem_map_of_mem hpassed
    obtain ⟨hkey, -, hlt⟩ := mem_passedNames.mp hname
    exact Or.inr ⟨hkey, hlt⟩
  · exact Or.inl hold

/-- The keys passed over are of other messages than the keys that were there. -/
theorem nodup_skippedPast {chain : ReceiverChain K} {counter : UInt32}
    {old : BoundedList (SkippedMessageKey K) maxSkippedMessageKeys}
    (hcounter : ¬counter < chain.chainKey.index) (hold : (old.toList.map skippedName).Nodup)
    (hpast : ∀ skipped ∈ old.toList, skipped.ratchetKey = chain.ratchetKey →
      skipped.messageKey.index < chain.chainKey.index) :
    ((skippedPast S chain counter old).toList.map skippedName).Nodup := by
  rw [skippedPast_eq S hcounter, List.map_take, List.map_append, map_passedOver]
  refine List.Nodup.sublist (List.take_sublist _ _)
    (List.Nodup.append (nodup_passedNames _ _ _) hold ?_)
  intro name hnew hname
  obtain ⟨hkey, hle, -⟩ := mem_passedNames.mp hnew
  obtain ⟨skipped, hskipped, rfl⟩ := List.mem_map.mp hname
  exact absurd (hpast skipped hskipped hkey) (UInt32.not_lt.mpr hle)

theorem lt_succ_counter {counter : UInt32} (h : counter ≠ 0xFFFFFFFF) : counter < counter + 1 := by
  have hlt := counter.toNat_lt
  have hne : counter.toNat ≠ 2 ^ 32 - 1 := by
    intro hmax
    exact h (UInt32.toNat_inj.mp hmax)
  rw [UInt32.lt_iff_toNat_lt, UInt32.toNat_add, show (1 : UInt32).toNat = 1 from rfl,
    Nat.mod_eq_of_lt (by omega)]
  omega

/-- **AN ACCEPTED MESSAGE** of a fresh run keeps the invariant. -/
theorem Accepted.skippedInv {r r' : Ratchet K} {started : List Curve25519PublicKey}
    (hlists : ListsInv r started) (h : SkippedInv r started) {m m' : Mem} {reader : MessageReader}
    {plaintext maxPlaintextLength n : Nat} {key : MessageKey K}
    (haccepted : Accepted S r m reader plaintext maxPlaintextLength m' n key r')
    (hnew : ∀ key ∈ startedChain r m reader (some n), key ∉ started)
    (hlast : reader.counter ≠ 0xFFFFFFFF) :
    SkippedInv r' (startedChain r m reader (some n) ++ started) := by
  have hnext := lt_succ_counter hlast
  cases haccepted with
  | @newChain senderChain chain rootKey hfind hsender hcreate hkey hgap hverify =>
      have hindex : chain.chainKey.index = 0 :=
        (congrArg (fun p : K × ChainKey K => p.2.index) hcreate).symm
      have hcounter : ¬reader.counter < chain.chainKey.index := by
        rw [hindex]
        exact UInt32.not_lt.mpr (UInt32.le_iff_toNat_le.mpr (Nat.zero_le _))
      rw [startedChain, if_pos ⟨rfl, hfind⟩] at hnew ⊢
      have hfresh : chain.ratchetKey ∉ started := by
        rw [hkey]
        exact hnew _ (List.mem_singleton_self _)
      have habsent := findChain_none hfind
      refine ⟨?_, nodup_skippedPast S hcounter h.distinct ?_, ?_⟩
      · intro skipped hskipped
        rcases mem_skippedPast S hcounter hskipped with hold | ⟨hratchet, -⟩
        · exact List.mem_append_right _ (h.known skipped hold)
        · rw [hratchet, hkey]
          exact List.mem_append_left _ (List.mem_singleton_self _)
      · intro skipped hskipped hratchet
        exact absurd (h.known skipped hskipped) (hratchet ▸ hfresh)
      · intro skipped hskipped other hother hsame
        rw [chainPast_eq S hcounter] at hother
        rcases mem_skippedPast S hcounter hskipped with hold | ⟨hratchet, hlt⟩
        · rcases BoundedList.mem_insert hother with rfl | hother
          · exact absurd (h.known skipped hold) (hsame ▸ hfresh)
          · exact h.past skipped hold other hother hsame
        · rcases BoundedList.mem_insert hother with rfl | hother
          · exact UInt32.lt_trans hlt hnext
          · exact absurd (List.mem_map.mpr ⟨other, hother, (hsame.trans hratchet).trans hkey⟩)
              habsent
  | @nextKey pos chain hfind hchain hcounter hgap hverify =>
      rw [startedChain, if_neg (by rw [hfind]; intro hn; cases hn.2)]
      obtain ⟨chain', hchain', hkey⟩ := findChain_some hfind
      obtain rfl := Option.some.inj (hchain'.symm.trans hchain)
      have hmem := List.mem_of_getElem? hchain
      refine ⟨?_, nodup_skippedPast S hcounter h.distinct ?_, ?_⟩
      · intro skipped hskipped
        rcases mem_skippedPast S hcounter hskipped with hold | ⟨hratchet, -⟩
        · exact h.known skipped hold
        · have hkeys : chain'.ratchetKey ∈ started.take maxReceiverChains := by
            rw [← hlists.newest]
            exact List.mem_map.mpr ⟨chain', hmem, rfl⟩
          rw [hratchet]
          exact List.mem_of_mem_take hkeys
      · intro skipped hskipped hratchet
        exact h.past skipped hskipped chain' hmem hratchet.symm
      · intro skipped hskipped other hother hsame
        rw [chainPast_eq S hcounter] at hother
        obtain ⟨i, hi⟩ := List.mem_iff_getElem?.mp hother
        rw [BoundedList.toList_set] at hi
        by_cases hpos : pos = i
        · -- the chain that moved
          subst hpos
          obtain ⟨hlt, -⟩ := List.getElem?_eq_some_iff.mp hchain
          rw [List.getElem?_set_self hlt, Option.some.injEq] at hi
          subst hi
          rcases mem_skippedPast S hcounter hskipped with hold | ⟨-, hlt⟩
          · have hbefore := h.past skipped hold chain' hmem hsame
            exact UInt32.lt_trans (UInt32.lt_of_lt_of_le hbefore (UInt32.not_lt.mp hcounter)) hnext
          · exact UInt32.lt_trans hlt hnext
        · rw [List.getElem?_set_ne hpos] at hi
          rcases mem_skippedPast S hcounter hskipped with hold | ⟨hratchet, -⟩
          · exact h.past skipped hold other (List.mem_of_getElem? hi) hsame
          · exact absurd (hlists.oneMatch _ pos i chain' other hchain hi rfl (hsame.trans hratchet))
              hpos
  | @skippedKey pos i chain skipped m₁ hfind hchain hcounter hskipped hindex hattempts hverify =>
      rw [startedChain, if_neg (by rw [hfind]; intro hn; cases hn.2)]
      refine ⟨?_, ?_, ?_⟩
      · intro skipped hskipped
        exact h.known skipped (BoundedList.mem_erase hskipped)
      · exact h.distinct.sublist ((List.eraseIdx_sublist _ _).map skippedName)
      · intro skipped hskipped
        exact h.past skipped (BoundedList.mem_erase hskipped)

/-- **EVERY FRESH RUN** keeps it. -/
theorem FreshRun.skippedInv (hframed : S.ratchetCipher.Framed) {zero : K} {r : Ratchet K}
    {started : List Curve25519PublicKey} (h : FreshRun S zero r started) :
    SkippedInv r started := by
  have hnone : ∀ {r : Ratchet K} {started : List Curve25519PublicKey},
      r.skippedMessageKeys.toList = [] → SkippedInv r started := by
    intro r started hempty
    refine ⟨?_, ?_, ?_⟩
    · intro skipped hskipped
      rw [hempty] at hskipped
      cases hskipped
    · rw [hempty]
      exact List.nodup_nil
    · intro skipped hskipped
      rw [hempty] at hskipped
      cases hskipped
  induction h with
  | alice sharedSecret ourRatchetKey => exact hnone rfl
  | bob sharedSecret theirRatchetKey => exact hnone rfl
  | @encrypt r started m plaintext plaintextLength random randomLength output maxOutputLength _ ih =>
      rcases hcall : OlmRatchet.encrypt S r m plaintext plaintextLength random randomLength output
        maxOutputLength with ⟨m', r', _ | n⟩
      · exact ih.congr (encrypt_failed S hcall)
      · rw [encrypt_some S hcall]
        exact ⟨ih.known, ih.distinct, ih.past⟩
  | @decrypt r started stack m input inputLength plaintext maxPlaintextLength hseparate hnew hlast
      run ih =>
      rcases hcall : OlmRatchet.decrypt S r stack m input inputLength plaintext maxPlaintextLength
        with ⟨m', r', _ | n⟩
      · rw [startedChain, if_neg (by intro hn; cases hn.1)]
        exact ih.congr (decrypt_failed S hcall)
      · rw [hcall] at hnew hlast
        obtain ⟨key, haccepted⟩ := decrypt_some S hframed hseparate hcall
        exact haccepted.skippedInv S ((run.run S).listsInv S hframed) ih hnew (hlast rfl)

end Runs

/-! ## The ratchet of a session -/

section Sessions

open OlmSession (SharedKey olmSuite)

variable (prim : Primitives)

/-- A message of version 3 with all its fields, whose ciphertext is whole blocks. -/
structure WellFormed (reader : MessageReader) : Prop where
  version : reader.version = protocolVersion
  hasCounter : reader.hasCounter = true
  ratchetKey : reader.ratchetKey ≠ none
  ratchetKeyLength : reader.ratchetKeyLength = curve25519KeyLength
  ciphertext : reader.ciphertext ≠ none
  blocks : reader.ciphertextLength % 16 = 0

theorem WellFormed.header {reader : MessageReader} {maxPlaintextLength : Nat}
    (h : WellFormed reader) (hroom : reader.ciphertextLength ≤ maxPlaintextLength) :
    Header (olmSuite prim) reader maxPlaintextLength :=
  ⟨h.version, h.hasCounter, h.ratchetKey, h.ciphertext, hroom, h.ratchetKeyLength⟩

/-- An attempt with a key that does not fit spoils nothing. -/
theorem olmSuite_retries {stack : MessageReader} {m : Mem}
    {input inputLength plaintext maxPlaintextLength : Nat}
    (hseparate : Separate plaintext maxPlaintextLength input inputLength)
    (hwell : WellFormed (decodeMessage stack m input inputLength
      (olmSuite prim).ratchetCipher.macLength)) :
    Retries (olmSuite prim) (decodeMessage stack m input inputLength
      (olmSuite prim).ratchetCipher.macLength) m plaintext maxPlaintextLength := by
  obtain ⟨hinput, hlength⟩ := decodeMessage_input stack m input inputLength
    (olmSuite prim).ratchetCipher.macLength
  obtain ⟨-, hinside⟩ := decodeMessage_strings_inside stack m input inputLength
    (olmSuite prim).ratchetCipher.macLength
  generalize decodeMessage stack m input inputLength (olmSuite prim).ratchetCipher.macLength
    = reader at *
  obtain ⟨ciphertext, hciphertext⟩ := Option.ne_none_iff_exists'.mp hwell.ciphertext
  obtain ⟨hfirst, hlast⟩ := hinside ciphertext hciphertext
  have hbounds : input ≤ ciphertext ∧ ciphertext + reader.ciphertextLength ≤ input + inputLength :=
    ⟨hfirst, Nat.le_trans hlast (Nat.sub_le _ _)⟩
  intro m₁ hattempts key
  by_cases hempty : reader.ciphertextLength = 0
  · -- without blocks nothing is stored at all
    have hsame : m₁ = m := by
      clear hseparate hbounds hfirst hlast hinside
      induction hattempts with
      | refl m => rfl
      | @attempt m m₂ m₃ other hother _ ih =>
          have hstored := aesSha256CipherDecrypt_empty prim olmCipherInfo other.key.toList m
            reader.input reader.inputLength (reader.ciphertext.getD 0) plaintext
            maxPlaintextLength
          rw [verifyMacAndDecrypt, olmSuite_decrypt, hempty] at hother
          simp only at hother
          rw [hother] at hstored
          exact ih.trans hstored
    rw [hsame]
  · have hframe := hattempts.frame (olmSuite_framed prim)
    rw [verifyMacAndDecrypt, verifyMacAndDecrypt, olmSuite_decrypt, hinput, hlength, hciphertext,
      Option.getD_some]
    exact aesSha256CipherDecrypt_congr prim _ _ hseparate hbounds hwell.blocks hempty hframe

/-- The first place with a property is not behind a place that has it. -/
theorem findIdx?_le {T : Type} {xs : List T} {p : T → Bool} {place : Nat} {x : T}
    (hplace : xs[place]? = some x) (hx : p x = true) :
    ∃ first ≤ place, xs.findIdx? p = some first := by
  obtain ⟨hlt, hget⟩ := List.getElem?_eq_some_iff.mp hplace
  obtain ⟨first, hfirst⟩ : ∃ first, xs.findIdx? p = some first := by
    refine Option.ne_none_iff_exists'.mp ?_
    intro hnone
    have hno := List.findIdx?_eq_none_iff.mp hnone x (List.mem_of_getElem? hplace)
    exact absurd (hx.symm.trans hno) (by decide)
  refine ⟨first, ?_, hfirst⟩
  obtain ⟨_, -, hbefore⟩ := List.findIdx?_eq_some_iff_getElem.mp hfirst
  by_contra hlater
  have hno := hbefore place (Nat.lt_of_not_le hlater)
  rw [hget, hx] at hno
  exact hno rfl

/-- **WHICH SKIPPED KEYS ARE USABLE**: those whose chain is still there, past them.  In a fresh
    run these are the keys whose chain is still there, each is the only one for its ratchet key
    and index, and it is taken by its message. -/
theorem skippedKey_usable {zero : SharedKey} {r : Ratchet SharedKey}
    {started : List Curve25519PublicKey} (run : Run (olmSuite prim) zero r started)
    (stack : MessageReader) (m : Mem) (input inputLength plaintext maxPlaintextLength : Nat)
    (hseparate : Separate plaintext maxPlaintextLength input inputLength)
    (hwell : WellFormed (decodeMessage stack m input inputLength
      (olmSuite prim).ratchetCipher.macLength))
    (hroom : (decodeMessage stack m input inputLength
      (olmSuite prim).ratchetCipher.macLength).ciphertextLength ≤ maxPlaintextLength)
    {place : Nat} {skipped : SkippedMessageKey SharedKey}
    (hplace : r.skippedMessageKeys.toList[place]? = some skipped)
    (hkey : skipped.ratchetKey = readerRatchetKey m
      (decodeMessage stack m input inputLength (olmSuite prim).ratchetCipher.macLength))
    (hcounter : skipped.messageKey.index = (decodeMessage stack m input inputLength
      (olmSuite prim).ratchetCipher.macLength).counter)
    (hopens : (verifyMacAndDecrypt (olmSuite prim) skipped.messageKey
      (decodeMessage stack m input inputLength (olmSuite prim).ratchetCipher.macLength) m plaintext
      maxPlaintextLength).2 ≠ none) :
    let call := decrypt (olmSuite prim) r stack m input inputLength plaintext maxPlaintextLength
    (∃ first ≤ place,
      r.skippedMessageKeys.toList.findIdx? (fits (olmSuite prim)
        (decodeMessage stack m input inputLength (olmSuite prim).ratchetCipher.macLength) m
        plaintext maxPlaintextLength) = some first ∧
      (HasChainPast r skipped.ratchetKey skipped.messageKey.index → TakesOut r call first)) ∧
    (∀ taken, TakesOut r call taken → HasChainPast r skipped.ratchetKey skipped.messageKey.index) ∧
    (FreshRun (olmSuite prim) zero r started →
      (∀ i other, r.skippedMessageKeys.toList[i]? = some other →
        other.ratchetKey = skipped.ratchetKey → other.messageKey.index = skipped.messageKey.index →
          i = place) ∧
      (TakesOut r call place ↔ skipped.ratchetKey ∈ receiverKeys r)) := by
  have hframed := olmSuite_framed prim
  have hinv := run.listsInv (olmSuite prim) hframed
  have hheader := hwell.header prim hroom
  have hretries := olmSuite_retries prim hseparate hwell
  have htaken : ∀ taken,
      TakesOut r (decrypt (olmSuite prim) r stack m input inputLength plaintext
        maxPlaintextLength) taken →
      HasChainPast r skipped.ratchetKey skipped.messageKey.index := by
    rintro taken ⟨hsome, hratchet⟩
    rcases hcall : decrypt (olmSuite prim) r stack m input inputLength plaintext maxPlaintextLength
      with ⟨m', r', _ | n⟩
    · rw [hcall] at hsome
      exact absurd rfl hsome
    · obtain ⟨key, haccepted⟩ := decrypt_some (olmSuite prim) hframed hseparate hcall
      rw [hcall] at hratchet
      rw [hkey, hcounter]
      exact haccepted.hasChainPast (olmSuite prim) hratchet
  have hcomplete : ∀ first, r.skippedMessageKeys.toList.findIdx? (fits (olmSuite prim)
        (decodeMessage stack m input inputLength (olmSuite prim).ratchetCipher.macLength) m
        plaintext maxPlaintextLength) = some first →
      HasChainPast r skipped.ratchetKey skipped.messageKey.index →
      TakesOut r (decrypt (olmSuite prim) r stack m input inputLength plaintext
        maxPlaintextLength) first := by
    intro first hfirst hchain
    rw [hkey, hcounter] at hchain
    exact decrypt_takesOut (olmSuite prim) hframed hinv hseparate hheader hretries hfirst hchain
  have hfits : fits (olmSuite prim) (decodeMessage stack m input inputLength
      (olmSuite prim).ratchetCipher.macLength) m plaintext maxPlaintextLength skipped = true := by
    rw [fits, decide_eq_true ⟨hcounter.symm, hkey⟩, Bool.true_and, Option.isSome_iff_ne_none]
    exact hopens
  obtain ⟨first, hle, hfirst⟩ := findIdx?_le hplace hfits
  refine ⟨⟨first, hle, hfirst, hcomplete first hfirst⟩, htaken, ?_⟩
  intro hfresh
  have hskipped := hfresh.skippedInv (olmSuite prim) hframed
  refine ⟨?_, ?_, ?_⟩
  · intro i other hother hratchet hindex
    exact hskipped.unique hother hplace (Prod.ext hratchet hindex)
  · intro hplaced
    obtain ⟨chain, hmem, hsame, -⟩ := htaken place hplaced
    exact List.mem_map.mpr ⟨chain, hmem, hsame⟩
  · intro hmem
    obtain ⟨chain, hmem, hsame⟩ := List.mem_map.mp hmem
    have hindex := hskipped.past skipped (List.mem_of_getElem? hplace) chain hmem hsame
    -- no other skipped key is for this message
    obtain ⟨hlt, hfound, -⟩ := List.findIdx?_eq_some_iff_getElem.mp hfirst
    rw [fits, Bool.and_eq_true, decide_eq_true_iff] at hfound
    obtain ⟨⟨hother, hratchet⟩, -⟩ := hfound
    obtain rfl := hskipped.unique (List.getElem?_eq_getElem hlt) hplace
      (Prod.ext (hratchet.trans hkey.symm) (hother.symm.trans hcounter.symm))
    exact hcomplete first hfirst ⟨chain, hmem, hsame, hindex⟩

/-! ## A chain that is dropped -/

variable {prim}

/-- Memory with nothing but these bytes. -/
def inMemory (bs : Bytes) : Mem := write (fun _ => 0) 0 bs

theorem holds_inMemory (key : MessageKey SharedKey) (ratchetKey : Curve25519PublicKey) :
    Holds prim (inMemory (ratchetMessage prim key ratchetKey [])) 0
      (ratchetMessage prim key ratchetKey []).length key ratchetKey [] := by
  refine ⟨?_, read_write_self _ _ _⟩
  have hle := length_ratchetMessage_le prim key ratchetKey
    (show ([] : Bytes).length < 2 ^ 62 by decide)
  rw [List.length_nil] at hle
  omega

theorem Holds.wellFormed {m : Mem} {input inputLength : Nat} {key : MessageKey SharedKey}
    {ratchetKey : Curve25519PublicKey} {bs : Bytes}
    (h : Holds prim m input inputLength key ratchetKey bs) (stack : MessageReader) :
    WellFormed (decodeMessage stack m input inputLength
      (olmSuite prim).ratchetCipher.macLength) := by
  rw [h.decodeMessage_eq stack]
  refine ⟨rfl, rfl, Option.some_ne_none _, rfl, Option.some_ne_none _, ?_⟩
  show cryptoAesEncryptCbcLength bs.length % 16 = 0
  rw [cryptoAesEncryptCbcLength]
  omega

/-- An empty message under this key, read from memory with nothing else. -/
def receive (prim : Primitives) (r : Ratchet SharedKey) (key : MessageKey SharedKey)
    (ratchetKey : Curve25519PublicKey) : Mem × Ratchet SharedKey × Option Nat :=
  decrypt (olmSuite prim) r OlmSession.messageReader
    (inMemory (ratchetMessage prim key ratchetKey [])) 0
    (ratchetMessage prim key ratchetKey []).length (ratchetMessage prim key ratchetKey []).length 16

theorem receive_separate (key : MessageKey SharedKey) (ratchetKey : Curve25519PublicKey) :
    Separate (ratchetMessage prim key ratchetKey []).length 16 0
      (ratchetMessage prim key ratchetKey []).length :=
  Or.inr (Nat.le_of_eq (Nat.zero_add _))

theorem run_receive {zero : SharedKey} {r : Ratchet SharedKey}
    {started : List Curve25519PublicKey} (run : Run (olmSuite prim) zero r started)
    (key : MessageKey SharedKey) (ratchetKey : Curve25519PublicKey) :
    ∃ started', Run (olmSuite prim) zero (receive prim r key ratchetKey).2.1 started' :=
  ⟨_, Run.decrypt OlmSession.messageReader _ 0 _ _ 16 (receive_separate key ratchetKey) run⟩

/-- The first message of a chain that is not there. -/
theorem receive_new (hinverts : prim.AesInverts) {r : Ratchet SharedKey}
    {senderChain : SenderChain SharedKey} {ratchetKey : Curve25519PublicKey}
    (habsent : ratchetKey ∉ receiverKeys r) (hsender : r.senderChain.toList = [senderChain]) :
    (receive prim r (messageKeyOf (olmSuite prim)
        (derivedChain (olmSuite prim) r senderChain ratchetKey).chainKey 0) ratchetKey).2.1
      = { withDerivedChain (olmSuite prim) r senderChain ratchetKey with
          receiverChains := r.receiverChains.insert
            (chainBehind (olmSuite prim) (derivedChain (olmSuite prim) r senderChain ratchetKey) 0)
          skippedMessageKeys := r.skippedMessageKeys } := by
  generalize hkey : messageKeyOf (olmSuite prim)
    (derivedChain (olmSuite prim) r senderChain ratchetKey).chainKey 0 = key
  have hindex : key.index = 0 := by
    rw [← hkey]
    rfl
  have hcall := (holds_inMemory key ratchetKey).decrypt_new hinverts OlmSession.messageReader
    (show 16 ≤ 16 by decide) (receive_separate key ratchetKey) habsent hsender
    (by rw [hindex]; exact Nat.zero_le _) (by rw [hindex]; exact hkey)
  -- nothing is passed over
  have hgap : gap (derivedChain (olmSuite prim) r senderChain ratchetKey).chainKey 0 = 0 :=
    show ((0 : UInt32) - 0).toNat = 0 by decide
  rw [receive, hcall, hindex, skippedPast, hgap]
  rfl

/-- A ratchet that answers has a sender chain, and its receiver chains as before. -/
theorem run_answer {zero : SharedKey} {r : Ratchet SharedKey}
    {started : List Curve25519PublicKey} (run : Run (olmSuite prim) zero r started) :
    ∃ r' senderChain, Run (olmSuite prim) zero r' started ∧ r'.senderChain.toList = [senderChain] ∧
      r'.receiverChains = r.receiverChains ∧ r'.skippedMessageKeys = r.skippedMessageKeys := by
  have hcall : (encrypt (olmSuite prim) r (fun _ => 0) 0 0 0 32 0
      (encryptOutputLength (olmSuite prim) r 0)).2.1
      = afterSending (olmSuite prim) r (load 32 (fun _ => 0) 0) := by
    have hrandom : ¬32 < encryptRandomLength r := by
      rw [encryptRandomLength]
      split
      · decide
      · decide
    rw [encrypt]
    simp only
    rw [if_neg hrandom, if_neg (Nat.lt_irrefl _)]
    rfl
  have hrun := Run.encrypt (fun _ => 0) 0 0 0 32 0 (encryptOutputLength (olmSuite prim) r 0) run
  rw [hcall] at hrun
  exact ⟨_, _, hrun, rfl, rfl, rfl⟩

/-- Behind an answer, any new ratchet key starts a chain. -/
theorem run_newChain (hinverts : prim.AesInverts) {zero : SharedKey} {r : Ratchet SharedKey}
    {started : List Curve25519PublicKey} (run : Run (olmSuite prim) zero r started)
    {ratchetKey : Curve25519PublicKey} (habsent : ratchetKey ∉ receiverKeys r) :
    ∃ r' started', Run (olmSuite prim) zero r' started' ∧
      receiverKeys r' = (ratchetKey :: receiverKeys r).take 5 ∧
      r'.skippedMessageKeys = r.skippedMessageKeys ∧ r'.senderChain.toList = [] := by
  obtain ⟨answered, senderChain, hrun, hsender, hchains, hskipped⟩ := run_answer run
  have hkeys : receiverKeys answered = receiverKeys r := by rw [receiverKeys, hchains, receiverKeys]
  rw [← hkeys] at habsent ⊢
  have hreceived := receive_new hinverts habsent hsender
  obtain ⟨started', hrun'⟩ := run_receive hrun (messageKeyOf (olmSuite prim)
    (derivedChain (olmSuite prim) answered senderChain ratchetKey).chainKey 0) ratchetKey
  rw [hreceived] at hrun'
  refine ⟨_, started', hrun', ?_, hskipped, rfl⟩
  show List.map _ (List.take 5 _) = _
  rw [List.map_take]
  rfl

/-- Without a sender chain, a message of a chain that is not there is refused. -/
theorem receive_refused {r : Ratchet SharedKey} {key : MessageKey SharedKey}
    {ratchetKey : Curve25519PublicKey} (habsent : ratchetKey ∉ receiverKeys r)
    (hsender : r.senderChain.toList = []) :
    (receive prim r key ratchetKey).2 = ({ r with lastError := .badMessageMac }, none) := by
  have hholds : Holds prim _ 0 _ key ratchetKey [] := holds_inMemory key ratchetKey
  have hratchet := hholds.readerRatchetKey_eq OlmSession.messageReader
  rw [receive, decrypt_eq _ (hholds.header OlmSession.messageReader (show 16 ≤ 16 by decide))]
  generalize decodeMessage OlmSession.messageReader
    (inMemory (ratchetMessage prim key ratchetKey [])) 0
    (ratchetMessage prim key ratchetKey []).length (olmSuite prim).ratchetCipher.macLength
    = reader at hratchet ⊢
  rw [decryptChecked, findChain_absent, verifyMacAndDecryptForNewChain, hsender]
  intro chain hchain hsame
  exact habsent (List.mem_map.mpr ⟨chain, hchain, hsame.trans hratchet⟩)

/-- Any number of new chains, one after another. -/
theorem run_newChains (hinverts : prim.AesInverts) {zero : SharedKey} :
    ∀ (keys : List Curve25519PublicKey) {r : Ratchet SharedKey}
      {started : List Curve25519PublicKey}, Run (olmSuite prim) zero r started →
      r.senderChain.toList = [] ∨ keys ≠ [] → (keys ++ receiverKeys r).Nodup →
      ∃ r' started', Run (olmSuite prim) zero r' started' ∧
        receiverKeys r' = (keys.reverse ++ receiverKeys r).take 5 ∧
        r'.skippedMessageKeys = r.skippedMessageKeys ∧ r'.senderChain.toList = [] := by
  intro keys
  induction keys with
  | nil =>
      intro r started run hsender _
      have hshort : (receiverKeys r).length ≤ 5 := by
        rw [receiverKeys, List.length_map]
        exact r.receiverChains.length_le
      refine ⟨r, started, run, ?_, rfl, hsender.resolve_right (not_not_intro rfl)⟩
      exact (List.take_of_length_le hshort).symm
  | cons key keys ih =>
      intro r started run _ hnodup
      rw [List.cons_append, List.nodup_cons] at hnodup
      obtain ⟨hnew, hnodup⟩ := hnodup
      obtain ⟨r₁, started₁, run₁, hkeys₁, hskipped₁, hsender₁⟩ := run_newChain hinverts run
        (fun hmem => hnew (List.mem_append_right _ hmem))
      have hnodup₁ : (keys ++ receiverKeys r₁).Nodup := by
        rw [hkeys₁]
        refine List.Nodup.sublist ((List.take_sublist _ _).append_left keys) ?_
        exact List.nodup_middle.mpr (List.nodup_cons.mpr ⟨hnew, hnodup⟩)
      obtain ⟨r', started', run', hkeys', hskipped', hsender'⟩ := ih run₁ (Or.inl hsender₁) hnodup₁
      refine ⟨r', started', run', ?_, hskipped'.trans hskipped₁, hsender'⟩
      rw [hkeys', hkeys₁, List.reverse_cons, List.append_assoc, List.take_append, List.take_append,
        List.take_take, Nat.min_eq_left (Nat.sub_le _ _)]
      rfl

/-- Bob's chain at the start. -/
def firstChain (prim : Primitives) (secret : Bytes) : ChainKey SharedKey where
  index := 0
  key := ((olmSuite prim).hkdf secret none (olmSuite prim).kdfInfo.rootInfo).2

/-- The second message of Bob's chain comes first: the key of the first one is stored. -/
theorem run_skipped (hinverts : prim.AesInverts) (zero : SharedKey) (secret : Bytes)
    (ratchetKey : Curve25519PublicKey) :
    ∃ r started, Run (olmSuite prim) zero r started ∧ receiverKeys r = [ratchetKey] ∧
      r.skippedMessageKeys.toList = [{
        ratchetKey, messageKey := messageKeyOf (olmSuite prim) (firstChain prim secret) 0 }] ∧
      HasChainPast r ratchetKey 0 := by
  generalize hkey : messageKeyOf (olmSuite prim) (firstChain prim secret) 1 = key
  have hindex : key.index = 1 := by
    rw [← hkey]
    rfl
  have hbehind : ¬(1 : UInt32) < (firstChain prim secret).index := by
    show ¬(1 : UInt32) < 0
    decide
  have hgap : (1 : UInt32).toNat - (firstChain prim secret).index.toNat ≤ maxMessageGap := by
    show (1 : UInt32).toNat - (0 : UInt32).toNat ≤ 2000
    decide
  have run : Run (olmSuite prim) zero
      (initialiseAsBob (olmSuite prim) (newRatchet zero) secret ratchetKey) [ratchetKey] :=
    Run.bob secret ratchetKey
  have hlist : (initialiseAsBob (olmSuite prim) (newRatchet zero) secret
      ratchetKey).receiverChains.toList
      = [] ++ { ratchetKey, chainKey := firstChain prim secret } :: [] := rfl
  obtain ⟨started, run⟩ := run_receive run key ratchetKey
  have hcall := (holds_inMemory key ratchetKey).decrypt_next hinverts OlmSession.messageReader
    (show 16 ≤ 16 by decide) (receive_separate key ratchetKey) hlist
    (fun _ hother => nomatch hother) rfl (by rw [hindex]; exact hbehind)
    (by rw [hindex]; exact hgap) (by rw [hindex]; exact hkey)
  rw [receive, hcall, hindex] at run
  refine ⟨_, started, run, rfl, ?_, ?_⟩
  · have hskipped : (skippedPast (olmSuite prim)
        { ratchetKey, chainKey := firstChain prim secret } 1 BoundedList.empty).toList = _ :=
      skippedPast_eq (olmSuite prim) hbehind BoundedList.empty
    exact hskipped
  · exact ⟨_, List.mem_singleton_self _, rfl, show (0 : UInt32) < 1 + 1 by decide⟩

/-- The first message of Bob's chain comes second, and takes its key. -/
theorem skippedKey_usable_demo :
    ∃ r started skipped, Run (olmSuite demoPrimitives) (Vector.replicate 32 0) r started ∧
      r.skippedMessageKeys.toList = [skipped] ∧
      TakesOut r (receive demoPrimitives r skipped.messageKey skipped.ratchetKey) 0 := by
  obtain ⟨r, started, run, -, hskipped, hchain⟩ := run_skipped demoPrimitives_aesInverts
    (Vector.replicate 32 0) [1, 2, 3] (Vector.replicate 32 7)
  refine ⟨r, started, _, run, hskipped, ?_⟩
  generalize hkey : messageKeyOf (olmSuite demoPrimitives) (firstChain demoPrimitives [1, 2, 3]) 0
    = key at hskipped ⊢
  have hindex : key.index = 0 := by
    rw [← hkey]
    rfl
  have hholds : Holds demoPrimitives _ 0 _ key (Vector.replicate 32 7) [] :=
    holds_inMemory key (Vector.replicate 32 7)
  have hseparate : Separate (ratchetMessage demoPrimitives key (Vector.replicate 32 7) []).length 16 0
      (ratchetMessage demoPrimitives key (Vector.replicate 32 7) []).length :=
    receive_separate key (Vector.replicate 32 7)
  have hreader := hholds.decodeMessage_eq OlmSession.messageReader
  have hverify := hholds.verify demoPrimitives_aesInverts OlmSession.messageReader
    (show 16 ≤ 16 by decide) hseparate
  have hplace : r.skippedMessageKeys.toList[0]?
      = some { ratchetKey := Vector.replicate 32 7, messageKey := key } := by
    rw [hskipped]
    rfl
  obtain ⟨⟨first, hle, -, htaken⟩, -, -⟩ := skippedKey_usable demoPrimitives run
    OlmSession.messageReader _ 0 _ _ 16 hseparate (hholds.wellFormed OlmSession.messageReader)
    (by rw [hreader]; exact Nat.le_refl 16) hplace
    (hholds.readerRatchetKey_eq OlmSession.messageReader).symm (by rw [hreader])
    (by rw [hverify]; exact Option.some_ne_none _)
  obtain rfl := Nat.le_zero.mp hle
  exact htaken (hindex ▸ hchain)

/-- Five newer chains drop Bob's first one; the key that is stored for it opens its message,
    but the message is refused. -/
theorem skippedKey_dropped :
    ∃ r started skipped, Run (olmSuite demoPrimitives) (Vector.replicate 32 0) r started ∧
      skipped ∈ r.skippedMessageKeys.toList ∧
      let message := ratchetMessage demoPrimitives skipped.messageKey skipped.ratchetKey []
      let reader := decodeMessage OlmSession.messageReader (inMemory message) 0 message.length 8
      WellFormed reader ∧ reader.ciphertextLength ≤ 16 ∧
      skipped.ratchetKey = readerRatchetKey (inMemory message) reader ∧
      skipped.messageKey.index = reader.counter ∧
      (verifyMacAndDecrypt (olmSuite demoPrimitives) skipped.messageKey reader (inMemory message)
        message.length 16).2 = some 0 ∧
      (decrypt (olmSuite demoPrimitives) r OlmSession.messageReader (inMemory message) 0
        message.length message.length 16).2 = ({ r with lastError := .badMessageMac }, none) := by
  obtain ⟨r₀, started₀, run₀, hkeys₀, hskipped₀, -⟩ := run_skipped demoPrimitives_aesInverts
    (Vector.replicate 32 0) [1, 2, 3] (Vector.replicate 32 0)
  have hnodup : (([1, 2, 3, 4, 5].map (Vector.replicate 32 ·) : List Curve25519PublicKey)
      ++ receiverKeys r₀).Nodup := by
    rw [hkeys₀]
    decide +kernel
  obtain ⟨r, started, run, hkeys, hskipped, hsender⟩ := run_newChains demoPrimitives_aesInverts
    _ run₀ (Or.inr (List.cons_ne_nil _ _)) hnodup
  generalize hkey : messageKeyOf (olmSuite demoPrimitives) (firstChain demoPrimitives [1, 2, 3]) 0
    = key at hskipped₀
  have hholds : Holds demoPrimitives _ 0 _ key (Vector.replicate 32 0) [] :=
    holds_inMemory key (Vector.replicate 32 0)
  have hreader := hholds.decodeMessage_eq OlmSession.messageReader
  have hverify := hholds.verify demoPrimitives_aesInverts OlmSession.messageReader
    (show 16 ≤ 16 by decide) (receive_separate key (Vector.replicate 32 0))
  have habsent : (Vector.replicate 32 0 : Curve25519PublicKey) ∉ receiverKeys r := by
    rw [hkeys, hkeys₀]
    decide +kernel
  refine ⟨r, started, { ratchetKey := Vector.replicate 32 0, messageKey := key }, run, ?_,
    hholds.wellFormed OlmSession.messageReader, ?_,
    (hholds.readerRatchetKey_eq OlmSession.messageReader).symm, ?_, ?_,
    receive_refused habsent hsender⟩
  · rw [hskipped, hskipped₀]
    exact List.mem_singleton_self _
  · exact (congrArg MessageReader.ciphertextLength hreader).le
  · exact (congrArg MessageReader.counter hreader).symm
  · exact congrArg Prod.snd hverify

end Sessions

end OlmRatchet
