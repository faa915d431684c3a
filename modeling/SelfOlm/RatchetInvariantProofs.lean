import SelfOlm.RatchetStepProofs
import SelfOlm.SessionFailureProofs

/-! # The representation invariant of the ratchet

    The three lists keep to their bounds by construction.  What a run has to
    keep is how they hang together: the receiver chains are the last five that
    were started, newest first, under distinct ratchet keys, and there is always
    a sender chain or a receiver chain.  So the two places where the code indexes
    a list without looking (`receiver_chains[0]` of `encrypt`, `sender_chain[0]`
    of `decrypt`) are never reached with an empty list. -/

namespace OlmRatchet

open ByteMemory OlmCrypto OlmMessage OlmList

variable {K I : Type} (S : Suite K I)

/-! ## Runs -/

/-- The receiver chain that a call of `decrypt` started, if it did. -/
def startedChain (r : Ratchet K) (m : Mem) (reader : MessageReader) (result : Option Nat) :
    List Curve25519PublicKey :=
  if result.isSome ∧ findChain r m reader = none then [readerRatchetKey m reader] else []

/-- The ratchets behind any calls on a ratchet that was initialised, and the keys
    of the receiver chains that were started, last first.  A message is `const` in
    the source: its buffer is not the one for the plaintext. -/
inductive Run (zero : K) : Ratchet K → List Curve25519PublicKey → Prop
  | alice (sharedSecret : I) (ourRatchetKey : Curve25519KeyPair) :
      Run zero (initialiseAsAlice S (newRatchet zero) sharedSecret ourRatchetKey) []
  | bob (sharedSecret : I) (theirRatchetKey : Curve25519PublicKey) :
      Run zero (initialiseAsBob S (newRatchet zero) sharedSecret theirRatchetKey)
        [theirRatchetKey]
  | encrypt {r : Ratchet K} {started : List Curve25519PublicKey} (m : Mem)
      (plaintext plaintextLength random randomLength output maxOutputLength : Nat)
      (run : Run zero r started) :
      Run zero (encrypt S r m plaintext plaintextLength random randomLength output
        maxOutputLength).2.1 started
  | decrypt {r : Ratchet K} {started : List Curve25519PublicKey} (stack : MessageReader) (m : Mem)
      (input inputLength plaintext maxPlaintextLength : Nat)
      (hseparate : Separate plaintext maxPlaintextLength input inputLength)
      (run : Run zero r started) :
      Run zero (decrypt S r stack m input inputLength plaintext maxPlaintextLength).2.1
        (startedChain r m (decodeMessage stack m input inputLength S.ratchetCipher.macLength)
          (decrypt S r stack m input inputLength plaintext maxPlaintextLength).2.2 ++ started)

/-! ## The invariant -/

/-- The ratchet keys of the receiver chains. -/
def receiverKeys (r : Ratchet K) : List Curve25519PublicKey :=
  r.receiverChains.toList.map ReceiverChain.ratchetKey

/-- How the lists of a ratchet hang together. -/
structure ListsInv (r : Ratchet K) (started : List Curve25519PublicKey) : Prop where
  chain : r.senderChain.toList ≠ [] ∨ r.receiverChains.toList ≠ []
  distinct : (receiverKeys r).Nodup
  newest : receiverKeys r = started.take maxReceiverChains

theorem ListsInv.congr {r r' : Ratchet K} {started : List Curve25519PublicKey}
    (h : ListsInv r started) (hsame : SameExceptError r r') : ListsInv r' started := by
  obtain ⟨e, rfl⟩ := hsame
  exact ⟨h.chain, h.distinct, h.newest⟩

theorem findChain_none {r : Ratchet K} {m : Mem} {reader : MessageReader}
    (h : findChain r m reader = none) : readerRatchetKey m reader ∉ receiverKeys r := by
  intro hmem
  obtain ⟨chain, hchain, hkey⟩ := List.mem_map.mp hmem
  have hno := List.findIdx?_eq_none_iff.mp h chain hchain
  exact absurd hkey (of_decide_eq_false hno)

/-- A chain that only moves keeps its place and its key. -/
theorem receiverKeys_set {r : Ratchet K} {pos : Nat} {chain : ReceiverChain K}
    (hchain : r.receiverChains.toList[pos]? = some chain) (counter : UInt32) :
    (r.receiverChains.set pos (chainPast S chain counter)).toList.map ReceiverChain.ratchetKey
      = receiverKeys r :=
  BoundedList.map_toList_set ReceiverChain.ratchetKey hchain rfl

/-- **ENCRYPTION** keeps the invariant. -/
theorem encrypt_listsInv {r : Ratchet K} {started : List Curve25519PublicKey}
    (h : ListsInv r started) (m : Mem)
    (plaintext plaintextLength random randomLength output maxOutputLength : Nat) :
    ListsInv (encrypt S r m plaintext plaintextLength random randomLength output
      maxOutputLength).2.1 started := by
  rcases hcall : encrypt S r m plaintext plaintextLength random randomLength output
    maxOutputLength with ⟨m', r', _ | n⟩
  · exact h.congr (encrypt_failed S hcall)
  · rw [encrypt_some S hcall]
    exact ⟨Or.inl (List.cons_ne_nil _ _), h.distinct, h.newest⟩

/-- An accepted message keeps the invariant. -/
theorem Accepted.listsInv {r r' : Ratchet K} {started : List Curve25519PublicKey}
    (h : ListsInv r started) {m m' : Mem} {reader : MessageReader}
    {plaintext maxPlaintextLength n : Nat} {key : MessageKey K}
    (haccepted : Accepted S r m reader plaintext maxPlaintextLength m' n key r') :
    ListsInv r' (startedChain r m reader (some n) ++ started) := by
  cases haccepted with
  | @newChain senderChain chain rootKey hfind hsender hcreate hkey hgap hverify =>
      have hnew : chain.ratchetKey ∉ receiverKeys r := by
        rw [hkey]
        exact findChain_none hfind
      have hkeys : ((r.receiverChains.insert (chainPast S chain reader.counter)).toList.map
          ReceiverChain.ratchetKey)
          = (chain.ratchetKey :: receiverKeys r).take maxReceiverChains := by
        rw [BoundedList.toList_insert, List.map_take]
        rfl
      rw [startedChain, if_pos ⟨rfl, hfind⟩]
      refine ⟨Or.inr ?_, ?_, ?_⟩
      · exact List.cons_ne_nil _ _
      · show (List.map _ _).Nodup
        rw [hkeys]
        exact (List.nodup_cons.mpr ⟨hnew, h.distinct⟩).sublist (List.take_sublist _ _)
      · show List.map _ _ = _
        rw [hkeys, h.newest, hkey]
        show _ :: ((started.take 5).take 4) = _ :: started.take 4
        rw [List.take_take]
        rfl
  | @nextKey pos chain hfind hchain hcounter hgap hverify =>
      rw [startedChain, if_neg (by rw [hfind]; intro hn; cases hn.2)]
      have hkeys := receiverKeys_set S hchain reader.counter
      refine ⟨Or.inr ?_, ?_, ?_⟩
      · intro hnil
        have hlen := congrArg List.length hnil
        rw [BoundedList.toList_set, List.length_set] at hlen
        obtain ⟨hpos, -⟩ := List.getElem?_eq_some_iff.mp hchain
        rw [hlen] at hpos
        exact absurd hpos (Nat.not_lt_zero pos)
      · show (List.map _ _).Nodup
        rw [hkeys]
        exact h.distinct
      · show List.map _ _ = _
        rw [hkeys]
        exact h.newest
  | @skippedKey pos i chain skipped m₁ hfind hchain hcounter hskipped hindex hattempts hverify =>
      rw [startedChain, if_neg (by rw [hfind]; intro hn; cases hn.2)]
      exact ⟨h.chain, h.distinct, h.newest⟩

/-- **DECRYPTION** keeps the invariant. -/
theorem decrypt_listsInv (hframed : S.ratchetCipher.Framed) {r : Ratchet K}
    {started : List Curve25519PublicKey} (h : ListsInv r started) (stack : MessageReader) (m : Mem)
    (input inputLength plaintext maxPlaintextLength : Nat)
    (hseparate : Separate plaintext maxPlaintextLength input inputLength) :
    ListsInv (decrypt S r stack m input inputLength plaintext maxPlaintextLength).2.1
      (startedChain r m (decodeMessage stack m input inputLength S.ratchetCipher.macLength)
        (decrypt S r stack m input inputLength plaintext maxPlaintextLength).2.2 ++ started) := by
  rcases hcall : decrypt S r stack m input inputLength plaintext maxPlaintextLength
    with ⟨m', r', _ | n⟩
  · rw [startedChain, if_neg (by intro hn; cases hn.1)]
    exact h.congr (decrypt_failed S hcall)
  · obtain ⟨key, haccepted⟩ := decrypt_some S hframed hseparate hcall
    exact haccepted.listsInv S h

theorem Run.listsInv (hframed : S.ratchetCipher.Framed) {zero : K} {r : Ratchet K}
    {started : List Curve25519PublicKey} (run : Run S zero r started) : ListsInv r started := by
  induction run with
  | alice sharedSecret ourRatchetKey =>
      exact ⟨Or.inl (List.cons_ne_nil _ _), List.nodup_nil, rfl⟩
  | bob sharedSecret theirRatchetKey =>
      exact ⟨Or.inr (List.cons_ne_nil _ _), List.nodup_singleton _, rfl⟩
  | encrypt m plaintext plaintextLength random randomLength output maxOutputLength _ ih =>
      exact encrypt_listsInv S ih m _ _ _ _ _ _
  | decrypt stack m input inputLength plaintext maxPlaintextLength hseparate _ ih =>
      exact decrypt_listsInv S hframed ih stack m _ _ _ _ hseparate

/-! ## What holds of every run -/

/-- The representation invariant, and what the code relies on. -/
structure Represented (r : Ratchet K) (started : List Curve25519PublicKey) : Prop where
  senderChain_le : r.senderChain.toList.length ≤ 1
  receiverChains_le : r.receiverChains.toList.length ≤ 5
  skippedMessageKeys_le : r.skippedMessageKeys.toList.length ≤ 40
  notBothEmpty : ¬(r.senderChain.toList = [] ∧ r.receiverChains.toList = [])
  distinct : r.receiverChains.toList.Pairwise (fun c c' => c.ratchetKey ≠ c'.ratchetKey)
  /-- `receiver_chains[0]` is the chain that was started last. -/
  newest : r.receiverChains.toList.head?.map ReceiverChain.ratchetKey = started.head?
  /-- `encrypt` reads `receiver_chains[0]` where there is no sender chain. -/
  encryptReads : r.senderChain.toList = [] → ∃ chain, r.receiverChains.toList[0]? = some chain
  /-- `decrypt` reads `sender_chain[0]` behind a message of a new chain. -/
  decryptReads : ∀ reader m plaintext maxPlaintextLength m' n,
    verifyMacAndDecryptForNewChain S r reader m plaintext maxPlaintextLength = (m', some n) →
    ∃ chain, r.senderChain.toList[0]? = some chain
  /-- The search for a chain has one match at most. -/
  oneMatch : ∀ (key : Curve25519PublicKey) (i j : Nat) (c c' : ReceiverChain K),
    r.receiverChains.toList[i]? = some c → r.receiverChains.toList[j]? = some c' →
    c.ratchetKey = key → c'.ratchetKey = key → i = j

theorem ListsInv.oneMatch {r : Ratchet K} {started : List Curve25519PublicKey}
    (h : ListsInv r started) (key : Curve25519PublicKey) (i j : Nat) (c c' : ReceiverChain K)
    (hi : r.receiverChains.toList[i]? = some c) (hj : r.receiverChains.toList[j]? = some c')
    (hc : c.ratchetKey = key) (hc' : c'.ratchetKey = key) : i = j := by
  have hget : ∀ {i : Nat} {c : ReceiverChain K}, r.receiverChains.toList[i]? = some c →
      c.ratchetKey = key → (receiverKeys r)[i]? = some key := by
    intro i c hi hc
    rw [receiverKeys, List.getElem?_map, hi, ← hc]
    rfl
  obtain ⟨hlt, hki⟩ := List.getElem?_eq_some_iff.mp (hget hi hc)
  obtain ⟨hlt', hkj⟩ := List.getElem?_eq_some_iff.mp (hget hj hc')
  exact (List.Nodup.getElem_inj_iff h.distinct).mp (hki.trans hkj.symm)

/-- **THE REPRESENTATION INVARIANT** holds behind every run of calls. -/
theorem run_represented (hframed : S.ratchetCipher.Framed) {zero : K} {r : Ratchet K}
    {started : List Curve25519PublicKey} (run : Run S zero r started) :
    Represented S r started := by
  have h := run.listsInv S hframed
  refine ⟨r.senderChain.length_le, r.receiverChains.length_le, r.skippedMessageKeys.length_le,
    ?_, ?_, ?_, ?_, ?_, h.oneMatch⟩
  · rintro ⟨hsender, hreceiver⟩
    exact h.chain.elim (fun hn => hn hsender) (fun hn => hn hreceiver)
  · exact List.pairwise_map.mp h.distinct
  · have hhead := congrArg List.head? h.newest
    rw [receiverKeys, List.head?_map] at hhead
    rw [hhead]
    cases started with
    | nil => rfl
    | cons key started => rfl
  · intro hsender
    have hne := h.chain.resolve_left (not_not_intro hsender)
    cases hlist : r.receiverChains.toList with
    | nil => exact absurd hlist hne
    | cons chain rest => exact ⟨chain, rfl⟩
  · intro reader m plaintext maxPlaintextLength m' n hverify
    rw [verifyMacAndDecryptForNewChain] at hverify
    cases hlist : r.senderChain.toList with
    | nil =>
        rw [hlist] at hverify
        cases (Prod.mk.inj hverify).2
    | cons chain rest => exact ⟨chain, rfl⟩

/-- The suite of a session has a cipher that keeps to its buffer. -/
theorem olmSuite_framed (prim : Primitives) :
    (OlmSession.olmSuite prim).ratchetCipher.Framed :=
  (aesSha256Cipher_framed prim _).onKeys _

/-- Bob's ratchet behind a message that he sent and one that he could not read. -/
theorem run_represented_bob :
    let S := OlmSession.olmSuite demoPrimitives
    let zero : OlmSession.SharedKey := Vector.replicate 32 0
    let bob := initialiseAsBob S (newRatchet zero) [1, 2, 3] (Vector.replicate 32 7)
    let sent := (encrypt S bob (fun _ => 0) 0 5 100 32 200 500).2.1
    let call := decrypt S sent OlmSession.messageReader (fun _ => 0) 0 40 100 40
    Represented S call.2.1 (startedChain sent (fun _ => 0)
      (decodeMessage OlmSession.messageReader (fun _ => 0) 0 40 8) call.2.2
        ++ [Vector.replicate 32 7]) :=
  run_represented _ (olmSuite_framed demoPrimitives)
    (Run.decrypt _ _ _ _ _ _ (Or.inr (by decide))
      (Run.encrypt _ _ _ _ _ _ _ (Run.bob _ _)))

end OlmRatchet
