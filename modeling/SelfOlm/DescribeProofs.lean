import SelfOlm.Session
import SelfOlm.Lib.BoundedPrint

/-! # The description of a session

    `Session::describe` prints the indices of a session's chains and skipped keys into
    the caller's buffer.  It asks for the first sender chain whether there is one or not,
    and goes on at the would-be position after a text that did not fit. -/

namespace OlmSession

open ByteMemory OlmCrypto OlmRatchet OlmList AccessLog Logged BoundedPrint

/-! ## The code -/

variable {B : Type}

/-- An index in a list of chains or keys, as `%d` prints it. -/
def indexText (index : UInt32) : Bytes := decimal index.toInt32.toInt

/-- `sender_chain[0].chain_key.index`.  `stale` is what the place holds where the list is
    empty; the access is one of an item of the list. -/
def senderChainIndex (senderChain : Pointer B) (chains : BoundedList (SenderChain SharedKey) 1)
    (stale : UInt32) : Logged B UInt32 :=
  fun m => ((chains.toList.head?.map (fun chain => chain.chainKey.index)).getD stale, m,
    [.load senderChain.object senderChain.address 1])

/-- A `for` loop over indices. -/
def describeIndices (buffer : Pointer B) (buflen : UInt64) : List UInt32 → Nat → Logged B Nat
  | [], pos => pure pos
  | index :: indices, pos => do
      let pos ← printText buffer buflen pos (ascii " " ++ indexText index)
      describeIndices buffer buflen indices pos

/-- `Session::describe`. -/
def describe (s : Session) (stale : UInt32) (senderChain describeBuffer : Pointer B)
    (buflen : UInt64) : Logged B Unit :=
  if buflen = 0 then pure ()
  else do
    store describeBuffer [0]
    let index ← senderChainIndex senderChain s.ratchet.senderChain stale
    let pos ← printText describeBuffer buflen 0
      (ascii "sender chain index: " ++ indexText index ++ ascii " ")
    let pos ← printText describeBuffer buflen pos (ascii "receiver chain indices:")
    let pos ← describeIndices describeBuffer buflen
      (s.ratchet.receiverChains.toList.map (fun chain => chain.chainKey.index)) pos
    let pos ← printText describeBuffer buflen pos (ascii " skipped message keys:")
    let _ ← describeIndices describeBuffer buflen
      (s.ratchet.skippedMessageKeys.toList.map (fun key => key.messageKey.index)) pos
    pure ()

/-! ## The texts of a description -/

/-- The index of the sender chain. -/
def senderText (index : UInt32) : Bytes :=
  ascii "sender chain index: " ++ indexText index ++ ascii " "

/-- The texts behind that of the sender chain. -/
def listTexts (s : Session) : List Bytes :=
  ascii "receiver chain indices:"
      :: s.ratchet.receiverChains.toList.map (fun chain =>
        ascii " " ++ indexText chain.chainKey.index)
    ++ ascii " skipped message keys:"
      :: s.ratchet.skippedMessageKeys.toList.map (fun key =>
        ascii " " ++ indexText key.messageKey.index)

theorem describeIndices_eq {T : Type} (buffer : Pointer B) (buflen : UInt64) (index : T → UInt32)
    (items : List T) :
    ∀ pos, describeIndices buffer buflen (items.map index) pos
      = printTexts buffer buflen (items.map (fun item => ascii " " ++ indexText (index item)))
          pos := by
  induction items with
  | nil =>
      intro pos
      rfl
  | cons item items ih =>
      intro pos
      rw [List.map_cons, List.map_cons, describeIndices, printTexts]
      exact congrArg _ (funext ih)

/-- The texts are printed one behind another. -/
theorem describe_eq (s : Session) (stale : UInt32) (senderChain describeBuffer : Pointer B)
    {buflen : UInt64} (hbuflen : buflen ≠ 0) :
    describe s stale senderChain describeBuffer buflen
      = (do
          store describeBuffer [0]
          let index ← senderChainIndex senderChain s.ratchet.senderChain stale
          let _ ← printTexts describeBuffer buflen (senderText index :: listTexts s) 0
          pure ()) := by
  rw [describe, if_neg hbuflen]
  simp only [listTexts, printTexts, List.cons_append, printTexts_append, bind_assoc,
    describeIndices_eq, senderText]

theorem length_indexText_le (index : UInt32) : (indexText index).length ≤ 11 := by
  refine length_decimal_le ?_
  have hlow := index.toInt32.le_toInt
  have hhigh := index.toInt32.toInt_lt
  omega

/-- No text is long. -/
theorem length_texts_le {s : Session} {index : UInt32} {text : Bytes}
    (h : text ∈ senderText index :: listTexts s) : text.length ≤ 32 := by
  have hitem : ∀ index, (ascii " " ++ indexText index).length ≤ 32 := by
    intro index
    have hindex := length_indexText_le index
    rw [List.length_append, show (ascii " ").length = 1 by decide]
    omega
  rcases List.mem_cons.mp h with rfl | h
  · have hindex := length_indexText_le index
    rw [senderText, List.length_append, List.length_append,
      show (ascii "sender chain index: ").length = 20 by decide,
      show (ascii " ").length = 1 by decide]
    omega
  · rcases List.mem_append.mp h with h | h
    · rcases List.mem_cons.mp h with rfl | h
      · decide
      · obtain ⟨chain, -, rfl⟩ := List.mem_map.mp h
        exact hitem _
    · rcases List.mem_cons.mp h with rfl | h
      · decide
      · obtain ⟨key, -, rfl⟩ := List.mem_map.mp h
        exact hitem _

/-! ## Bounds -/

/-- The objects of `describe`; those of the sender chain are its items. -/
inductive DescribeObject where
  | senderChain | describeBuffer

def describeLayout (start : DescribeObject → Nat) (s : Session) (buflen : UInt64) :
    Layout DescribeObject where
  start := start
  size
    | .senderChain => s.ratchet.senderChain.toList.length
    | .describeBuffer => buflen.toNat

/-- `olm_session_describe` on the objects of a layout. -/
def describeCall (s : Session) (stale : UInt32) (layout : Layout DescribeObject)
    (buflen : UInt64) : Logged DescribeObject Unit :=
  describe s stale (layout.pointer .senderChain) (layout.pointer .describeBuffer) buflen

/-- The session has a sender chain, and the texts before the last one fit. -/
def DescriptionFits (s : Session) (buflen : UInt64) : Prop :=
  ∃ chain, s.ratchet.senderChain.toList.head? = some chain ∧
    ((senderText chain.chainKey.index :: listTexts s).dropLast.flatten).length ≤ buflen.toNat

theorem describeCall_inBounds_iff (s : Session) (stale : UInt32) (m : Mem)
    (start : DescribeObject → Nat) {buflen : UInt64} (hbuflen : buflen ≠ 0) :
    All (Access.InBounds (describeLayout start s buflen))
        (describeCall s stale (describeLayout start s buflen) buflen) m
      ↔ DescriptionFits s buflen := by
  have hpos : 0 < buflen.toNat := by
    refine Nat.pos_of_ne_zero (fun hzero => hbuflen ?_)
    exact UInt64.toNat_inj.mp hzero
  have hfirst : (describeLayout start s buflen).Holds .describeBuffer (start .describeBuffer) 1 :=
    Layout.holds_start_iff.mpr hpos
  have htexts : ∀ index m, All (Access.InBounds (describeLayout start s buflen))
      (printTexts ((describeLayout start s buflen).pointer .describeBuffer) buflen
        (senderText index :: listTexts s) 0) m
      ↔ ((senderText index :: listTexts s).dropLast.flatten).length ≤ buflen.toNat := by
    intro index m
    refine (printTexts_inBounds_iff rfl ?_ 0 m (Nat.zero_le _)).trans (by rw [Nat.zero_add])
    intro text htext
    have hle := length_texts_le htext
    omega
  have hchain : ∀ m, All (Access.InBounds (describeLayout start s buflen)) (senderChainIndex
      ((describeLayout start s buflen).pointer .senderChain) s.ratchet.senderChain stale) m
      ↔ 1 ≤ s.ratchet.senderChain.toList.length :=
    fun m => List.forall_mem_singleton.trans Layout.holds_start_iff
  rw [describeCall, describe_eq s stale _ _ hbuflen]
  simp only [all_bind, all_store, hchain, htexts]
  have hindex : ∀ m, result (senderChainIndex ((describeLayout start s buflen).pointer .senderChain)
      s.ratchet.senderChain stale) m
      = (s.ratchet.senderChain.toList.head?.map (fun chain => chain.chainKey.index)).getD stale :=
    fun _ => rfl
  rw [hindex, DescriptionFits]
  cases s.ratchet.senderChain.toList with
  | nil =>
      refine iff_of_false ?_ ?_
      · rintro ⟨-, hlength, -⟩
        exact absurd hlength (by decide)
      · rintro ⟨chain, hnone, -⟩
        cases hnone
  | cons chain chains =>
      constructor
      · rintro ⟨-, -, hfits, -⟩
        exact ⟨chain, rfl, hfits⟩
      · rintro ⟨_, hsome, hfits⟩
        cases hsome
        exact ⟨hfirst, Nat.succ_pos _, hfits, all_pure _ _⟩

/-- Where the description fits, the zero behind it, or behind what there is room for. -/
theorem describeCall_terminated (s : Session) (stale : UInt32) (m : Mem)
    (start : DescribeObject → Nat) {buflen : UInt64} (hbuflen : buflen ≠ 0)
    (hfits : DescriptionFits s buflen) :
    ∃ i < buflen.toNat, memory (describeCall s stale (describeLayout start s buflen) buflen) m
      (start .describeBuffer + i) = 0 := by
  have hpos : 0 < buflen.toNat := by
    refine Nat.pos_of_ne_zero (fun hzero => hbuflen ?_)
    exact UInt64.toNat_inj.mp hzero
  obtain ⟨chain, hchain, hfits⟩ := hfits
  have hindex : ∀ m, result (senderChainIndex ((describeLayout start s buflen).pointer .senderChain)
      s.ratchet.senderChain stale) m = chain.chainKey.index := by
    intro m
    show (s.ratchet.senderChain.toList.head?.map _).getD stale = _
    rw [hchain]
    rfl
  have hmemory : ∀ m, memory (senderChainIndex ((describeLayout start s buflen).pointer .senderChain)
      s.ratchet.senderChain stale) m = m := fun _ => rfl
  rw [describeCall, describe_eq s stale _ _ hbuflen]
  simp only [memory_bind, memory_store, memory_pure, hindex, hmemory]
  refine ⟨_, ?_, printTexts_terminated 0 _ (by rw [Nat.zero_add]; exact hfits) ?_⟩
  · omega
  · rw [Terminated, Nat.zero_min]
    exact write_inside m _ [0] (by decide)

/-- **BOUNDS** of `describe`. -/
theorem describe_inBounds_iff (s : Session) (stale : UInt32) (m : Mem)
    (start : DescribeObject → Nat) (buflen : UInt64) :
    (buflen ≠ 0 →
        All (Access.InBounds (describeLayout start s buflen))
            (describeCall s stale (describeLayout start s buflen) buflen) m ∧
          ∃ i < buflen.toNat, memory (describeCall s stale (describeLayout start s buflen) buflen) m
            (start .describeBuffer + i) = 0)
      ↔ (buflen ≠ 0 → DescriptionFits s buflen) := by
  constructor
  · intro h hbuflen
    exact (describeCall_inBounds_iff s stale m start hbuflen).mp (h hbuflen).1
  · intro h hbuflen
    exact ⟨(describeCall_inBounds_iff s stale m start hbuflen).mpr (h hbuflen),
      describeCall_terminated s stale m start hbuflen (h hbuflen)⟩

/-- A session that can send. -/
def demoSender : Session :=
  { newSession with
    ratchet := { newSession.ratchet with
      senderChain := ⟨[⟨⟨Vector.replicate 32 1, Vector.replicate 32 2⟩,
        ⟨0, Vector.replicate 32 3⟩⟩], Nat.le_refl 1⟩ } }

/-- Objects that are apart. -/
def demoDescribeStart : DescribeObject → Nat
  | .senderChain => 0
  | .describeBuffer => 100

/-- Sixteen bytes overflow, and a session that has not sent is asked for its sender chain. -/
theorem describe_overflows :
    ¬All (Access.InBounds (describeLayout demoDescribeStart demoSender 16))
        (describeCall demoSender 0 (describeLayout demoDescribeStart demoSender 16) 16)
        (fun _ => 0) ∧
      newSession.ratchet.senderChain.toList = [] ∧
      Access.load .senderChain 0 1 ∈ accesses (describeCall newSession 0
        (describeLayout demoDescribeStart newSession 1000) 1000) (fun _ => 0) := by
  refine ⟨?_, rfl, ?_⟩
  · rw [describeCall_inBounds_iff _ _ _ _ (by decide)]
    rintro ⟨chain, hchain, hfits⟩
    cases hchain
    exact absurd hfits (by decide +kernel)
  · rw [describeCall, describe_eq _ _ _ _ (by decide)]
    exact List.mem_cons_of_mem _ List.mem_cons_self

end OlmSession
