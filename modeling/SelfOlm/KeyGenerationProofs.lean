import SelfOlm.OneTimeKeyProofs
import SelfOlm.Lib.ReadOnly

/-! # Which random bytes are used

    `generate_one_time_keys` again, with the arithmetic of the machine: the number of
    keys is a `size_t`, the length that is needed is a product in that type, and the
    counter of the loop is an `unsigned`.  The loop is a relation, so a loop that does
    not end has no run. -/

namespace OlmAccount

open ByteMemory OlmCrypto OlmList AccessLog

variable (prim : Primitives) {B : Type}

/-! ## The code -/

/-- `generate_one_time_keys_random_length` where a `size_t` has `w` bits. -/
def machineRandomLength (w numberOfKeys : Nat) : Nat :=
  generateOneTimeKeysRandomLength numberOfKeys % 2 ^ w

/-- The variables of the loop. -/
structure GenerateLoop (B : Type) where
  i : UInt32
  account : Account
  random : Pointer B

/-- `i < number_of_keys`. -/
def loopAgain (numberOfKeys : Nat) (s : GenerateLoop B) : Bool :=
  decide (s.i.toNat < numberOfKeys)

/-- One pass: a key from 32 random bytes. -/
def loopBody (s : GenerateLoop B) : Logged B (GenerateLoop B) := do
  let random ← Logged.loadArray 32 s.random
  let id := s.account.nextOneTimeKeyId + 1
  pure {
    i := s.i + 1
    account := { s.account with
      nextOneTimeKeyId := id
      oneTimeKeys := s.account.oneTimeKeys.insert
        { id, published := false, key := cryptoCurve25519GenerateKey prim random } }
    random := s.random.add 32 }

/-- The loop from its first test on. -/
def firstLoop (a : Account) (random : Pointer B) : GenerateLoop B :=
  { i := 0, account := a, random }

/-- The loop ends behind one pass for every key, and loads only from the random bytes. -/
def ConsumesRandom (a : Account) (numberOfKeys : Nat) (m : Mem) (random : Pointer B)
    (randomLength : Nat) : Prop :=
  ∃ s' m' log states,
    LoopRuns (loopAgain numberOfKeys) (loopBody prim) (firstLoop a random) m s' m' log states ∧
      states.length = numberOfKeys + 1 ∧
      ∀ access ∈ log, Access.Within
        (fun _ p k => random.address ≤ p ∧ p + k ≤ random.address + randomLength)
        (fun _ _ _ => False) access

/-! ## Runs of the loop -/

/-- The loads of `k` passes. -/
def loopLoads (random : Pointer B) (k : Nat) : List (Access B) :=
  (List.range k).map fun j => .load random.object (random.address + 32 * j) 32

theorem loopLoads_succ (random : Pointer B) (k : Nat) :
    loopLoads random (k + 1)
      = .load random.object random.address 32 :: loopLoads (random.add 32) k := by
  rw [loopLoads, loopLoads, List.range_succ_eq_map, List.map_cons, List.map_map]
  refine congrArg (List.cons _) (List.map_congr_left fun j _ => ?_)
  show Access.load random.object (random.address + 32 * (j + 1)) 32
    = Access.load random.object (random.address + 32 + 32 * j) 32
  rw [Nat.mul_succ, Nat.add_assoc, Nat.add_comm (32 * j)]

/-- **THE LOOP** ends where the counter can count the keys; it computes what the loop without
    machine numbers does. -/
theorem loopRuns_of_lt {numberOfKeys : Nat} (hn : numberOfKeys < 2 ^ 32) (m : Mem) :
    ∀ (k : Nat) (s : GenerateLoop B), s.i.toNat + k = numberOfKeys →
      ∃ s' states, LoopRuns (loopAgain numberOfKeys) (loopBody prim) s m s' m
          (loopLoads s.random k) states ∧ states.length = k + 1 ∧
        s'.account = generateOneTimeKeysLoop prim k s.account m s.random.address := by
  intro k
  induction k with
  | zero =>
      intro s hs
      refine ⟨s, [s], .stop (decide_eq_false (by omega)), rfl, rfl⟩
  | succ k ih =>
      intro s hs
      have hnext : (s.i + 1).toNat = s.i.toNat + 1 := by
        rw [UInt32.toNat_add]
        exact Nat.mod_eq_of_lt (by show s.i.toNat + 1 < 2 ^ 32; omega)
      obtain ⟨s', states, hruns, hlength, haccount⟩ :=
        ih (Logged.result (loopBody prim s) m) (by show (s.i + 1).toNat + k = _; omega)
      refine ⟨s', s :: states, ?_, by rw [List.length_cons, hlength], haccount⟩
      rw [loopLoads_succ]
      exact .pass (decide_eq_true (by omega)) hruns

/-- A counter that is always below the number of keys. -/
theorem not_loopRuns {numberOfKeys : Nat} (hn : 2 ^ 32 ≤ numberOfKeys) {s s' : GenerateLoop B}
    {m m' : Mem} {log : List (Access B)} {states : List (GenerateLoop B)} :
    ¬LoopRuns (loopAgain numberOfKeys) (loopBody prim) s m s' m' log states := by
  intro hruns
  induction hruns with
  | @stop s m h =>
      have hlt := s.i.toNat_lt
      exact of_decide_eq_false h (by omega)
  | pass _ _ ih => exact ih

/-- Where the counter can count the keys, the buffer has to have 32 bytes for each. -/
theorem consumesRandom_iff_of_lt {numberOfKeys : Nat} (hn : numberOfKeys < 2 ^ 32) (a : Account)
    (m : Mem) (random : Pointer B) (randomLength : Nat) :
    ConsumesRandom prim a numberOfKeys m random randomLength
      ↔ generateOneTimeKeysRandomLength numberOfKeys ≤ randomLength := by
  rw [generateOneTimeKeysRandomLength]
  obtain ⟨s', states, hruns, hlength, -⟩ :=
    loopRuns_of_lt prim hn m numberOfKeys (firstLoop a random) (Nat.zero_add _)
  constructor
  · rintro ⟨s₁, m₁, log, states₁, hruns₁, -, hlog⟩
    obtain ⟨-, -, rfl, -⟩ := hruns.unique hruns₁
    rcases Nat.eq_zero_or_pos numberOfKeys with rfl | hpos
    · exact Nat.zero_le _
    · -- the last pass
      have hlast := hlog (.load random.object (random.address + 32 * (numberOfKeys - 1)) 32)
        (List.mem_map.mpr ⟨numberOfKeys - 1, List.mem_range.mpr (by omega), rfl⟩)
      have hbound : random.address + 32 * (numberOfKeys - 1) + 32
          ≤ random.address + randomLength := hlast.2
      omega
  · intro hroom
    refine ⟨s', m, _, states, hruns, hlength, fun access haccess => ?_⟩
    obtain ⟨j, hj, rfl⟩ := List.mem_map.mp haccess
    have hlt := List.mem_range.mp hj
    exact ⟨Nat.le_add_right _ _, by show random.address + 32 * j + 32 ≤ _; omega⟩

theorem not_consumesRandom {numberOfKeys : Nat} (hn : 2 ^ 32 ≤ numberOfKeys) (a : Account)
    (m : Mem) (random : Pointer B) (randomLength : Nat) :
    ¬ConsumesRandom prim a numberOfKeys m random randomLength := by
  rintro ⟨s', m', log, states, hruns, -, -⟩
  exact not_loopRuns prim hn hruns

/-- **THE RANDOM BYTES** of a call that passes the length check: the loop keeps to them, and
    ends, where neither the counter nor the product wraps around. -/
theorem generateOneTimeKeys_consumes_iff {w numberOfKeys randomLength : Nat}
    (hlength : randomLength < 2 ^ w)
    (hcheck : machineRandomLength w numberOfKeys ≤ randomLength) (a : Account) (m : Mem)
    (random : Pointer B) :
    ConsumesRandom prim a numberOfKeys m random randomLength
      ↔ numberOfKeys < 2 ^ 32 ∧ 32 * numberOfKeys < 2 ^ w := by
  by_cases hn : numberOfKeys < 2 ^ 32
  · rw [consumesRandom_iff_of_lt prim hn, and_iff_right hn, generateOneTimeKeysRandomLength]
    constructor
    · intro hroom
      exact Nat.lt_of_le_of_lt hroom hlength
    · intro hproduct
      rw [machineRandomLength, generateOneTimeKeysRandomLength, Nat.mod_eq_of_lt hproduct] at hcheck
      exact hcheck
  · exact iff_of_false (not_consumesRandom prim (Nat.le_of_not_lt hn) a m random randomLength)
      (fun h => hn h.1)

theorem generateOneTimeKeys_consumes_two :
    ConsumesRandom demoPrimitives newAccountObject 2 demoKeyMemory ⟨(), 0⟩ 64 :=
  (generateOneTimeKeys_consumes_iff demoPrimitives (w := 64) (by decide) (by decide)
    newAccountObject demoKeyMemory ⟨(), 0⟩).mpr (by decide)

/-- No random bytes pass the check for `2 ^ 59` keys, and the loop does not end.  Where a
    `size_t` has 32 bits, `2 ^ 27` keys are read from behind an empty buffer. -/
theorem generateOneTimeKeys_wraps :
    (machineRandomLength 64 (2 ^ 59) ≤ 0 ∧
      ¬ConsumesRandom demoPrimitives newAccountObject (2 ^ 59) demoKeyMemory ⟨(), 0⟩ 0) ∧
    machineRandomLength 32 (2 ^ 27) ≤ 0 ∧
      ¬ConsumesRandom demoPrimitives newAccountObject (2 ^ 27) demoKeyMemory ⟨(), 0⟩ 0 := by
  refine ⟨⟨by decide, not_consumesRandom demoPrimitives (by decide) _ _ _ _⟩, by decide, ?_⟩
  rw [consumesRandom_iff_of_lt demoPrimitives (by decide)]
  decide

end OlmAccount
