import SelfOlm.Lib.AccessLog

/-! # Programs that only load

    `Computes P x m a` is the rule for straight-line code: from the memory `m` the program
    `x` computes `a`, leaves the memory as it is and makes accesses of `P` only.  A loop
    without a bound is a relation between the state before and the state behind it, so
    that a loop which does not end has no run; `loopRuns_of_computes` is the rule for it. -/

namespace AccessLog

open ByteMemory Logged

variable {B α β S : Type} {P : Access B → Prop} {m : Mem}

/-- From this memory the program computes `a` with these accesses. -/
structure Computes (P : Access B → Prop) (x : Logged B α) (m : Mem) (a : α) : Prop where
  result : result x m = a
  memory : memory x m = m
  accesses : All P x m

theorem computes_pure (a : α) : Computes P (pure a : Logged B α) m a :=
  ⟨rfl, rfl, all_pure a m⟩

theorem computes_load {p : Pointer B} (h : P (.load p.object p.address 1)) :
    Computes P (load p) m (m p.address) :=
  ⟨rfl, rfl, (all_load p m).mpr h⟩

theorem Computes.bind {x : Logged B α} {f : α → Logged B β} {a : α} {b : β}
    (hx : Computes P x m a) (hf : Computes P (f a) m b) : Computes P (x >>= f) m b := by
  obtain ⟨rfl, hmemory, haccesses⟩ := hx
  have hrest : Computes P (f (Logged.result x m)) (Logged.memory x m) b := by rwa [hmemory]
  refine ⟨hrest.result, hrest.memory.trans hmemory, (all_bind x f m).mpr ⟨haccesses, ?_⟩⟩
  exact hrest.accesses

/-! ## Loops -/

/-- `while (again)`: the state and the memory behind the loop, its accesses, and the states
    in which the condition was tested. -/
inductive LoopRuns (again : S → Bool) (body : S → Logged B S) :
    S → Mem → S → Mem → List (Access B) → List S → Prop
  | stop {s : S} {m : Mem} (h : again s = false) : LoopRuns again body s m s m [] [s]
  | pass {s s' : S} {m m' : Mem} {log : List (Access B)} {states : List S} (h : again s = true)
      (hrest : LoopRuns again body (Logged.result (body s) m) (Logged.memory (body s) m) s' m'
        log states) :
      LoopRuns again body s m s' m' (Logged.accesses (body s) m ++ log) (s :: states)

/-- There is at most one run. -/
theorem LoopRuns.unique {again : S → Bool} {body : S → Logged B S} {s s₁ s₂ : S}
    {m m₁ m₂ : Mem} {log₁ log₂ : List (Access B)} {states₁ states₂ : List S}
    (h₁ : LoopRuns again body s m s₁ m₁ log₁ states₁)
    (h₂ : LoopRuns again body s m s₂ m₂ log₂ states₂) :
    s₁ = s₂ ∧ m₁ = m₂ ∧ log₁ = log₂ ∧ states₁ = states₂ := by
  induction h₁ generalizing s₂ m₂ log₂ states₂ with
  | stop h =>
      cases h₂ with
      | stop _ => exact ⟨rfl, rfl, rfl, rfl⟩
      | pass h' _ => exact absurd (h.symm.trans h') (by decide)
  | pass h _ ih =>
      cases h₂ with
      | stop h' => exact absurd (h.symm.trans h') (by decide)
      | pass _ hrest =>
          obtain ⟨rfl, rfl, rfl, rfl⟩ := ih hrest
          exact ⟨rfl, rfl, rfl, rfl⟩

/-- **A LOOP ENDS** where its passes keep an invariant and decrease a measure.  All states
    that are tested satisfy the invariant, and all accesses are those of the passes. -/
theorem loopRuns_of_computes {again : S → Bool} {body : S → Logged B S} {next : S → S}
    (Inv : S → Prop) (measure : S → Nat)
    (hbody : ∀ s, Inv s → again s = true →
      Computes P (body s) m (next s) ∧ Inv (next s) ∧ measure (next s) < measure s) :
    ∀ (n : Nat) (s : S), measure s = n → Inv s →
      ∃ s' log states, LoopRuns again body s m s' m log states ∧ Inv s' ∧ again s' = false ∧
        (∀ a ∈ log, P a) ∧ ∀ t ∈ states, Inv t := by
  intro n
  induction n using Nat.strongRecOn with
  | ind n ih =>
      intro s hn hs
      cases hagain : again s with
      | false =>
          refine ⟨s, [], [s], .stop hagain, hs, hagain, ?_, ?_⟩
          · intro a ha
            cases ha
          · exact List.forall_mem_singleton.mpr hs
      | true =>
          obtain ⟨hcomputes, hnext, hless⟩ := hbody s hs hagain
          obtain ⟨s', log, states, hruns, hs', hstop, hlog, hstates⟩ :=
            ih (measure (next s)) (hn ▸ hless) (next s) rfl hnext
          have hpass : LoopRuns again body s m s' m (Logged.accesses (body s) m ++ log)
              (s :: states) := by
            refine .pass hagain ?_
            rwa [hcomputes.result, hcomputes.memory]
          refine ⟨s', _, _, hpass, hs', hstop, ?_, ?_⟩
          · exact List.forall_mem_append.mpr ⟨hcomputes.accesses, hlog⟩
          · exact List.forall_mem_cons.mpr ⟨hs, hstates⟩

end AccessLog
