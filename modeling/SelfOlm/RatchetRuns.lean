import SelfOlm.RatchetStepProofs
import SelfOlm.SuiteMap
import SelfOlm.SessionFailureProofs

/-! # Runs of calls

    A run is any list of calls, each with memory of its own: what is in the
    buffers, the random bytes and the messages is arbitrary.  A session only
    reaches its ratchet through such calls. -/

namespace OlmRatchet

open ByteMemory OlmCrypto OlmMessage OlmList

variable {K I : Type} (S : Suite K I)

/-- A call on a ratchet. -/
inductive RatchetCall where
  | encrypt (m : Mem) (plaintext plaintextLength random randomLength output maxOutputLength : Nat)
  | decrypt (stack : MessageReader) (m : Mem)
      (input inputLength plaintext maxPlaintextLength : Nat)
  /-- `ratchet.last_error = OLM_SUCCESS` in `session.cpp`. -/
  | clearError

/-- The call: memory, ratchet and result. -/
def RatchetCall.run : RatchetCall → Ratchet K → Mem × Ratchet K × Option Nat
  | .encrypt m plaintext plaintextLength random randomLength output maxOutputLength, r =>
      OlmRatchet.encrypt S r m plaintext plaintextLength random randomLength output maxOutputLength
  | .decrypt stack m input inputLength plaintext maxPlaintextLength, r =>
      OlmRatchet.decrypt S r stack m input inputLength plaintext maxPlaintextLength
  | .clearError, r => (fun _ => 0, { r with lastError := .success }, some 0)

/-- The key that a message is encrypted under, where the call sends one. -/
def RatchetCall.sentKey (call : RatchetCall) (r : Ratchet K) : List K :=
  match call with
  | .encrypt m _ _ random _ _ _ =>
      if (call.run S r).2.2.isSome then [(sendingKey S r (load 32 m random)).key] else []
  | _ => []

/-- A run: the ratchet behind it, and the keys of the messages that were sent. -/
def runCalls : List RatchetCall → Ratchet K → Ratchet K × List K
  | [], r => (r, [])
  | call :: calls, r =>
      let (r', keys) := runCalls calls (call.run S r).2.1
      (r', call.sentKey S r ++ keys)

theorem runCalls_append (calls calls' : List RatchetCall) (r : Ratchet K) :
    runCalls S (calls ++ calls') r
      = ((runCalls S calls' (runCalls S calls r).1).1,
          (runCalls S calls r).2 ++ (runCalls S calls' (runCalls S calls r).1).2) := by
  induction calls generalizing r with
  | nil => rfl
  | cons call calls ih =>
      rw [List.cons_append, runCalls, ih, runCalls, List.append_assoc]

/-! ## The keys that the cipher is called with -/

/-- The call sends a message, and what it stores last is what the cipher stores under
    this key. -/
def RatchetCall.EncryptsWith (call : RatchetCall) (r : Ratchet K) (key : K) : Prop :=
  match call with
  | .encrypt _ plaintext plaintextLength _ _ output _ =>
      ∃ m₁ ciphertext n, (call.run S r).2.2 = some n ∧
        (call.run S r).1 = (S.ratchetCipher.encrypt key m₁ plaintext plaintextLength ciphertext
          (S.ratchetCipher.encryptCiphertextLength plaintextLength) output n).1
  | _ => False

/-- The call accepts a message, and its memory and its result are those of the cipher
    that opens the message under this key. -/
def RatchetCall.DecryptsWith (call : RatchetCall) (r : Ratchet K) (key : K) : Prop :=
  match call with
  | .decrypt stack m input inputLength plaintext maxPlaintextLength =>
      let reader := decodeMessage stack m input inputLength S.ratchetCipher.macLength
      ∃ m₁ n, (call.run S r).2.2 = some n ∧
        S.ratchetCipher.decrypt key m₁ reader.input reader.inputLength (reader.ciphertext.getD 0)
          reader.ciphertextLength plaintext maxPlaintextLength = ((call.run S r).1, some n)
  | _ => False

/-- The keys of a run in the order of its calls: one for each call that has one. -/
inductive KeysOf (keyed : RatchetCall → Ratchet K → K → Prop) :
    List RatchetCall → Ratchet K → List K → Prop
  | done (r : Ratchet K) : KeysOf keyed [] r []
  | key {call : RatchetCall} {calls : List RatchetCall} {r : Ratchet K} {key : K} {keys : List K}
      (hkey : keyed call r key) (hrest : KeysOf keyed calls (call.run S r).2.1 keys) :
      KeysOf keyed (call :: calls) r (key :: keys)
  | none {call : RatchetCall} {calls : List RatchetCall} {r : Ratchet K} {keys : List K}
      (hnone : ∀ key, ¬keyed call r key) (hrest : KeysOf keyed calls (call.run S r).2.1 keys) :
      KeysOf keyed (call :: calls) r keys

variable {S}

theorem encrypt_cipher {r r' : Ratchet K} {m m' : Mem}
    {plaintext plaintextLength random randomLength output maxOutputLength n : Nat}
    (h : encrypt S r m plaintext plaintextLength random randomLength output maxOutputLength
      = (m', r', some n)) :
    RatchetCall.EncryptsWith S
      (.encrypt m plaintext plaintextLength random randomLength output maxOutputLength) r
      (sendingKey S r (load 32 m random)).key := by
  rw [RatchetCall.EncryptsWith, RatchetCall.run, h]
  exact ⟨_, _, n, rfl, (encrypt_stored S h).2.2⟩

/-- A call that fails goes with no key. -/
theorem RatchetCall.not_encryptsWith {call : RatchetCall} {r : Ratchet K}
    (h : (call.run S r).2.2 = none) (key : K) : ¬call.EncryptsWith S r key := by
  intro hkey
  cases call with
  | encrypt m plaintext plaintextLength random randomLength output maxOutputLength =>
      obtain ⟨m₁, ciphertext, n, hn, -⟩ := hkey
      rw [h] at hn
      cases hn
  | decrypt stack m input inputLength plaintext maxPlaintextLength => exact hkey
  | clearError => exact hkey

/-- **THE KEYS OF SENDING** are those that the cipher is called with. -/
theorem runCalls_encrypts (calls : List RatchetCall) (r : Ratchet K) :
    KeysOf S (RatchetCall.EncryptsWith S) calls r (runCalls S calls r).2 := by
  induction calls generalizing r with
  | nil => exact KeysOf.done r
  | cons call calls ih =>
      rw [runCalls]
      cases call with
      | encrypt m plaintext plaintextLength random randomLength output maxOutputLength =>
          rw [RatchetCall.sentKey]
          rcases hcall : (RatchetCall.encrypt m plaintext plaintextLength random randomLength output
            maxOutputLength).run S r with ⟨m', r', _ | n⟩
          · have hfailed := congrArg (fun outcome => outcome.2.2) hcall
            refine KeysOf.none (RatchetCall.not_encryptsWith hfailed) ?_
            rw [hcall]
            exact ih r'
          · refine KeysOf.key (encrypt_cipher hcall) ?_
            rw [hcall]
            exact ih r'
      | decrypt stack m input inputLength plaintext maxPlaintextLength =>
          exact KeysOf.none (fun key hkey => hkey) (ih _)
      | clearError => exact KeysOf.none (fun key hkey => hkey) (ih _)

/-! ## Translated runs -/

variable {K' I' : Type} {S' : Suite K' I'} (f : SuiteHom S S')

theorem SuiteHom.run (call : RatchetCall) (r : Ratchet K) :
    call.run S' (r.map f.key) = mapCall f.key (call.run S r) := by
  cases call with
  | encrypt m plaintext plaintextLength random randomLength output maxOutputLength =>
      exact f.encrypt r m plaintext plaintextLength random randomLength output maxOutputLength
  | decrypt stack m input inputLength plaintext maxPlaintextLength =>
      exact f.decrypt r stack m input inputLength plaintext maxPlaintextLength
  | clearError => rfl

theorem SuiteHom.sentKey (call : RatchetCall) (r : Ratchet K) :
    call.sentKey S' (r.map f.key) = (call.sentKey S r).map f.key := by
  cases call with
  | encrypt m plaintext plaintextLength random randomLength output maxOutputLength =>
      rw [RatchetCall.sentKey, RatchetCall.sentKey, f.run, sendingKey, f.senderChainFor]
      simp only [mapCall, Prod.map, SenderChain.map, f.createMessageKeys]
      split
      · rfl
      · rfl
  | decrypt stack m input inputLength plaintext maxPlaintextLength => rfl
  | clearError => rfl

/-- A run of calls under translated keys is the translated run. -/
theorem SuiteHom.runCalls (calls : List RatchetCall) (r : Ratchet K) :
    runCalls S' calls (r.map f.key)
      = ((runCalls S calls r).1.map f.key, (runCalls S calls r).2.map f.key) := by
  induction calls generalizing r with
  | nil => rfl
  | cons call calls ih =>
      rw [OlmRatchet.runCalls, OlmRatchet.runCalls, f.run, f.sentKey]
      simp only [mapCall]
      rw [ih, List.map_append]

end OlmRatchet

namespace OlmSession

open ByteMemory OlmCrypto OlmMessage OlmRatchet OlmAccount

variable (prim : Primitives)

/-! ## Runs of sessions -/

/-- A call on a session. -/
inductive SessionCall where
  | encrypt (m : Mem) (plaintext plaintextLength random randomLength message messageLength : Nat)
  | decrypt (stack : MessageReader) (messageType : MessageType) (m : Mem)
      (message messageLength plaintext maxPlaintextLength : Nat)

/-- The session behind the call. -/
def SessionCall.run (call : SessionCall) (s : Session) : Session :=
  match call with
  | .encrypt m plaintext plaintextLength random randomLength message messageLength =>
      (OlmSession.encrypt prim s m plaintext plaintextLength random randomLength message
        messageLength).2.1
  | .decrypt stack messageType m message messageLength plaintext maxPlaintextLength =>
      (OlmSession.decrypt prim s stack messageType m message messageLength plaintext
        maxPlaintextLength).2.1

def runSession (calls : List SessionCall) (s : Session) : Session :=
  calls.foldl (fun s call => call.run prim s) s

/-- A call on the ratchet, and what the session does where it fails. -/
def reporting (r : Ratchet SharedKey) (call : RatchetCall) : List RatchetCall :=
  if (call.run (olmSuite prim) r).2.2.isSome then [call] else [call, .clearError]

/-- What a call does with the ratchet of the session. -/
def SessionCall.ratchetCalls (call : SessionCall) (s : Session) : List RatchetCall :=
  match call with
  | .encrypt m plaintext plaintextLength random randomLength message messageLength =>
      if messageLength < encryptMessageLength prim s plaintextLength then []
      else
        let messageBodyLength := encryptOutputLength (olmSuite prim) s.ratchet plaintextLength
        let (m, messageBody) :=
          if s.receivedMessage then (m, message)
          else encodePreKeyFrame s m messageBodyLength message
        reporting prim s.ratchet (.encrypt m plaintext plaintextLength random randomLength
          messageBody messageBodyLength)
  | .decrypt stack messageType m message messageLength plaintext maxPlaintextLength =>
      match messageBody messageType m message messageLength with
      | none => []
      | some (body, bodyLength) =>
          reporting prim s.ratchet (.decrypt stack m body bodyLength plaintext maxPlaintextLength)

/-- What a run of the session does with its ratchet. -/
def ratchetCalls : List SessionCall → Session → List RatchetCall
  | [], _ => []
  | call :: calls, s => call.ratchetCalls prim s ++ ratchetCalls calls (call.run prim s)

/-- The ratchet behind a call that the session reports on. -/
theorem runCalls_reporting (r : Ratchet SharedKey) (call : RatchetCall) :
    (runCalls (olmSuite prim) (reporting prim r call) r).1
      = match call.run (olmSuite prim) r with
        | (_, r', none) => { r' with lastError := .success }
        | (_, r', some _) => r' := by
  rw [reporting]
  rcases h : call.run (olmSuite prim) r with ⟨m, r', _ | result⟩
  · show (RatchetCall.clearError.run (olmSuite prim) (call.run (olmSuite prim) r).2.1).2.1 = _
    rw [h]
    rfl
  · show (call.run (olmSuite prim) r).2.1 = _
    rw [h]

/-- A call on the session is a run of calls on its ratchet. -/
theorem SessionCall.ratchet_run (call : SessionCall) (s : Session) :
    (call.run prim s).ratchet
      = (runCalls (olmSuite prim) (call.ratchetCalls prim s) s.ratchet).1 := by
  cases call with
  | encrypt m plaintext plaintextLength random randomLength message messageLength =>
      simp only [SessionCall.run, OlmSession.encrypt, SessionCall.ratchetCalls]
      by_cases h : messageLength < encryptMessageLength prim s plaintextLength
      · rw [if_pos h, if_pos h]
        rfl
      · rw [if_neg h, if_neg h, runCalls_reporting, RatchetCall.run]
        generalize OlmRatchet.encrypt (olmSuite prim) s.ratchet _ _ _ _ _ _ _ = outcome
        rcases outcome with ⟨m', r', _ | result⟩
        · rfl
        · rfl
  | decrypt stack messageType m message messageLength plaintext maxPlaintextLength =>
      simp only [SessionCall.run, OlmSession.decrypt, SessionCall.ratchetCalls]
      cases messageBody messageType m message messageLength with
      | none => rfl
      | some body =>
          simp only
          rw [runCalls_reporting, RatchetCall.run]
          rcases OlmRatchet.decrypt (olmSuite prim) s.ratchet stack m body.1 body.2 plaintext
            maxPlaintextLength with ⟨m', r', _ | result⟩
          · rfl
          · rfl

/-- **A SESSION REACHES ITS RATCHET ONLY THROUGH CALLS**: over a run of the
    session, the ratchet does a run of its own. -/
theorem ratchet_runSession (calls : List SessionCall) (s : Session) :
    (runSession prim calls s).ratchet
      = (runCalls (olmSuite prim) (ratchetCalls prim calls s) s.ratchet).1 := by
  induction calls generalizing s with
  | nil => rfl
  | cons call calls ih =>
      rw [ratchetCalls, runCalls_append, ← call.ratchet_run prim s]
      exact ih (call.run prim s)

end OlmSession
