import SelfOlm.Lib.ByteMemory

/-! # Logged memory

    Programs on byte memory that leave a log: which bytes they load and store, and
    through a pointer into which object.  An access is in bounds where its bytes lie in
    the object of its pointer, whatever is next to that object in memory.  Loops are
    recursive programs; the rule for `bind` splits a log into those of its parts. -/

namespace AccessLog

open ByteMemory

/-- An access of `n` bytes at address `p`, through a pointer into `object`. -/
inductive Access (B : Type) where
  | load (object : B) (p n : Nat)
  | store (object : B) (p n : Nat)
  deriving DecidableEq

/-- A pointer: the object that it points into and an address. -/
structure Pointer (B : Type) where
  object : B
  address : Nat

variable {B α β : Type}

/-- Pointer arithmetic. -/
def Pointer.add (p : Pointer B) (n : Nat) : Pointer B := { p with address := p.address + n }

@[simp] theorem Pointer.address_add (p : Pointer B) (n : Nat) :
    (p.add n).address = p.address + n := rfl

@[simp] theorem Pointer.object_add (p : Pointer B) (n : Nat) : (p.add n).object = p.object := rfl

@[simp] theorem Pointer.add_zero (p : Pointer B) : p.add 0 = p := rfl

theorem Pointer.add_add (p : Pointer B) (n k : Nat) : (p.add n).add k = p.add (n + k) := by
  rw [Pointer.add, Pointer.add, Pointer.add, Nat.add_assoc]

/-- A program: its result, the memory behind it and the log. -/
def Logged (B α : Type) : Type := Mem → α × Mem × List (Access B)

namespace Logged

def result (x : Logged B α) (m : Mem) : α := (x m).1

def memory (x : Logged B α) (m : Mem) : Mem := (x m).2.1

def accesses (x : Logged B α) (m : Mem) : List (Access B) := (x m).2.2

instance : Monad (Logged B) where
  pure a := fun m => (a, m, [])
  bind x f := fun m =>
    (result (f (result x m)) (memory x m), memory (f (result x m)) (memory x m),
      accesses x m ++ accesses (f (result x m)) (memory x m))

/-- Load one byte. -/
def load (p : Pointer B) : Logged B UInt8 := fun m => (m p.address, m, [.load p.object p.address 1])

/-- Load `n` bytes. -/
def loadBytes (n : Nat) (p : Pointer B) : Logged B (List UInt8) := fun m =>
  (read m p.address n, m, [.load p.object p.address n])

/-- Load an array. -/
def loadArray (n : Nat) (p : Pointer B) : Logged B (Vector UInt8 n) := fun m =>
  (ByteMemory.load n m p.address, m, [.load p.object p.address n])

/-- Store a string. -/
def store (p : Pointer B) (bs : List UInt8) : Logged B Unit := fun m =>
  ((), write m p.address bs, [.store p.object p.address bs.length])

/-! ## What programs compute -/

@[simp] theorem result_bind (x : Logged B α) (f : α → Logged B β) (m : Mem) :
    result (x >>= f) m = result (f (result x m)) (memory x m) := rfl

@[simp] theorem memory_bind (x : Logged B α) (f : α → Logged B β) (m : Mem) :
    memory (x >>= f) m = memory (f (result x m)) (memory x m) := rfl

@[simp] theorem memory_pure (a : α) (m : Mem) : memory (pure a : Logged B α) m = m := rfl

@[simp] theorem result_pure (a : α) (m : Mem) : result (pure a : Logged B α) m = a := rfl

@[simp] theorem memory_load (p : Pointer B) (m : Mem) : memory (load p) m = m := rfl

@[simp] theorem result_load (p : Pointer B) (m : Mem) : result (load p) m = m p.address := rfl

@[simp] theorem memory_loadBytes (n : Nat) (p : Pointer B) (m : Mem) :
    memory (loadBytes n p) m = m := rfl

@[simp] theorem result_loadBytes (n : Nat) (p : Pointer B) (m : Mem) :
    result (loadBytes n p) m = read m p.address n := rfl

@[simp] theorem memory_loadArray (n : Nat) (p : Pointer B) (m : Mem) :
    memory (loadArray n p) m = m := rfl

@[simp] theorem result_loadArray (n : Nat) (p : Pointer B) (m : Mem) :
    result (loadArray n p) m = ByteMemory.load n m p.address := rfl

@[simp] theorem memory_store (p : Pointer B) (bs : List UInt8) (m : Mem) :
    memory (store p bs) m = write m p.address bs := rfl

theorem bind_assoc {γ : Type} (x : Logged B α) (f : α → Logged B β) (g : β → Logged B γ) :
    (x >>= f) >>= g = x >>= fun a => f a >>= g := by
  funext m
  refine Prod.ext rfl (Prod.ext rfl ?_)
  exact List.append_assoc _ _ _

/-! ## What programs access -/

/-- Every access of the run from this memory is one of `P`. -/
def All (P : Access B → Prop) (x : Logged B α) (m : Mem) : Prop := ∀ a ∈ accesses x m, P a

variable {P : Access B → Prop}

theorem all_bind (x : Logged B α) (f : α → Logged B β) (m : Mem) :
    All P (x >>= f) m ↔ All P x m ∧ All P (f (result x m)) (memory x m) :=
  List.forall_mem_append

theorem all_pure (a : α) (m : Mem) : All P (pure a : Logged B α) m := by
  intro access haccess
  cases haccess

theorem all_load (p : Pointer B) (m : Mem) : All P (load p) m ↔ P (.load p.object p.address 1) :=
  List.forall_mem_singleton

theorem all_store (p : Pointer B) (bs : List UInt8) (m : Mem) :
    All P (store p bs) m ↔ P (.store p.object p.address bs.length) :=
  List.forall_mem_singleton

theorem all_loadBytes (n : Nat) (p : Pointer B) (m : Mem) :
    All P (loadBytes n p) m ↔ P (.load p.object p.address n) :=
  List.forall_mem_singleton

theorem all_loadArray (n : Nat) (p : Pointer B) (m : Mem) :
    All P (loadArray n p) m ↔ P (.load p.object p.address n) :=
  List.forall_mem_singleton

theorem All.mono {Q : Access B → Prop} {x : Logged B α} {m : Mem} (h : All P x m)
    (hPQ : ∀ a, P a → Q a) : All Q x m :=
  fun a ha => hPQ a (h a ha)

/-! ## The order of accesses -/

/-- A later load does not see an earlier store. -/
def Access.Unseen : Access B → Access B → Prop
  | .store _ p n, .load _ q k => Disjoint p n q k
  | _, _ => True

/-- No byte is stored before it is loaded. -/
def ReadsFirst (x : Logged B α) (m : Mem) : Prop := (accesses x m).Pairwise Access.Unseen

theorem readsFirst_pure (a : α) (m : Mem) : ReadsFirst (pure a : Logged B α) m := List.Pairwise.nil

theorem readsFirst_bind (x : Logged B α) (f : α → Logged B β) (m : Mem) :
    ReadsFirst (x >>= f) m
      ↔ ReadsFirst x m ∧ ReadsFirst (f (result x m)) (memory x m) ∧
        ∀ a ∈ accesses x m, ∀ b ∈ accesses (f (result x m)) (memory x m), Access.Unseen a b :=
  List.pairwise_append

end Logged

/-! ## Bounds -/

/-- Accesses whose bytes satisfy `loads`, or `stores`. -/
def Access.Within (loads stores : B → Nat → Nat → Prop) : Access B → Prop
  | .load object p n => loads object p n
  | .store object p n => stores object p n

/-- Stores up to an address and loads from there on are in order. -/
theorem Logged.ReadsFirst.bind {x : Logged B α} {f : α → Logged B β} {m : Mem} {e : Nat}
    (hx : ReadsFirst x m) (hf : ReadsFirst (f (result x m)) (memory x m))
    (hstores : All (Access.Within (fun _ _ _ => True) (fun _ p n => p + n ≤ e)) x m)
    (hloads : All (Access.Within (fun _ q _ => e ≤ q) (fun _ _ _ => True)) (f (result x m))
      (memory x m)) : ReadsFirst (x >>= f) m := by
  refine (readsFirst_bind x f m).mpr ⟨hx, hf, fun a ha b hb => ?_⟩
  cases a with
  | load object p n => trivial
  | store object p n =>
      cases b with
      | store object' q k => trivial
      | load object' q k =>
          have hend : p + n ≤ e := hstores _ ha
          have hstart : e ≤ q := hloads _ hb
          exact Or.inl (Nat.le_trans hend hstart)

/-- Bytes are allowed or not one by one. -/
def Bytewise (allowed : B → Nat → Nat → Prop) : Prop :=
  ∀ object p n k, 0 < n → 0 < k →
    (allowed object p (n + k) ↔ allowed object p n ∧ allowed object (p + n) k)

section

variable {allowed : B → Nat → Nat → Prop} (h : Bytewise allowed) (object : B) (p : Nat)

include h

theorem Bytewise.two : allowed object p 2 ↔ allowed object p 1 ∧ allowed object (p + 1) 1 :=
  h object p 1 1 Nat.one_pos Nat.one_pos

theorem Bytewise.three : allowed object p 3
    ↔ allowed object p 1 ∧ allowed object (p + 1) 1 ∧ allowed object (p + 2) 1 := by
  rw [h object p 1 2 Nat.one_pos Nat.two_pos, h.two object (p + 1)]

theorem Bytewise.four : allowed object p 4
    ↔ allowed object p 1 ∧ allowed object (p + 1) 1 ∧ allowed object (p + 2) 1 ∧
      allowed object (p + 3) 1 := by
  rw [h object p 1 3 Nat.one_pos (Nat.succ_pos 2), h.three object (p + 1)]

end

/-- Where the objects are and how large they are. -/
structure Layout (B : Type) where
  start : B → Nat
  size : B → Nat

/-- A pointer to the first byte of an object. -/
def Layout.pointer (layout : Layout B) (object : B) : Pointer B := ⟨object, layout.start object⟩

/-- `n` bytes from `p` on lie in the object. -/
def Layout.Holds (layout : Layout B) (object : B) (p n : Nat) : Prop :=
  layout.start object ≤ p ∧ p + n ≤ layout.start object + layout.size object

theorem Layout.bytewise_holds (layout : Layout B) : Bytewise layout.Holds := by
  intro object p n k hn hk
  rw [Layout.Holds, Layout.Holds, Layout.Holds]
  omega

theorem bytewise_true : Bytewise (fun (_ : B) _ _ => True) :=
  fun _ _ _ _ _ _ => (and_self_iff).symm

/-- From its start on, an object holds as many bytes as it has. -/
theorem Layout.holds_start_iff {layout : Layout B} {object : B} {n : Nat} :
    layout.Holds object (layout.start object) n ↔ n ≤ layout.size object := by
  rw [Layout.Holds]
  omega

/-- The access stays in the object of its pointer. -/
def Access.InBounds (layout : Layout B) : Access B → Prop :=
  Access.Within layout.Holds layout.Holds

/-- Only stores have to stay in their object. -/
def Access.StoreInBounds (layout : Layout B) : Access B → Prop :=
  Access.Within (fun _ _ _ => True) layout.Holds

end AccessLog
