import Mathlib

/-! # Absorbing a stream block by block

    A function that folds whole blocks of `n` elements into a state, fed with pieces of
    any length.  What is kept between the pieces is the state behind the last whole
    block and the elements that are left over; `Fed` says this of everything that was
    fed so far, and there are only two ways to go on: elements that do not fill the
    block are left over, and elements that fill it are absorbed with it. -/

namespace BlockStream

variable {S A : Type}

section Absorb

variable (n : Nat) (compress : S → List A → S)

/-- The state behind the first `k` blocks. -/
def absorb : Nat → S → List A → S
  | 0, s, _ => s
  | k + 1, s, xs => absorb k (compress s (xs.take n)) (xs.drop n)

theorem absorb_add (j k : Nat) (s : S) (xs : List A) :
    absorb n compress (j + k) s xs
      = absorb n compress k (absorb n compress j s xs) (xs.drop (j * n)) := by
  induction j generalizing s xs with
  | zero =>
      rw [Nat.zero_add, Nat.zero_mul, List.drop_zero]
      rfl
  | succ j ih =>
      rw [Nat.add_right_comm, absorb, ih, absorb, List.drop_drop, Nat.succ_mul, Nat.add_comm n]

/-- Only the elements of the blocks count. -/
theorem absorb_append {k : Nat} (s : S) {xs : List A} (hk : k * n ≤ xs.length) (ys : List A) :
    absorb n compress k s (xs ++ ys) = absorb n compress k s xs := by
  induction k generalizing s xs with
  | zero => rfl
  | succ k ih =>
      rw [Nat.succ_mul] at hk
      have hfirst : n ≤ xs.length := le_trans (Nat.le_add_left n _) hk
      have hrest : k * n ≤ (xs.drop n).length := by
        rw [List.length_drop]
        exact Nat.le_sub_of_add_le hk
      rw [absorb, absorb, List.take_append_of_le_length hfirst, List.drop_append_of_le_length hfirst,
        ih _ hrest]

/-- `xs` was fed to a stream that began in `init`: it is in state `s`, and `rest` is
    left over. -/
structure Fed (init : S) (xs : List A) (s : S) (rest : List A) : Prop where
  state : s = absorb n compress (xs.length / n) init xs
  rest : rest = xs.drop (xs.length / n * n)

end Absorb

namespace Fed

variable {n : Nat} {compress : S → List A → S} {init s : S} {xs rest : List A}

theorem nil : Fed n compress init [] init [] := by
  constructor
  · rw [List.length_nil, Nat.zero_div]
    rfl
  · rw [List.drop_nil]

theorem length (h : Fed n compress init xs s rest) : rest.length = xs.length % n := by
  rw [h.rest, List.length_drop, Nat.mod_eq_sub, Nat.mul_comm]

theorem length_lt (h : Fed n compress init xs s rest) (hn : 0 < n) : rest.length < n := by
  rw [h.length]
  exact Nat.mod_lt _ hn

/-- The blocks come before what is left over. -/
theorem length_blocks (h : Fed n compress init xs s rest) :
    xs.length / n * n + rest.length = xs.length := by
  rw [h.length, Nat.mul_comm]
  exact Nat.div_add_mod xs.length n

/-- Elements that do not fill the block are left over. -/
theorem more (h : Fed n compress init xs s rest) {ys : List A} (hlt : rest.length + ys.length < n) :
    Fed n compress init (xs ++ ys) s (rest ++ ys) := by
  have hn : 0 < n := Nat.lt_of_le_of_lt (Nat.zero_le _) hlt
  have hcount : (xs ++ ys).length / n = xs.length / n := by
    rw [List.length_append, ← h.length_blocks, Nat.add_assoc, Nat.mul_comm,
      Nat.mul_add_div hn, Nat.mul_add_div hn, Nat.div_eq_of_lt hlt,
      Nat.div_eq_of_lt (h.length_lt hn)]
  have hblocks : xs.length / n * n ≤ xs.length := Nat.div_mul_le_self _ _
  constructor
  · rw [hcount, absorb_append n compress init hblocks]
    exact h.state
  · rw [hcount, List.drop_append_of_le_length hblocks, ← h.rest]

/-- Elements that fill the block are absorbed with it. -/
theorem block (h : Fed n compress init xs s rest) {ys : List A} (hn : 0 < n)
    (hlength : rest.length + ys.length = n) :
    Fed n compress init (xs ++ ys) (compress s (rest ++ ys)) [] := by
  have htotal : (xs ++ ys).length = (xs.length / n + 1) * n := by
    rw [List.length_append, Nat.succ_mul, ← hlength, ← Nat.add_assoc, hlength, h.length_blocks]
  have hcount : (xs ++ ys).length / n = xs.length / n + 1 := by
    rw [htotal, Nat.mul_div_cancel _ hn]
  have hblocks : xs.length / n * n ≤ xs.length := Nat.div_mul_le_self _ _
  constructor
  · have hlast : (rest ++ ys).take n = rest ++ ys := by
      refine List.take_of_length_le (le_of_eq ?_)
      rw [List.length_append, hlength]
    rw [hcount, absorb_add, absorb_append n compress init hblocks,
      List.drop_append_of_le_length hblocks, ← h.rest, ← h.state, absorb, absorb, hlast]
  · rw [hcount, ← htotal, List.drop_length]

end Fed

/-! ## A buffer for what is left over -/

/-- `buffer[i++] = x` for one element after the other. -/
def fill {n : Nat} (buffer : Vector A n) (i : Nat) : List A → Vector A n
  | [] => buffer
  | x :: xs => fill (buffer.setIfInBounds i x) (i + 1) xs

/-- What stands in a buffer up to `i` is kept, and the elements follow it. -/
theorem take_fill {n : Nat} (buffer : Vector A n) {i : Nat} (xs : List A) (h : i + xs.length ≤ n) :
    (fill buffer i xs).toList.take (i + xs.length) = buffer.toList.take i ++ xs := by
  induction xs generalizing buffer i with
  | nil =>
      rw [fill, List.length_nil, Nat.add_zero, List.append_nil]
  | cons x xs ih =>
      rw [List.length_cons, Nat.add_comm xs.length 1, ← Nat.add_assoc] at h
      have hi : i < buffer.toList.length := by
        rw [Vector.length_toList]
        exact lt_of_lt_of_le (Nat.lt_succ_self i) (le_trans (Nat.le_add_right _ _) h)
      have hstored : (buffer.setIfInBounds i x).toList.take (i + 1) = buffer.toList.take i ++ [x] := by
        rw [Vector.toList_setIfInBounds, List.take_add_one, List.take_set_of_le (le_refl i),
          List.getElem?_set_self hi]
        rfl
      rw [fill, List.length_cons, Nat.add_comm xs.length 1, ← Nat.add_assoc,
        ih _ h, hstored, List.append_assoc, List.singleton_append]

/-- A buffer that is filled up. -/
theorem toList_fill {n : Nat} (buffer : Vector A n) {i : Nat} (xs : List A)
    (h : i + xs.length = n) : (fill buffer i xs).toList = buffer.toList.take i ++ xs := by
  rw [← take_fill buffer xs (le_of_eq h), h]
  exact (List.take_of_length_le (le_of_eq (Vector.length_toList ..))).symm

end BlockStream
