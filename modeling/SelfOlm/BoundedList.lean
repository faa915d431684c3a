import Mathlib

/-! # Bounded lists

    `olm::List<T, max_size>` of `list.hh`: items in an array of `max_size`
    places.  The bound is part of the value.  `insert` makes space and the
    callers then fill every field of the new item, so the item is an argument
    here. -/

namespace OlmList

/-- `olm::List<T, max_size>`. -/
structure BoundedList (T : Type) (maxSize : Nat) where
  toList : List T
  length_le : toList.length ≤ maxSize

namespace BoundedList

variable {T : Type} {maxSize : Nat}

theorem ext' {l₁ l₂ : BoundedList T maxSize} (h : l₁.toList = l₂.toList) : l₁ = l₂ := by
  cases l₁; cases l₂
  cases h
  rfl

instance [DecidableEq T] : DecidableEq (BoundedList T maxSize) := fun l₁ l₂ =>
  if h : l₁.toList = l₂.toList then isTrue (ext' h)
  else isFalse (fun e => h (congrArg toList e))

/-- The list without items. -/
def empty : BoundedList T maxSize := ⟨[], Nat.zero_le _⟩

/-- `insert()`: a new first item; a list that gets too long loses its end. -/
def insert (l : BoundedList T maxSize) (value : T) : BoundedList T maxSize :=
  ⟨(value :: l.toList).take maxSize, List.length_take_le _ _⟩

/-- `insert(end())`: a new last item, or the last place of a full list. -/
def insertEnd (l : BoundedList T maxSize) (value : T) : BoundedList T maxSize :=
  ⟨(l.toList.take (maxSize - 1) ++ [value]).take maxSize, List.length_take_le _ _⟩

/-- What is in the place that `insert(end())` returns: the last item of a full
    list, and `free` behind the end of another. -/
def endPlace (l : BoundedList T maxSize) (free : T) : T :=
  if l.toList.length = maxSize then l.toList.getLast?.getD free else free

/-- `erase`. -/
def erase (l : BoundedList T maxSize) (pos : Nat) : BoundedList T maxSize :=
  ⟨l.toList.eraseIdx pos, Nat.le_trans (List.length_eraseIdx_le _ _) l.length_le⟩

/-- A new value in one place. -/
def set (l : BoundedList T maxSize) (pos : Nat) (value : T) : BoundedList T maxSize :=
  ⟨l.toList.set pos value, by rw [List.length_set]; exact l.length_le⟩

@[simp] theorem toList_empty : (empty : BoundedList T maxSize).toList = [] := rfl

@[simp] theorem toList_insert (l : BoundedList T maxSize) (value : T) :
    (l.insert value).toList = (value :: l.toList).take maxSize := rfl

@[simp] theorem toList_erase (l : BoundedList T maxSize) (pos : Nat) :
    (l.erase pos).toList = l.toList.eraseIdx pos := rfl

@[simp] theorem toList_set (l : BoundedList T maxSize) (pos : Nat) (value : T) :
    (l.set pos value).toList = l.toList.set pos value := rfl

/-- A list with space left just gets longer. -/
theorem toList_insertEnd {l : BoundedList T maxSize} (h : l.toList.length < maxSize) (value : T) :
    (l.insertEnd value).toList = l.toList ++ [value] := by
  show (l.toList.take (maxSize - 1) ++ [value]).take maxSize = _
  rw [List.take_of_length_le (show l.toList.length ≤ maxSize - 1 by omega),
    List.take_of_length_le]
  rw [List.length_append, List.length_singleton]
  omega

theorem mem_insert {l : BoundedList T maxSize} {value x : T} (h : x ∈ (l.insert value).toList) :
    x = value ∨ x ∈ l.toList :=
  List.mem_cons.mp (List.mem_of_mem_take h)

theorem mem_erase {l : BoundedList T maxSize} {pos : Nat} {x : T}
    (h : x ∈ (l.erase pos).toList) : x ∈ l.toList :=
  List.mem_of_mem_eraseIdx h

/-- A value that is replaced by one with the same image. -/
theorem map_toList_set {U : Type} (f : T → U) {l : BoundedList T maxSize} {pos : Nat} {x y : T}
    (hx : l.toList[pos]? = some x) (hy : f y = f x) :
    (l.set pos y).toList.map f = l.toList.map f := by
  obtain ⟨hpos, hget⟩ := List.getElem?_eq_some_iff.mp hx
  have hmap : (l.toList.map f)[pos]? = some (f x) := by
    rw [List.getElem?_map, hx]
    rfl
  obtain ⟨hpos', hget'⟩ := List.getElem?_eq_some_iff.mp hmap
  rw [toList_set, List.map_set, hy, ← hget', List.set_getElem_self]

/-- A value that is erased is one of the values. -/
theorem erase_perm {l : BoundedList T maxSize} {pos : Nat} {x : T}
    (hx : l.toList[pos]? = some x) : (x :: (l.erase pos).toList).Perm l.toList := by
  obtain ⟨hpos, rfl⟩ := List.getElem?_eq_some_iff.mp hx
  exact List.getElem_cons_eraseIdx_perm hpos

/-- Several insertions: the last one is in front. -/
theorem toList_foldl_insert (l : BoundedList T maxSize) :
    ∀ (values : List T),
      (values.foldl insert l).toList = (values.reverse ++ l.toList).take maxSize := by
  intro values
  induction values generalizing l with
  | nil =>
      show l.toList = l.toList.take maxSize
      rw [List.take_of_length_le l.length_le]
  | cons value values ih =>
      rw [List.foldl_cons, ih, toList_insert, List.reverse_cons, List.append_assoc]
      show _ = (values.reverse ++ (value :: l.toList)).take maxSize
      rw [List.take_append, List.take_append, List.take_take,
        Nat.min_eq_left (Nat.sub_le _ _)]

theorem length_insertEnd (l : BoundedList T maxSize) (value : T) :
    l.toList.length ≤ (l.insertEnd value).toList.length := by
  have hle := l.length_le
  show _ ≤ ((l.toList.take (maxSize - 1) ++ [value]).take maxSize).length
  rw [List.length_take, List.length_append, List.length_take, List.length_singleton]
  omega

/-- At the end of a full list is its last place. -/
theorem endPlace_full {l : BoundedList T maxSize} {init : List T} {place : T}
    (hlist : l.toList = init ++ [place]) (hfull : init.length + 1 = maxSize) (free : T) :
    l.endPlace free = place := by
  have hlength : (init ++ [place]).length = maxSize := by
    rw [List.length_append, List.length_singleton, hfull]
  rw [endPlace, hlist, if_pos hlength, List.getLast?_concat]
  rfl

theorem toList_insertEnd_full {l : BoundedList T maxSize} {init : List T} {place : T}
    (hlist : l.toList = init ++ [place]) (hfull : init.length + 1 = maxSize) (value : T) :
    (l.insertEnd value).toList = init ++ [value] := by
  have hinit : maxSize - 1 = init.length := by omega
  have hlength : (init ++ [value]).length ≤ maxSize := by
    rw [List.length_append, List.length_singleton, hfull]
  show (l.toList.take (maxSize - 1) ++ [value]).take maxSize = _
  rw [hlist, hinit, List.take_left, List.take_of_length_le hlength]

theorem take_take_concat (n : Nat) (xs : List T) (value : T) :
    (xs.take n ++ [value]).take n = (xs ++ [value]).take n := by
  by_cases hlong : n ≤ xs.length
  · rw [List.take_append_of_le_length (by rw [List.length_take]; omega),
      List.take_append_of_le_length hlong, List.take_take, Nat.min_self]
  · rw [List.take_of_length_le (Nat.le_of_not_le hlong)]

/-- All places but the last hold the first items. -/
theorem take_foldl_insertEnd (l : BoundedList T maxSize) (items : List T) :
    (items.foldl insertEnd l).toList.take (maxSize - 1)
      = (l.toList ++ items).take (maxSize - 1) := by
  induction items using List.reverseRecOn with
  | nil => rw [List.foldl_nil, List.append_nil]
  | append_singleton items value ih =>
      rw [List.foldl_append, List.foldl_cons, List.foldl_nil]
      show ((_ ++ [value]).take maxSize).take (maxSize - 1) = _
      rw [ih, List.take_take, Nat.min_eq_left (Nat.sub_le _ _), take_take_concat,
        List.append_assoc]

/-- The last item is in the last place. -/
theorem toList_foldl_insertEnd (hmax : 0 < maxSize) (l : BoundedList T maxSize) (items : List T)
    (value : T) :
    ((items ++ [value]).foldl insertEnd l).toList
      = (l.toList ++ items).take (maxSize - 1) ++ [value] := by
  rw [List.foldl_append, List.foldl_cons, List.foldl_nil]
  show (_ ++ [value]).take maxSize = _
  rw [take_foldl_insertEnd, List.take_of_length_le]
  rw [List.length_append, List.length_take, List.length_singleton]
  omega

/-- **WHERE THE OLD ITEMS DO NOT SHOW**: there are none, or the new ones fill the list and
    take the first places again. -/
theorem foldl_insertEnd_eq_empty (hmax : 0 < maxSize) (l : BoundedList T maxSize)
    (items : List T) :
    items.foldl insertEnd l = items.foldl insertEnd empty ↔
      l.toList = [] ∨ maxSize ≤ items.length ∧
        (l.toList ++ items).take (maxSize - 1) = items.take (maxSize - 1) := by
  constructor
  · intro hsame
    have hfirst : (l.toList ++ items).take (maxSize - 1) = items.take (maxSize - 1) := by
      rw [← take_foldl_insertEnd l items, hsame, take_foldl_insertEnd]
      rfl
    rcases List.eq_nil_or_concat' items with rfl | ⟨others, value, rfl⟩
    · exact Or.inl (congrArg toList hsame)
    · rw [List.length_append, List.length_singleton]
      by_cases hlong : maxSize ≤ others.length + 1
      · exact Or.inr ⟨hlong, hfirst⟩
      · have hlists := congrArg toList hsame
        rw [toList_foldl_insertEnd hmax, toList_foldl_insertEnd hmax] at hlists
        have hlength := congrArg List.length hlists
        rw [toList_empty, List.nil_append, List.length_append, List.length_append,
          List.length_take, List.length_take, List.length_append] at hlength
        exact Or.inl (List.length_eq_zero_iff.mp (by omega))
  · rintro (hnone | ⟨hlong, hfirst⟩)
    · rw [ext' (show l.toList = (empty : BoundedList T maxSize).toList from hnone)]
    · rcases List.eq_nil_or_concat' items with rfl | ⟨others, value, rfl⟩
      · rw [List.length_nil] at hlong
        omega
      · rw [List.length_append, List.length_singleton] at hlong
        have hold : maxSize - 1 ≤ (l.toList ++ others).length := by
          rw [List.length_append]
          omega
        rw [← List.append_assoc, List.take_append_of_le_length hold,
          List.take_append_of_le_length (show maxSize - 1 ≤ others.length by omega)] at hfirst
        refine ext' ?_
        rw [toList_foldl_insertEnd hmax, toList_foldl_insertEnd hmax, hfirst]
        rfl

/-- A list with one place. -/
theorem toList_singleton {l : BoundedList T 1} {value : T} {rest : List T}
    (h : l.toList = value :: rest) : l.toList = [value] := by
  have hlen := l.length_le
  rw [h, List.length_cons] at hlen
  rw [h, List.length_eq_zero_iff.mp (show rest.length = 0 by omega)]

end BoundedList

end OlmList
