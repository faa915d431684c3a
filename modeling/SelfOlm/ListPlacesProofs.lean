import SelfOlm.BoundedList

/-! # Lists in their places

    `erase` and `insert` of `list.hh` on the array itself.  Both move the items by one
    place, `erase` from the front and `insert` from the end, over places that still hold
    what is moved next.  An access outside the array has no result, so a result says
    that there was none.  What the places up to the end hold is the bounded list. -/

namespace OlmList

/-- `olm::List<T, max_size>`: the places, and where the end is. -/
structure ListPlaces (T : Type) (maxSize : Nat) where
  data : Vector T maxSize
  fin : Nat

namespace ListPlaces

variable {T : Type} {maxSize : Nat}

/-! ## The code -/

/-- The loop `while (pos != _end) { *pos = *(pos + 1); ++pos; }`. -/
def eraseLoop (data : Vector T maxSize) (pos fin : Nat) : Option (Vector T maxSize) :=
  if pos = fin then some data
  else if h : pos + 1 < maxSize then eraseLoop (data.set pos data[pos + 1]) (pos + 1) fin
  else none
termination_by maxSize - pos

/-- `erase`. -/
def erase (l : ListPlaces T maxSize) (pos : Nat) : Option (ListPlaces T maxSize) :=
  let fin := l.fin - 1
  (eraseLoop l.data pos fin).map fun data => { data, fin }

/-- The loop `while (tmp != pos) { *tmp = *(tmp - 1); --tmp; }`. -/
def insertLoop (data : Vector T maxSize) (pos : Nat) : Nat → Option (Vector T maxSize)
  | 0 => if 0 = pos then some data else none
  | tmp + 1 =>
      if tmp + 1 = pos then some data
      else if h : tmp + 1 < maxSize then insertLoop (data.set (tmp + 1) data[tmp]) pos tmp
      else none

/-- `insert(pos)`: the list with space, and the position of the space. -/
def insertSpace (l : ListPlaces T maxSize) (pos : Nat) : Option (ListPlaces T maxSize × Nat) :=
  let (fin, pos) :=
    if l.fin ≠ maxSize then (l.fin + 1, pos)
    else if pos = l.fin then (l.fin, pos - 1)
    else (l.fin, pos)
  (insertLoop l.data pos (fin - 1)).map fun data => ({ data, fin }, pos)

/-- `insert(pos, value)`. -/
def insert (l : ListPlaces T maxSize) (pos : Nat) (value : T) :
    Option (ListPlaces T maxSize × Nat) := do
  let (l, pos) ← insertSpace l pos
  if h : pos < maxSize then some ({ l with data := l.data.set pos value }, pos) else none

/-! ## What the loops move -/

/-- The items of the list. -/
def items (l : ListPlaces T maxSize) : List T := l.data.toList.take l.fin

/-- From `pos` on, every item moves one place to the front. -/
theorem eraseLoop_some (fin : Nat) (hfin : fin < maxSize) :
    ∀ (n pos : Nat) (data : Vector T maxSize), fin = pos + n →
      ∃ data', eraseLoop data pos fin = some data' ∧
        ∀ i, data'[i]? = if pos ≤ i ∧ i < fin then data[i + 1]? else data[i]? := by
  intro n
  induction n with
  | zero =>
      intro pos data hpos
      obtain rfl : fin = pos := hpos
      refine ⟨data, by rw [eraseLoop, if_pos rfl], fun i => ?_⟩
      rw [if_neg (by omega)]
  | succ n ih =>
      intro pos data hpos
      have hlt : pos + 1 < maxSize := by omega
      obtain ⟨data', hdata', hitems⟩ := ih (pos + 1) (data.set pos data[pos + 1]) (by omega)
      refine ⟨data', ?_, fun i => ?_⟩
      · rw [eraseLoop, if_neg (by omega), dif_pos hlt]
        exact hdata'
      · rw [hitems i, Vector.getElem?_set, Vector.getElem?_set]
        by_cases hi : i = pos
        · subst hi
          rw [if_neg (by omega), if_pos rfl, if_pos (by omega), Vector.getElem?_eq_getElem hlt]
        · rw [if_neg (Ne.symm hi)]
          by_cases hmid : pos + 1 ≤ i ∧ i < fin
          · rw [if_pos hmid, if_neg (by omega), if_pos (by omega)]
          · rw [if_neg hmid, if_neg (by omega)]

/-- Down to `pos`, every item moves one place to the end. -/
theorem insertLoop_some (pos : Nat) :
    ∀ (n : Nat) (data : Vector T maxSize), pos + n < maxSize →
      ∃ data', insertLoop data pos (pos + n) = some data' ∧
        ∀ i, data'[i]? = if pos < i ∧ i ≤ pos + n then data[i - 1]? else data[i]? := by
  intro n
  induction n with
  | zero =>
      intro data _
      refine ⟨data, ?_, fun i => by rw [if_neg (by omega)]⟩
      cases pos with
      | zero => rfl
      | succ pos => exact if_pos rfl
  | succ n ih =>
      intro data hlt
      rw [← Nat.add_assoc] at hlt
      have hlt' : pos + n < maxSize := Nat.lt_of_succ_lt hlt
      obtain ⟨data', hdata', hitems⟩ := ih (data.set (pos + n + 1) data[pos + n]) hlt'
      refine ⟨data', ?_, fun i => ?_⟩
      · rw [← Nat.add_assoc, insertLoop, if_neg (by omega), dif_pos hlt]
        exact hdata'
      · rw [hitems i, Vector.getElem?_set, Vector.getElem?_set]
        by_cases hi : i = pos + n + 1
        · subst hi
          rw [if_neg (by omega), if_pos rfl, if_pos (by omega), Nat.add_sub_cancel,
            Vector.getElem?_eq_getElem hlt']
        · rw [if_neg (Ne.symm hi)]
          by_cases hmid : pos < i ∧ i ≤ pos + n
          · rw [if_pos hmid, if_neg (by omega), if_pos (by omega)]
          · rw [if_neg hmid, if_neg (by omega)]

/-! ## The list that is meant -/

theorem getElem?_items (l : ListPlaces T maxSize) (i : Nat) :
    l.items[i]? = if i < l.fin then l.data[i]? else none := by
  rw [items, List.getElem?_take, Vector.getElem?_toList]

theorem length_items {l : ListPlaces T maxSize} (h : l.fin ≤ maxSize) : l.items.length = l.fin := by
  rw [items, List.length_take, Vector.length_toList, Nat.min_eq_left h]

/-- **ERASING** an item. -/
theorem erase_some {l : ListPlaces T maxSize} (hl : l.fin ≤ maxSize) {pos : Nat}
    (hpos : pos < l.fin) :
    ∃ l', erase l pos = some l' ∧ l'.fin + 1 = l.fin ∧ l'.items = l.items.eraseIdx pos := by
  obtain ⟨data', hdata', hitems⟩ := eraseLoop_some (l.fin - 1) (by omega) (l.fin - 1 - pos) pos
    l.data (by omega)
  refine ⟨{ data := data', fin := l.fin - 1 }, ?_, Nat.sub_add_cancel (by omega), ?_⟩
  · rw [erase, hdata']
    rfl
  · refine List.ext_getElem? fun i => ?_
    rw [List.getElem?_eraseIdx, getElem?_items, getElem?_items, getElem?_items]
    simp only
    rw [hitems i]
    by_cases hbefore : i < pos
    · rw [if_pos hbefore, if_pos (by omega), if_neg (by omega), if_pos (by omega)]
    · rw [if_neg hbefore]
      by_cases hlast : i < l.fin - 1
      · rw [if_pos hlast, if_pos (by omega), if_pos (by omega)]
      · rw [if_neg hlast, if_neg (by omega)]

/-- The place behind the end keeps what it held: where an item before the last one is
    erased, that is a copy of the last one. -/
theorem erase_behind_end {l : ListPlaces T maxSize} (hl : l.fin ≤ maxSize) {pos : Nat}
    (hpos : pos < l.fin) :
    ∃ l', erase l pos = some l' ∧ l'.data[l'.fin]? = l.data[l.fin - 1]? := by
  obtain ⟨data', hdata', hitems⟩ := eraseLoop_some (l.fin - 1) (by omega) (l.fin - 1 - pos) pos
    l.data (by omega)
  refine ⟨{ data := data', fin := l.fin - 1 }, ?_, ?_⟩
  · rw [erase, hdata']
    rfl
  · -- the loop moves the items in front of the last one only
    rw [hitems, if_neg (fun hmoved => Nat.lt_irrefl _ hmoved.2)]

/-- Where `insert` puts the item: the last place where there is none behind it. -/
def insertPosition (maxSize pos : Nat) : Nat := if pos = maxSize then maxSize - 1 else pos

/-- The bounded sequence with a new item. -/
def insertItem (maxSize pos : Nat) (xs : List T) (value : T) : List T :=
  if pos = maxSize then xs.set (maxSize - 1) value else (xs.insertIdx pos value).take maxSize

/-- Making space: the items from the position on have moved, as many as there is room for. -/
theorem insertSpace_some (hmax : 1 ≤ maxSize) {l : ListPlaces T maxSize} (hl : l.fin ≤ maxSize)
    {pos : Nat} (hpos : pos ≤ l.fin) :
    ∃ data', insertSpace l pos = some ({ data := data', fin := min (l.fin + 1) maxSize },
        insertPosition maxSize pos) ∧
      ∀ i, data'[i]? = if insertPosition maxSize pos < i ∧ i < min (l.fin + 1) maxSize then
        l.data[i - 1]? else l.data[i]? := by
  have hplaces : (if l.fin ≠ maxSize then (l.fin + 1, pos)
      else if pos = l.fin then (l.fin, pos - 1)
      else (l.fin, pos)) = (min (l.fin + 1) maxSize, insertPosition maxSize pos) := by
    rw [insertPosition]
    by_cases hfull : l.fin = maxSize
    · rw [if_neg (not_not_intro hfull), hfull, Nat.min_eq_right (Nat.le_succ _)]
      by_cases hend : pos = maxSize
      · rw [if_pos hend, if_pos hend, hend]
      · rw [if_neg hend, if_neg hend]
    · rw [if_pos hfull, if_neg (by omega), Nat.min_eq_left (by omega)]
  have hspace : insertPosition maxSize pos
      + (min (l.fin + 1) maxSize - 1 - insertPosition maxSize pos)
      = min (l.fin + 1) maxSize - 1 := by
    rw [insertPosition]
    by_cases hend : pos = maxSize
    · rw [if_pos hend]
      omega
    · rw [if_neg hend]
      omega
  obtain ⟨data', hdata', hitems⟩ := insertLoop_some (insertPosition maxSize pos)
    (min (l.fin + 1) maxSize - 1 - insertPosition maxSize pos) l.data (by omega)
  rw [hspace] at hdata' hitems
  refine ⟨data', ?_, fun i => ?_⟩
  · rw [insertSpace, hplaces]
    simp only
    rw [hdata']
    rfl
  · rw [hitems i]
    by_cases hmoved : insertPosition maxSize pos < i ∧ i < min (l.fin + 1) maxSize
    · rw [if_pos hmoved, if_pos (by omega)]
    · rw [if_neg hmoved, if_neg (by omega)]

/-- **INSERTING** an item. -/
theorem insert_some (hmax : 1 ≤ maxSize) {l : ListPlaces T maxSize} (hl : l.fin ≤ maxSize)
    {pos : Nat} (hpos : pos ≤ l.fin) (value : T) :
    ∃ l', insert l pos value = some (l', insertPosition maxSize pos) ∧
      l'.fin = min (l.fin + 1) maxSize ∧
      l'.items = insertItem maxSize pos l.items value := by
  obtain ⟨data', hspace, hitems⟩ := insertSpace_some hmax hl hpos
  have hplace : insertPosition maxSize pos < maxSize := by
    rw [insertPosition]
    by_cases hend : pos = maxSize
    · rw [if_pos hend]
      omega
    · rw [if_neg hend]
      omega
  refine ⟨{ data := data'.set (insertPosition maxSize pos) value, fin := min (l.fin + 1) maxSize },
    ?_, rfl, ?_⟩
  · rw [insert, hspace]
    exact dif_pos hplace
  · refine List.ext_getElem? fun i => ?_
    rw [getElem?_items, insertItem]
    simp only
    rw [Vector.getElem?_set, hitems i, insertPosition]
    by_cases hend : pos = maxSize
    · -- a full list, and the position behind it
      have hfull : l.fin = maxSize := by omega
      rw [if_pos hend, if_pos hend, List.getElem?_set, getElem?_items, length_items hl, hfull,
        Nat.min_eq_right (Nat.le_succ _)]
      by_cases hi : i < maxSize
      · rw [if_pos hi]
        by_cases hlast : maxSize - 1 = i
        · rw [if_pos hlast, if_pos hlast, if_pos (by omega)]
        · rw [if_neg hlast, if_neg hlast, if_neg (by omega), if_pos hi]
      · rw [if_neg hi, if_neg (by omega), if_neg hi]
    · rw [if_neg hend, if_neg hend, List.getElem?_take, List.getElem?_insertIdx, length_items hl,
        getElem?_items, getElem?_items]
      by_cases hi : i < min (l.fin + 1) maxSize
      · rw [if_pos hi, if_pos (show i < maxSize by omega)]
        rcases Nat.lt_trichotomy i pos with hlt | rfl | hgt
        · rw [if_neg (by omega), if_neg (by omega), if_pos hlt, if_pos (by omega)]
        · rw [if_pos rfl, if_neg (Nat.lt_irrefl _), if_pos rfl, if_pos hpos]
        · rw [if_neg (by omega), if_pos ⟨hgt, hi⟩, if_neg (by omega), if_neg (by omega),
            if_pos (by omega)]
      · rw [if_neg hi]
        by_cases hroom : i < maxSize
        · rw [if_pos hroom, if_neg (by omega), if_neg (by omega), if_neg (by omega)]
        · rw [if_neg hroom]

/-- The other items keep their order. -/
theorem eraseIdx_insertItem (pos : Nat) (xs : List T) (value : T) :
    ((insertItem maxSize pos xs value).eraseIdx (insertPosition maxSize pos)).Sublist xs := by
  rw [insertItem, insertPosition]
  by_cases hend : pos = maxSize
  · rw [if_pos hend, if_pos hend, List.eraseIdx_set_eq]
    exact List.eraseIdx_sublist xs (maxSize - 1)
  · rw [if_neg hend, if_neg hend]
    have hfirst := (List.take_prefix maxSize (xs.insertIdx pos value)).eraseIdx pos
    rw [List.eraseIdx_insertIdx_self] at hfirst
    exact hfirst.sublist

/-- **A BOUNDED SEQUENCE** is what `insert` and `erase` work on: every call at a position in
    the list has a result, so that it keeps to the array, and leaves a list again. -/
theorem listPlaces_refines (hmax : 1 ≤ maxSize) {l : ListPlaces T maxSize} (hl : l.fin ≤ maxSize) :
    (∀ (pos : Nat) (value : T), pos ≤ l.fin →
      ∃ l' pos', insert l pos value = some (l', pos') ∧
        l'.fin ≤ maxSize ∧ pos' = insertPosition maxSize pos ∧ pos' < l'.fin ∧
        l'.items = insertItem maxSize pos l.items value ∧
        (l'.items.eraseIdx pos').Sublist l.items) ∧
      ∀ pos : Nat, pos < l.fin →
        ∃ l', erase l pos = some l' ∧ l'.fin ≤ maxSize ∧ pos ≤ l'.fin ∧
          l'.items = l.items.eraseIdx pos ∧ l'.items.Sublist l.items := by
  constructor
  · intro pos value hpos
    obtain ⟨l', hinsert, hfin, hitems⟩ := insert_some hmax hl hpos value
    refine ⟨l', insertPosition maxSize pos, hinsert, by omega, rfl, ?_, hitems, ?_⟩
    · rw [hfin, insertPosition]
      by_cases hend : pos = maxSize
      · rw [if_pos hend]
        omega
      · rw [if_neg hend]
        omega
    · rw [hitems]
      exact eraseIdx_insertItem pos l.items value
  · intro pos hpos
    obtain ⟨l', herase, hfin, hitems⟩ := erase_some hl hpos
    refine ⟨l', herase, by omega, by omega, hitems, ?_⟩
    rw [hitems]
    exact List.eraseIdx_sublist l.items pos

/-- A full list of four numbers. -/
def fullPlaces : ListPlaces Nat 4 where
  data := #v[1, 2, 3, 4]
  fin := 4

theorem listPlaces_refines_full :
    (∃ l', insert fullPlaces 4 5 = some (l', 3) ∧ l'.items = [1, 2, 3, 5]) ∧
      (∃ l', insert fullPlaces 1 5 = some (l', 1) ∧ l'.items = [1, 5, 2, 3]) ∧
      ∃ l', erase fullPlaces 1 = some l' ∧ l'.items = [1, 3, 4] := by
  obtain ⟨hinsert, herase⟩ := listPlaces_refines (l := fullPlaces) (by decide) (Nat.le_refl 4)
  obtain ⟨l₁, pos₁, h₁, -, rfl, -, hitems₁, -⟩ := hinsert 4 5 (Nat.le_refl 4)
  obtain ⟨l₂, pos₂, h₂, -, rfl, -, hitems₂, -⟩ := hinsert 1 5 (by decide)
  obtain ⟨l₃, h₃, -, -, hitems₃, -⟩ := herase 1 (by decide)
  exact ⟨⟨l₁, h₁, hitems₁⟩, ⟨l₂, h₂, hitems₂⟩, ⟨l₃, h₃, hitems₃⟩⟩

/-! ## The bounded list of the callers -/

/-- The list without its places. -/
def toBoundedList (l : ListPlaces T maxSize) (hl : l.fin ≤ maxSize) : BoundedList T maxSize :=
  ⟨l.items, Nat.le_trans (Nat.le_of_eq (length_items hl)) hl⟩

/-- **THE BOUNDED LIST** computes what the calls at the start, at the end and at an item do. -/
theorem toBoundedList_refines (hmax : 1 ≤ maxSize) {l : ListPlaces T maxSize}
    (hl : l.fin ≤ maxSize) (value : T) :
    (∃ l', insert l 0 value = some (l', 0) ∧
      l'.items = ((l.toBoundedList hl).insert value).toList) ∧
      (∃ l' pos, insert l l.fin value = some (l', pos) ∧
        l'.items = ((l.toBoundedList hl).insertEnd value).toList) ∧
      ∀ pos : Nat, pos < l.fin → ∃ l', erase l pos = some l' ∧
        l'.items = ((l.toBoundedList hl).erase pos).toList := by
  have hlength := length_items hl
  refine ⟨?_, ?_, fun pos hpos => ?_⟩
  · obtain ⟨l', hinsert, -, hitems⟩ := insert_some hmax hl (Nat.zero_le _) value
    rw [insertPosition, if_neg (by omega)] at hinsert
    rw [insertItem, if_neg (by omega), List.insertIdx_zero] at hitems
    exact ⟨l', hinsert, hitems⟩
  · obtain ⟨l', hinsert, -, hitems⟩ := insert_some hmax hl (Nat.le_refl _) value
    refine ⟨l', _, hinsert, ?_⟩
    rw [hitems, insertItem]
    show _ = (l.items.take (maxSize - 1) ++ [value]).take maxSize
    by_cases hfull : l.fin = maxSize
    · rw [if_pos hfull, List.take_of_length_le (by
        rw [List.length_append, List.length_take, List.length_singleton]; omega)]
      rw [List.set_eq_take_append_cons_drop, if_pos (by omega), List.drop_of_length_le (by omega)]
    · rw [if_neg hfull, ← hlength, List.insertIdx_length_self,
        List.take_of_length_le (show l.items.length ≤ maxSize - 1 by omega)]
  · obtain ⟨l', herase, -, hitems⟩ := erase_some hl hpos
    exact ⟨l', herase, hitems⟩

end ListPlaces

end OlmList
