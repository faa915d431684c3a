import Mathlib

/-! # What is left of a log

    Entries are put in front of a list that is cut off at a capacity, and taken out of
    it one by one.  The log has every entry that was ever put in.  An entry that was not
    taken out is there as long as fewer entries than the capacity came behind it. -/

namespace RecentLog

variable {T : Type}

/-- The list has entries of the log, in their order, and no entry is in the log twice. -/
structure Kept (log kept : List T) : Prop where
  sublist : kept.Sublist log
  nodup : log.Nodup

variable {log kept new : List T} {capacity : Nat}

/-- An entry of a part of a list is not farther back there than in the whole list. -/
theorem mem_take_of_sublist {xs ys : List T} (h : xs.Sublist ys) :
    ∀ {n : Nat} {x : T}, ys.Nodup → x ∈ xs → x ∈ ys.take n → x ∈ xs.take n := by
  induction h with
  | slnil =>
      intro n x _ hx
      cases hx
  | @cons xs ys y h ih =>
      intro n x hys hx htake
      obtain ⟨hy, hys⟩ := List.nodup_cons.mp hys
      cases n with
      | zero => cases htake
      | succ n =>
          -- the head was taken out, the others have moved one place to the front
          rcases List.mem_cons.mp htake with rfl | htake
          · exact absurd (h.subset hx) hy
          · exact (List.take_subset_take_left xs (Nat.le_succ n)) (ih hys hx htake)
  | @cons_cons xs ys y h ih =>
      intro n x hys hx htake
      obtain ⟨hy, hys⟩ := List.nodup_cons.mp hys
      cases n with
      | zero => cases htake
      | succ n =>
          rcases List.mem_cons.mp htake with rfl | htake
          · exact List.mem_cons_self
          · rcases List.mem_cons.mp hx with rfl | hx
            · exact List.mem_cons_self
            · exact List.mem_cons_of_mem y (ih hys hx htake)

theorem Kept.nodup_kept (h : Kept log kept) : kept.Nodup := h.sublist.nodup h.nodup

/-- New entries in front. -/
theorem Kept.push (h : Kept log kept) (hnew : (new ++ log).Nodup) :
    Kept (new ++ log) ((new ++ kept).take capacity) :=
  ⟨(List.take_sublist _ _).trans (h.sublist.append_left new), hnew⟩

/-- **STILL THERE**: an entry that was kept, or is new, and is not too far back in the log. -/
theorem Kept.mem_push (h : Kept log kept) (hnew : (new ++ log).Nodup) {x : T}
    (hx : x ∈ new ∨ x ∈ kept) (hrecent : x ∈ (new ++ log).take capacity) :
    x ∈ (new ++ kept).take capacity :=
  mem_take_of_sublist (h.sublist.append_left new) hnew (List.mem_append.mpr hx) hrecent

/-- One entry is taken out. -/
theorem Kept.erase (h : Kept log kept) (i : Nat) : Kept log (kept.eraseIdx i) :=
  ⟨(List.eraseIdx_sublist kept i).trans h.sublist, h.nodup⟩

/-- The others stay. -/
theorem mem_erase {i : Nat} {x y : T} (hx : x ∈ kept) (hy : kept[i]? = some y) (hne : x ≠ y) :
    x ∈ kept.eraseIdx i := by
  rw [List.mem_eraseIdx_iff_getElem?]
  obtain ⟨j, hj⟩ := List.mem_iff_getElem?.mp hx
  refine ⟨j, ?_, hj⟩
  rintro rfl
  exact hne (Option.some.inj (hj.symm.trans hy))

/-- An entry of the whole log that is recent is recent in an older log, too. -/
theorem mem_take_old {x : T} (hx : x ∉ new) (hrecent : x ∈ (new ++ log).take capacity) :
    x ∈ log.take capacity := by
  rw [List.take_append] at hrecent
  rcases List.mem_append.mp hrecent with hmem | hmem
  · exact absurd (List.mem_of_mem_take hmem) hx
  · exact (List.take_subset_take_left log (Nat.sub_le _ _)) hmem

end RecentLog
