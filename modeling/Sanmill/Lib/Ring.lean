import Mathlib.Data.List.DropRight
import Mathlib.Data.List.Rotate

/-!
# A ring that remembers the most recent items

Cells of a fixed number are written round and round. Read from the write position on, the
populated cells are the most recent items in order, oldest first.
-/

namespace Sanmill.Ring

variable {α : Type*}

/-- The write position after a write at `head`. -/
def next (cap head : Nat) : Nat := if head + 1 = cap then 0 else head + 1

theorem next_lt {cap head : Nat} (h : head < cap) : next cap head < cap := by
  unfold next
  split <;> omega

/-- The first `len` cells hold the items of `window`; the oldest of them stands at `head`
once all cells are in use. -/
structure Holds (cells : List α) (head len : Nat) (window : List α) : Prop where
  head_lt : head < cells.length
  len_le : len ≤ cells.length
  head_eq : len < cells.length → head = len
  window_eq : window = (cells.take len).rotate head

theorem Holds.empty {cells : List α} (h : 0 < cells.length) : Holds cells 0 0 [] where
  head_lt := h
  len_le := Nat.zero_le _
  head_eq := fun _ => rfl
  window_eq := by simp

namespace Holds

variable {cells window : List α} {head len : Nat}

theorem perm (h : Holds cells head len window) : (cells.take len).Perm window := by
  rw [h.window_eq]
  exact (List.rotate_perm _ _).symm

theorem length_window (h : Holds cells head len window) : window.length = len := by
  rw [h.window_eq, List.length_rotate, List.length_take, Nat.min_eq_left h.len_le]

/-- A cell of the free part is filled: the window grows. -/
theorem push_of_lt (h : Holds cells head len window) (hlen : len < cells.length) (item : α) :
    Holds (cells.set head item) (next cells.length head) (len + 1) (window ++ [item]) := by
  have hhead : head = len := h.head_eq hlen
  subst hhead
  -- nothing has been overwritten yet, so the window is what lies before the head
  have hwindow : window = cells.take head := by
    rw [h.window_eq]
    have hcells : (cells.take head).length = head := by
      rw [List.length_take, Nat.min_eq_left h.len_le]
    calc (cells.take head).rotate head
        = (cells.take head).rotate (cells.take head).length := by rw [hcells]
      _ = cells.take head := List.rotate_length _
  have htake : (cells.set head item).take (head + 1) = window ++ [item] := by
    rw [List.take_add_one, List.take_set_of_le (le_refl head), hwindow]
    simp [hlen]
  refine ⟨?_, ?_, ?_, ?_⟩
  · rw [List.length_set]
    exact next_lt hlen
  · rw [List.length_set]
    exact hlen
  · intro hroom
    rw [List.length_set] at hroom
    unfold next
    rw [if_neg (by omega)]
  · rw [htake]
    unfold next
    split
    -- the head is back at zero exactly when the last free cell was taken
    · rw [List.rotate_zero]
    · have hwhole : (window ++ [item]).length = head + 1 := by
        rw [List.length_append, h.length_window]
        rfl
      rw [← hwhole, List.rotate_length]

/-- All cells are in use: the write replaces the oldest item. -/
theorem push_of_eq (h : Holds cells head len window) (hlen : len = cells.length) (item : α) :
    Holds (cells.set head item) (next cells.length head) len (window.tail ++ [item]) := by
  have hwindow : window = cells.drop head ++ cells.take head := by
    rw [h.window_eq, hlen, List.take_length,
      List.rotate_eq_drop_append_take (Nat.le_of_lt h.head_lt)]
  have htail : window.tail = cells.drop (head + 1) ++ cells.take head := by
    rw [hwindow, List.tail_append_of_ne_nil (by simp [h.head_lt]), List.tail_drop]
  refine ⟨?_, ?_, ?_, ?_⟩
  · rw [List.length_set]
    exact next_lt h.head_lt
  · rw [List.length_set]
    exact h.len_le
  · intro hroom
    rw [List.length_set] at hroom
    omega
  · have hwhole : (cells.set head item).take len = cells.set head item := by
      rw [hlen, ← @List.length_set _ cells head item, List.take_length]
    have hset : cells.set head item = cells.take head ++ item :: cells.drop (head + 1) := by
      rw [List.set_eq_take_append_cons_drop, if_pos h.head_lt]
    have hlength : (cells.take head).length = head := by
      rw [List.length_take, Nat.min_eq_left (Nat.le_of_lt h.head_lt)]
    rw [hwhole, htail]
    unfold next
    split
    · -- the write position returns to the first cell, where the order starts again
      rename_i hlast
      have hdrop : cells.drop (head + 1) = [] := by
        rw [hlast, List.drop_length]
      rw [List.rotate_zero, hset, hdrop, List.nil_append]
    · have hsplit : cells.set head item
          = (cells.take head ++ [item]) ++ cells.drop (head + 1) := by
        rw [hset, List.append_assoc]
        rfl
      have hprefix : (cells.take head ++ [item]).length = head + 1 := by
        rw [List.length_append, hlength]
        rfl
      rw [hsplit, ← hprefix, List.rotate_append_length_eq, List.append_assoc]

end Holds

/-- A ring whose window is the most recent items keeps it so by the next item. -/
theorem Holds.push {cells items : List α} {head len : Nat}
    (h : Holds cells head len (items.rtake cells.length)) (item : α) :
    Holds (cells.set head item) (next cells.length head)
      (if len < cells.length then len + 1 else len)
      ((items ++ [item]).rtake cells.length) := by
  have hcount : (items.rtake cells.length).length = min cells.length items.length := by
    unfold List.rtake
    rw [List.length_drop]
    omega
  have hlen := h.length_window
  rw [hcount] at hlen
  by_cases hroom : len < cells.length
  -- there is room: nothing falls out of the window
  · rw [if_pos hroom]
    have hall : items.rtake cells.length = items := by
      unfold List.rtake
      rw [Nat.sub_eq_zero_of_le (by omega), List.drop_zero]
    have hnext : (items ++ [item]).rtake cells.length = items ++ [item] := by
      unfold List.rtake
      rw [List.length_append, Nat.sub_eq_zero_of_le (by simp; omega), List.drop_zero]
    rw [hnext]
    rw [hall] at h
    exact h.push_of_lt hroom item
  · rw [if_neg hroom]
    -- no room: the oldest item falls out
    have hfull : len = cells.length := by
      have := h.len_le
      omega
    have hnext : (items ++ [item]).rtake cells.length
        = (items.rtake cells.length).tail ++ [item] := by
      have hpos := h.head_lt
      unfold List.rtake
      rw [List.length_append, List.tail_drop, List.drop_append_of_le_length (by simp; omega)]
      congr 2
      simp
      omega
    rw [hnext]
    exact h.push_of_eq hfull item

/-- No item fills more cells than there are. -/
theorem count_rtake_le [BEq α] (n : Nat) (item : α) (items : List α) :
    (items.rtake n).count item ≤ n := by
  refine Nat.le_trans List.count_le_length ?_
  unfold List.rtake
  rw [List.length_drop]
  omega

end Sanmill.Ring
