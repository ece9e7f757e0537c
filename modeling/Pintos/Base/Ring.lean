/-
# Ring buffers

A buffer of `n` slots with a head, where new data goes, and a tail, where old data comes from; one
slot is always free, to tell a full ring from an empty one.  `Ring.contents` is the queue the ring
stands for.

Positions stay below `n` by their types; all arithmetic is one wrap around `n` (`wrap_eq`).
-/

import Mathlib.Data.List.Range

namespace Pintos.Base

open Function List

lemma wrap_eq {x n : ℕ} (h : x < 2 * n) : x % n = if x < n then x else x - n := by
  split_ifs with hx
  · exact Nat.mod_eq_of_lt hx
  · rw [Nat.mod_eq_sub_mod (by omega), Nat.mod_eq_of_lt (by omega)]

structure Ring (α : Type) (n : ℕ) where
  buf : ℕ → α
  head : ℕ
  tail : ℕ
  head_lt : head < n
  tail_lt : tail < n

namespace Ring

variable {α : Type} {n pos : ℕ}

def next (n pos : ℕ) : ℕ := (pos + 1) % n

lemma next_lt (h : pos < n) : next n pos < n := Nat.mod_lt _ (by omega)

def count (r : Ring α n) : ℕ := (r.head + n - r.tail) % n

def contents (r : Ring α n) : List α := (range r.count).map fun k => r.buf ((r.tail + k) % n)

def put (r : Ring α n) (a : α) : Ring α n where
  buf := update r.buf r.head a
  head := next n r.head
  tail := r.tail
  head_lt := next_lt r.head_lt
  tail_lt := r.tail_lt

def take (r : Ring α n) : α × Ring α n :=
  (r.buf r.tail, { r with tail := next n r.tail, tail_lt := next_lt r.tail_lt })

lemma next_eq (h : pos < n) : next n pos = if pos + 1 < n then pos + 1 else 0 := by
  rw [next, wrap_eq (by omega)]
  split_ifs <;> omega

lemma count_eq (r : Ring α n) :
    r.count = if r.tail ≤ r.head then r.head - r.tail else r.head + n - r.tail := by
  have hhead := r.head_lt
  have htail := r.tail_lt
  rw [count, wrap_eq (by omega)]
  split_ifs <;> omega

@[simp] lemma length_contents (r : Ring α n) : r.contents.length = r.count := by simp [contents]

section

variable (r : Ring α n)
include r

lemma count_lt : r.count < n := Nat.mod_lt _ (Nat.zero_lt_of_lt r.head_lt)

/-- **Empty** is head and tail at one place. -/
theorem head_eq_tail_iff : r.head = r.tail ↔ r.count = 0 := by
  have hhead := r.head_lt
  have htail := r.tail_lt
  rw [count_eq]
  split_ifs <;> omega

/-- **Full** is the tail right after the head. -/
theorem next_head_eq_tail_iff : next n r.head = r.tail ↔ r.count = n - 1 := by
  have hhead := r.head_lt
  have htail := r.tail_lt
  rw [count_eq, next_eq hhead]
  split_ifs <;> omega

lemma slot_ne_head {k : ℕ} (hk : k < r.count) : (r.tail + k) % n ≠ r.head := by
  have hhead := r.head_lt
  have htail := r.tail_lt
  have hlt := r.count_lt
  rw [wrap_eq (by omega)]
  rw [count_eq] at hk
  split_ifs at hk ⊢ <;> omega

lemma slot_count : (r.tail + r.count) % n = r.head := by
  have hhead := r.head_lt
  have htail := r.tail_lt
  have hlt := r.count_lt
  rw [wrap_eq (by omega), count_eq]
  split_ifs <;> omega

lemma count_put (a : α) (h : r.count ≠ n - 1) : (r.put a).count = r.count + 1 := by
  have hhead := r.head_lt
  have htail := r.tail_lt
  rw [count_eq] at h
  rw [count_eq, count_eq, show (r.put a).head = next n r.head from rfl,
    show (r.put a).tail = r.tail from rfl, next_eq hhead]
  split_ifs at h ⊢ <;> omega

/-- **Putting appends.** -/
theorem contents_put (a : α) (h : r.count ≠ n - 1) : (r.put a).contents = r.contents ++ [a] := by
  rw [contents, count_put r a h, range_succ, map_append, map_singleton]
  congr 1
  · refine map_congr_left fun k hk => ?_
    exact update_of_ne (r.slot_ne_head (mem_range.1 hk)) ..
  · rw [show (r.put a).tail = r.tail from rfl, r.slot_count]
    exact congrArg (fun x => [x]) (update_self ..)

lemma count_take (h : r.count ≠ 0) : r.take.2.count + 1 = r.count := by
  have hhead := r.head_lt
  have htail := r.tail_lt
  rw [count_eq] at h
  rw [count_eq, count_eq, show r.take.2.head = r.head from rfl,
    show r.take.2.tail = next n r.tail from rfl, next_eq htail]
  split_ifs at h ⊢ <;> omega

/-- **Taking takes the oldest.** -/
theorem contents_take (h : r.count ≠ 0) : r.contents = r.take.1 :: r.take.2.contents := by
  rw [contents, ← count_take r h, range_succ_eq_map, map_cons, map_map]
  congr 1
  · rw [Nat.add_zero, Nat.mod_eq_of_lt r.tail_lt]
    rfl
  · refine map_congr_left fun k _ => ?_
    have hslot : (next n r.tail + k) % n = (r.tail + (k + 1)) % n := by
      rw [next, Nat.mod_add_mod]
      congr 1
      omega
    exact congrArg r.buf hslot.symm

end

end Ring

end Pintos.Base
