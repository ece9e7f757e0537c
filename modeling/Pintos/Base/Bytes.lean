/-
# Stores of bytes

A store is a byte for every position.  `bytesAt` is the window of `n` bytes at a position, which a
read returns; `overwrite` replaces a window, as a write does.  Words are four bytes, least
significant first.
-/

import Mathlib.Data.List.Range
import Pintos.Base.Word

namespace Pintos.Base

open List

def bytesAt (f : ℕ → BitVec 8) (x n : ℕ) : List (BitVec 8) := (range n).map fun i => f (x + i)

def overwrite (f : ℕ → BitVec 8) (x n : ℕ) (buffer : ℕ → BitVec 8) : ℕ → BitVec 8 :=
  fun y => if x ≤ y ∧ y < x + n then buffer (y - x) else f y

section Windows

variable (f g : ℕ → BitVec 8) (x y m n : ℕ)

@[simp] lemma length_bytesAt : (bytesAt f x n).length = n := by simp [bytesAt]

@[simp] lemma bytesAt_zero : bytesAt f x 0 = [] := rfl

lemma getElem_bytesAt {i : ℕ} (h : i < (bytesAt f x n).length) :
    (bytesAt f x n)[i] = f (x + i) := by
  simp [bytesAt]

lemma bytesAt_add : bytesAt f x (m + n) = bytesAt f x m ++ bytesAt f (x + m) n := by
  simp only [bytesAt, range_add, map_append, map_map, Function.comp_def, Nat.add_assoc]

lemma bytesAt_succ : bytesAt f x (n + 1) = f x :: bytesAt f (x + 1) n := by
  rw [Nat.add_comm, bytesAt_add]
  rfl

lemma bytesAt_congr (h : ∀ i < n, f (x + i) = g (y + i)) : bytesAt f x n = bytesAt g y n := by
  refine map_congr_left fun i hi => ?_
  exact h i (mem_range.1 hi)

lemma bytesAt_inj : bytesAt f x n = bytesAt g y n ↔ ∀ i < n, f (x + i) = g (y + i) := by
  constructor
  · intro h i hi
    have hget := congrArg (fun l => l[i]?) h
    simpa [bytesAt, hi] using hget
  · exact bytesAt_congr f g x y n

lemma bytesAt_overwrite (buffer : ℕ → BitVec 8) :
    bytesAt (overwrite f x n buffer) x n = bytesAt buffer 0 n := by
  refine bytesAt_congr _ _ _ _ _ fun i hi => ?_
  rw [overwrite, if_pos ⟨by omega, by omega⟩]
  congr 1
  omega

lemma bytesAt_overwrite_of_disjoint (buffer : ℕ → BitVec 8) (h : y + m ≤ x ∨ x + n ≤ y) :
    bytesAt (overwrite f x n buffer) y m = bytesAt f y m := by
  refine bytesAt_congr _ _ _ _ _ fun i hi => ?_
  rw [overwrite, if_neg]
  omega

end Windows

lemma overwrite_zero (f : ℕ → BitVec 8) (x : ℕ) (buffer : ℕ → BitVec 8) :
    overwrite f x 0 buffer = f := by
  funext y
  rw [overwrite, if_neg]
  omega

lemma overwrite_overwrite (f : ℕ → BitVec 8) (x m n : ℕ) (buffer : ℕ → BitVec 8) :
    overwrite (overwrite f x m buffer) (x + m) n (fun i => buffer (m + i)) =
      overwrite f x (m + n) buffer := by
  funext y
  unfold overwrite
  by_cases h1 : x + m ≤ y ∧ y < x + m + n
  · rw [if_pos h1, if_pos ⟨by omega, by omega⟩]
    exact congrArg buffer (by omega)
  · rw [if_neg h1]
    by_cases h2 : x ≤ y ∧ y < x + m
    · rw [if_pos h2, if_pos ⟨by omega, by omega⟩]
    · rw [if_neg h2, if_neg]
      omega

/-- The bytes with the ones from `pos` on replaced by `new`. -/
def splice (bytes : List (BitVec 8)) (pos : ℕ) (new : List (BitVec 8)) : List (BitVec 8) :=
  bytes.take pos ++ new ++ bytes.drop (pos + new.length)

lemma splice_nil (bytes : List (BitVec 8)) (pos : ℕ) : splice bytes pos [] = bytes := by
  simp [splice]

section Splices

variable (f buffer : ℕ → BitVec 8) (x : ℕ) {m n o : ℕ}

lemma take_bytesAt (h : m ≤ n) : (bytesAt f x n).take m = bytesAt f x m := by
  obtain ⟨k, rfl⟩ := Nat.exists_eq_add_of_le h
  rw [bytesAt_add, take_left' (length_bytesAt ..)]

lemma drop_bytesAt (h : m ≤ n) : (bytesAt f x n).drop m = bytesAt f (x + m) (n - m) := by
  obtain ⟨k, rfl⟩ := Nat.exists_eq_add_of_le h
  rw [bytesAt_add, drop_left' (length_bytesAt ..), Nat.add_sub_cancel_left]

lemma bytesAt_inner (h : o + m ≤ n) : bytesAt f (x + o) m = ((bytesAt f x n).drop o).take m := by
  rw [drop_bytesAt f x (by omega), take_bytesAt f (x + o) (by omega)]

lemma bytesAt_overwrite_inner (h : o + m ≤ n) : bytesAt (overwrite f (x + o) m buffer) x n =
      splice (bytesAt f x n) o (bytesAt buffer 0 m) := by
  obtain ⟨k, rfl⟩ := Nat.exists_eq_add_of_le h
  rw [splice, length_bytesAt, take_bytesAt f x (by omega), drop_bytesAt f x (by omega),
    Nat.add_sub_cancel_left, bytesAt_add, bytesAt_add,
    bytesAt_overwrite_of_disjoint f _ _ _ _ _ (.inl (le_refl _)), bytesAt_overwrite,
    bytesAt_overwrite_of_disjoint f _ _ _ _ _ (.inr (by omega))]

end Splices

def leBytes (w : ℕ) : List (BitVec 8) :=
  [BitVec.ofNat 8 w, BitVec.ofNat 8 (w / 2 ^ 8), BitVec.ofNat 8 (w / 2 ^ 16),
    BitVec.ofNat 8 (w / 2 ^ 24)]

def leWord : List (BitVec 8) → ℕ
  | [] => 0
  | b :: rest => b.toNat + 2 ^ 8 * leWord rest

@[simp] lemma length_leBytes (w : ℕ) : (leBytes w).length = 4 := rfl

@[simp] lemma leWord_leBytes {w : ℕ} (h : w < 2 ^ 32) : leWord (leBytes w) = w := by
  simp only [leBytes, leWord, BitVec.toNat_ofNat]
  omega

/-- A signed number comes back from the word it is stored in. -/
lemma s32_wordOf {z : ℤ} (h1 : -2 ^ 31 ≤ z) (h2 : z < 2 ^ 31) : s32 (wordOf z) = z := by
  unfold s32 wordOf
  split_ifs
  · omega
  · omega

lemma wordOf_lt (z : ℤ) : wordOf z < 2 ^ 32 := by
  unfold wordOf
  omega

lemma wordOf_of_nonneg {z : ℤ} (h1 : 0 ≤ z) (h2 : z < 2 ^ 32) : wordOf z = z.toNat := by
  unfold wordOf
  omega

end Pintos.Base
