/-
# 32-bit words and bytes of memory

Pointers, `size_t` and `unsigned` of the 32-bit target are natural numbers below `2^32`; `u32` is
the reduction every addition, subtraction and multiplication ends with.  Memory is a byte for every
address.
-/

import Mathlib.Tactic.NormNum

namespace Pintos.Base

def u32 (n : ℕ) : ℕ := n % 2 ^ 32

lemma u32_lt (n : ℕ) : u32 n < 2 ^ 32 := Nat.mod_lt _ (by norm_num)

@[simp] lemma u32_of_lt {n : ℕ} (h : n < 2 ^ 32) : u32 n = n := Nat.mod_eq_of_lt h

def SIZE_MAX : ℕ := 2 ^ 32 - 1

def DIV_ROUND_UP (x step : ℕ) : ℕ := u32 (x + step - 1) / step

lemma DIV_ROUND_UP_of_lt (x step : ℕ) (h : x + step - 1 < 2 ^ 32) :
    DIV_ROUND_UP x step = (x + step - 1) / step := by
  rw [DIV_ROUND_UP, u32_of_lt h]

def s32 (n : ℕ) : ℤ := if n < 2 ^ 31 then n else (n : ℤ) - 2 ^ 32

def wordOf (z : ℤ) : ℕ := (z % 2 ^ 32).toNat

def ptrDiff (p q : ℕ) : ℤ := s32 (u32 (p + 2 ^ 32 - q))

abbrev Memory := ℕ → BitVec 8

def memset (mem : Memory) (dst : ℕ) (value : BitVec 8) (size : ℕ) : Memory :=
  fun x => if dst ≤ x ∧ x < dst + size then value else mem x

end Pintos.Base
