/-
# Copying bytes

`memmove` of `lib/string.c`.  It copies upwards if `dst` lies below `src` and downwards if not, so
that no byte is overwritten before it is copied.  Both loops move the pointer `dst` that is
returned: after copying upwards it is behind the last byte.
-/

import Pintos.Base.Bytes
import Pintos.Base.Kernel

namespace Pintos.Lib

open Base Function Kernel

/-- `while (size-- > 0) *dst++ = *src++;`: the pointer `dst` and the memory after it. -/
def copyUp : ℕ → Memory → ℕ → ℕ → ℕ × Memory
  | 0, mem, dst, _ => (dst, mem)
  | size + 1, mem, dst, src => copyUp size (update mem dst (mem src)) (dst + 1) (src + 1)

/-- `while (size-- > 0) *--dst = *--src;`: the pointer `dst` and the memory after it. -/
def copyDown : ℕ → Memory → ℕ → ℕ → ℕ × Memory
  | 0, mem, dst, _ => (dst, mem)
  | size + 1, mem, dst, src =>
    copyDown size (update mem (dst - 1) (mem (src - 1))) (dst - 1) (src - 1)

def memmove (mem : Memory) (dst src size : ℕ) : Kernel (ℕ × Memory) := do
  ASSERT (dst ≠ 0 ∨ size = 0)
  ASSERT (src ≠ 0 ∨ size = 0)
  return if dst < src then copyUp size mem dst src
    else copyDown size mem (dst + size) (src + size)

lemma copyUp_eq {dst src : ℕ} (size : ℕ) (mem : Memory) (h : dst < src) :
    copyUp size mem dst src = (dst + size, overwrite mem dst size fun i => mem (src + i)) := by
  induction size generalizing mem dst src with
  | zero => rw [overwrite_zero]; rfl
  | succ size ih =>
    rw [copyUp, ih _ (by omega), Prod.mk.injEq]
    refine ⟨by omega, funext fun x => ?_⟩
    -- The bytes still to be copied lie above the one that was overwritten.
    have hsrc : ∀ i, update mem dst (mem src) (src + 1 + i) = mem (src + 1 + i) :=
      fun i => update_of_ne (by omega) ..
    simp only [overwrite, hsrc, update_apply]
    split_ifs <;> first | omega | (congr 1 <;> omega)

lemma copyDown_eq {dst src : ℕ} (size : ℕ) (mem : Memory) (h : src ≤ dst) :
    copyDown size mem (dst + size) (src + size) =
      (dst, overwrite mem dst size fun i => mem (src + i)) := by
  induction size generalizing mem with
  | zero => rw [overwrite_zero]; rfl
  | succ size ih =>
    rw [copyDown, ← Nat.add_assoc, ← Nat.add_assoc, Nat.add_sub_cancel, Nat.add_sub_cancel, ih,
      Prod.mk.injEq]
    refine ⟨rfl, funext fun x => ?_⟩
    have hsrc : ∀ i < size, update mem (dst + size) (mem (src + size)) (src + i) = mem (src + i) :=
      fun i _ => update_of_ne (by omega) ..
    by_cases hx : dst ≤ x ∧ x < dst + size
    · rw [overwrite, if_pos hx, hsrc _ (by omega), overwrite, if_pos (by omega)]
    · rw [overwrite, if_neg hx, update_apply, overwrite]
      split_ifs <;> first | omega | (congr 1 <;> omega)

/-- **The bytes are moved, whatever the overlap**; `dst` is returned exactly if they go downwards or
there are none. -/
theorem memmove_moves {mem : Memory} {dst src size : ℕ} (hdst : dst ≠ 0 ∨ size = 0)
    (hsrc : src ≠ 0 ∨ size = 0) :
    ∃ p mem', memmove mem dst src size = .ok (p, mem') ∧
      (∀ i < size, mem' (dst + i) = mem (src + i)) ∧
      (∀ x, ¬ (dst ≤ x ∧ x < dst + size) → mem' x = mem x) ∧
      (p = dst ↔ src ≤ dst ∨ size = 0) := by
  have hmem : memmove mem dst src size = .ok (if dst < src then dst + size else dst,
      overwrite mem dst size fun i => mem (src + i)) := by
    rw [memmove, ASSERT_of hdst, ok_bind, ASSERT_of hsrc, ok_bind, pure_eq_ok]
    split_ifs with h
    · rw [copyUp_eq size mem h]
    · rw [copyDown_eq size mem (by omega)]
  refine ⟨_, _, hmem, fun i hi => ?_, fun x hx => if_neg hx, ?_⟩
  · rw [overwrite, if_pos (by omega), Nat.add_sub_cancel_left]
  · split_ifs <;> omega

theorem memmove_moves_up : ∃ p mem', memmove (fun x => .ofNat 8 x) 2 1 2 = .ok (p, mem') ∧
    mem' 3 = 2 ∧ p = 2 := by
  obtain ⟨p, mem', hrun, hmoved, _, hp⟩ :=
    @memmove_moves (fun x => .ofNat 8 x) 2 1 2 (by decide) (by decide)
  exact ⟨p, mem', hrun, hmoved 1 (by decide), hp.2 (by decide)⟩

/-- **The pointer behind the bytes is returned**: one byte moves down. -/
theorem memmove_returns_end : ∃ mem', memmove (fun x => .ofNat 8 x) 1 2 1 = .ok (2, mem') :=
  ⟨_, rfl⟩

end Pintos.Lib
