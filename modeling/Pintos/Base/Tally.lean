/-
# Counting the entries of a table

`tally P m n` is the number of entries of the table `m` below `n` that satisfy `P`.  A change of
one entry changes it by that entry alone (`tally_update`).
-/

import Mathlib.Algebra.Order.BigOperators.Group.Finset

namespace Pintos.Base

open Function

variable {ν : Type*} {P Q : ν → Bool} {m : ℕ → Option ν} {n k : ℕ} {v : Option ν}

def weight (P : ν → Bool) (v : Option ν) : ℕ := if v.any P then 1 else 0

def tally (P : ν → Bool) (m : ℕ → Option ν) (n : ℕ) : ℕ := ∑ k ∈ Finset.range n, weight P (m k)

@[simp] lemma weight_none : weight P none = 0 := rfl

@[simp] lemma weight_some (x : ν) : weight P (some x) = if P x then 1 else 0 := rfl

lemma tally_succ : tally P m (n + 1) = tally P m n + weight P (m n) := Finset.sum_range_succ ..

/-- **One entry changes.** -/
theorem tally_update (hk : k < n) (v : Option ν) :
    tally P (update m k v) n + weight P (m k) = tally P m n + weight P v := by
  have hmem : k ∈ Finset.range n := Finset.mem_range.2 hk
  have hold := Finset.add_sum_erase _ (fun j => weight P (m j)) hmem
  have hnew := Finset.add_sum_erase _ (fun j => weight P (update m k v j)) hmem
  have hrest : ∑ j ∈ (Finset.range n).erase k, weight P (update m k v j) =
      ∑ j ∈ (Finset.range n).erase k, weight P (m j) :=
    Finset.sum_congr rfl fun j hj => by rw [update_of_ne (Finset.ne_of_mem_erase hj)]
  simp only [update_self] at hnew
  unfold tally
  omega

lemma tally_update_of_le (hk : n ≤ k) : tally P (update m k v) n = tally P m n := by
  refine Finset.sum_congr rfl fun j hj => ?_
  have hne : j ≠ k := (lt_of_lt_of_le (Finset.mem_range.1 hj) hk).ne
  rw [update_of_ne hne]

lemma tally_push : tally P (update m n v) (n + 1) = tally P m n + weight P v := by
  rw [tally_succ, tally_update_of_le (le_refl n), update_self]

lemma tally_le (h : ∀ x, P x = true → Q x = true) : tally P m n ≤ tally Q m n := by
  refine Finset.sum_le_sum fun k _ => ?_
  cases hk : m k with
  | none => exact le_refl _
  | some x =>
    by_cases hP : P x = true
    · simp [hP, h x hP]
    · simp [hP]

lemma tally_eq_zero : tally P m n = 0 ↔ ∀ k < n, ∀ x, m k = some x → P x = false := by
  unfold tally
  rw [Finset.sum_eq_zero_iff]
  constructor
  · intro h k hk x hx
    have hzero := h k (Finset.mem_range.2 hk)
    rw [hx] at hzero
    simpa using hzero
  · intro h k hk
    cases hx : m k with
    | none => rfl
    | some x => simp [h k (Finset.mem_range.1 hk) x hx]

end Pintos.Base
