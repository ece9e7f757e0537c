/-
# Arrays of buckets

A bucket array keeps a list at every index below its length.  What it stores is their concatenation
(`stored`); what a table does to one bucket shows there up to a permutation.
-/

import Mathlib.Data.List.Perm.Basic

namespace Pintos.Base.Buckets

open Function List

variable {α : Type*} {n i : ℕ} {x : α}

def stored (n : ℕ) (buckets : ℕ → List α) : List α :=
  (range n).flatMap buckets

@[simp] lemma mem_stored {buckets : ℕ → List α} :
    x ∈ stored n buckets ↔ ∃ i < n, x ∈ buckets i := by
  simp [stored]

@[simp] lemma stored_empty (n : ℕ) : stored n (fun _ => ([] : List α)) = [] := by
  simp [stored]

lemma stored_congr {f g : ℕ → List α} (h : ∀ i < n, f i = g i) : stored n f = stored n g :=
  flatMap_congr fun i hi => h i (mem_range.mp hi)

lemma stored_succ (n : ℕ) (f : ℕ → List α) : stored (n + 1) f = stored n f ++ f n := by
  simp [stored, range_succ]

section

variable (f : ℕ → List α) (hi : i < n)
include f hi

/-- What the other buckets store does not depend on bucket `i`. -/
lemma exists_stored_update : ∃ rest, ∀ l, (stored n (update f i l)).Perm (l ++ rest) := by
  induction n with
  | zero => omega
  | succ n ih =>
    rcases Nat.lt_succ_iff_lt_or_eq.mp hi with hlt | rfl
    · obtain ⟨rest, hrest⟩ := ih hlt
      refine ⟨rest ++ f n, fun l => ?_⟩
      rw [stored_succ, update_of_ne (by omega), ← append_assoc]
      exact (hrest l).append_right _
    · refine ⟨stored i f, fun l => ?_⟩
      have hrest : stored i (update f i l) = stored i f :=
        stored_congr fun j hj => update_of_ne (by omega) _ _
      rw [stored_succ, update_self, hrest]
      exact perm_append_comm

/-- Replacing bucket `i` by `x :: l`, permuted, stores `x` besides what `l` would. -/
lemma stored_update_cons {l l' : List α} (h : l'.Perm (x :: l)) :
    (stored n (update f i l')).Perm (x :: stored n (update f i l)) := by
  obtain ⟨rest, hrest⟩ := exists_stored_update f hi
  have hput : (l' ++ rest).Perm (x :: (l ++ rest)) := h.append_right rest
  exact ((hrest l').trans hput).trans ((hrest l).symm.cons x)

lemma stored_push (x : α) : (stored n (update f i (x :: f i))).Perm (x :: stored n f) := by
  have h := stored_update_cons f hi (List.Perm.refl (x :: f i))
  rwa [update_eq_self] at h

lemma stored_erase [DecidableEq α] (hx : x ∈ f i) :
    (stored n f).Perm (x :: stored n (update f i ((f i).erase x))) := by
  have h := stored_update_cons f hi (perm_cons_erase hx)
  rwa [update_eq_self] at h

end

end Pintos.Base.Buckets
