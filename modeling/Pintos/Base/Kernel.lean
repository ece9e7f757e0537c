/-
# Computations that may halt the machine

A C kernel stops in two ways, a failed `ASSERT` and an explicit `PANIC`, which end in one function
that never returns.  A computation of type `Kernel α` is the value it returns or the text it halted
with.
-/

import Mathlib.Data.List.Range

namespace Pintos.Base

open List

structure Panic where
  message : String
deriving DecidableEq, Repr

abbrev Kernel (α : Type) := Except Panic α

variable {α β : Type} {b b' : β} {c : Prop} {f : β → ℕ → Kernel β} {n : ℕ} {l : List α}
  {p : ℕ → Kernel Bool} {q : ℕ → Bool}

def PANIC (message : String) : Kernel α := .error ⟨message⟩

/-- `ASSERT (CONDITION)`: halt unless the condition holds. -/
def ASSERT (c : Prop) [Decidable c] : Kernel Unit :=
  if c then .ok () else PANIC "assertion failed."

lemma Kernel.bind_eq_ok {x : Kernel α} {f : α → Kernel β} {r : β} :
    x >>= f = .ok r ↔ ∃ a, x = .ok a ∧ f a = .ok r := by
  cases x with
  | error => simp [bind, Except.bind]
  | ok => simp [bind, Except.bind]

@[simp] lemma Kernel.ok_bind (a : α) (f : α → Kernel β) : (Except.ok a : Kernel α) >>= f = f a :=
  rfl

lemma Kernel.ok_mk_inj {a a' : α} (h : (.ok (a, b) : Kernel (α × β)) = .ok (a', b')) :
    a = a' ∧ b = b' :=
  Prod.mk.inj (Except.ok.inj h)

lemma Kernel.pure_eq_ok (a : α) : (pure a : Kernel α) = .ok a := rfl

@[simp] lemma Kernel.panic_bind (m : String) (f : α → Kernel β) :
    (PANIC m : Kernel α) >>= f = PANIC m :=
  rfl

@[simp] lemma PANIC_ne_ok (m : String) (a : α) : (PANIC m : Kernel α) ≠ .ok a := by
  simp [PANIC]

@[simp] lemma ASSERT_eq_ok [Decidable c] {u : Unit} : ASSERT c = .ok u ↔ c := by
  unfold ASSERT
  split_ifs with h <;> simp [h]

lemma ASSERT_of [Decidable c] (h : c) : ASSERT c = .ok () := ASSERT_eq_ok.2 h

def forLoop (n : ℕ) (f : β → ℕ → Kernel β) (b : β) : Kernel β := (range n).foldlM f b

lemma forLoop_succ (n : ℕ) (f : β → ℕ → Kernel β) (b : β) :
    forLoop (n + 1) f b = forLoop n f b >>= fun b' => f b' n := by
  simp [forLoop, range_succ, foldlM_append]

/-- **The loop rule.**  Every round keeps `P` without halting: the loop ends with `P n`. -/
theorem forLoop_ok (P : ℕ → β → Prop) (h0 : P 0 b)
    (hs : ∀ i b', i < n → P i b' → ∃ b'', f b' i = .ok b'' ∧ P (i + 1) b'') :
    ∃ b', forLoop n f b = .ok b' ∧ P n b' := by
  induction n with
  | zero => exact ⟨b, rfl, h0⟩
  | succ n ih =>
    obtain ⟨b', hb', hP⟩ := ih fun i b' hi => hs i b' (by omega)
    obtain ⟨b'', hb'', hP'⟩ := hs n b' (by omega) hP
    exact ⟨b'', by rw [forLoop_succ, hb', Kernel.ok_bind, hb''], hP'⟩

/-- A loop that ends leaves what every round that ends keeps. -/
lemma forLoop_invariant (P : β → Prop) (hs : ∀ {i b b'}, i < n → P b → f b i = .ok b' → P b')
    (h0 : P b) (h : forLoop n f b = .ok b') : P b' := by
  induction n generalizing b' with
  | zero =>
    cases h
    exact h0
  | succ n ih =>
    rw [forLoop_succ, Kernel.bind_eq_ok] at h
    obtain ⟨_, hloop, hround⟩ := h
    exact hs (Nat.lt_succ_self n) (ih (fun hi => hs (Nat.lt_succ_of_lt hi)) hloop) hround

/-- `for (i = 0; i < n; i++) if (p (i)) return true;  return false;` -/
def anyLoop (n : ℕ) (p : ℕ → Kernel Bool) : Kernel Bool := (range n).anyM p

lemma anyM_ok {p : α → Kernel Bool} {q : α → Bool} (h : ∀ a ∈ l, p a = .ok (q a)) :
    l.anyM p = .ok (l.any q) := by
  induction l with
  | nil => rfl
  | cons a l ih =>
    rw [anyM_cons, h a (mem_cons_self ..), Kernel.ok_bind,
      ih fun b hb => h b (mem_cons_of_mem _ hb), any_cons]
    cases q a <;> rfl

/-- `for (i = start; i < start + n; i++) if (p (i)) return i;`, and `none` at its end. -/
def findLoop (start n : ℕ) (p : ℕ → Kernel Bool) : Kernel (Option ℕ) :=
  (range' start n).findM? p

/-- Looking for an element by tests that do not halt is looking for it. -/
lemma findM?_ok {p : α → Kernel Bool} {q : α → Bool} (h : ∀ a ∈ l, p a = .ok (q a)) :
    l.findM? p = .ok (l.find? q) := by
  induction l with
  | nil => rfl
  | cons a l ih =>
    have ih' := ih fun b hb => h b (mem_cons_of_mem _ hb)
    rw [findM?, h a (mem_cons_self ..), Kernel.ok_bind, find?_cons]
    cases q a with
    | true => rfl
    | false => exact ih'

/-- **The search rule.**  If no test halts, the loop returns the least index that passes. -/
theorem findLoop_ok (start n : ℕ) (h : ∀ i, start ≤ i → i < start + n → p i = .ok (q i)) :
    ∃ r, findLoop start n p = .ok r ∧ (∀ i, r = some i → start ≤ i ∧ i < start + n ∧ q i = true ∧
        ∀ j, start ≤ j → j < i → q j = false) ∧
      (r = none → ∀ j, start ≤ j → j < start + n → q j = false) := by
  have hfind : findLoop start n p = .ok ((range' start n).find? q) :=
    findM?_ok fun i hi => h i (mem_range'_1.1 hi).1 (mem_range'_1.1 hi).2
  refine ⟨_, hfind, ?_, ?_⟩
  · intro i hi
    obtain ⟨hq, _, _, hl, hns⟩ := find?_eq_some_iff_append.1 hi
    have hmem : i ∈ range' start n := by rw [hl]; simp
    rw [mem_range'_1] at hmem
    refine ⟨hmem.1, hmem.2, hq, fun j hj hji => ?_⟩
    have hjm : j ∈ range' start n := mem_range'_1.2 ⟨hj, by omega⟩
    have hsorted : (range' start n).Pairwise (· < ·) := pairwise_lt_range'
    rw [hl] at hjm hsorted
    rcases mem_append.1 hjm with hja | hjb
    · simpa using hns j hja
    · rw [pairwise_append, pairwise_cons] at hsorted
      rcases mem_cons.1 hjb with rfl | hjb
      · exact absurd hji (lt_irrefl _)
      · exact absurd (hsorted.2.1.1 j hjb) (by omega)
  · intro hn j hj hjn
    have := find?_eq_none.1 hn j (mem_range'_1.2 ⟨hj, hjn⟩)
    simpa using this

end Pintos.Base
