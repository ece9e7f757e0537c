/-
# Ways in which a computation does not halt

A computation of type `Kernel α` that halts says with which text; `Avoids m x` says that `x` does
not halt with the text `m`.  A loop whose model halts with a text of its own when a bound on its
rounds is used up ends exactly when it avoids that text.
-/

import Pintos.Base.Kernel

namespace Pintos.Base

variable {α β : Type} {m : String} {p : α → Kernel Bool} {l : List α}

def Avoids (m : String) (x : Kernel α) : Prop := x ≠ PANIC m

namespace Avoids

lemma ok (a : α) : Avoids m (.ok a : Kernel α) := nofun

lemma pure (a : α) : Avoids m (Pure.pure a : Kernel α) := nofun

lemma panic {m' : String} (h : m' ≠ m) : Avoids m (PANIC m' : Kernel α) := by
  intro heq
  simp only [PANIC, Except.error.injEq, Panic.mk.injEq] at heq
  exact h heq

variable {x : Kernel α} {c : Prop}

lemma of_eq_ok {a : α} (h : x = .ok a) : Avoids m x := by
  rw [h]
  exact .ok a

lemma assert [Decidable c] (h : m ≠ "assertion failed.") : Avoids m (ASSERT c) := by
  unfold ASSERT
  split_ifs
  · exact .ok ()
  · exact .panic (Ne.symm h)

/-- **The sequence rule.** -/
theorem bind {f : α → Kernel β} (hx : Avoids m x) (hf : ∀ a, x = .ok a → Avoids m (f a)) :
    Avoids m (x >>= f) := by
  cases x with
  | error e =>
    intro heq
    refine hx ?_
    have herr : e = ⟨m⟩ := by
      simpa [Bind.bind, Except.bind, PANIC] using heq
    rw [herr]
    rfl
  | ok a => exact hf a rfl

lemma ite [Decidable c] {y : Kernel α} (hx : c → Avoids m x) (hy : ¬ c → Avoids m y) :
    Avoids m (if c then x else y) := by
  split_ifs with h
  · exact hx h
  · exact hy h

lemma forLoop {f : β → ℕ → Kernel β} (hf : ∀ b i, Avoids m (f b i)) (n : ℕ) (b : β) :
    Avoids m (Base.forLoop n f b) := by
  induction n with
  | zero => exact .ok b
  | succ n ih =>
    rw [forLoop_succ]
    exact ih.bind fun b' _ => hf b' n

lemma anyM (hp : ∀ a ∈ l, Avoids m (p a)) : Avoids m (l.anyM p) := by
  induction l with
  | nil => exact .ok false
  | cons a l ih =>
    rw [List.anyM_cons]
    refine (hp a List.mem_cons_self).bind fun r _ => ?_
    cases r with
    | true => exact .ok true
    | false => exact ih fun b hb => hp b (List.mem_cons_of_mem _ hb)

lemma anyLoop {p : ℕ → Kernel Bool} (hp : ∀ i, Avoids m (p i)) (n : ℕ) :
    Avoids m (Base.anyLoop n p) :=
  anyM fun i _ => hp i

end Avoids

lemma anyM_eq_ok_false (h : l.anyM p = .ok false) : ∀ a ∈ l, p a = .ok false := by
  induction l with
  | nil => exact nofun
  | cons b l ih =>
    rw [List.anyM_cons, Kernel.bind_eq_ok] at h
    obtain ⟨r, hr, hrest⟩ := h
    cases r with
    | true => cases hrest
    | false =>
      intro a ha
      rcases List.mem_cons.1 ha with rfl | ha
      · exact hr
      · exact ih hrest a ha

end Pintos.Base
