/-
# Programs made of atomic actions

A `Prog σ α` is code on a shared state: it is done with a result, or it takes an atomic action, as
soon as the guard lets it, and goes on with what that returned.  Other code runs only between two
actions.

`Prog.Sound G p s Q` says what `p` does alone from state `s`: no action waits or halts the machine,
every action is a step of `G`, and `p` ends with a result and a state in `Q`.  `Prog.Unless C p s Q`
is for a program that may halt the machine if `C` holds; `Prog.zoom` runs a program on a part of the
state.  In `Pool` any number of threads run programs, one call after the other, interleaved action
by action.
-/

import Pintos.Base.Kernel
import Pintos.Base.Run

namespace Pintos.Base

open Function

/-- Code that runs on a state `σ` and returns an `α`. -/
inductive Prog (σ α : Type) : Type 1
  | done (a : α)
  | act {β : Type} (guard : σ → Bool) (f : σ → Kernel (β × σ)) (k : β → Prog σ α)

namespace Prog

variable {σ τ α β : Type} {R : β → σ → Prop} {k : α → Prog σ β} {f : σ → Kernel (α × σ)} {a : α}

protected def bind : Prog σ α → (α → Prog σ β) → Prog σ β
  | .done a, k => k a
  | .act guard f k', k => .act guard f fun b => (k' b).bind k

instance : Monad (Prog σ) where
  pure := .done
  bind := Prog.bind

def atom (f : σ → Kernel (α × σ)) : Prog σ α := .act (fun _ => true) f .done

def atomWhen (guard : σ → Bool) (f : σ → Kernel (α × σ)) : Prog σ α := .act guard f .done

def run : Prog σ α → σ → Kernel (α × σ)
  | .done a, s => .ok (a, s)
  | .act guard f k, s => do
    if guard s then
      let (b, s') ← f s
      (k b).run s'
    else PANIC "blocked"

/-- `for (;;)` of at most `n` rounds; a round ends it with a result or goes on. -/
def loop (body : β → Prog σ (α ⊕ β)) (end_ : β → α) : ℕ → β → Prog σ α
  | 0, b => .done (end_ b)
  | n + 1, b => (body b).bind fun
    | .inl a => .done a
    | .inr b' => loop body end_ n b'

/-- The program on a part of the state, by `get` and `set`. -/
def zoom (get : τ → σ) (set : σ → τ → τ) : Prog σ α → Prog τ α
  | .done a => .done a
  | .act guard f k => .act (fun t => guard (get t))
      (fun t => do
        let (b, s') ← f (get t)
        return (b, set s' t)) fun b => (k b).zoom get set

/-- **What a program does when it runs alone.** -/
def Sound (G : σ → σ → Prop) : Prog σ α → σ → (α → σ → Prop) → Prop
  | .done a, s, Q => Q a s
  | .act guard f k, s, Q =>
    guard s = true ∧ ∃ b s', f s = .ok (b, s') ∧ G s s' ∧ (k b).Sound G s' Q

section Rules

variable {G G' : σ → σ → Prop} {p : Prog σ α} {s s' : σ} {Q Q' : α → σ → Prop} {set : σ → τ → τ}
  {get : τ → σ}

lemma Sound.pure (h : Q a s) : (Pure.pure a : Prog σ α).Sound G s Q := h

lemma Sound.atom (hf : f s = .ok (a, s')) (hG : G s s') (hQ : Q a s') :
    (Prog.atom f).Sound G s Q :=
  ⟨rfl, a, s', hf, hG, hQ⟩

lemma Sound.atomWhen {guard : σ → Bool} (hguard : guard s = true) (hf : f s = .ok (a, s'))
    (hG : G s s') (hQ : Q a s') : (Prog.atomWhen guard f).Sound G s Q :=
  ⟨hguard, a, s', hf, hG, hQ⟩

lemma Sound.mono (h : p.Sound G s Q) (hG : ∀ s s', G s s' → G' s s')
    (hQ : ∀ a s', Q a s' → Q' a s') : p.Sound G' s Q' := by
  induction p generalizing s with
  | done a => exact hQ a s h
  | act _ f k ih =>
    obtain ⟨hguard, b, s', hf, hstep, h⟩ := h
    exact ⟨hguard, b, s', hf, hG _ _ hstep, ih b h⟩

lemma Sound.imp (h : p.Sound G s Q) (hQ : ∀ a s', Q a s' → Q' a s') : p.Sound G s Q' :=
  h.mono (fun _ _ => id) hQ

/-- What every action keeps holds at the end. -/
lemma Sound.keeps {I : σ → Prop} (h : p.Sound G s Q) (hI : I s)
    (hG : ∀ s s', I s → G s s' → I s') : p.Sound G s fun a s' => Q a s' ∧ I s' := by
  induction p generalizing s with
  | done => exact ⟨h, hI⟩
  | act _ f k ih =>
    obtain ⟨hguard, b, s', hf, hstep, h⟩ := h
    exact ⟨hguard, b, s', hf, hstep, ih b h (hG _ _ hI hstep)⟩

/-- **The sequence rule.** -/
theorem Sound.bind (h : p.Sound G s Q) (hk : ∀ a s', Q a s' → (k a).Sound G s' R) :
    (p >>= k).Sound G s R := by
  induction p generalizing s with
  | done a => exact hk a s h
  | act _ f _ ih =>
    obtain ⟨hguard, b, s', hf, hstep, h⟩ := h
    exact ⟨hguard, b, s', hf, hstep, ih b h⟩

lemma Sound.atom_bind (hf : f s = .ok (a, s')) (hG : G s s') (hk : (k a).Sound G s' R) :
    (Prog.atom f >>= k).Sound G s R :=
  ⟨rfl, a, s', hf, hG, hk⟩

/-- **The loop rule**: `P n` holds with `n` rounds to go, and with none it cannot. -/
theorem Sound.loop {body : β → Prog σ (α ⊕ β)} {end_ : β → α} {n : ℕ} {b : β}
    (P : ℕ → β → σ → Prop) (hP : P n b s) (hzero : ∀ b s, ¬ P 0 b s)
    (hs : ∀ n b s, P (n + 1) b s → (body b).Sound G s fun r s' =>
      match r with
      | .inl a => Q a s'
      | .inr b' => P n b' s') : (Prog.loop body end_ n b).Sound G s Q := by
  induction n generalizing b s with
  | zero => exact absurd hP (hzero b s)
  | succ n ih =>
    refine Sound.bind (hs n b s hP) fun r s' hr => ?_
    cases r with
    | inl => exact hr
    | inr => exact ih hr

/-- **The zoom rule.** -/
theorem Sound.zoom {H : τ → τ → Prop} {R : α → τ → Prop} {t : τ} (h : p.Sound G (get t) Q)
    (hget : ∀ s t, get (set s t) = s) (hset : ∀ s s' t, set s (set s' t) = set s t)
    (hself : ∀ t, set (get t) t = t) (hG : ∀ s t, G (get t) s → H t (set s t))
    (hR : ∀ a s, Q a s → R a (set s t)) : (p.zoom get set).Sound H t R := by
  induction p generalizing t with
  | done a =>
    have := hR a _ h
    rw [hself] at this
    exact this
  | act _ f k ih =>
    obtain ⟨hguard, b, s', hf, hstep, h⟩ := h
    refine ⟨hguard, b, set s' t, by beta_reduce; rw [hf]; rfl, hG _ _ hstep,
      ih b ?_ fun a s hQ => ?_⟩
    · rw [hget]
      exact h
    · rw [hset]
      exact hR a s hQ

lemma run_bind (p : Prog σ α) (k : α → Prog σ β) (s : σ) :
    (p >>= k).run s = (p.run s >>= fun r => (k r.1).run r.2) := by
  induction p generalizing s with
  | done => rfl
  | act guard f _ ih =>
    change (if guard s then _ else _) = (if guard s then _ else _) >>= _
    split_ifs
    · cases hf : f s with
      | error => rfl
      | ok r => exact ih r.1 r.2
    · rfl

lemma run_atom (f : σ → Kernel (α × σ)) (s : σ) : (Prog.atom f).run s = f s := by
  rw [Prog.atom, run, if_pos rfl]
  cases hf : f s with
  | error => rfl
  | ok => rfl

lemma Sound.run_eq (h : p.Sound G s Q) : ∃ a s', p.run s = .ok (a, s') ∧ Q a s' := by
  induction p generalizing s with
  | done a => exact ⟨a, s, rfl, h⟩
  | act _ f k ih =>
    obtain ⟨hguard, b, _, hf, _, h⟩ := h
    obtain ⟨a, t, hrun, hQ⟩ := ih b h
    refine ⟨a, t, ?_, hQ⟩
    rw [run, if_pos hguard, hf, Kernel.ok_bind]
    exact hrun

lemma Sound.of_run (h : p.Sound G s Q) (hrun : p.run s = .ok (a, s')) : Q a s' := by
  obtain ⟨b, t, hrun', hQ⟩ := h.run_eq
  obtain ⟨rfl, rfl⟩ := Prod.mk.inj (Except.ok.inj (hrun.symm.trans hrun'))
  exact hQ

end Rules

/-- **The program ends in `Q`, unless `C` holds and it halts the machine.** -/
def Unless (C : Prop) (p : Prog σ α) (s : σ) (Q : α → σ → Prop) : Prop :=
  (∃ a s', p.run s = .ok (a, s') ∧ Q a s') ∨ (C ∧ ∃ e, p.run s = .error e)

section Halting

variable {C : Prop} {p : Prog σ α} {s s' : σ} {Q : α → σ → Prop}

lemma Unless.pure (h : Q a s) : (Pure.pure a : Prog σ α).Unless C s Q := .inl ⟨a, s, rfl, h⟩

lemma Unless.of_run (h : p.run s = .ok (a, s')) (hQ : Q a s') : p.Unless C s Q :=
  .inl ⟨a, s', h, hQ⟩

lemma Unless.halts {e : Panic} (hC : C) (h : p.run s = .error e) : p.Unless C s Q :=
  .inr ⟨hC, e, h⟩

lemma Unless.bind (h : p.Unless C s Q) (hk : ∀ a s', Q a s' → (k a).Unless C s' R) :
    (p >>= k).Unless C s R := by
  unfold Unless
  rw [Prog.run_bind]
  rcases h with ⟨a, s', hrun, hQ⟩ | ⟨hC, e, hrun⟩
  · rw [hrun]
    exact hk a s' hQ
  · rw [hrun]
    exact .inr ⟨hC, e, rfl⟩

lemma Unless.run_bind (h : p.run s = .ok (a, s')) (hk : (k a).Unless C s' R) :
    (p >>= k).Unless C s R := by
  unfold Unless
  rw [Prog.run_bind, h]
  exact hk

lemma Unless.atom_bind (hf : f s = .ok (a, s')) (hk : (k a).Unless C s' R) :
    (Prog.atom f >>= k).Unless C s R :=
  .run_bind ((run_atom f s).trans hf) hk

end Halting

end Prog

/-! ### Threads that make calls -/

section Tables

variable {κ ν : Type*} [DecidableEq κ] {m : κ → Option ν} {p q : κ} {v w : ν}

lemma update_some_cases (h : update m p (some v) q = some w) :
    (q = p ∧ w = v) ∨ (q ≠ p ∧ m q = some w) := by
  by_cases hq : q = p
  · rw [hq, update_self] at h
    exact .inl ⟨hq, (Option.some.inj h).symm⟩
  · rw [update_of_ne hq] at h
    exact .inr ⟨hq, h⟩

lemma forall_update {P : κ → ν → Prop} (hold : ∀ {q w}, m q = some w → P q w) (hnew : P p v)
    (h : update m p (some v) q = some w) : P q w := by
  rcases update_some_cases h with ⟨rfl, rfl⟩ | ⟨_, h⟩
  · exact hnew
  · exact hold h

lemma update_none_cases (h : update m p none q = some w) : q ≠ p ∧ m q = some w := by
  by_cases hq : q = p
  · rw [hq, update_self] at h
    cases h
  · rw [update_of_ne hq] at h
    exact ⟨hq, h⟩

end Tables

/-- Threads `ι` on a state `σ` that make calls `χ` with results `ρ`: the state, the code left of
each call, and the calls that returned, in order. -/
structure Pool (ι σ χ ρ : Type) where
  state : σ
  running : ι → Option (χ × Prog σ ρ)
  log : List (ι × χ × ρ)

namespace Pool

variable {ι σ χ ρ : Type} [DecidableEq ι] {i : ι} {p : Prog σ ρ} {c : χ}

/-- What happens: a thread starts a call, takes an action of it, or returns from it. -/
inductive Event (ι χ : Type)
  | start (i : ι) (c : χ)
  | step (i : ι)
  | finish (i : ι)

inductive Step (code : ι → χ → Prog σ ρ) : Pool ι σ χ ρ → Event ι χ → Pool ι σ χ ρ → Prop
  | start {P : Pool ι σ χ ρ} {i : ι} {c : χ} : P.running i = none →
      Step code P (.start i c)
        { P with running := update P.running i (some (c, code i c)) }
  | act {P : Pool ι σ χ ρ} {i : ι} {c : χ} {β : Type} {guard : σ → Bool}
      {f : σ → Kernel (β × σ)} {k : β → Prog σ ρ} {b : β} {s' : σ} :
      P.running i = some (c, .act guard f k) → guard P.state = true →
      f P.state = .ok (b, s') →
      Step code P (.step i)
        { P with state := s', running := update P.running i (some (c, k b)) }
  | finish {P : Pool ι σ χ ρ} {i : ι} {c : χ} {r : ρ} : P.running i = some (c, .done r) →
      Step code P (.finish i)
        { P with running := update P.running i none, log := P.log ++ [(i, c, r)] }

/-- **A thread may run its call to the end** without the others. -/
theorem reaches_of_run {code : ι → χ → Prog σ ρ} {P : Pool ι σ χ ρ} {r : ρ} {s' : σ}
    {Meets : Pool ι σ χ ρ → Event ι χ → Prop} (hm : ∀ P, Meets P (.step i))
    (hi : P.running i = some (c, p)) (h : p.run P.state = .ok (r, s')) :
    Reaches (Step code) Meets P
      { P with state := s', running := update P.running i (some (c, .done r)) } := by
  induction p generalizing P with
  | done =>
    cases h
    rw [← hi, update_eq_self]
    exact .refl
  | act _ f k ih =>
    rw [Prog.run] at h
    split_ifs at h with hguard
    · obtain ⟨⟨b, s⟩, hf, h⟩ := Kernel.bind_eq_ok.1 h
      have hrest := ih b (P := { P with
        state := s, running := update P.running i (some (c, k b)) })
        (update_self ..) h
      rw [update_idem] at hrest
      exact Relation.ReflTransGen.head ⟨_, .act hi hguard hf, hm P⟩ hrest
    · cases h

/-- The next action of a thread halts the machine. -/
def Panics (P : Pool ι σ χ ρ) : Prop :=
  ∃ i c, ∃ (β : Type) (guard : σ → Bool) (f : σ → Kernel (β × σ)) (k : β → Prog σ ρ) (e : Panic),
    P.running i = some (c, .act guard f k) ∧ guard P.state = true ∧ f P.state = .error e

/-- A call starts when no thread is in one, in a state that `Ok` allows. -/
def Alone (Ok : σ → ι → χ → Prop) (P : Pool ι σ χ ρ) : Event ι χ → Prop
  | .start i c => (∀ j, P.running j = none) ∧ Ok P.state i c
  | _ => True

/-- The pool when every call runs alone. -/
inductive Solo (I : List (ι × χ × ρ) → σ → Prop) (G : ι → χ → σ → σ → Prop) (P : Pool ι σ χ ρ) :
    Prop
  | idle : (∀ j, P.running j = none) → I P.log P.state → Solo I G P
  | call (i : ι) (c : χ) (p : Prog σ ρ) (s₀ : σ) : P.running i = some (c, p) →
      (∀ j ≠ i, P.running j = none) → I P.log s₀ →
      Relation.ReflTransGen (G i c) s₀ P.state →
      p.Sound (G i c) P.state (fun r s => I (P.log ++ [(i, c, r)]) s) → Solo I G P

variable {code : ι → χ → Prog σ ρ} {I : List (ι × χ × ρ) → σ → Prop}
  {G : ι → χ → σ → σ → Prop} {Ok : σ → ι → χ → Prop} {P P' : Pool ι σ χ ρ} {e : Event ι χ}

lemma Solo.of_running (h : P.Solo I G) (hi : P.running i = some (c, p)) :
    (∀ j ≠ i, P.running j = none) ∧ ∃ s₀, I P.log s₀ ∧ Relation.ReflTransGen (G i c) s₀ P.state ∧
      p.Sound (G i c) P.state fun r s => I (P.log ++ [(i, c, r)]) s := by
  cases h with
  | idle hidle =>
    rw [hidle i] at hi
    cases hi
  | call j _ _ s₀ hj hother hI hreach hp =>
    have hij : i = j := by
      by_contra hij
      rw [hother i hij] at hi
      cases hi
    subst hij
    rw [hj] at hi
    cases hi
    exact ⟨hother, s₀, hI, hreach, hp⟩

lemma Solo.not_panics (h : P.Solo I G) : ¬ P.Panics := by
  rintro ⟨i, c, _, _, f, k, _, hi, _, hf⟩
  obtain ⟨_, _, _, _, _, b, _, hok, _⟩ := h.of_running hi
  rw [hf] at hok
  cases hok

lemma update_other {x : Option (χ × Prog σ ρ)} (h : ∀ j ≠ i, P.running j = none) :
    ∀ j ≠ i, update P.running i x j = none :=
  fun j hj => (update_of_ne hj ..).trans (h j hj)

section

variable
  (hcode : ∀ log s i c, I log s → Ok s i c → (code i c).Sound (G i c) s fun r s' =>
    I (log ++ [(i, c, r)]) s')
  (h : P.Solo I G)
include hcode h

/-- **One event**, when calls start alone. -/
theorem Solo.step (hs : Step code P e P') (ha : P.Alone Ok e) : P'.Solo I G := by
  cases hs with
  | @start i c hi =>
    cases h with
    | idle hidle hI =>
      exact .call i c (code i c) P.state (update_self ..)
        (update_other fun j _ => hidle j) hI .refl (hcode _ _ i c hI ha.2)
    | call j _ p _ hj =>
      rw [ha.1 j] at hj
      cases hj
  | @act i c β guard f k b s' hi _ hf =>
    obtain ⟨hother, s₀, hI, hreach, _, _, _, hok, hG, hp⟩ := h.of_running hi
    obtain ⟨rfl, rfl⟩ := Prod.mk.inj (Except.ok.inj (hf.symm.trans hok))
    exact .call i c (k b) s₀ (update_self ..) (update_other hother) hI (hreach.tail hG) hp
  | @finish i c r hi =>
    obtain ⟨hother, _, _, _, hp⟩ := h.of_running hi
    refine .idle (fun j => ?_) hp
    by_cases hji : j = i
    · rw [hji]
      exact update_self ..
    · exact update_other hother j hji

/-- **Calls that start alone run alone.** -/
theorem alone_run (hr : Reaches (Step code) (Alone Ok) P P') : P'.Solo I G := by
  refine hr.invariant (fun P => P.Solo I G) ?_ h
  intro P e _ hP hs hm
  exact hP.step hcode hs hm

end

end Pool

end Pintos.Base
