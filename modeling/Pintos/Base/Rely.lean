/-
# Programs under interference

`Prog.Rely R G E p x Q` says what `p` does when other threads run between its actions: while they
change the state by steps of `R`, every action of `p` is a step of `G` or halts the machine with an
error of `E`, and `p` ends in `Q`.  The states are pairs with a ghost component, which the actions
do not see and which may change along with them.

`Triple R G E P p Q` is the same from every state in `P`; the assertions between two actions have to
be `Stable`.
-/

import Pintos.Base.Prog

namespace Pintos
namespace Base

namespace Prog

variable {σ γ α β : Type} {R G : σ × γ → σ × γ → Prop} {E : Panic → Prop} {Q : α → σ × γ → Prop}
  {p : Prog σ α} {x : σ × γ} {Q' : β → σ × γ → Prop} {k : α → Prog σ β}

/-- **What a program does under interference.** -/
def Rely (R G : σ × γ → σ × γ → Prop) (E : Panic → Prop) :
    Prog σ α → σ × γ → (α → σ × γ → Prop) → Prop
  | .done a, x, Q => ∀ x', R x x' → Q a x'
  | .act guard f k, x, Q => ∀ x', R x x' → guard x'.1 = true →
      (∃ b s g, f x'.1 = .ok (b, s) ∧ G x' (s, g) ∧ (k b).Rely R G E (s, g) Q) ∨
        ∃ e, f x'.1 = .error e ∧ E e

/-- What other threads did before the first action does not matter. -/
lemma Rely.stable {x' : σ × γ} (htrans : ∀ {x y z}, R x y → R y z → R x z) (h : p.Rely R G E x Q)
    (hR : R x x') : p.Rely R G E x' Q := by
  cases p with
  | done | act => exact fun y hy => h y (htrans hR hy)

/-- **The sequence rule.** -/
theorem Rely.bind (hrefl : ∀ x, R x x) (h : p.Rely R G E x Q)
    (hk : ∀ a x, Q a x → (k a).Rely R G E x Q') : (p >>= k).Rely R G E x Q' := by
  induction p generalizing x with
  | done a => exact hk a x (h x (hrefl x))
  | act _ f _ ih =>
    intro x' hR hguard
    rcases h x' hR hguard with ⟨b, s, g, hf, hG, h⟩ | hE
    · exact .inl ⟨b, s, g, hf, hG, ih b h⟩
    · exact .inr hE

lemma Rely.imp {Q' : α → σ × γ → Prop} (h : p.Rely R G E x Q) (hQ : ∀ a x, Q a x → Q' a x) :
    p.Rely R G E x Q' := by
  induction p generalizing x with
  | done a => exact fun x' hR => hQ a x' (h x' hR)
  | act _ f k ih =>
    intro x' hR hguard
    rcases h x' hR hguard with ⟨b, s, g, hf, hG, h⟩ | hE
    · exact .inl ⟨b, s, g, hf, hG, ih b h⟩
    · exact .inr hE

/-- An assertion that no step of other threads breaks. -/
def Stable (R : σ × γ → σ × γ → Prop) (P : σ × γ → Prop) : Prop :=
  ∀ x x', P x → R x x' → P x'

def Triple (R G : σ × γ → σ × γ → Prop) (E : Panic → Prop) (P : σ × γ → Prop) (p : Prog σ α)
    (Q : α → σ × γ → Prop) : Prop :=
  ∀ x, P x → p.Rely R G E x Q

namespace Triple

variable {P P' : σ × γ → Prop} {p : Prog σ α} {Q : α → σ × γ → Prop} {f : σ → Kernel (α × σ)}

lemma pure {a : α} (hP : Stable R P) (h : ∀ x, P x → Q a x) : Triple R G E P (Pure.pure a) Q :=
  fun x hx x' hR => h x' (hP x x' hx hR)

/-- **The action rule.**  The assertions are stable, and the action is a guaranteed step. -/
theorem atomWhen {guard : σ → Bool} (hP : Stable R P) (h : ∀ x, P x → guard x.1 = true →
      (∃ a s g, f x.1 = .ok (a, s) ∧ G x (s, g) ∧ Q a (s, g)) ∨ ∃ e, f x.1 = .error e ∧ E e)
    (hQ : ∀ a, Stable R (Q a)) : Triple R G E P (Prog.atomWhen guard f) Q := by
  intro x hx x' hR hguard
  rcases h x' (hP x x' hx hR) hguard with ⟨a, s, g, hf, hG, hq⟩ | hE
  · exact .inl ⟨a, s, g, hf, hG, fun y hy => hQ a _ y hq hy⟩
  · exact .inr hE

lemma atom (hP : Stable R P)
    (h : ∀ x, P x → ∃ a s g, f x.1 = .ok (a, s) ∧ G x (s, g) ∧ Q a (s, g))
    (hQ : ∀ a, Stable R (Q a)) : Triple R G E P (Prog.atom f) Q :=
  atomWhen hP (fun x hx _ => .inl (h x hx)) hQ

lemma bind (hrefl : ∀ x, R x x) (h : Triple R G E P p Q) (hk : ∀ a, Triple R G E (Q a) (k a) Q') :
    Triple R G E P (p >>= k) Q' :=
  fun x hx => (h x hx).bind hrefl fun a x' hq => hk a x' hq

lemma pre (h : Triple R G E P p Q) (hP : ∀ x, P' x → P x) : Triple R G E P' p Q :=
  fun x hx => h x (hP x hx)

lemma post {Q' : α → σ × γ → Prop} (h : Triple R G E P p Q) (hQ : ∀ a x, Q a x → Q' a x) :
    Triple R G E P p Q' :=
  fun x hx => (h x hx).imp hQ

end Triple

end Prog

namespace Pool

variable {ι σ γ χ ρ : Type} {code : ι → χ → Prog σ ρ} {R G : ι → σ × γ → σ × γ → Prop}
  {E : ι → χ → Panic → Prop} {I : σ × γ → Prop} {J : ι × χ × ρ → σ × γ → Prop}
  {P P' : Pool ι σ χ ρ} {g : γ} {e : Event ι χ}

/-- Threads that respect each other. -/
structure Respect (R G : ι → σ × γ → σ × γ → Prop) (I : σ × γ → Prop)
    (J : ι × χ × ρ → σ × γ → Prop) : Prop where
  refl : ∀ i x, R i x x
  trans : ∀ {i x y z}, R i x y → R i y z → R i x z
  others : ∀ {i k x y}, k ≠ i → G i x y → R k x y
  inv : ∀ {i x y}, I x → G i x y → I y
  returned : ∀ {i r x y}, J r x → G i x y → J r y

structure Safe (R G : ι → σ × γ → σ × γ → Prop) (E : ι → χ → Panic → Prop) (I : σ × γ → Prop)
    (J : ι × χ × ρ → σ × γ → Prop) (P : Pool ι σ χ ρ) (g : γ) : Prop where
  inv : I (P.state, g)
  returned : ∀ r ∈ P.log, J r (P.state, g)
  running : ∀ i c p, P.running i = some (c, p) →
    p.Rely (R i) (G i) (E i c) (P.state, g) fun r x => J (i, c, r) x

/-- An action that halts the machine does so with an error its call may end in. -/
lemma Safe.error (h : P.Safe R G E I J g) (hR : Respect R G I J) {i : ι} {c : χ} {β : Type}
    {guard : σ → Bool} {f : σ → Kernel (β × σ)} {k : β → Prog σ ρ} {err : Panic}
    (hi : P.running i = some (c, .act guard f k)) (hguard : guard P.state = true)
    (hf : f P.state = .error err) : E i c err := by
  rcases h.running i c _ hi _ (hR.refl i _) hguard with ⟨b, s, _, hok, _⟩ | ⟨e, he, hE⟩
  · rw [hf] at hok
    cases hok
  · rw [hf] at he
    obtain rfl := Except.error.inj he
    exact hE

variable [DecidableEq ι]

section

variable (hR : Respect R G I J)
  (hcode : ∀ i c, Prog.Triple (R i) (G i) (E i c) I (code i c) fun r x => J (i, c, r) x)
  (h : P.Safe R G E I J g)
include hR hcode h

/-- **One event.** -/
theorem Safe.step (hs : Step code P e P') : ∃ g', P'.Safe R G E I J g' := by
  cases hs with
  | @start i c hi =>
    refine ⟨g, h.inv, h.returned, fun j c' p hj => ?_⟩
    rcases update_some_cases hj with ⟨rfl, hcp⟩ | ⟨_, hj⟩
    · obtain ⟨rfl, rfl⟩ := Prod.mk.inj hcp
      exact hcode j c' _ h.inv
    · exact h.running j c' p hj
  | @act i c β guard f k b s' hi hguard hf =>
    rcases h.running i c _ hi _ (hR.refl i _) hguard with ⟨_, s, g', hok, hG, hp⟩ | ⟨_, he, _⟩
    · obtain ⟨rfl, rfl⟩ := Prod.mk.inj (Except.ok.inj (hf.symm.trans hok))
      refine ⟨g', hR.inv h.inv hG, fun r hr => hR.returned (h.returned r hr) hG,
        fun j c' p hj => ?_⟩
      rcases update_some_cases hj with ⟨rfl, hcp⟩ | ⟨hji, hj⟩
      · cases hcp
        exact hp
      · exact (h.running j c' p hj).stable hR.trans (hR.others hji hG)
    · rw [hf] at he
      cases he
  | @finish i c r hi =>
    have hr := h.running i c _ hi _ (hR.refl i _)
    refine ⟨g, h.inv, fun r' hr' => ?_, fun j c' p hj => ?_⟩
    · rcases List.mem_append.mp hr' with hr' | hr'
      · exact h.returned r' hr'
      · rw [List.mem_singleton.mp hr']
        exact hr
    · exact h.running j c' p (update_none_cases hj).2

/-- **Every interleaving.** -/
theorem rely_run (hr : Reaches (Step code) Always P P') : ∃ g', P'.Safe R G E I J g' := by
  refine hr.invariant (fun P => ∃ g, P.Safe R G E I J g) ?_ ⟨g, h⟩
  rintro P e P' ⟨g, hP⟩ hs _
  exact hP.step hR hcode hs

end

end Pool

end Base
end Pintos
