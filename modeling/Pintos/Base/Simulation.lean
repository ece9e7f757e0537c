/-
# Simulation

A trace is a run with its events in order.  A simulation relates the states of two systems so that
every step of the first is a step of the second with the same event; so is every trace.
-/

import Pintos.Base.Kernel
import Pintos.Base.Run

namespace Pintos.Base

variable {State State' Event : Type*} {Step : State → Event → State → Prop} {l : List Event}

inductive Trace (Step : State → Event → State → Prop) : State → List Event → State → Prop
  | nil {s : State} : Trace Step s [] s
  | cons {s s' s'' : State} {e : Event} {l : List Event} : Step s e s' → Trace Step s' l s'' →
      Trace Step s (e :: l) s''

lemma Trace.reaches {s s' : State} (h : Trace Step s l s') : Reaches Step Always s s' := by
  induction h with
  | nil => exact .refl
  | cons hs _ ih => exact .head ⟨_, hs, trivial⟩ ih

/-- What can be replayed is a trace. -/
lemma Trace.of_foldlM {State : Type} {Step : State → Event → State → Prop} {s s' : State}
    {next : State → Event → Kernel State} (hnext : ∀ {s e s'}, next s e = .ok s' → Step s e s')
    (h : l.foldlM next s = .ok s') : Trace Step s l s' := by
  induction l generalizing s with
  | nil =>
    cases h
    exact .nil
  | cons e l ih =>
    rw [List.foldlM_cons] at h
    obtain ⟨_, hs, h⟩ := Kernel.bind_eq_ok.1 h
    exact .cons (hnext hs) (ih h)

/-- **Steps of related states have the same events.** -/
structure Simulation (Step : State → Event → State → Prop) (Step' : State' → Event → State' → Prop)
    (R : State → State' → Prop) : Prop where
  step : ∀ {s s' : State} {a : State'} {e : Event}, R s a → Step s e s' →
    ∃ a', Step' a e a' ∧ R s' a'

/-- **Every trace is a trace of the abstract system.** -/
theorem Simulation.trace {Step' : State' → Event → State' → Prop} {R : State → State' → Prop}
    (h : Simulation Step Step' R) {s s' : State} (ht : Trace Step s l s') :
    ∀ {a : State'}, R s a → ∃ a', Trace Step' a l a' ∧ R s' a' := by
  induction ht with
  | nil => exact fun {a} hr => ⟨a, .nil, hr⟩
  | cons hs _ ih =>
    intro a hr
    obtain ⟨_, ha, hr1⟩ := h.step hr hs
    obtain ⟨a2, hl, hr2⟩ := ih hr1
    exact ⟨a2, .cons ha hl, hr2⟩

end Pintos.Base
