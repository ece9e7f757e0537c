/-
# Runs of labelled transition systems

A system is a relation `Step s e s'`: in state `s` event `e` may happen and leave state `s'`.
`Reaches Step Meets` relates the states of a run in which every event meets a condition on itself
and the state it happens in; with `Always` it is plain reachability.
-/

import Mathlib.Logic.Relation

namespace Pintos.Base

variable {State Event : Type*}

def Reaches (Step : State → Event → State → Prop) (Meets : State → Event → Prop) :
    State → State → Prop :=
  Relation.ReflTransGen fun s s' => ∃ e, Step s e s' ∧ Meets s e

def Always (_ : State) (_ : Event) : Prop := True

namespace Reaches

variable {Step : State → Event → State → Prop} {Meets : State → Event → Prop} {s s' s'' : State}
  {e : Event}

lemma refl : Reaches Step Meets s s := Relation.ReflTransGen.refl

lemma step (hr : Reaches Step Meets s s') (hs : Step s' e s'') (hm : Meets s' e) :
    Reaches Step Meets s s'' :=
  hr.tail ⟨e, hs, hm⟩

/-- **The invariant rule.** -/
theorem invariant (Inv : State → Prop)
    (hstep : ∀ {s e s'}, Inv s → Step s e s' → Meets s e → Inv s') (h : Inv s)
    (hr : Reaches Step Meets s s') : Inv s' := by
  induction hr with
  | refl => exact h
  | tail _ hs ih =>
    obtain ⟨e, hs, hm⟩ := hs
    exact hstep ih hs hm

end Reaches

def runThrough (next : State → Event → Option State) : List Event → State → Option State
  | [], s => some s
  | e :: rest, s => (next s e).bind (runThrough next rest)

/-- **A computed run is a run**, with a test of where it ends. -/
theorem exists_runThrough {Step : State → Event → State → Prop} {Meets : State → Event → Prop}
    {next : State → Event → Option State}
    (hnext : ∀ {s e s'}, next s e = some s' → Step s e s' ∧ Meets s e) (s : State) (l : List Event)
    (check : State → Bool) (h : (runThrough next l s).any check = true) :
    ∃ s', Reaches Step Meets s s' ∧ check s' = true := by
  have hrun : ∀ (l : List Event) {s0 s s' : State}, Reaches Step Meets s0 s →
      runThrough next l s = some s' → Reaches Step Meets s0 s' := by
    intro l
    induction l with
    | nil =>
      intro _ s _ hr h
      cases h
      exact hr
    | cons e _ ih =>
      intro _ s _ hr h
      obtain ⟨_, hs1, h⟩ := Option.bind_eq_some_iff.1 h
      exact ih (hr.step (hnext hs1).1 (hnext hs1).2) h
  cases hs' : runThrough next l s with
  | none =>
    rw [hs'] at h
    cases h
  | some s' =>
    rw [hs'] at h
    exact ⟨s', hrun l .refl hs', h⟩

end Pintos.Base
