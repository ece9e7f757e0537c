/-
# What threads see of each other

Of another thread, the protocols depend on where it is in the kernel and on its children.
`System.Seen` says what a step does to that view: nothing, or the running thread goes on along an
edge of `System.Turns`, or it creates a thread, or it ends.
-/

import Pintos.Base.Prog
import Pintos.Userprog.Protocol

namespace Pintos

open Base Userprog Function Option Threads

variable {w₀ : Where}

namespace Threads

variable {s s' : Threads} {t u : ℕ} {w : Where} {th : Thread} {sema : Semaphore} {f : ThreadSema}

def view (s : Threads) (t : ℕ) : Option (Where × List ℕ) :=
  (s.threads t).map fun th => (th.stack, th.childList)

lemma view_eq_none : s.view t = none ↔ s.threads t = none := map_eq_none_iff

lemma view_eq_some {p : Where × List ℕ} :
    s.view t = some p ↔ ∃ th, s.threads t = some th ∧ (th.stack, th.childList) = p :=
  map_eq_some_iff

lemma view_of_threads (h : s.threads t = some th) :
    s.view t = some (th.stack, th.childList) := view_eq_some.2 ⟨th, h, rfl⟩

lemma Evolves.view (h : s.Evolves s') : s'.view = s.view := by
  funext u
  cases hu : s.threads u with
  | none => rw [view_eq_none.2 hu, view_eq_none.2 (h.absent u hu)]
  | some th =>
    obtain ⟨_, hu', he⟩ := h.kept u th hu
    rw [view_of_threads hu, view_of_threads hu', he.stack, he.childList]

lemma view_goTo (h : s.threads s.current = some th) :
    (s.goTo w).view = update s.view s.current (some (w, th.childList)) := by
  funext u
  rw [Threads.view, threads_goTo]
  by_cases hu : u = s.current
  · rw [if_pos hu, hu, update_self, h]
    rfl
  · rw [if_neg hu, update_of_ne hu]
    rfl

lemma view_setSema : (s.modify t fun th => th.setSema sema f).view = s.view := by
  funext u
  rw [Threads.view, threads_modify]
  by_cases hu : u = t
  · rw [if_pos hu, hu, map_map]
    cases f <;> rfl
  · rw [if_neg hu]
    rfl

lemma view_setSema_goTo {l : List ℕ} (h : s.view s.current = some (w₀, l)) :
    ((s.modify t fun th => th.setSema sema f).goTo w).view =
      update s.view s.current (some (w, l)) := by
  rw [← view_setSema (t := t) (f := f)] at h
  obtain ⟨_, hth, hp⟩ := view_eq_some.1 h
  rw [view_goTo hth, view_setSema, (Prod.mk.inj hp).2]
  rfl

/-- No thread follows a pointer to a freed one: at `w` with children `l` it may follow `needs w
l`. -/
def Safe (needs : Where → List ℕ → List ℕ) (s : Threads) : Prop :=
  ∀ t w l, s.view t = some (w, l) → ∀ c ∈ needs w l, s.view c ≠ none

end Threads

namespace Userprog

namespace System

variable {s s' : System} {a : Action}

/-- The edges along which a thread with children `l` goes on. -/
inductive Turns (s : System) (l : List ℕ) : Where → Where → Prop
  | passes {w₀ w : Where} : s.Passes l w₀ w → Turns s l w₀ w
  | execDown {c : ℕ} : Turns s l (.execDown c) (.execRead c)
  | execRead {c : ℕ} : Turns s l (.execRead c) .run
  | load {params : ℕ} {success : Bool} : Turns s l (.load params) (.loadUp params success)
  | loadUp {params : ℕ} {success : Bool} :
      Turns s l (.loadUp params success) (.startRest params success)
  | exit : Turns s l .exit .exited

inductive Seen (s : System) (a : Action) (s' : System) : Prop
  | same : s'.kernel.view = s.kernel.view → Seen s a s'
  | turns {l : List ℕ} {w₀ w : Where} : s.kernel.view s.kernel.current = some (w₀, l) →
      s.Turns l w₀ w →
      s'.kernel.view = update s.kernel.view s.kernel.current (some (w, l)) → Seen s a s'
  | bears {l : List ℕ} {function w : Where} : s.kernel.view s.kernel.current = some (.run, l) →
      s.Starts a function w → s.kernel.current ≠ s.kernel.nextTid →
      s'.kernel.view =
        update (update s.kernel.view s.kernel.nextTid (some (function, [])))
          s.kernel.current (some (w, l ++ [s.kernel.nextTid])) → Seen s a s'
  | ends {l : List ℕ} : a = .go → s.kernel.view s.kernel.current = some (.exit, l) →
      s.kernel.current ≠ s.kernel.initialThread →
      s'.kernel.view = update s.kernel.view s.kernel.current none → Seen s a s'

lemma seen_of_goTo {w : Where} (hat : s.kernel.At w₀) (hw : ∀ l, s.Turns l w₀ w)
    (he : (s.kernel.goTo w).Evolves s'.kernel) : s.Seen a s' := by
  obtain ⟨_, hcur, rfl⟩ := hat
  exact .turns (view_of_threads hcur) (hw _) (he.view.trans (view_goTo hcur))

theorem Effect.seen (h : s.Effect a s') : s.Seen a s' := by
  cases h with
  | quiet he => exact .same he.view
  | move hcur hw he =>
    exact .turns (view_of_threads hcur) (.passes hw) (he.view.trans (view_goTo hcur))
  | execRead hat _ _ hk =>
    obtain ⟨_, hcur, hstack⟩ := hat
    have hview := view_of_threads hcur
    rw [hstack] at hview
    exact .turns hview .execDown (hk ▸ view_setSema_goTo hview)
  | signal hat _ _ he =>
    obtain ⟨_, hcur, hstack⟩ := hat
    have hview := view_of_threads hcur
    rw [hstack] at hview
    exact .turns hview .loadUp (he.view.trans (view_setSema_goTo hview))
  | loaded hat hk => exact seen_of_goTo hat (fun _ => .load) (.of_eq hk)
  | execError he => exact .same he.view
  | execReturn hat _ hk => exact seen_of_goTo hat (fun _ => .execRead) (.of_eq hk)
  | waitReturn _ _ hk => exact .same (hk ▸ rfl)
  | bear hat hf hb =>
    obtain ⟨cur, _, _, _, hcur, hthreads⟩ := hb.threads
    obtain ⟨_, hcur', hstack⟩ := hat
    obtain rfl := mem_unique hcur hcur'
    have hview := view_of_threads hcur
    rw [hstack] at hview
    refine .bears hview hf (current_lt ⟨cur, hcur, rfl⟩).ne (funext fun u => ?_)
    rw [Threads.view, hthreads]
    by_cases hu : u = s.kernel.current
    · rw [if_pos hu, hu, update_self]
      rfl
    · rw [if_neg hu, update_of_ne hu]
      by_cases hun : u = s.kernel.nextTid
      · rw [if_pos hun, hun, update_self]
        rfl
      · rw [if_neg hun, update_of_ne hun]
        rfl
  | exited hat he => exact seen_of_goTo hat (fun _ => .exit) he
  | reap hat hne hthreads =>
    obtain ⟨_, hcur, hstack⟩ := hat
    have hview := view_of_threads hcur
    rw [hstack] at hview
    refine .ends rfl hview hne (funext fun u => ?_)
    rw [Threads.view, hthreads]
    by_cases hu : u = s.kernel.current
    · rw [if_pos hu, hu, update_self]
      rfl
    · rw [if_neg hu, update_of_ne hu]
      rfl

/-! ### Pointers to threads -/

def Unneeded (needs : Where → List ℕ → List ℕ) (s : System) : Prop :=
  ∀ t w l, t ≠ s.kernel.current → s.kernel.view t = some (w, l) → s.kernel.current ∉ needs w l

end System

def Action.EndsUnneeded (needs : Where → List ℕ → List ℕ) (s : System) : Action → Prop
  | .go => s.kernel.At .exit → s.kernel.current ≠ s.kernel.initialThread → s.Unneeded needs
  | _ => True

def Action.endsUnneeded (needs : Where → List ℕ → List ℕ) (s : System) : Action → Bool
  | .go => (s.kernel.view s.kernel.current).all (fun p => p.1 != .exit) ||
      (List.range s.kernel.nextTid).all fun t => (s.kernel.view t).all fun p =>
        t == s.kernel.current || !(needs p.1 p.2).contains s.kernel.current
  | _ => true

lemma Action.endsUnneeded_meets (needs : Where → List ℕ → List ℕ) (s : System) (a : Action)
    (h : a.endsUnneeded needs s = true) : a.EndsUnneeded needs s := by
  cases a with
  | go =>
    rintro ⟨_, hcur, hstack⟩ - t w l hne ht hmem
    have hlt : t < s.kernel.nextTid := by
      by_contra hge
      rw [view_eq_none.2 (s.kernel.fresh t (by omega))] at ht
      cases ht
    simp only [endsUnneeded, view_of_threads hcur, hstack, all_some, bne_self_eq_false,
      Bool.false_or] at h
    have htest := List.all_eq_true.1 h t (List.mem_range.2 hlt)
    simp only [ht, all_some, Bool.or_eq_true, beq_iff_eq, Bool.not_eq_true',
      List.contains_eq_mem, decide_eq_false_iff_not] at htest
    rcases htest with heq | hnot
    · exact hne heq
    · exact hnot hmem
  | _ => trivial

namespace System

variable {s s' : System} {a : Action}

/-- **One step keeps the pointers safe.** -/
theorem Seen.safe {needs : Where → List ℕ → List ℕ} (hs : s.Seen a s') (h : s.kernel.Safe needs)
    (hturn : ∀ l w₀ w, s.kernel.view s.kernel.current = some (w₀, l) → s.Turns l w₀ w →
      ∀ c ∈ needs w l, s.kernel.view c ≠ none)
    (hbear : ∀ l function w, s.kernel.view s.kernel.current = some (.run, l) →
      s.Starts a function w → needs function [] = [] ∧
        ∀ c ∈ needs w (l ++ [s.kernel.nextTid]), c = s.kernel.nextTid ∨ s.kernel.view c ≠ none)
    (hend : a.EndsUnneeded needs s) : s'.kernel.Safe needs := by
  intro t w l ht c hc
  cases hs with
  | same hv =>
    rw [hv] at ht ⊢
    exact h t w l ht c hc
  | @turns l0 w₀ w1 hcur hw hv =>
    -- the same threads exist
    have hkept : s.kernel.view c ≠ none → s'.kernel.view c ≠ none := by
      intro _
      rw [hv]
      by_cases hcc : c = s.kernel.current
      · rw [hcc, update_self]
        exact some_ne_none _
      · rwa [update_of_ne hcc]
    apply hkept
    rw [hv] at ht
    rcases update_some_cases ht with ⟨_, heq⟩ | ⟨_, ht⟩
    · cases heq
      exact hturn _ w₀ _ hcur hw c hc
    · exact h t w l ht c hc
  | @bears l0 function w1 hcur hf hne hv =>
    have hkept : c = s.kernel.nextTid ∨ s.kernel.view c ≠ none → s'.kernel.view c ≠ none := by
      intro hex
      rw [hv]
      by_cases hcc : c = s.kernel.current
      · rw [hcc, update_self]
        exact some_ne_none _
      · rw [update_of_ne hcc]
        by_cases hcn : c = s.kernel.nextTid
        · rw [hcn, update_self]
          exact some_ne_none _
        · rw [update_of_ne hcn]
          exact hex.resolve_left hcn
    obtain ⟨hnew, hold⟩ := hbear _ function w1 hcur hf
    apply hkept
    rw [hv] at ht
    rcases update_some_cases ht with ⟨_, heq⟩ | ⟨_, ht⟩
    · cases heq
      exact hold c hc
    · rcases update_some_cases ht with ⟨_, heq⟩ | ⟨_, ht⟩
      · cases heq
        rw [hnew] at hc
        cases hc
      · exact .inr (h t w l ht c hc)
  | @ends l0 hgo hcur hinit hv =>
    rw [hv] at ht ⊢
    obtain ⟨htc, ht⟩ := update_none_cases ht
    have hcc : c ≠ s.kernel.current := by
      rintro rfl
      obtain ⟨cur, hcur', hp⟩ := view_eq_some.1 hcur
      subst hgo
      exact hend ⟨cur, hcur', (Prod.mk.inj hp).1⟩ hinit t w l htc ht hc
    rw [update_of_ne hcc]
    exact h t w l ht c hc

lemma Effect.record (h : s.Effect a s') :
    (s'.loads = s.loads ∨ ∃ params success, a = .loaded success ∧ s.kernel.At (.load params) ∧
      s'.loads = update s.loads s.kernel.current (some success)) ∧
    (s'.execs = s.execs ∨ s'.execs = (none, TID_ERROR) :: s.execs ∨
      ∃ c th, s.kernel.At (.execRead c) ∧ s.kernel.threads c = some th ∧
        s'.execs = (some c, if th.loadSucceeded then (c : ℤ) else TID_ERROR) :: s.execs) ∧
    (s'.waits = s.waits ∨ ∃ tid cur, s.kernel.threads s.kernel.current = some cur ∧
      (∀ c ∈ cur.childList, (c : ℤ) ≠ tid) ∧
      s'.waits = ⟨s.kernel.current, tid, s.awaits tid, -1⟩ :: s.waits) := by
  cases h with
  | quiet _ h | move _ _ _ h | execRead _ _ _ _ h | signal _ _ _ _ h | exited _ _ h
  | reap _ _ _ _ _ h | bear _ _ h => exact ⟨.inl h.loads, .inl h.execs, .inl h.waits⟩
  | loaded hat _ _ hl he hw => exact ⟨.inr ⟨_, _, rfl, hat, hl⟩, .inl he, .inl hw⟩
  | execError _ _ hl he hw => exact ⟨.inl hl, .inr (.inl he), .inl hw⟩
  | execReturn hat hth _ _ hl he hw =>
    exact ⟨.inl hl, .inr (.inr ⟨_, _, hat, hth, he⟩), .inl hw⟩
  | waitReturn hcur hno _ _ hl he hw => exact ⟨.inl hl, .inl he, .inr ⟨_, _, hcur, hno, hw⟩⟩

end System
end Userprog
end Pintos
