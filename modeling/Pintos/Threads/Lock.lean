/-
# Locks exclude each other

`lock_acquire` decrements the semaphore of the lock and then writes `holder`, `lock_release` clears
`holder` and then increments the semaphore, and a thread may lose the CPU in between.  So a thread
is in one of four phases: outside, past the semaphore (`taken`), holding the lock, and past the
write of `NULL` (`freeing`).  `Typed` is a precondition of the statements left to execute, each with
the phases it needs and leaves.
-/

import Pintos.Threads.Semaphore

namespace Pintos

open Base Function Kernel Option Except Synch

inductive Phase
  | out
  | taken
  | held
  | freeing
deriving DecidableEq, Repr

/-- The statements may be executed by a thread in the given phases. -/
def Typed (ph : ℕ → Phase) : List Stmt → Prop
  | [] => ∀ l, ph l = .out ∨ ph l = .held
  | .semaDown (.lock l) :: rest => ph l = .out ∧ Typed (update ph l .taken) rest
  | .semaDown (.own _) :: rest => Typed ph rest
  | .semaDown (.waiter _) :: rest => Typed ph rest
  | .semaTryDown (.lock _) :: _ => False
  | .semaTryDown (.own _) :: rest => Typed ph rest
  | .semaTryDown (.waiter _) :: rest => Typed ph rest
  | .semaUp (.lock l) :: rest => ph l = .freeing ∧ Typed (update ph l .out) rest
  | .semaUp (.own _) :: rest => Typed ph rest
  | .semaUp (.waiter _) :: rest => Typed ph rest
  | .assertHeld l :: rest => ph l = .held ∧ Typed ph rest
  | .assertNotHeld l :: rest => ph l = .out ∧ Typed ph rest
  -- with the semaphore, `lock->holder` is written next
  | .tryAcquire l :: rest => ph l = .out ∧ Typed (update ph l .held) rest ∧ Typed ph rest
  | .setHolder l :: rest => ph l = .taken ∧ Typed (update ph l .held) rest
  | .clearHolder l :: rest => ph l = .held ∧ Typed (update ph l .freeing) rest
  | .pushWaiter _ _ :: rest => Typed ph rest
  | .signal _ l :: rest => ph l = .held ∧ Typed ph rest
  | .broadcast _ l :: rest => ph l = .held ∧ Typed ph rest
  | .leave l _ :: rest => ph l = .held ∧ Typed ph rest

structure LockState (s : Traced) (ph : ℕ → ℕ → Phase) (l : ℕ) : Prop where
  value : ((s.synch.semas (.lock l)).value = 1 ∧ ∀ t, ph t l = .out) ∨
    ((s.synch.semas (.lock l)).value = 0 ∧ ∃ t, ph t l ≠ .out ∧ ∀ u, u ≠ t → ph u l = .out)
  holder : ∀ t, s.synch.holder l = some t ↔ ph t l = .held
  owners : s.trace.owners l = (s.synch.holder l).toList

/-- **The lock invariant.** -/
structure Locked (s : Traced) (ph : ℕ → ℕ → Phase) : Prop where
  typed : ∀ t, Typed (ph t) (s.synch.code t)
  state : ∀ l, LockState s ph l

/-- How to use locks: acquire none one owns, release only what one owns, own nothing at exit. -/
def Event.Disciplined (s : Traced) : Event → Prop
  | .call (.lockAcquire l) | .call (.lockTryAcquire l) => s.synch.kernel.current ∉ s.trace.owners l
  | .call (.lockRelease l) | .call (.condWait _ l) | .call (.condSignal _ l)
  | .call (.condBroadcast _ l) => s.synch.kernel.current ∈ s.trace.owners l
  | .exit => ∀ l, s.synch.kernel.current ∉ s.trace.owners l
  | _ => True

namespace LockState

variable {s s' : Traced} {ph ph' : ℕ → ℕ → Phase} {l t : ℕ}

section

variable (h : LockState s ph l)
include h

lemma alone (ht : ph t l ≠ .out) :
    (s.synch.semas (.lock l)).value = 0 ∧ ∀ u, u ≠ t → ph u l = .out := by
  rcases h.value with ⟨_, hall⟩ | ⟨hv, t', _, hall⟩
  · exact absurd (hall t) ht
  · have htt : t = t' := by
      by_contra hne
      exact ht (hall t hne)
    exact ⟨hv, htt ▸ hall⟩

lemma mem_owners : t ∈ s.trace.owners l ↔ ph t l = .held := by
  rw [h.owners, mem_toList, h.holder]

lemma keep (hvalue : (s'.synch.semas (.lock l)).value = (s.synch.semas (.lock l)).value)
    (hholder : s'.synch.holder l = s.synch.holder l)
      (howners : s'.trace.owners l = s.trace.owners l)
    (hph : ∀ t, ph' t l = ph t l) : LockState s' ph' l where
  value := by
    simp only [hvalue, hph]
    exact h.value
  holder u := by rw [hholder, hph, h.holder]
  owners := by rw [howners, hholder, h.owners]

variable (hne : ∀ u, u ≠ t → ph' u l = ph u l)
include hne

lemma take (hv : (s.synch.semas (.lock l)).value ≠ 0)
    (hvalue : (s'.synch.semas (.lock l)).value = (s.synch.semas (.lock l)).value - 1)
    (hholder : s'.synch.holder l = s.synch.holder l)
      (howners : s'.trace.owners l = s.trace.owners l)
    (ht : ph' t l = .taken) : LockState s' ph' l := by
  obtain ⟨hone, hall⟩ := h.value.resolve_right fun h => hv h.1
  have hnone : ∀ u, s.synch.holder l ≠ some u := by
    intro u hu
    have hheld := (h.holder u).1 hu
    rw [hall u] at hheld
    cases hheld
  refine ⟨.inr ⟨by rw [hvalue, hone], t, by rw [ht]; decide, fun u hu => ?_⟩, fun u => ?_, ?_⟩
  · rw [hne u hu, hall u]
  · rw [hholder]
    refine iff_of_false (hnone u) fun hheld => ?_
    by_cases hu : u = t
    · rw [hu, ht] at hheld
      cases hheld
    · rw [hne u hu, hall u] at hheld
      cases hheld
  · rw [howners, hholder, h.owners]

lemma hold (htaken : ph t l = .taken)
    (hvalue : (s'.synch.semas (.lock l)).value = (s.synch.semas (.lock l)).value)
    (hholder : s'.synch.holder l = some t) (howners : s'.trace.owners l = s.trace.owners l ++ [t])
    (ht : ph' t l = .held) : LockState s' ph' l := by
  obtain ⟨hzero, hall⟩ := h.alone (t := t) (by rw [htaken]; decide)
  have hnone : s.synch.holder l = none := by
    rw [eq_none_iff_forall_ne_some]
    intro u hu
    have hheld := (h.holder u).1 hu
    by_cases hut : u = t
    · rw [hut, htaken] at hheld
      cases hheld
    · rw [hall u hut] at hheld
      cases hheld
  refine ⟨.inr ⟨hvalue.trans hzero, t, by rw [ht]; decide, fun u hu => ?_⟩, fun u => ?_, ?_⟩
  · rw [hne u hu, hall u hu]
  · rw [hholder, some.injEq]
    constructor
    · rintro rfl
      exact ht
    · intro hheld
      by_contra hu
      rw [hne u (Ne.symm hu), hall u (Ne.symm hu)] at hheld
      cases hheld
  · rw [howners, hholder, h.owners, hnone]
    rfl

lemma free (hheld : ph t l = .held)
    (hvalue : (s'.synch.semas (.lock l)).value = (s.synch.semas (.lock l)).value)
    (hholder : s'.synch.holder l = none) (howners : s'.trace.owners l = (s.trace.owners l).erase t)
    (ht : ph' t l = .freeing) : LockState s' ph' l := by
  obtain ⟨hzero, hall⟩ := h.alone (t := t) (by rw [hheld]; decide)
  refine ⟨.inr ⟨hvalue.trans hzero, t, by rw [ht]; decide, fun u hu => ?_⟩, fun u => ?_, ?_⟩
  · rw [hne u hu, hall u hu]
  · rw [hholder]
    refine iff_of_false nofun fun hu => ?_
    by_cases hut : u = t
    · rw [hut, ht] at hu
      cases hu
    · rw [hne u hut, hall u hut] at hu
      cases hu
  · rw [howners, hholder, h.owners, (h.holder t).2 hheld]
    simp

lemma leave (hfreeing : ph t l = .freeing)
    (hvalue : (s'.synch.semas (.lock l)).value = u32 ((s.synch.semas (.lock l)).value + 1))
    (hholder : s'.synch.holder l = s.synch.holder l)
      (howners : s'.trace.owners l = s.trace.owners l)
    (ht : ph' t l = .out) : LockState s' ph' l := by
  obtain ⟨hzero, hall⟩ := h.alone (t := t) (by rw [hfreeing]; decide)
  refine ⟨.inl ⟨by rw [hvalue, hzero]; rfl, fun u => ?_⟩, fun u => ?_, ?_⟩
  · by_cases hu : u = t
    · rw [hu, ht]
    · rw [hne u hu, hall u hu]
  · rw [hholder, h.holder]
    by_cases hu : u = t
    · rw [hu, ht, hfreeing]
      exact iff_of_false (by decide) (by decide)
    · rw [hne u hu]
  · rw [howners, hholder, h.owners]

end

end LockState

namespace Locked

variable {s s' : Traced} {ph : ℕ → ℕ → Phase} {e : Event} {stmt : Stmt} {rest code : List Stmt}
  {l l' : ℕ} {p : Phase} {x : Sema} {sema : Semaphore}

lemma keep (hs : Locked s ph)
    (hvalue : ∀ l, (s'.synch.semas (.lock l)).value = (s.synch.semas (.lock l)).value)
    (hholder : s'.synch.holder = s.synch.holder) (howners : s'.trace.owners = s.trace.owners)
    (hcode : ∀ t, Typed (ph t) (s.synch.code t) → Typed (ph t) (s'.synch.code t)) : Locked s' ph :=
  ⟨fun t => hcode t (hs.typed t), fun l => (hs.state l).keep (hvalue l) (by rw [hholder])
    (by rw [howners]) fun _ => rfl⟩

lemma move {t : ℕ} (hs : Locked s ph) (hcode : s'.synch.code = update s.synch.code t code)
    (htyped : Typed (update (ph t) l p) code) (hvalue : ∀ l', l' ≠ l →
      (s'.synch.semas (.lock l')).value = (s.synch.semas (.lock l')).value)
    (hholder : ∀ l', l' ≠ l → s'.synch.holder l' = s.synch.holder l')
    (howners : ∀ l', l' ≠ l → s'.trace.owners l' = s.trace.owners l')
    (hl : ∀ ph' : ℕ → ℕ → Phase, ph' t l = p → (∀ u, u ≠ t → ph' u l = ph u l) →
      LockState s' ph' l) : ∃ ph', Locked s' ph' := by
  refine ⟨update ph t (update (ph t) l p), fun u => ?_, fun l' => ?_⟩
  · rw [hcode]
    by_cases hu : u = t
    · rw [hu, update_self, update_self]
      exact htyped
    · rw [update_of_ne hu, update_of_ne hu]
      exact hs.typed u
  · by_cases hll : l' = l
    · rw [hll]
      refine hl _ (by simp) fun u hu => by rw [update_of_ne hu]
    · refine (hs.state l').keep (hvalue l' hll) (hholder l' hll) (howners l' hll) fun u => ?_
      by_cases hu : u = t
      · rw [hu, update_self, update_of_ne hll]
      · rw [update_of_ne hu]

lemma stmtOf_step {s : Synch} (hcode : s.code s.kernel.current = stmt :: rest) :
    s.stmtOf .step = some stmt := by
  rw [stmtOf, hcode]
  rfl

lemma owners_of_stmt {s' : Synch} (hcode : s.synch.code s.synch.kernel.current = stmt :: rest)
    (hset : ∀ l, stmt ≠ .setHolder l) (hclear : ∀ l, stmt ≠ .clearHolder l) :
    (s.trace.after s.synch .step s').owners = s.trace.owners := by
  funext l
  show (if _ then _ else if _ then _ else _) = _
  rw [stmtOf_step hcode, if_neg fun h => hset l (some.inj h), if_neg fun h => hclear l (some.inj h)]

lemma owners_setHolder {s' : Synch}
    (hcode : s.synch.code s.synch.kernel.current = .setHolder l' :: rest) (l : ℕ) :
    (s.trace.after s.synch .step s').owners l =
      if l = l' then s.trace.owners l ++ [s.synch.kernel.current] else s.trace.owners l := by
  show (if _ then _ else if _ then _ else _) = _
  rw [stmtOf_step hcode]
  by_cases hl : l = l'
  · rw [if_pos (by rw [hl]), if_pos hl]
  · rw [if_neg fun h => hl (Stmt.setHolder.inj (some.inj h)).symm, if_neg nofun, if_neg hl]

lemma owners_clearHolder {s' : Synch}
    (hcode : s.synch.code s.synch.kernel.current = .clearHolder l' :: rest) (l : ℕ) :
    (s.trace.after s.synch .step s').owners l =
      if l = l' then (s.trace.owners l).erase s.synch.kernel.current else s.trace.owners l := by
  show (if _ then _ else if _ then _ else _) = _
  rw [stmtOf_step hcode, if_neg fun h => nomatch h]
  by_cases hl : l = l'
  · rw [if_pos (by rw [hl]), if_pos hl]
  · rw [if_neg fun h => hl (Stmt.clearHolder.inj (some.inj h)).symm, if_neg hl]

/-! ### One statement -/

section Step

variable (hs : Locked s ph) (hcode : s.synch.code s.synch.kernel.current = stmt :: rest)
  (hexec : s.synch.exec rest stmt = .ok s'.synch)
  (htrace : s'.trace = s.trace.after s.synch .step s'.synch)

include hs hcode htrace

lemma silent (code : List Stmt) (hset : ∀ l, stmt ≠ .setHolder l)
    (hclear : ∀ l, stmt ≠ .clearHolder l)
    (hvalue : ∀ l, (s'.synch.semas (.lock l)).value = (s.synch.semas (.lock l)).value)
    (hholder : s'.synch.holder = s.synch.holder)
    (hcode' : s'.synch.code = update s.synch.code s.synch.kernel.current code)
    (htyped : Typed (ph s.synch.kernel.current) (stmt :: rest) →
      Typed (ph s.synch.kernel.current) code) : ∃ ph', Locked s' ph' := by
  refine ⟨ph, hs.keep hvalue hholder ?_ fun t ht => ?_⟩
  · rw [htrace]
    exact owners_of_stmt hcode hset hclear
  · rw [hcode']
    by_cases htc : t = s.synch.kernel.current
    · rw [htc, update_self]
      exact htyped (hcode ▸ htc ▸ ht)
    · rwa [update_of_ne htc]

lemma silent_goOn {s1 : Synch} (hset : ∀ l, stmt ≠ .setHolder l)
    (hclear : ∀ l, stmt ≠ .clearHolder l)
    (hexec : (.ok (s1.goOn code) : Kernel Synch) = .ok s'.synch)
    (hs1 : { s1 with conds := s.synch.conds } = s.synch)
    (htyped : Typed (ph s.synch.kernel.current) (stmt :: rest) →
      Typed (ph s.synch.kernel.current) code) : ∃ ph', Locked s' ph' := by
  have hsynch := (ok.inj hexec).symm
  refine hs.silent hcode htrace code hset hclear (fun l => ?_) ?_ ?_ htyped
  all_goals
    rw [hsynch, ← hs1]
    rfl

end Step

lemma value_of_ne {s : Synch} (hx : x ≠ .lock l) :
    ((s.setSema x sema).semas (.lock l)).value = (s.semas (.lock l)).value := by
  rw [setSema_semas, update_of_ne (Ne.symm hx)]

lemma value_self {s : Synch} : ((s.setSema x sema).semas x).value = sema.value := by
  rw [setSema_semas, update_self]

lemma takes (hs : Locked s ph) (hcode : s.synch.code s.synch.kernel.current = stmt :: rest)
    (htrace : s'.trace = s.trace.after s.synch .step s'.synch) (hset : ∀ l, stmt ≠ .setHolder l)
    (hclear : ∀ l, stmt ≠ .clearHolder l) (hv : (s.synch.semas (.lock l)).value ≠ 0)
    (hsynch : s'.synch = (s.synch.setSema (.lock l)
      { s.synch.semas (.lock l) with value := (s.synch.semas (.lock l)).value - 1 }).goOn code)
    (htyped : Typed (update (ph s.synch.kernel.current) l .taken) code) : ∃ ph', Locked s' ph' := by
  have howners : s'.trace.owners = s.trace.owners := by
    rw [htrace]
    exact owners_of_stmt hcode hset hclear
  refine hs.move (t := s.synch.kernel.current) (l := l) (p := .taken) ?_ htyped (fun l' hl => ?_)
    (fun l' _ => ?_) (fun l' _ => by rw [howners]) fun ph' ht hne => ?_
  · rw [hsynch]
    rfl
  · rw [hsynch]
    exact value_of_ne fun h => hl (Sema.lock.inj h).symm
  · rw [hsynch]
    rfl
  · refine (hs.state l).take hne hv ?_ ?_ (by rw [howners]) ht
    · rw [hsynch]
      exact value_self
    · rw [hsynch]
      rfl

lemma semaDown (hs : Locked s ph)
    (hcode : s.synch.code s.synch.kernel.current = .semaDown x :: rest)
    (hexec : s.synch.exec rest (.semaDown x) = .ok s'.synch)
    (htrace : s'.trace = s.trace.after s.synch .step s'.synch) : ∃ ph', Locked s' ph' := by
  simp only [exec, bind_eq_ok] at hexec
  obtain ⟨⟨r, _⟩, hdown, hexec⟩ := hexec
  have hsynch := (ok.inj hexec).symm
  rcases semaDown_eq_ok hdown with ⟨rfl, hv, rfl⟩ | ⟨rfl, hv, k, _, rfl⟩
  · rw [if_pos rfl] at hsynch
    cases x with
    | lock =>
      have htyped := hs.typed s.synch.kernel.current
      rw [hcode] at htyped
      exact hs.takes hcode htrace (by simp) (by simp) hv hsynch htyped.2
    | own | waiter =>
      exact hs.silent hcode htrace rest (by simp) (by simp)
        (fun l => by rw [hsynch]; exact value_of_ne (by simp)) (by rw [hsynch]; rfl)
        (by rw [hsynch]; rfl) id
  · -- it sleeps, and will execute the same statement again
    rw [if_neg Bool.false_ne_true] at hsynch
    refine hs.silent hcode htrace (.semaDown x :: rest) (by simp)
      (by simp) (fun l => ?_) (by rw [hsynch]; rfl) ?_ id
    · rw [hsynch]
      by_cases hx : x = .lock l
      · subst hx
        exact value_self
      · exact value_of_ne hx
    · rw [hsynch, ← hcode, update_eq_self]
      rfl

lemma semaUp (hs : Locked s ph) (hcode : s.synch.code s.synch.kernel.current = .semaUp x :: rest)
    (hexec : s.synch.exec rest (.semaUp x) = .ok s'.synch)
    (htrace : s'.trace = s.trace.after s.synch .step s'.synch) : ∃ ph', Locked s' ph' := by
  simp only [exec, bind_eq_ok] at hexec
  obtain ⟨_, hup, hexec⟩ := hexec
  have hsynch := (ok.inj hexec).symm
  obtain ⟨hcur, hcode1⟩ := semaUp_frame hup
  have hcode' : s'.synch.code = update s.synch.code s.synch.kernel.current rest := by
    rw [hsynch, goOn_code, hcur, hcode1]
  have hfields : s'.synch.holder = s.synch.holder ∧
      (∀ l, x ≠ .lock l → (s'.synch.semas (.lock l)).value = (s.synch.semas (.lock l)).value) ∧
      (s'.synch.semas x).value = u32 ((s.synch.semas x).value + 1) := by
    rw [hsynch]
    rcases semaUp_eq_ok hup with ⟨_, rfl⟩ | ⟨t, _, k, _, _, rfl⟩
    · exact ⟨rfl, fun l => value_of_ne, value_self⟩
    · exact ⟨rfl, fun l => value_of_ne, value_self⟩
  obtain ⟨hholder, hvalue, hself⟩ := hfields
  cases x with
  | own | waiter =>
    exact hs.silent hcode htrace rest (by simp) (by simp) (fun l => hvalue l (by simp)) hholder
      hcode' id
  | lock l =>
    have htyped := hs.typed s.synch.kernel.current
    rw [hcode] at htyped
    have howners : s'.trace.owners = s.trace.owners := by
      rw [htrace]
      exact owners_of_stmt hcode (by simp) (by simp)
    exact hs.move hcode' htyped.2 (fun l' hl => hvalue l' fun h => hl (Sema.lock.inj h).symm)
      (fun l' _ => by rw [hholder]) (fun l' _ => by rw [howners])
      fun ph' ht hne => (hs.state l).leave hne htyped.1 hself (by rw [hholder]) (by rw [howners]) ht

lemma exec (hs : Locked s ph) (hcode : s.synch.code s.synch.kernel.current = stmt :: rest)
    (hexec : s.synch.exec rest stmt = .ok s'.synch)
    (htrace : s'.trace = s.trace.after s.synch .step s'.synch) : ∃ ph', Locked s' ph' := by
  have htyped := hs.typed s.synch.kernel.current
  rw [hcode] at htyped
  cases stmt with
  | semaDown => exact hs.semaDown hcode hexec htrace
  | semaUp => exact hs.semaUp hcode hexec htrace
  | semaTryDown x =>
    have hsynch := (ok.inj hexec).symm
    rw [semaTryDown_eq] at hsynch
    have hx : ∀ l, x ≠ .lock l := by
      rintro l rfl
      exact htyped
    have hrest : Typed (ph s.synch.kernel.current) rest := by
      cases x with
      | lock l => exact absurd rfl (hx l)
      | own => exact htyped
      | waiter => exact htyped
    split_ifs at hsynch
    · exact hs.silent hcode htrace rest (by simp) (by simp)
        (fun l => by rw [hsynch]; exact value_of_ne (hx l)) (by rw [hsynch]; rfl)
        (by rw [hsynch]; rfl) fun _ => hrest
    · exact hs.silent_goOn hcode htrace (by simp) (by simp) (congrArg _ hsynch.symm) rfl
        fun _ => hrest
  | tryAcquire l =>
    obtain ⟨_, _, hrest⟩ := htyped
    by_cases hv : (s.synch.semas (.lock l)).value ≠ 0
    · simp only [exec, semaTryDown_eq, if_pos hv] at hexec
      have hsynch := (ok.inj hexec).symm
      refine hs.takes hcode htrace (by simp) (by simp) hv hsynch ?_
      refine ⟨update_self .., ?_⟩
      rwa [update_idem]
    · simp only [exec, semaTryDown_eq, if_neg hv, if_neg Bool.false_ne_true] at hexec
      exact hs.silent_goOn hcode htrace (by simp) (by simp) hexec rfl fun _ => hrest
  | assertHeld | assertNotHeld =>
    simp only [exec, bind_eq_ok] at hexec
    obtain ⟨_, _, _, _, hexec⟩ := hexec
    exact hs.silent_goOn hcode htrace (by simp) (by simp) hexec rfl fun h => h.2
  | setHolder l =>
    simp only [exec, bind_eq_ok] at hexec
    obtain ⟨_, _, hexec⟩ := hexec
    have hsynch := (ok.inj hexec).symm
    have howners l' :=
      (congrFun (congrArg Trace.owners htrace) l').trans (owners_setHolder hcode l')
    have hholder : ∀ l', s'.synch.holder l' =
        if l' = l then some s.synch.kernel.current else s.synch.holder l' := by
      intro _
      rw [hsynch]
      exact update_apply ..
    refine hs.move (t := s.synch.kernel.current) (l := l)
      (p := .held) (by rw [hsynch]; rfl) htyped.2
      (fun l' _ => by rw [hsynch]; rfl) (fun l' hl => by rw [hholder, if_neg hl])
      (fun l' hl => by rw [howners, if_neg hl]) fun ph' ht hne => ?_
    exact (hs.state l).hold hne htyped.1 (by rw [hsynch]; rfl) (by rw [hholder, if_pos rfl])
      (by rw [howners, if_pos rfl]) ht
  | clearHolder l =>
    have hsynch := (ok.inj hexec).symm
    have howners l' :=
      (congrFun (congrArg Trace.owners htrace) l').trans (owners_clearHolder hcode l')
    have hholder : ∀ l', s'.synch.holder l' = if l' = l then none else s.synch.holder l' := by
      intro _
      rw [hsynch]
      exact update_apply ..
    refine hs.move (t := s.synch.kernel.current) (l := l) (p := .freeing) (by rw [hsynch]; rfl)
      htyped.2 (fun l' _ => by rw [hsynch]; rfl) (fun l' hl => by rw [hholder, if_neg hl])
      (fun l' hl => by rw [howners, if_neg hl]) fun ph' ht hne => ?_
    exact (hs.state l).free hne htyped.1 (by rw [hsynch]; rfl) (by rw [hholder, if_pos rfl])
      (by rw [howners, if_pos rfl]) ht
  | pushWaiter =>
    exact hs.silent_goOn hcode htrace (by simp) (by simp) hexec rfl id
  | signal =>
    simp only [exec] at hexec
    split at hexec
    · exact hs.silent_goOn hcode htrace (by simp) (by simp) hexec rfl fun h => h.2
    · exact hs.silent_goOn hcode htrace (by simp) (by simp) hexec rfl fun h => h.2
  | broadcast =>
    simp only [exec] at hexec
    split at hexec
    · exact hs.silent_goOn hcode htrace (by simp) (by simp) hexec rfl fun h => h.2
    · exact hs.silent_goOn hcode htrace (by simp) (by simp) hexec rfl fun h => ⟨h.1, h.1, h⟩
  | leave =>
    exact hs.silent_goOn hcode htrace (by simp) (by simp) hexec rfl fun h => h.2

/-! ### Calls -/

lemma typed_lockAcquire {ph : ℕ → Phase} (rest : List Stmt) (hout : ph l = .out)
    (hrest : Typed (update ph l .held) rest) : Typed ph (lockAcquire l ++ rest) := by
  refine ⟨hout, hout, update_self .., ?_⟩
  rwa [update_idem]

lemma typed_lockRelease {ph : ℕ → Phase} (rest : List Stmt) (hheld : ph l = .held)
    (hrest : Typed (update ph l .out) rest) : Typed ph (lockRelease l ++ rest) := by
  refine ⟨hheld, hheld, update_self .., ?_⟩
  rwa [update_idem]

lemma typed_nil_update {ph : ℕ → Phase} (h : Typed ph []) (hp : p = .out ∨ p = .held) :
    Typed (update ph l p) [] := by
  intro l'
  rw [update_apply]
  split_ifs
  · exact hp
  · exact h l'

lemma typed_condWait {ph : ℕ → Phase} {c w : ℕ} (h : Typed ph []) (hheld : ph l = .held) :
    Typed ph (condWait c l w) := by
  refine ⟨hheld, ?_⟩
  refine typed_lockRelease (.semaDown (.waiter w) :: (lockAcquire l ++ [.leave l w])) hheld ?_
  refine typed_lockAcquire [.leave l w] (update_self ..) ?_
  rw [update_idem]
  exact ⟨update_self .., typed_nil_update h (.inr rfl)⟩

lemma typed_call {f : Call} (hs : Locked s ph) (hfree : s.synch.Free)
    (hd : Event.Disciplined s (.call f)) (n : ℕ) :
    Typed (ph s.synch.kernel.current) (f.body n) := by
  have hnil : Typed (ph s.synch.kernel.current) [] := hfree.1 ▸ hs.typed s.synch.kernel.current
  have hout : ∀ l, s.synch.kernel.current ∉ s.trace.owners l →
      ph s.synch.kernel.current l = .out := by
    intro l hnot
    rw [(hs.state l).mem_owners] at hnot
    exact (hnil l).resolve_right hnot
  have hheld : ∀ l, s.synch.kernel.current ∈ s.trace.owners l →
      ph s.synch.kernel.current l = .held := fun l => (hs.state l).mem_owners.1
  cases f with
  | semaDown => exact hnil
  | semaTryDown => exact hnil
  | semaUp => exact hnil
  | lockAcquire l =>
    exact typed_lockAcquire [] (hout l hd) (typed_nil_update hnil (.inr rfl))
  | lockTryAcquire l => exact ⟨hout l hd, hout l hd, typed_nil_update hnil (.inr rfl), hnil⟩
  | lockRelease l =>
    exact typed_lockRelease [] (hheld l hd) (typed_nil_update hnil (.inl rfl))
  | condWait c l => exact typed_condWait hnil (hheld l hd)
  | condSignal c l => exact ⟨hheld l hd, hheld l hd, hnil⟩
  | condBroadcast c l => exact ⟨hheld l hd, hnil⟩

lemma step (hs : Locked s ph) (h : Traced.Step s e s') (hd : e.Disciplined s) :
    ∃ ph', Locked s' ph' := by
  obtain ⟨hnext, htrace⟩ := h
  have howners : s.synch.stmtOf e = none → s'.trace.owners = s.trace.owners := by
    intro hstmt
    funext l
    rw [htrace]
    show (if _ then _ else if _ then _ else _) = _
    rw [hstmt, if_neg (by simp), if_neg (by simp)]
  -- the scheduler's operations
  have hkernel : ∀ kernel : Kernel Threads, s.synch.stmtOf e = none →
      s.synch.onKernel kernel = .ok s'.synch → ∃ ph', Locked s' ph' := by
    intro _ hstmt hk
    obtain ⟨k, _, hsynch⟩ := onKernel_eq_ok.1 hk
    exact ⟨ph, hs.keep (fun l => by rw [hsynch]) (by rw [hsynch]) (howners hstmt)
      fun t ht => by rwa [hsynch]⟩
  cases e with
  | call =>
    simp only [next] at hnext
    split_ifs at hnext with hfree
    have hsynch := (ok.inj (some.inj hnext)).symm
    refine ⟨ph, hs.keep (fun l => by rw [hsynch]; rfl) (by rw [hsynch]; rfl) (howners rfl)
      fun t ht => ?_⟩
    rw [hsynch, goOn_code]
    by_cases htc : t = s.synch.kernel.current
    · rw [htc, update_self]
      exact hs.typed_call hfree hd _
    · rwa [update_of_ne htc]
  | step =>
    cases hcode : s.synch.code s.synch.kernel.current with
    | nil => simp [next, hcode] at hnext
    | cons =>
      simp only [next, hcode, some.injEq] at hnext
      exact hs.exec hcode hnext htrace
  | yield | unblock => exact hkernel _ rfl (some.inj hnext)
  | block | exit | create =>
    simp only [next] at hnext
    split_ifs at hnext
    exact hkernel _ rfl (some.inj hnext)
  | intrUp =>
    have hup := some.inj hnext
    obtain ⟨_, hcode⟩ := semaUp_frame hup
    have hfields : s'.synch.holder = s.synch.holder ∧
        ∀ l, (s'.synch.semas (.lock l)).value = (s.synch.semas (.lock l)).value := by
      rcases semaUp_eq_ok hup with ⟨_, heq⟩ | ⟨t, _, k, _, _, heq⟩
      · rw [heq]
        exact ⟨rfl, fun l => value_of_ne (by simp)⟩
      · rw [heq]
        exact ⟨rfl, fun l => value_of_ne (by simp)⟩
    exact ⟨ph, hs.keep hfields.2 hfields.1 (howners rfl) fun t ht => by rwa [hcode]⟩
  | intrTryDown =>
    have hsynch := (ok.inj (some.inj hnext)).symm
    rw [semaTryDown_eq] at hsynch
    split_ifs at hsynch
    · exact ⟨ph, hs.keep (fun l => by rw [hsynch]; exact value_of_ne (by simp))
        (by rw [hsynch]; rfl) (howners rfl) fun t ht => by rwa [hsynch]⟩
    · exact ⟨ph, hs.keep (fun l => by rw [hsynch]) (by rw [hsynch]) (howners rfl)
        fun t ht => by rwa [hsynch]⟩

/-! ### Assertions -/

lemma lockHeldByCurrentThread_eq {s : Synch} (hw : s.Waits) (l : ℕ) :
    s.lockHeldByCurrentThread l = .ok (decide (s.holder l = some s.kernel.current)) := by
  obtain ⟨_, hth⟩ := hw.queued.threadCurrent_returns
  rw [lockHeldByCurrentThread, hth, ok_bind]
  exact congrArg ok (beq_eq_decide ..)

/-- **No assertion fails**: the next statement of the running thread is executed. -/
theorem exec_returns (hs : Locked s ph) (hw : s.synch.Waits)
    (hcode : s.synch.code s.synch.kernel.current = stmt :: rest) :
    ∃ s', s.synch.exec rest stmt = .ok s' := by
  obtain ⟨_, hth⟩ := hw.queued.threadCurrent_returns
  have htyped := hs.typed s.synch.kernel.current
  rw [hcode] at htyped
  cases stmt with
  | semaDown x =>
    obtain ⟨k, hk⟩ := hw.queued.threadBlock_returns
    by_cases hv : (s.synch.semas x).value = 0
    · refine ⟨{ s.synch.setSema x { s.synch.semas x with
        waiters := (s.synch.semas x).waiters ++ [s.synch.kernel.current] } with kernel := k }, ?_⟩
      simp only [Synch.exec, Synch.semaDown, if_pos hv]
      rw [hth, ok_bind, Synch.setSema_kernel, hk, ok_bind]
      rfl
    · refine ⟨(s.synch.setSema x { s.synch.semas x with
        value := (s.synch.semas x).value - 1 }).goOn rest, ?_⟩
      simp only [Synch.exec, Synch.semaDown, if_neg hv]
      rfl
  | semaTryDown => exact ⟨_, rfl⟩
  | semaUp x =>
    cases hwait : (s.synch.semas x).waiters with
    | nil =>
      refine ⟨(s.synch.setSema x { s.synch.semas x with
        value := u32 ((s.synch.semas x).value + 1) }).goOn rest, ?_⟩
      simp only [Synch.exec, Synch.semaUp, hwait]
      rfl
    | cons t ws =>
      obtain ⟨hlive, hblocked, _⟩ := hw.waiting x t (by rw [hwait]; exact List.mem_cons_self)
      obtain ⟨_, hth'⟩ := ne_none_iff_exists'.1 hlive
      obtain ⟨k, hk⟩ : ∃ k, threadUnblock s.synch.kernel t = .ok k :=
        ⟨_, by rw [threadUnblock, Threads.get_eq_ok.2 hth', ok_bind, ASSERT_of hblocked]; rfl⟩
      refine ⟨({ s.synch.setSema x ⟨u32 ((s.synch.semas x).value + 1), ws⟩ with
        kernel := k } : Synch).goOn rest, ?_⟩
      simp only [Synch.exec, Synch.semaUp, hwait, hk]
      rfl
  | assertHeld l =>
    have hheld : s.synch.holder l = some s.synch.kernel.current :=
      ((hs.state l).holder _).2 htyped.1
    refine ⟨s.synch.goOn rest, ?_⟩
    rw [Synch.exec, lockHeldByCurrentThread_eq hw, ok_bind, ASSERT_of (decide_eq_true hheld)]
    rfl
  | assertNotHeld l =>
    have hnot : s.synch.holder l ≠ some s.synch.kernel.current := fun h => by
      have hheld := ((hs.state l).holder _).1 h
      rw [htyped.1] at hheld
      cases hheld
    refine ⟨s.synch.goOn rest, ?_⟩
    rw [Synch.exec, lockHeldByCurrentThread_eq hw, ok_bind, ASSERT_of (decide_eq_false hnot)]
    rfl
  | tryAcquire => exact ⟨_, rfl⟩
  | setHolder => exact ⟨_, by rw [Synch.exec, hth, ok_bind]; rfl⟩
  | clearHolder => exact ⟨_, rfl⟩
  | pushWaiter => exact ⟨_, rfl⟩
  | signal c | broadcast c =>
    cases hc : s.synch.conds c with
    | nil | cons => exact ⟨_, by simp only [Synch.exec, hc]; rfl⟩
  | leave => exact ⟨_, rfl⟩

end Locked

namespace Traced

variable {s : Traced}

/-- **Mutual exclusion.** -/
structure MutualExclusion (s : Traced) : Prop where
  /-- At most one thread is past an acquire of the lock and not past the release. -/
  one : ∀ l, (s.trace.owners l).length ≤ 1
  holder : ∀ l t, s.synch.holder l = some t ↔ t ∈ s.trace.owners l
  held : ∀ l, s.synch.lockHeldByCurrentThread l =
    .ok (decide (s.synch.kernel.current ∈ s.trace.owners l))
  /-- No assertion in the statement that comes next fails. -/
  asserts : ∀ stmt rest, s.synch.code s.synch.kernel.current = stmt :: rest →
    ∃ s', s.synch.exec rest stmt = .ok s'

lemma MutualExclusion.of_locked {ph : ℕ → ℕ → Phase} (hs : Locked s ph) (hw : s.synch.Waits) :
    s.MutualExclusion where
  one l := by
    rw [(hs.state l).owners]
    cases s.synch.holder l with
    | none => exact Nat.zero_le 1
    | some => exact le_rfl
  holder l t := by rw [(hs.state l).holder, (hs.state l).mem_owners]
  held l := by
    rw [Locked.lockHeldByCurrentThread_eq hw]
    simp only [(hs.state l).holder, (hs.state l).mem_owners]
  asserts _ _ hcode := hs.exec_returns hw hcode

variable {palloc : Palloc} {page idlePage idleFd : ℕ} {preempted : Bool} {init : ℕ → ℕ}

lemma start_locked : Locked (start palloc page idlePage idleFd preempted init) fun _ _ => .out where
  typed _ _ := .inl rfl
  state _ := ⟨.inl ⟨rfl, fun _ => rfl⟩, fun _ => iff_of_false nofun (by decide), rfl⟩

/-- **Locks exclude each other**, in every run that uses locks by the rules. -/
theorem mutualExclusion_reaches (palloc : Palloc) (page idlePage idleFd : ℕ) (preempted : Bool)
    (init : ℕ → ℕ) {s : Traced}
    (hr : Reaches Step (fun s e => e.Direct s.synch ∧ e.Disciplined s)
      (start palloc page idlePage idleFd preempted init) s) : s.MutualExclusion := by
  obtain ⟨hw, ph, hs⟩ := hr.invariant (fun s => s.synch.Waits ∧ ∃ ph, Locked s ph)
    (fun hs h hm => ⟨hs.1.step (next_effect h.1) hm.1,
      hs.2.elim fun _ hl => hl.step h hm.2⟩) ⟨start_waits, _, start_locked⟩
  exact .of_locked hs hw

def disciplined (s : Traced) : Event → Bool
  | .call (.lockAcquire l) | .call (.lockTryAcquire l) =>
    decide (s.synch.kernel.current ∉ s.trace.owners l)
  | .call (.lockRelease l) | .call (.condWait _ l) | .call (.condSignal _ l)
  | .call (.condBroadcast _ l) => decide (s.synch.kernel.current ∈ s.trace.owners l)
  | .exit | .unblock _ => false
  | _ => true

lemma meets_of_disciplined (s : Traced) (e : Event) (h : disciplined s e = true) :
    e.Direct s.synch ∧ e.Disciplined s := by
  constructor
  · rintro t rfl
    cases h
  · cases e with
    | call f =>
      cases f with
      | semaDown | semaTryDown | semaUp => trivial
      | lockAcquire l | lockTryAcquire l =>
        exact of_decide_eq_true (p := s.synch.kernel.current ∉ s.trace.owners l) h
      | lockRelease l | condWait c l | condSignal c l | condBroadcast c l =>
        exact of_decide_eq_true (p := s.synch.kernel.current ∈ s.trace.owners l) h
    | exit => cases h
    | _ => trivial

def somePages : Palloc :=
  (pallocInit 272 (2 ^ 20) (fun _ => 0) (fun _ => 0) (fun _ => 0)).toOption.getD noPages

theorem mutualExclusion_reaches_handover : ∃ s,
    Reaches Step (fun s e => e.Direct s.synch ∧ e.Disciplined s)
      (start somePages 0 0 0 false fun _ => 0) s ∧
      s.trace.owners 0 = [3] ∧ s.trace.dispatched = [3, 1, 3] ∧ s.MutualExclusion := by
  obtain ⟨s, hr, hs⟩ := exists_run meets_of_disciplined (start somePages 0 0 0 false fun _ => 0)
    [.call (.lockAcquire 0), .step, .step, .step, .create PRI_DEFAULT, .yield,
      .call (.lockAcquire 0), .step, .step,
      .call (.lockRelease 0), .step, .step, .step, .yield, .step, .step]
    (fun s => s.trace.owners 0 == [3] && s.trace.dispatched == [3, 1, 3]) (by decide +kernel)
  simp only [Bool.and_eq_true, beq_iff_eq] at hs
  exact ⟨s, hr, hs.1, hs.2, mutualExclusion_reaches somePages 0 0 0 false (fun _ => 0) hr⟩

end Traced
end Pintos
