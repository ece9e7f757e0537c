/-
# Semaphores lose no wake-ups

`sema_up` takes the first waiter off the list and increments; the thread it wakes tests the value
again when it runs, and another may have decremented it.  So a unit may be there while threads
sleep, but only with a thread on the way to it: the threads taken off the list that have not run
since (`Trace.woken`) are at least as many as the units.

The value is an `unsigned`: the count is exact while `sema_up` is not called at its greatest value
(`Event.Fits`).
-/

import Pintos.Threads.Scheduler

namespace Pintos

open Base Function List Option

def Event.Fits (s : Synch) (e : Event) : Prop :=
  ∀ x, s.opOf e = some (.up, x) → (s.semas x).value + 1 < 2 ^ 32

namespace Traced

variable {s s' : Traced} {e : Event} {x y : Sema} {t : ℕ} {init : ℕ → ℕ}

/-! ### What is recorded of a semaphore -/

lemma woken_of_none {s' : Synch} (h : s.synch.opOf e = none) (x : Sema) :
    (s.trace.after s.synch e s').woken x = s.trace.woken x := by
  simp [Trace.after, h]

lemma woken_of_tryDown {s' : Synch} (h : s.synch.opOf e = some (.tryDown, y)) (x : Sema) :
    (s.trace.after s.synch e s').woken x = s.trace.woken x := by
  simp [Trace.after, h]

lemma opOf_iff {o o' : SemaOp} (h : s.synch.opOf e = some (o, y)) :
    s.synch.opOf e = some (o', x) ↔ o = o' ∧ x = y := by
  rw [h, some.injEq, Prod.mk.injEq, eq_comm (a := y)]

lemma woken_of_down {s' : Synch} (h : s.synch.opOf e = some (.down, y)) (x : Sema) :
    (s.trace.after s.synch e s').woken x =
      if x = y then (s.trace.woken x).erase s.synch.kernel.current else s.trace.woken x := by
  show (if _ then _ else if _ then _ else _) = _
  simp only [opOf_iff h, reduceCtorEq, false_and, if_false, true_and]

lemma woken_of_up {s' : Synch} (h : s.synch.opOf e = some (.up, y)) (x : Sema) :
    (s.trace.after s.synch e s').woken x =
      if x = y then s.trace.woken x ++ (s.synch.semas x).waiters.take 1 else s.trace.woken x := by
  show (if _ then _ else if _ then _ else _) = _
  simp only [opOf_iff h, reduceCtorEq, false_and, if_false, true_and]

lemma live_of_effect {s s' : Synch} (hs : s.Waits) (heff : s.Effect e s')
    (hlive : s.kernel.threads t ≠ none) (hcode : s.code t ≠ []) : s'.kernel.threads t ≠ none := by
  cases heff with
  | moves _ _ kernel | passes _ _ _ _ _ kernel | takes _ _ _ kernel | refused _ _ _ kernel
  | raises _ _ _ kernel => rwa [kernel]
  | sleeps _ _ _ _ kernel | blocks _ _ kernel =>
    rwa [(Threads.threadBlock_switches kernel).threads]
  | wakes _ _ _ _ _ kernel | unblocks _ _ kernel =>
    rwa [(Threads.threadUnblock_switches kernel).1.threads]
  | yields _ kernel => rwa [(Threads.threadYield_switches kernel).threads]
  | exits _ free kernel =>
    have ht : t ≠ s.kernel.current := fun ht => hcode (ht ▸ free.1)
    rwa [Threads.Queued.threadExit_threads kernel ht]
  | creates _ r _ kernel =>
    obtain ⟨_, _, _, _, hthreads, _⟩ := Threads.threadCreate_queue hs.queued kernel
    exact (hthreads t fun ht => hlive (s.kernel.fresh t ht.ge)).2 hlive

/-! ### Woken threads -/

structure Woken (s : Traced) : Prop where
  onTheWay : ∀ x, ∀ t ∈ s.trace.woken x, s.synch.kernel.threads t ≠ none ∧ s.synch.Inside t x ∧
    t ∉ (s.synch.semas x).waiters
  nodup : ∀ x, (s.trace.woken x).Nodup
  enough : ∀ x, (s.synch.semas x).waiters ≠ [] →
    (s.synch.semas x).value ≤ (s.trace.woken x).length

lemma Inside.code_ne {s : Synch} (h : s.Inside t x) : s.code t ≠ [] := by
  intro hnil
  rw [Synch.Inside, hnil] at h
  cases h

lemma Woken.keep (hs : s.Woken) (hw : s.synch.Waits) (heff : s.synch.Effect e s'.synch)
    (hinside : ∀ {t x}, s.synch.Inside t x → s'.synch.Inside t x)
    (hwoken : ∀ x, s'.trace.woken x = s.trace.woken x)
    (hwaiters : ∀ x, (s'.synch.semas x).waiters = (s.synch.semas x).waiters)
    (hvalue : ∀ x, (s.synch.semas x).waiters ≠ [] →
      (s'.synch.semas x).value ≤ (s.synch.semas x).value) : s'.Woken := by
  refine ⟨fun x t ht => ?_, fun x => ?_, fun x hne => ?_⟩
  · rw [hwoken] at ht
    obtain ⟨hlive, hin, hnot⟩ := hs.onTheWay x t ht
    rw [hwaiters]
    exact ⟨live_of_effect hw heff hlive (Inside.code_ne hin), hinside hin, hnot⟩
  · rw [hwoken]
    exact hs.nodup x
  · rw [hwaiters] at hne
    rw [hwoken]
    exact (hvalue x hne).trans (hs.enough x hne)

lemma Woken.schedule (hs : s.Woken) (hw : s.synch.Waits) (heff : s.synch.Effect e s'.synch)
    (hop : s.synch.opOf e = none) (htrace : s'.trace = s.trace.after s.synch e s'.synch)
    (hsemas : s'.synch.semas = s.synch.semas) (hcode : s'.synch.code = s.synch.code) :
    s'.Woken :=
  hs.keep hw heff (Synch.Advances.of_code hcode).inside
    (fun x => by rw [htrace]; exact woken_of_none hop x) (fun x => by rw [hsemas])
    fun x _ => by rw [hsemas]

lemma Woken.turn_onTheWay (hs : s.Woken) (hin : s.synch.Inside s.synch.kernel.current x)
    (ht : t ∈ if y = x then (s.trace.woken y).erase s.synch.kernel.current else s.trace.woken y) :
    t ∈ s.trace.woken y ∧ t ≠ s.synch.kernel.current := by
  split_ifs at ht with hyx
  · exact ⟨mem_of_mem_erase ht, (List.Nodup.mem_erase_iff (hs.nodup y)).1 ht |>.1⟩
  · refine ⟨ht, fun htc => hyx ?_⟩
    exact Synch.Inside.inj (htc ▸ (hs.onTheWay y t ht).2.1) hin

section

variable (hs : s.Woken) (hw : s.synch.Waits) (htrace : s'.trace = s.trace.after s.synch e s'.synch)
include hs hw htrace

lemma Woken.passes {rest : List Stmt} (hop : s.synch.opOf e = some (.down, x))
    (hcode : s.synch.code s.synch.kernel.current = .semaDown x :: rest)
    (heff : s.synch.Effect e s'.synch) (hsemas : s'.synch.semas = update s.synch.semas x
      { s.synch.semas x with value := (s.synch.semas x).value - 1 })
    (hcode' : s'.synch.code = update s.synch.code s.synch.kernel.current rest) : s'.Woken := by
  have hin : s.synch.Inside s.synch.kernel.current x := by rw [Synch.Inside, hcode]; rfl
  have hwoken := @woken_of_down s e x s'.synch hop
  rw [← htrace] at hwoken
  refine ⟨fun y t ht => ?_, fun y => ?_, fun y hne => ?_⟩
  · rw [hwoken] at ht
    obtain ⟨hmem, htc⟩ := hs.turn_onTheWay hin ht
    obtain ⟨hlive, hin', hnot⟩ := hs.onTheWay y t hmem
    rw [Synch.Waits.waiters_of_value hsemas, Synch.Inside, hcode', update_of_ne htc]
    exact ⟨live_of_effect hw heff hlive (Inside.code_ne hin'), hin', hnot⟩
  · rw [hwoken]
    split_ifs
    · exact (hs.nodup y).erase _
    · exact hs.nodup y
  · rw [Synch.Waits.waiters_of_value hsemas] at hne
    have henough := hs.enough y hne
    rw [hwoken, hsemas, update_apply]
    split_ifs with hyx
    · -- one unit less, and one thread less on the way at most
      subst hyx
      have hlen : (s.trace.woken y).length - 1 ≤
          ((s.trace.woken y).erase s.synch.kernel.current).length := by
        rw [length_erase]
        split_ifs <;> omega
      show (s.synch.semas y).value - 1 ≤ _
      omega
    · exact henough

lemma Woken.sleeps (hop : s.synch.opOf e = some (.down, x)) (hv : (s.synch.semas x).value = 0)
    (hin : s.synch.Inside s.synch.kernel.current x) (heff : s.synch.Effect e s'.synch)
    (hsemas : s'.synch.semas = update s.synch.semas x { s.synch.semas x with
        waiters := (s.synch.semas x).waiters ++ [s.synch.kernel.current] })
    (hcode : s'.synch.code = s.synch.code) : s'.Woken := by
  have hwoken := @woken_of_down s e x s'.synch hop
  rw [← htrace] at hwoken
  refine ⟨fun y t ht => ?_, fun y => ?_, fun y hne => ?_⟩
  · rw [hwoken] at ht
    obtain ⟨hmem, htc⟩ := hs.turn_onTheWay hin ht
    obtain ⟨hlive, hin', hnot⟩ := hs.onTheWay y t hmem
    refine ⟨live_of_effect hw heff hlive (Inside.code_ne hin'),
      (Synch.Advances.of_code hcode).inside hin', fun hwait => ?_⟩
    rw [hsemas, update_apply] at hwait
    split_ifs at hwait with hyx
    · rcases mem_append.1 hwait with hwait | hwait
      · exact hnot (hyx ▸ hwait)
      · exact htc (mem_singleton.1 hwait)
    · exact hnot hwait
  · rw [hwoken]
    split_ifs
    · exact (hs.nodup y).erase _
    · exact hs.nodup y
  · rw [hwoken]
    rw [hsemas, update_apply] at hne ⊢
    split_ifs at hne ⊢
    · show (s.synch.semas x).value ≤ _
      omega
    · exact hs.enough y hne

lemma Woken.wakes {rest : List ℕ} (hop : s.synch.opOf e = some (.up, x))
    (hwaiters : (s.synch.semas x).waiters = t :: rest) (heff : s.synch.Effect e s'.synch)
    (hadv : s.synch.Advances s'.synch) (hsemas : s'.synch.semas = update s.synch.semas x
      ⟨u32 ((s.synch.semas x).value + 1), rest⟩) : s'.Woken := by
  have hmem : t ∈ (s.synch.semas x).waiters := by rw [hwaiters]; exact mem_cons_self
  obtain ⟨hlive, _, hin⟩ := hw.waiting x t hmem
  have hnotrest : t ∉ rest := (nodup_cons.1 (hwaiters ▸ hw.nodup x)).1
  have hwoken : ∀ y, s'.trace.woken y =
      if y = x then s.trace.woken y ++ [t] else s.trace.woken y := by
    intro y
    rw [htrace, woken_of_up hop y]
    split_ifs with hyx
    · rw [hyx, hwaiters]
      rfl
    · rfl
  refine ⟨fun y u hu => ?_, fun y => ?_, fun y hne => ?_⟩
  · have hold : u ∈ s.trace.woken y → s'.synch.kernel.threads u ≠ none ∧ s'.synch.Inside u y ∧
        u ∉ (s'.synch.semas y).waiters := by
      intro hu
      obtain ⟨hl, hin', hnot⟩ := hs.onTheWay y u hu
      refine ⟨live_of_effect hw heff hl (Inside.code_ne hin'), hadv.inside hin', fun hwait => ?_⟩
      rw [hsemas, update_apply] at hwait
      split_ifs at hwait with hyx
      · rw [hyx, hwaiters] at hnot
        exact hnot (mem_cons_of_mem _ hwait)
      · exact hnot hwait
    rw [hwoken] at hu
    split_ifs at hu with hyx
    · rcases mem_append.1 hu with hu | hu
      · exact hold hu
      · rw [mem_singleton.1 hu, hyx]
        refine ⟨live_of_effect hw heff hlive (Inside.code_ne hin), hadv.inside hin, ?_⟩
        rw [hsemas, update_self]
        exact hnotrest
    · exact hold hu
  · rw [hwoken]
    split_ifs with hyx
    · refine nodup_append.2 ⟨hs.nodup y, nodup_singleton _, fun a ha b hb hab => ?_⟩
      rw [mem_singleton.1 hb] at hab
      exact (hs.onTheWay y a ha).2.2 (hab ▸ hyx ▸ hmem)
    · exact hs.nodup y
  · rw [hwoken]
    rw [hsemas, update_apply] at hne ⊢
    split_ifs at hne ⊢ with hyx
    · -- one unit more, and one thread more on the way
      have henough := hs.enough x (by rw [hwaiters]; exact cons_ne_nil _ _)
      have hle : u32 ((s.synch.semas x).value + 1) ≤ (s.synch.semas x).value + 1 := Nat.mod_le ..
      rw [length_append, length_singleton, hyx]
      exact hle.trans (by omega)
    · exact hs.enough y hne

end

theorem Woken.step (hs : s.Woken) (hw : s.synch.Waits) (h : Step s e s') : s'.Woken := by
  obtain ⟨hnext, htrace⟩ := h
  have heff := Synch.next_effect hnext
  cases id heff with
  | moves op _ _ semas code =>
    exact hs.keep hw heff code.inside (fun x => by rw [htrace]; exact woken_of_none op x)
      (fun x => by rw [semas]) fun x _ => by rw [semas]
  | passes x _ op _ inside _ semas code =>
    exact hs.passes hw htrace op inside heff semas code
  | takes x op _ _ semas code =>
    refine hs.keep hw heff code.inside (fun y => by rw [htrace]; exact woken_of_tryDown op y)
      (Synch.Waits.waiters_of_value semas) fun y _ => ?_
    rw [semas, update_apply]
    split_ifs with hyx
    · rw [hyx]
      exact Nat.sub_le ..
    · exact le_rfl
  | refused x op _ _ semas code =>
    exact hs.keep hw heff code.inside (fun y => by rw [htrace]; exact woken_of_tryDown op y)
      (fun y => by rw [semas]) fun y _ => by rw [semas]
  | sleeps x op value inside _ semas code =>
    exact hs.sleeps hw htrace op value inside heff semas code
  | raises x op waiters _ semas code =>
    refine hs.keep hw heff code.inside (fun y => ?_) (fun y => ?_) fun y hne => ?_
    · rw [htrace, woken_of_up op y]
      split_ifs with hyx
      · rw [hyx, waiters]
        exact append_nil _
      · rfl
    · rw [semas, update_apply]
      split_ifs with hyx
      · rw [hyx, waiters]
      · rfl
    · have hyx : y ≠ x := fun hyx => hne (hyx ▸ waiters)
      rw [semas, update_of_ne hyx]
  | wakes x t _ op waiters _ semas code =>
    exact hs.wakes hw htrace op waiters heff code semas
  | yields event _ semas code | blocks event _ _ semas code
  | exits event _ _ semas code | unblocks t event _ semas code
  | creates _ r event _ semas code =>
    exact hs.schedule hw heff (by rw [event]; rfl) htrace semas code

/-! ### The balance -/

def Balanced (init : ℕ → ℕ) (s : Traced) : Prop :=
  ∀ x, (s.synch.semas x).value + s.trace.downs x = x.init init + s.trace.ups x

lemma after_downs (tr : Trace) (s : Synch) (e : Event) (s' : Synch) (x : Sema) :
    (tr.after s e s').downs x = if s.decrements e x then tr.downs x + 1 else tr.downs x := rfl

lemma after_ups (tr : Trace) (s : Synch) (e : Event) (s' : Synch) (x : Sema) :
    (tr.after s e s').ups x = if s.opOf e = some (.up, x) then tr.ups x + 1 else tr.ups x := rfl

lemma Balanced.of_none (hs : s.Balanced init) (hop : s.synch.opOf e = none)
    (htrace : s'.trace = s.trace.after s.synch e s'.synch)
    (hsemas : s'.synch.semas = s.synch.semas) : s'.Balanced init := by
  intro x
  have hdec : ¬ s.synch.decrements e x := by simp [Synch.decrements, hop]
  rw [htrace, after_downs, after_ups, if_neg hdec, if_neg (by simp [hop]), hsemas]
  exact hs x

lemma Balanced.lower {o : SemaOp} (hs : s.Balanced init) (hop : s.synch.opOf e = some (o, x))
    (ho : o = .down ∨ o = .tryDown) (hv : (s.synch.semas x).value ≠ 0)
    (htrace : s'.trace = s.trace.after s.synch e s'.synch)
    (hsemas : s'.synch.semas = update s.synch.semas x
      { s.synch.semas x with value := (s.synch.semas x).value - 1 }) : s'.Balanced init := by
  intro y
  have hbal := hs y
  have hup : s.synch.opOf e ≠ some (.up, y) := by
    rw [hop]
    rintro h
    obtain ⟨rfl, -⟩ := Prod.mk.inj (some.inj h)
    rcases ho with h | h <;> cases h
  rw [htrace, after_downs, after_ups, if_neg hup, hsemas, update_apply]
  split_ifs with hyx hdec hdec
  · subst hyx
    show (s.synch.semas y).value - 1 + _ = _
    omega
  · subst hyx
    refine absurd ⟨?_, hv⟩ hdec
    rcases ho with rfl | rfl
    · exact .inl hop
    · exact .inr hop
  · obtain ⟨h | h, -⟩ := hdec
    · rw [hop] at h
      exact absurd (Prod.mk.inj (some.inj h)).2.symm hyx
    · rw [hop] at h
      exact absurd (Prod.mk.inj (some.inj h)).2.symm hyx
  · exact hbal

lemma Balanced.raise {waiters : List ℕ} (hs : s.Balanced init)
    (hop : s.synch.opOf e = some (.up, x)) (hfits : (s.synch.semas x).value + 1 < 2 ^ 32)
    (htrace : s'.trace = s.trace.after s.synch e s'.synch)
    (hsemas : s'.synch.semas = update s.synch.semas x
      ⟨u32 ((s.synch.semas x).value + 1), waiters⟩) : s'.Balanced init := by
  intro y
  have hbal := hs y
  have hdec : ¬ s.synch.decrements e y := by simp [Synch.decrements, hop]
  rw [htrace, after_downs, after_ups, if_neg hdec, hsemas, update_apply]
  split_ifs with hyx hup hup
  · subst hyx
    show u32 ((s.synch.semas y).value + 1) + _ = _
    rw [u32_of_lt hfits]
    omega
  · exact absurd (hyx ▸ hop) hup
  · rw [hop] at hup
    exact absurd (Prod.mk.inj (some.inj hup)).2.symm hyx
  · exact hbal

lemma Balanced.step (hs : s.Balanced init) (h : Step s e s') (hfits : e.Fits s.synch) :
    s'.Balanced init := by
  obtain ⟨hnext, htrace⟩ := h
  cases Synch.next_effect hnext with
  | moves op _ _ semas => exact hs.of_none op htrace semas
  | passes x _ op value _ _ semas =>
    exact hs.lower op (.inl rfl) value htrace semas
  | takes x op value _ semas => exact hs.lower op (.inr rfl) value htrace semas
  | refused x op value _ semas =>
    intro y
    have hdec : ¬ s.synch.decrements e y := by
      rintro ⟨hy | hy, hv⟩
      · rw [op] at hy
        cases hy
      · rw [op] at hy
        obtain ⟨-, rfl⟩ := Prod.mk.inj (some.inj hy)
        exact hv value
    rw [htrace, after_downs, after_ups, if_neg hdec, if_neg (by simp [op]), semas]
    exact hs y
  | sleeps x op value _ _ semas =>
    intro y
    have hdec : ¬ s.synch.decrements e y := by
      rintro ⟨hy | hy, hv⟩
      · rw [op] at hy
        obtain ⟨-, rfl⟩ := Prod.mk.inj (some.inj hy)
        exact hv value
      · rw [op] at hy
        cases hy
    rw [htrace, after_downs, after_ups, if_neg hdec, if_neg (by simp [op]), semas, update_apply]
    split_ifs with hyx
    · exact hyx ▸ hs x
    · exact hs y
  | raises x op _ _ semas | wakes x t _ op _ _ semas =>
    exact hs.raise op (hfits x op) htrace semas
  | yields event _ semas | blocks event _ _ semas
  | exits event _ _ semas | unblocks t event _ semas
  | creates _ r event _ semas => exact hs.of_none (by rw [event]; rfl) htrace semas

/-! ### No wake-up is lost -/

/-- **No wake-up of a semaphore is lost.** -/
structure NoLostWakeup (init : ℕ → ℕ) (s : Traced) (x : Sema) : Prop where
  /-- Every unit is accounted for. -/
  balance : (s.synch.semas x).value + s.trace.downs x = x.init init + s.trace.ups x
  waiting : ∀ t, t ∈ (s.synch.semas x).waiters ↔ s.synch.kernel.threads t ≠ none ∧
    s.synch.kernel.status t = .THREAD_BLOCKED ∧ s.synch.Inside t x
  /-- The threads woken and not resumed are in `sema_down`, and off the list. -/
  onTheWay : (s.trace.woken x).Nodup ∧ ∀ t ∈ s.trace.woken x, s.synch.kernel.threads t ≠ none ∧
    s.synch.Inside t x ∧ t ∉ (s.synch.semas x).waiters
  /-- If a thread waits, then for every unit a thread is on the way. -/
  enough : (s.synch.semas x).waiters ≠ [] →
    (s.synch.semas x).value ≤ (s.trace.woken x).length

variable {palloc : Palloc} {page idlePage idleFd : ℕ} {preempted : Bool} {init : ℕ → ℕ}

lemma start_woken : (start palloc page idlePage idleFd preempted init).Woken where
  onTheWay _ _ h := absurd h not_mem_nil
  nodup _ := nodup_nil
  enough _ h := absurd rfl h

/-- **Semaphores lose no wake-ups**, in every run that increments none at its greatest value. -/
theorem noLostWakeup_reaches (palloc : Palloc) (page idlePage idleFd : ℕ) (preempted : Bool)
    (init : ℕ → ℕ) {s : Traced}
    (hr : Reaches Step (fun s e => e.Direct s.synch ∧ e.Fits s.synch)
      (start palloc page idlePage idleFd preempted init) s) (x : Sema) :
    s.NoLostWakeup init x := by
  obtain ⟨hw, hwoken, hbal⟩ := hr.invariant (fun s => s.synch.Waits ∧ s.Woken ∧ s.Balanced init)
    (fun hs h hm => ⟨hs.1.step (Synch.next_effect h.1) hm.1, hs.2.1.step hs.1 h,
      hs.2.2.step h hm.2⟩) ⟨start_waits, start_woken, fun _ => rfl⟩
  refine ⟨hbal x, fun t => ⟨hw.waiting x t, fun h => hw.asleep x t h.1 h.2.1 h.2.2⟩,
    ⟨hwoken.nodup x, hwoken.onTheWay x⟩, hwoken.enough x⟩

def fits (s : Traced) (e : Event) : Bool :=
  noUnblock s e &&
    match s.synch.opOf e with
    | some (.up, x) => decide ((s.synch.semas x).value + 1 < 2 ^ 32)
    | _ => true

lemma meets_of_fits (s : Traced) (e : Event) (h : fits s e = true) :
    e.Direct s.synch ∧ e.Fits s.synch := by
  obtain ⟨hdirect, hfits⟩ := Bool.and_eq_true_iff.1 h
  refine ⟨direct_of_noUnblock s e hdirect, fun x hop => ?_⟩
  rw [hop] at hfits
  exact of_decide_eq_true hfits

theorem noLostWakeup_reaches_stolen : ∃ s,
    Reaches Step (fun s e => e.Direct s.synch ∧ e.Fits s.synch)
      (start noPages 0 0 0 false fun _ => 0) s ∧
      s.trace.downs (.own 0) = 1 ∧ (s.synch.semas (.own 0)).waiters = [1] ∧
      s.NoLostWakeup (fun _ => 0) (.own 0) := by
  obtain ⟨s, hr, hs⟩ := exists_run meets_of_fits (start noPages 0 0 0 false fun _ => 0)
    [.call (.semaDown 0), .step, .intrUp 0, .intrTryDown 0, .yield, .step]
    (fun s => s.trace.downs (.own 0) == 1 && (s.synch.semas (.own 0)).waiters == [1])
    (by decide +kernel)
  simp only [Bool.and_eq_true, beq_iff_eq] at hs
  exact ⟨s, hr, hs.1, hs.2, noLostWakeup_reaches noPages 0 0 0 false (fun _ => 0) hr (.own 0)⟩

lemma exists_ups (n : ℕ) : ∃ s, Reaches Step Always (start noPages 0 0 0 false fun _ => 0) s ∧
      s.synch.semas (.own 0) = ⟨u32 n, []⟩ ∧ s.trace.downs (.own 0) = 0 ∧
      s.trace.ups (.own 0) = n := by
  induction n with
  | zero => exact ⟨_, .refl, rfl, rfl, rfl⟩
  | succ n ih =>
    obtain ⟨s, hr, hsema, hdowns, hups⟩ := ih
    have hup : s.synch.semaUp (.own 0) = .ok (s.synch.setSema (.own 0) ⟨u32 (u32 n + 1), []⟩) := by
      rw [Synch.semaUp, hsema]
      rfl
    have hdec : ¬ s.synch.decrements (.intrUp 0) (.own 0) := by simp [Synch.decrements, Synch.opOf]
    refine ⟨⟨_, s.trace.after s.synch (.intrUp 0) _⟩,
      hr.step (e := .intrUp 0) ⟨congrArg some hup, rfl⟩ trivial, ?_, ?_, ?_⟩
    · have hn : u32 (u32 n + 1) = u32 (n + 1) := by
        simp only [u32]
        omega
      rw [← hn]
      exact update_self (.own 0) (⟨u32 (u32 n + 1), []⟩ : Semaphore) s.synch.semas
    · rw [after_downs, if_neg hdec]
      exact hdowns
    · have hop : s.synch.opOf (.intrUp 0) = some (.up, .own 0) := rfl
      rw [after_ups, if_pos hop, hups]

/-- After `2^32` calls of `sema_up` the value is 0 again. -/
theorem ups_overflow : ∃ s, Reaches Step Always (start noPages 0 0 0 false fun _ => 0) s ∧
      (s.synch.semas (.own 0)).value = 0 ∧ s.trace.ups (.own 0) = 2 ^ 32 ∧
      ¬ s.NoLostWakeup (fun _ => 0) (.own 0) := by
  obtain ⟨s, hr, hsema, hdowns, hups⟩ := exists_ups (2 ^ 32)
  have hvalue : (s.synch.semas (.own 0)).value = 0 := by
    rw [hsema]
    rfl
  refine ⟨s, hr, hvalue, hups, fun h => ?_⟩
  have hbal := h.balance
  rw [hvalue, hdowns, hups] at hbal
  exact absurd hbal (by decide)

end Traced
end Pintos
