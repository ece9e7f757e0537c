/-
# The assertions of an interrupt queue

`intq_getc` and `intq_putc` test the queue, take `q->lock` and call `wait`, which asserts what the
test found.  If the lock is free nothing happens in between.  A thread that sleeps on the lock goes
on only when the thread inside has left, and calls `wait` without another test, though the queue may
have changed.
-/

import Pintos.Devices.Intq

namespace Pintos.Devices

open Base Function Kernel

namespace Queue

def FindsLockFree (s : Queue) : Event → Prop
  | .call _ op => op.mustWait s.q = true → s.q.holder = none
  | _ => True

/-- Nobody sleeps on the lock; its holder is in `wait`, and the thread to be woken is blocked
there. -/
structure Calm (s : Queue) : Prop where
  waiters : s.q.lock.waiters = []
  free : s.q.holder = none → s.q.lock.value = 1 ∧ ∀ t, s.place t = .out
  held : ∀ {t}, s.q.holder = some t →
    s.q.lock.value = 0 ∧ (∃ op, s.place t = .waiting op) ∧ ∀ u ≠ t, s.place u = .out
  waiter : ∀ {w t}, s.q.waiter w = some t →
    s.blocked t = true ∧ ∃ op, s.place t = .waiting op ∧ op.waitsFor = w

variable {s s' : Queue} {t : ℕ} {op : Op} {w : Waiter} {e : Event}

lemma calm_init (buf : ℕ → BitVec 8) : (init buf).Calm where
  waiters := rfl
  free := fun _ => ⟨rfl, fun _ => rfl⟩
  held := nofun
  waiter := nofun

lemma Calm.holder_of_place (hc : s.Calm) (hp : s.place t ≠ .out) : s.q.holder = some t := by
  cases hh : s.q.holder with
  | none => exact absurd ((hc.free hh).2 t) hp
  | some =>
    by_contra hne
    refine hp ((hc.held hh).2.2 t ?_)
    rintro rfl
    exact hne rfl

lemma Calm.holder_of_waiter (hc : s.Calm) (hw : s.q.waiter w = some t) : s.q.holder = some t := by
  obtain ⟨_, _, hp, _⟩ := hc.waiter hw
  refine hc.holder_of_place ?_
  rw [hp]
  exact nofun

lemma Calm.waiter_none (hc : s.Calm) (hh : s.q.holder = none) (w : Waiter) :
    s.q.waiter w = none := by
  cases hw : s.q.waiter w with
  | none => rfl
  | some =>
    have := hc.holder_of_waiter hw
    rw [hh] at this
    cases this

lemma Calm.waiter_unique (hc : s.Calm) {v : Waiter} {u : ℕ} (hw : s.q.waiter w = some t)
    (hv : s.q.waiter v = some u) : v = w := by
  have hut : u = t := by
    have := (hc.holder_of_waiter hv).symm.trans (hc.holder_of_waiter hw)
    exact Option.some.inj this
  subst hut
  obtain ⟨_, _, hp, rfl⟩ := hc.waiter hw
  obtain ⟨_, _, hp', rfl⟩ := hc.waiter hv
  rw [hp] at hp'
  obtain rfl := Place.waiting.inj hp'
  rfl

lemma takeByte_unmet (h : Op.getc.mustWait s.q = false) :
    Waiter.notFull.unmet s.takeByte.q = false := by
  have hne : s.q.count ≠ 0 := fun hzero => by
    rw [show Op.getc.mustWait s.q = true from (intqEmpty_iff s.q).2 hzero] at h
    cases h
  have hcount := s.q.toRing.count_take hne
  have hlt := s.q.count_lt
  rw [Waiter.unmet, Bool.eq_false_iff]
  intro hfull
  have hlast : s.q.toRing.take.2.count = INTQ_BUFSIZE - 1 := (intqFull_iff s.takeByte.q).1 hfull
  omega

lemma putByte_unmet {byte : BitVec 8} (h : (Op.putc byte).mustWait s.q = false) :
    Waiter.notEmpty.unmet (s.putByte byte).q = false := by
  have hne : s.q.count ≠ INTQ_BUFSIZE - 1 := fun hlast => by
    rw [show (Op.putc byte).mustWait s.q = true from (intqFull_iff s.q).2 hlast] at h
    cases h
  have hcount := s.q.toRing.count_put byte hne
  rw [Waiter.unmet, Bool.eq_false_iff]
  intro hempty
  have hzero : (s.q.toRing.put byte).count = 0 := (intqEmpty_iff (s.putByte byte).q).1 hempty
  omega

def woken (s : Queue) (w : Waiter) (t : ℕ) : Queue :=
  { s with
    q := { s.q with waiter := update s.q.waiter w none }
    blocked := update s.blocked t false }

lemma woken_waiter : (s.woken w t).q.waiter = update s.q.waiter w none := rfl

lemma signal_of_some (hmet : w.unmet s.q = false) (hw : s.q.waiter w = some t)
    (hblocked : s.blocked t = true) : s.signal w = .ok (s.woken w t) := by
  rw [signal, ASSERT_of hmet, ok_bind, hw]
  simp only [threadUnblock, ASSERT_of hblocked, ok_bind, pure_eq_ok, woken]

lemma signal_of_none (hmet : w.unmet s.q = false) (hw : s.q.waiter w = none) :
    s.signal w = .ok s := by
  rw [signal, ASSERT_of hmet, ok_bind, hw, pure_eq_ok]

theorem Calm.signal (hc : s.Calm) (hmet : w.unmet s.q = false) :
    ∃ s', s.signal w = .ok s' ∧ s'.Calm := by
  cases hw : s.q.waiter w with
  | none => exact ⟨s, signal_of_none hmet hw, hc⟩
  | some t =>
    refine ⟨s.woken w t, signal_of_some hmet hw (hc.waiter hw).1, { hc with waiter := ?_ }⟩
    intro v u hv
    -- Nobody is left to be woken.
    obtain ⟨hvw, hv⟩ : v ≠ w ∧ s.q.waiter v = some u := by
      by_cases hvw : v = w
      · rw [hvw, woken_waiter, update_self] at hv
        cases hv
      · rw [woken_waiter, update_of_ne hvw] at hv
        exact ⟨hvw, hv⟩
    exact absurd (hc.waiter_unique hw hv) hvw

theorem Calm.transfer (hc : s.Calm) (hmet : op.mustWait s.q = false) :
    ∃ s', s.transfer op = .ok s' ∧ s'.Calm := by
  cases op with
  | getc =>
    have htake : s.takeByte.Calm := { hc with }
    exact htake.signal (takeByte_unmet hmet)
  | putc byte =>
    have hput : (s.putByte byte).Calm := { hc with }
    exact hput.signal (putByte_unmet hmet)

/-- The lock is free and no other thread is in the queue. -/
structure AtLoop (s : Queue) (t : ℕ) : Prop where
  waiters : s.q.lock.waiters = []
  holder : s.q.holder = none
  value : s.q.lock.value = 1
  place : ∀ u ≠ t, s.place u = .out
  waiter : ∀ w, s.q.waiter w = none

def asleep (s : Queue) (t : ℕ) (op : Op) : Queue :=
  { s with
    q := { s.q with
      lock := { s.q.lock with value := s.q.lock.value - 1 }
      holder := some t
      waiter := update s.q.waiter op.waitsFor (some t) }
    place := update s.place t (.waiting op)
    blocked := update s.blocked t true }

lemma semaDown_of_ne_zero (hvalue : s.q.lock.value ≠ 0) (hwait : op.mustWait s.q = true) :
    s.semaDown t op = .ok (s.asleep t op) := by
  have hassert : ∀ q : Intq, q.toRing = s.q.toRing → op.waitsFor.unmet q = true := by
    intro q hq
    cases op with
    | getc => rw [Op.waitsFor, Waiter.unmet, intqEmpty, hq]; exact hwait
    | putc => rw [Op.waitsFor, Waiter.unmet, intqFull, hq]; exact hwait
  rw [semaDown, if_neg hvalue]
  simp only [wait]
  rw [ASSERT_of, ok_bind, pure_eq_ok]
  · rfl
  · exact hassert _ rfl

lemma asleep_waiter : (s.asleep t op).q.waiter = update s.q.waiter op.waitsFor (some t) := rfl

lemma asleep_place : (s.asleep t op).place = update s.place t (.waiting op) := rfl

/-- **The thread waits**: nothing happens between the test and the assertion. -/
theorem AtLoop.semaDown (h : s.AtLoop t) (hwait : op.mustWait s.q = true) :
    ∃ s', s.semaDown t op = .ok s' ∧ s'.Calm := by
  refine ⟨s.asleep t op, semaDown_of_ne_zero (by rw [h.value]; decide) hwait, ?_⟩
  refine ⟨h.waiters, nofun, ?_, ?_⟩
  · intro u hu
    cases hu
    refine ⟨?_, ⟨op, update_self ..⟩, fun v hv => ?_⟩
    · exact congrArg (· - 1) h.value
    · rw [asleep_place, update_of_ne hv]
      exact h.place v hv
  · intro v u hv
    by_cases hvw : v = op.waitsFor
    · rw [hvw, asleep_waiter, update_self] at hv
      cases hv
      exact ⟨update_self .., op, update_self .., hvw.symm⟩
    · rw [asleep_waiter, update_of_ne hvw, h.waiter] at hv
      cases hv

lemma AtLoop.loop (h : s.AtLoop t) : ∃ s', s.loop t op = .ok s' ∧ s'.Calm := by
  rw [Queue.loop]
  by_cases hwait : op.mustWait s.q = true
  · rw [if_pos hwait, ASSERT_of (by rw [h.holder]; exact fun h => nomatch h), ok_bind]
    exact h.semaDown hwait
  · rw [if_neg hwait]
    have hout : Calm { s with place := update s.place t .out } := by
      refine ⟨h.waiters, fun _ => ⟨h.value, fun u => ?_⟩, fun hu => ?_, fun hw => ?_⟩
      · by_cases hu : u = t
        · rw [hu]
          exact update_self ..
        · exact (update_of_ne hu ..).trans (h.place u hu)
      · rw [show _ = none from h.holder] at hu
        cases hu
      · rw [show _ = none from h.waiter _] at hw
        cases hw
    exact hout.transfer (Bool.eq_false_iff.2 hwait)

lemma Calm.lockRelease (hc : s.Calm) (hp : s.place t ≠ .out) (hrun : s.blocked t = false) :
    ∃ s', s.lockRelease t = .ok s' ∧ s'.AtLoop t := by
  have hholder := hc.holder_of_place hp
  obtain ⟨hvalue, _, hother⟩ := hc.held hholder
  have hnone : ∀ w, s.q.waiter w = none := by
    intro w
    cases hw : s.q.waiter w with
    | none => rfl
    | some u =>
      -- It would be this thread, and blocked.
      obtain rfl : u = t := Option.some.inj ((hc.holder_of_waiter hw).symm.trans hholder)
      rw [(hc.waiter hw).1] at hrun
      cases hrun
  refine ⟨{ s with q := { s.q with lock := ⟨s.q.lock.value + 1, []⟩, holder := none } }, ?_,
    rfl, rfl, ?_, hother, hnone⟩
  · rw [Queue.lockRelease, ASSERT_of hholder, ok_bind, hc.waiters]
    rfl
  · exact congrArg (· + 1) hvalue

lemma Calm.exec (hc : s.Calm) (hen : s.Enabled e) (hm : s.FindsLockFree e) :
    ∃ s', s.exec e = .ok s' ∧ s'.Calm := by
  cases e with
  | call t op =>
    by_cases hwait : op.mustWait s.q = true
    · have hfree := hm hwait
      obtain ⟨hvalue, hout⟩ := hc.free hfree
      have hloop : s.AtLoop t := ⟨hc.waiters, hfree, hvalue, fun u _ => hout u,
        hc.waiter_none hfree⟩
      exact hloop.loop
    · have hplace : update s.place t .out = s.place := by
        rw [← hen.1, update_eq_self]
      rw [Queue.exec, Queue.loop, if_neg hwait, hplace]
      exact hc.transfer (Bool.eq_false_iff.2 hwait)
  | resume =>
    have hholder := hc.holder_of_place hen.1
    obtain ⟨_, ⟨_, hp⟩, _⟩ := hc.held hholder
    obtain ⟨_, h1, hloop⟩ := hc.lockRelease hen.1 hen.2
    simp only [Queue.exec, hp, h1, ok_bind]
    exact hloop.loop
  | intr => exact hc.transfer hen

/-- **The assertions of the queue hold** in every run in which a thread that has to wait finds the
lock free. -/
theorem assertions_hold (buf : ℕ → BitVec 8) (s : Queue)
    (hr : Reaches Step FindsLockFree (init buf) s) :
    (∀ e, s.Enabled e → s.FindsLockFree e → ∃ s', s.exec e = .ok s') ∧
      ∀ t op, s.place t ≠ .acquiring op := by
  have hc : s.Calm := by
    refine hr.invariant Calm ?_ (calm_init buf)
    intro s e _ hc hs hm
    obtain ⟨_, h1, hc1⟩ := hc.exec hs.1 hm
    obtain rfl := Except.ok.inj (hs.2.symm.trans h1)
    exact hc1
  constructor
  · intro e hen hm
    obtain ⟨s', hs', _⟩ := hc.exec hen hm
    exact ⟨s', hs'⟩
  · intro t _ hp
    have hholder := hc.holder_of_place (by rw [hp]; exact fun h => nomatch h)
    obtain ⟨_, ⟨_, hp'⟩, _⟩ := hc.held hholder
    rw [hp] at hp'
    cases hp'

instance (s : Queue) : DecidablePred s.FindsLockFree
  | .call .. | .resume .. | .intr .. => by unfold FindsLockFree; infer_instance

theorem assertions_hold_two_threads : ∃ s, Reaches Step FindsLockFree (init fun _ => 0) s ∧
    (s.place 1 = .waiting .getc ∧ s.blocked 1 = false) ∧ ∃ s', s.exec (.resume 1) = .ok s' := by
  obtain ⟨s, hr, hcheck⟩ := exists_run FindsLockFree (init fun _ => 0)
    [.call 1 .getc, .call 2 (.putc 7)]
    (fun s => decide (s.place 1 = .waiting .getc ∧ s.blocked 1 = false)) (by decide)
  have hplace := of_decide_eq_true hcheck
  have hen : s.Enabled (.resume 1) := ⟨by rw [hplace.1]; decide, hplace.2⟩
  exact ⟨s, hr, hplace, (assertions_hold _ s hr).1 _ hen trivial⟩

/-- **Two sleepers and two bytes.**  Thread 1 waits and thread 2 sleeps on the lock; two bytes come
in, thread 1 takes one, and thread 2 fails the assertion. -/
theorem wait_asserts_nonempty : ∃ s, Reaches Step Always (init fun _ => 0) s ∧
    s.Enabled (.resume 2) ∧ s.place 2 = .acquiring .getc ∧
    s.exec (.resume 2) = PANIC "assertion failed." := by
  obtain ⟨s, hr, hcheck⟩ := exists_run Always (init fun _ => 0)
    [.call 1 .getc, .call 2 .getc, .intr (.putc 1), .intr (.putc 2), .resume 1]
    (fun s => decide (s.Enabled (.resume 2) ∧ s.place 2 = .acquiring .getc ∧
      s.q.lock.value ≠ 0 ∧ intqEmpty s.q = false)) (by decide)
  obtain ⟨hen, hp, hvalue, hempty⟩ := of_decide_eq_true hcheck
  refine ⟨s, hr, hen, hp, ?_⟩
  have hfails : Op.getc.waitsFor.unmet s.q ≠ true := by
    rw [show Op.getc.waitsFor.unmet s.q = false from hempty]
    exact nofun
  rw [exec, hp]
  exact (if_neg hvalue).trans (congrArg (· >>= _) (if_neg hfails))

end Queue

end Pintos.Devices
