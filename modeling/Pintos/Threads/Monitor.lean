/-
# Condition variables as monitors

`cond_wait` puts a semaphore of its own at the end of the waiters, releases the lock, waits at the
semaphore and acquires the lock again; `cond_signal` takes the first semaphore off the waiters and
increments it.  Only a thread that holds the lock changes the list, but a waiter is woken, and loses
the CPU, at any time.
-/

import Pintos.Threads.Lock

namespace Pintos

open Base List
open Function (update update_apply update_of_ne update_self)

/-- Where a call of `cond_wait` is. -/
inductive Stage
  /-- It has not begun to wait. -/
  | fresh
  /-- It is among the waiters of a condition. -/
  | queued (c : ℕ)
  /-- A thread took it off and is about to increment its semaphore. -/
  | popped (t : ℕ)
  /-- Its semaphore was incremented. -/
  | raised
deriving DecidableEq, Repr

inductive Act
  | other
  /-- In the call `w` of `cond_wait`, before its statement `i`. -/
  | waiting (c w i : ℕ)
  /-- In `cond_signal`, called by `cond_broadcast` or not. -/
  | asserting (c : ℕ) (cast : Bool)
  | signalling (c : ℕ) (cast : Bool)
  | raising (c w : ℕ) (cast : Bool)
  /-- At the test of the loop of `cond_broadcast`. -/
  | casting (c : ℕ)
deriving DecidableEq, Repr

def Stmt.Plain : Stmt → Prop
  | .semaDown x | .semaTryDown x | .semaUp x => ∀ w, x ≠ .waiter w
  | .pushWaiter _ _ | .signal _ _ | .broadcast _ _ | .leave _ _ => False
  | .assertHeld _ | .assertNotHeld _ | .tryAcquire _ | .setHolder _ | .clearHolder _ => True

def afterSignal (lockOf : ℕ → ℕ) (c : ℕ) (cast : Bool) : List Stmt :=
  if cast then [.broadcast c (lockOf c)] else []

namespace Act

def Fits (lockOf : ℕ → ℕ) (code : List Stmt) : Act → Prop
  | .other => ∀ stmt ∈ code, stmt.Plain
  | .waiting c w i => i < 10 ∧ code = (condWait c (lockOf c) w).drop i
  | .asserting c cast =>
    code = .assertHeld (lockOf c) :: .signal c (lockOf c) :: afterSignal lockOf c cast
  | .signalling c cast => code = .signal c (lockOf c) :: afterSignal lockOf c cast
  | .raising c w cast => code = .semaUp (.waiter w) :: afterSignal lockOf c cast
  | .casting c => code = [.broadcast c (lockOf c)]

def on : Act → Option ℕ
  | .asserting c _ | .signalling c _ | .raising c _ true | .casting c => some c
  | .other | .waiting _ _ _ | .raising _ _ false => none

def afterSignal (c : ℕ) (cast : Bool) : Act := if cast then .casting c else .other

/-- A `cond_signal` has signalled the first that waited, a `cond_broadcast` any number. -/
def Sent (cast : List ℕ × List ℕ) : Act → Prop
  | .asserting _ false | .signalling _ false => cast.2 = []
  | .raising _ w false => cast.2 = [w] ∧ cast.1.take 1 = [w]
  | _ => True

end Act

/-- The part about conditions; `value`, `ups` and `downs` are of the semaphores of `cond_wait`. -/
@[ext] structure Watch where
  code : ℕ → List Stmt
  conds : ℕ → List ℕ
  value : ℕ → ℕ
  ups : ℕ → ℕ
  downs : ℕ → ℕ
  waited : ℕ → List ℕ
  signalled : ℕ → List ℕ
  returned : List ℕ
  casting : ℕ → List ℕ × List ℕ
  signals : List (List ℕ × List ℕ)
  casts : List (List ℕ × List ℕ)
  calls : ℕ

namespace Watch

variable (v : Watch)

def goOn (t : ℕ) (code : List Stmt) : Watch := { v with code := update v.code t code }

def push (c w : ℕ) : Watch :=
  { v with
    conds := update v.conds c (v.conds c ++ [w])
    waited := update v.waited c (v.waited c ++ [w]) }

def pop (t c w : ℕ) (ws : List ℕ) : Watch :=
  { v with
    conds := update v.conds c ws
    signalled := update v.signalled c (v.signalled c ++ [w])
    casting := update v.casting t ((v.casting t).1, (v.casting t).2 ++ [w]) }

def raise (w : ℕ) : Watch :=
  { v with
    value := update v.value w (v.value w + 1)
    ups := update v.ups w (v.ups w + 1) }

def pass (w : ℕ) : Watch :=
  { v with
    value := update v.value w (v.value w - 1)
    downs := update v.downs w (v.downs w + 1) }

end Watch

/-- The state of the conditions, given where threads and calls are. -/
structure Monitor (lockOf : ℕ → ℕ) (v : Watch) (act : ℕ → Act) (st : ℕ → Stage) : Prop where
  code : ∀ t, (act t).Fits lockOf (v.code t)
  conds : ∀ c w, w ∈ v.conds c ↔ st w = .queued c
  fifo : ∀ c, v.waited c = v.signalled c ++ v.conds c
  nodup : ∀ c, (v.waited c).Nodup
  one : ∀ c c' w, w ∈ v.waited c → w ∈ v.waited c' → c = c'
  popped : ∀ w t, st w = .popped t ↔ ∃ c cast, act t = .raising c w cast
  signalled : ∀ w, (∃ c, w ∈ v.signalled c) ↔ (∃ t, st w = .popped t) ∨ st w = .raised
  ups : ∀ w, v.ups w = if st w = .raised then 1 else 0
  value : ∀ w, v.value w + v.downs w = v.ups w
  unborn : ∀ w, v.calls ≤ w → st w = .fresh ∧ v.downs w = 0
  waiting : ∀ t c w i, act t = .waiting c w i →
    w < v.calls ∧ (i ≤ 1 ↔ st w = .fresh) ∧ v.downs w = if i ≤ 5 then 0 else 1
  caller : ∀ t u c w i c' i', act t = .waiting c w i → act u = .waiting c' w i' → t = u
  returned : ∀ w ∈ v.returned, v.downs w = 1
  casting : ∀ t c, (act t).on = some c →
    (v.casting t).1 = (v.casting t).2 ++ v.conds c ∧
      ∀ w ∈ (v.casting t).2, st w = .raised ∨ ∃ cast, act t = .raising c w cast
  sent : ∀ t, (act t).Sent (v.casting t)
  signals : ∀ cast ∈ v.signals, cast.2 = cast.1.take 1 ∧ ∀ w ∈ cast.2, st w = .raised
  casts : ∀ cast ∈ v.casts, cast.2 = cast.1 ∧ ∀ w ∈ cast.2, st w = .raised

namespace Monitor

variable {lockOf : ℕ → ℕ} {v : Watch} {act : ℕ → Act} {st : ℕ → Stage} {t c w i u : ℕ} {a : Act}
  {code : List Stmt}

/-! ### Going on -/

lemma fits_update (hs : Monitor lockOf v act st) (ha : a.Fits lockOf code) (u : ℕ) :
    (update act t a u).Fits lockOf ((v.goOn t code).code u) := by
  show (update act t a u).Fits lockOf (update v.code t code u)
  by_cases hut : u = t
  · rw [hut, update_self, update_self]
    exact ha
  · rw [update_of_ne hut, update_of_ne hut]
    exact hs.code u

lemma waiting_update {Q : ℕ → ℕ → Prop} (hrefl : ∀ i, Q i i)
    (ha : ∀ c w i, a = .waiting c w i → ∃ j, act t = .waiting c w j ∧ Q i j)
    (h : update act t a u = .waiting c w i) : ∃ j, act u = .waiting c w j ∧ Q i j := by
  by_cases hut : u = t
  · rw [hut, update_self] at h
    rw [hut]
    exact ha c w i h
  · rw [update_of_ne hut] at h
    exact ⟨i, h, hrefl i⟩

lemma caller_update (hs : Monitor lockOf v act st)
    (ha : ∀ c w i, a = .waiting c w i → ∃ j, act t = .waiting c w j) {u' c' i' : ℕ}
    (hu : update act t a u = .waiting c w i) (hu' : update act t a u' = .waiting c' w i') :
    u = u' := by
  have ha' : ∀ c w i, a = .waiting c w i → ∃ j, act t = .waiting c w j ∧ True :=
    fun c w i h => (ha c w i h).imp fun _ hj => ⟨hj, trivial⟩
  obtain ⟨j, hj, _⟩ := waiting_update (fun _ => trivial) ha' hu
  obtain ⟨j', hj', _⟩ := waiting_update (fun _ => trivial) ha' hu'
  exact hs.caller u u' c w j c' j' hj hj'

lemma sent_update (hs : Monitor lockOf v act st) (ha : a.Sent (v.casting t)) (u : ℕ) :
    (update act t a u).Sent (v.casting u) := by
  by_cases hut : u = t
  · rw [hut, update_self]
    exact ha
  · rw [update_of_ne hut]
    exact hs.sent u

lemma popped_update (hs : Monitor lockOf v act st)
    (ha : ∀ c w cast, a = .raising c w cast ↔ act t = .raising c w cast) (w u : ℕ) :
    st w = .popped u ↔ ∃ c cast, update act t a u = .raising c w cast := by
  rw [hs.popped]
  by_cases hut : u = t
  · rw [hut, update_self]
    simp only [ha]
  · rw [update_of_ne hut]

theorem go (hs : Monitor lockOf v act st) (ha : a.Fits lockOf code)
    (hraising : ∀ c w cast, a = .raising c w cast ↔ act t = .raising c w cast)
    (hwaiting : ∀ c w i, a = .waiting c w i → ∃ j, act t = .waiting c w j ∧
      ((i ≤ 1 ↔ j ≤ 1) ∧ (i ≤ 5 ↔ j ≤ 5)))
    (hcast : ∀ c, a.on = some c → (v.casting t).1 = (v.casting t).2 ++ v.conds c ∧
      ∀ w ∈ (v.casting t).2, st w = .raised ∨ ∃ cast, a = .raising c w cast)
    (hsent : a.Sent (v.casting t)) : Monitor lockOf (v.goOn t code) (update act t a) st := by
  refine ⟨hs.fits_update ha, hs.conds, hs.fifo, hs.nodup, hs.one, hs.popped_update hraising,
    hs.signalled, hs.ups, hs.value, hs.unborn, fun u c w i h => ?_,
    fun u u' c w i c' i' => hs.caller_update fun c w i h => (hwaiting c w i h).imp fun _ =>
      And.left,
    hs.returned, fun u c h => ?_, hs.sent_update hsent, hs.signals, hs.casts⟩
  · obtain ⟨j, hj, h1, h5⟩ := waiting_update (fun _ => ⟨Iff.rfl, Iff.rfl⟩) hwaiting h
    obtain ⟨hlt, hfresh, hdowns⟩ := hs.waiting u c w j hj
    refine ⟨hlt, h1.trans hfresh, hdowns.trans ?_⟩
    simp only [h5]
  · by_cases hut : u = t
    · rw [hut, update_self] at h ⊢
      exact hcast c h
    · rw [update_of_ne hut] at h ⊢
      exact hs.casting u c h

/-! ### Waiting -/

lemma notMem_of_fresh (hs : Monitor lockOf v act st) (h : st w = .fresh) (c : ℕ) :
    w ∉ v.waited c := by
  rw [hs.fifo, mem_append]
  rintro (hmem | hmem)
  · rcases (hs.signalled w).1 ⟨c, hmem⟩ with ⟨t, hpop⟩ | hraised
    · rw [h] at hpop
      cases hpop
    · rw [h] at hraised
      cases hraised
  · have hqueued := (hs.conds c w).1 hmem
    rw [h] at hqueued
    cases hqueued

lemma stage_update {p : Stage} (p' q : Stage) (hw : st w = p) (hp : q ≠ p) (hp' : q ≠ p') (w' : ℕ) :
    update st w p' w' = q ↔ st w' = q := by
  by_cases hww : w' = w
  · rw [hww, update_self, hw]
    exact iff_of_false (Ne.symm hp') (Ne.symm hp)
  · rw [update_of_ne hww]

section

variable (hs : Monitor lockOf v act st) {cast : Bool} {p : List ℕ × List ℕ}
include hs

/-- **A call begins to wait**: `t` is in it and no thread signals the condition. -/
theorem push (ht : act t = .waiting c w 1) (halone : ∀ u, (act u).on ≠ some c) :
    Monitor lockOf ((v.push c w).goOn t ((condWait c (lockOf c) w).drop 2))
      (update act t (.waiting c w 2)) (update st w (.queued c)) := by
  obtain ⟨hlt, hfresh, hdowns⟩ := hs.waiting t c w 1 ht
  have hw : st w = .fresh := hfresh.1 le_rfl
  have hst : ∀ w', w' ≠ w → update st w (.queued c) w' = st w' := fun w' h =>
    update_of_ne h ..
  have hraised : ∀ w', update st w (.queued c) w' = .raised ↔ st w' = .raised :=
    stage_update (.queued c) .raised hw nofun nofun
  have hpopped : ∀ w' u, update st w (.queued c) w' = .popped u ↔ st w' = .popped u :=
    fun w' u => stage_update (.queued c) (.popped u) hw nofun nofun w'
  have hmem : ∀ c' w', w' ∈ (v.push c w).waited c' ↔ w' ∈ v.waited c' ∨ c' = c ∧ w' = w := by
    intro c' w'
    show w' ∈ update v.waited c _ c' ↔ _
    by_cases hc : c' = c
    · simp [hc]
    · simp [hc]
  refine ⟨hs.fits_update ⟨by omega, rfl⟩, fun c' w' => ?_, fun c' => ?_, fun c' => ?_,
    fun c1 c2 w' h1 h2 => ?_, fun w' u => ?_, fun w' => ?_, fun w' => ?_, hs.value,
      fun w' hw' => ?_,
    fun u c' w' j h => ?_, fun u u' c' w' j c'' j' => hs.caller_update fun c' w' j h => ?_,
    hs.returned, fun u c' h => ?_, hs.sent_update trivial, fun cast h => ?_, fun cast h => ?_⟩
  · show w' ∈ update v.conds c _ c' ↔ _
    by_cases hww : w' = w
    · rw [hww, update_self]
      by_cases hc : c' = c
      · rw [hc, update_self]
        simp
      · rw [update_of_ne hc, hs.conds, hw]
        exact iff_of_false nofun fun h => hc (Stage.queued.inj h).symm
    · rw [hst w' hww, ← hs.conds]
      by_cases hc : c' = c
      · rw [hc, update_self]
        simp [hww]
      · rw [update_of_ne hc]
  · show update v.waited c _ c' = v.signalled c' ++ update v.conds c _ c'
    by_cases hc : c' = c
    · rw [hc, update_self, update_self, hs.fifo, append_assoc]
    · rw [update_of_ne hc, update_of_ne hc, hs.fifo]
  · show (update v.waited c _ c').Nodup
    by_cases hc : c' = c
    · rw [hc, update_self]
      refine nodup_append.2 ⟨hs.nodup c, nodup_singleton w, fun a ha b hb hab => ?_⟩
      rw [mem_singleton.1 hb] at hab
      exact hs.notMem_of_fresh hw c (hab ▸ ha)
    · rw [update_of_ne hc]
      exact hs.nodup c'
  · have hout := hs.notMem_of_fresh hw
    rcases (hmem c1 w').1 h1 with hold1 | ⟨hc1, hw1⟩
    · rcases (hmem c2 w').1 h2 with hold2 | ⟨_, hw2⟩
      · exact hs.one c1 c2 w' hold1 hold2
      · exact absurd (hw2 ▸ hold1) (hout c1)
    · rcases (hmem c2 w').1 h2 with hold2 | ⟨hc2, _⟩
      · exact absurd (hw1 ▸ hold2) (hout c2)
      · rw [hc1, hc2]
  · rw [hpopped]
    exact hs.popped_update (fun _ _ _ => ht ▸ iff_of_false nofun nofun) w' u
  · simp only [hpopped, hraised]
    exact hs.signalled w'
  · simp only [hraised]
    exact hs.ups w'
  · have hne : w' ≠ w := fun h => absurd hlt (Nat.not_lt.2 (h ▸ hw'))
    rw [hst w' hne]
    exact hs.unborn w' hw'
  · by_cases hut : u = t
    · rw [hut, update_self] at h
      obtain ⟨rfl, rfl, rfl⟩ := Act.waiting.inj h
      refine ⟨hlt, iff_of_false (by omega) fun h => ?_, hdowns⟩
      rw [update_self] at h
      cases h
    · rw [update_of_ne hut] at h
      have hne : w' ≠ w := fun hww => hut (hs.caller u t c' w' j c 1 h (hww ▸ ht))
      rw [hst w' hne]
      exact hs.waiting u c' w' j h
  · obtain ⟨rfl, rfl, rfl⟩ := Act.waiting.inj h
    exact ⟨1, ht⟩
  · by_cases hut : u = t
    · rw [hut, update_self] at h
      cases h
    · rw [update_of_ne hut] at h ⊢
      have hc : c' ≠ c := fun hc => halone u (hc ▸ h)
      obtain ⟨hlist, hdone⟩ := hs.casting u c' h
      refine ⟨hlist.trans ?_, fun w' hw' => ?_⟩
      · show _ = _ ++ update v.conds c _ c'
        rw [update_of_ne hc]
        rfl
      · rw [hraised]
        exact hdone w' hw'
  · simp only [hraised]
    exact hs.signals cast h
  · simp only [hraised]
    exact hs.casts cast h

lemma pass (ht : act t = .waiting c w 5) (hv : v.value w ≠ 0) :
    Monitor lockOf ((v.pass w).goOn t ((condWait c (lockOf c) w).drop 6))
      (update act t (.waiting c w 6)) st := by
  obtain ⟨hlt, hfresh, hdowns⟩ := hs.waiting t c w 5 ht
  have hzero : v.downs w = 0 := hdowns
  have hdown : ∀ w', w' ≠ w → (v.pass w).downs w' = v.downs w' := fun w' h =>
    update_of_ne h ..
  have hself : (v.pass w).downs w = 1 := by
    show update v.downs w _ w = 1
    rw [update_self, hzero]
  refine ⟨hs.fits_update ⟨by omega, rfl⟩, hs.conds, hs.fifo, hs.nodup, hs.one,
    hs.popped_update fun _ _ _ => ht ▸ iff_of_false nofun nofun,
    hs.signalled, hs.ups, fun w' => ?_, fun w' hw' => ?_, fun u c' w' j h => ?_,
    fun u u' c' w' j c'' j' => hs.caller_update fun c' w' j h => ?_, fun w' hw' => ?_,
    fun u c' h => ?_, hs.sent_update trivial, hs.signals, hs.casts⟩
  · have hval := hs.value w'
    show update v.value w _ w' + (v.pass w).downs w' = v.ups w'
    by_cases hww : w' = w
    · rw [hww] at hval ⊢
      rw [hself, update_self]
      omega
    · rw [hdown w' hww, update_of_ne hww]
      exact hval
  · have hne : w' ≠ w := fun h => absurd hlt (Nat.not_lt.2 (h ▸ hw'))
    show _ ∧ (v.pass w).downs w' = 0
    rw [hdown w' hne]
    exact hs.unborn w' hw'
  · show _ ∧ _ ∧ (v.pass w).downs w' = _
    by_cases hut : u = t
    · rw [hut, update_self] at h
      obtain ⟨rfl, rfl, rfl⟩ := Act.waiting.inj h
      exact ⟨hlt, by rw [← hfresh]; omega, hself⟩
    · rw [update_of_ne hut] at h
      have hne : w' ≠ w := fun hww => hut (hs.caller u t c' w' j c 5 h (hww ▸ ht))
      rw [hdown w' hne]
      exact hs.waiting u c' w' j h
  · obtain ⟨rfl, rfl, rfl⟩ := Act.waiting.inj h
    exact ⟨5, ht⟩
  · show (v.pass w).downs w' = 1
    by_cases hww : w' = w
    · rw [hww]
      exact hself
    · rw [hdown w' hww]
      exact hs.returned w' hw'
  · by_cases hut : u = t
    · rw [hut, update_self] at h
      cases h
    · rw [update_of_ne hut] at h ⊢
      exact hs.casting u c' h

/-! ### Signalling -/

/-- **The first waiter is taken off**, by the one thread that signals the condition. -/
theorem pop {ws : List ℕ} (ht : act t = .signalling c cast) (hconds : v.conds c = w :: ws)
    (halone : ∀ u, u ≠ t → (act u).on ≠ some c) :
    Monitor lockOf ((v.pop t c w ws).goOn t (.semaUp (.waiter w) :: afterSignal lockOf c cast))
      (update act t (.raising c w cast)) (update st w (.popped t)) := by
  have hw : st w = .queued c := (hs.conds c w).1 (hconds ▸ mem_cons_self)
  have hst : ∀ w', w' ≠ w → update st w (.popped t) w' = st w' := fun w' h =>
    update_of_ne h ..
  have hraised : ∀ w', update st w (.popped t) w' = .raised ↔ st w' = .raised :=
    stage_update (.popped t) .raised hw nofun nofun
  have hfresh : ∀ w', update st w (.popped t) w' = .fresh ↔ st w' = .fresh :=
    stage_update (.popped t) .fresh hw nofun nofun
  have hon : (act t).on = some c := by rw [ht]; rfl
  obtain ⟨hlist, hdone⟩ := hs.casting t c hon
  rw [hconds] at hlist
  have hdone : ∀ w' ∈ (v.casting t).2, st w' = .raised := fun w' hw' =>
    (hdone w' hw').resolve_right fun ⟨_, h⟩ => by
      rw [ht] at h
      cases h
  have hnot : w ∉ ws := by
    have hnodup := hs.nodup c
    rw [hs.fifo, hconds] at hnodup
    exact (nodup_cons.1 (nodup_append.1 hnodup).2.1).1
  refine ⟨hs.fits_update rfl, fun c' w' => ?_, fun c' => ?_, hs.nodup, hs.one, fun w' u => ?_,
    fun w' => ?_, fun w' => ?_, hs.value, fun w' hw' => ?_, fun u c' w' j h => ?_,
    fun u u' c' w' j c'' j' => hs.caller_update (by nofun), hs.returned, fun u c' h => ?_,
      fun u => ?_,
    fun p h => ?_, fun p h => ?_⟩
  · show w' ∈ update v.conds c ws c' ↔ _
    by_cases hc : c' = c
    · rw [hc, update_self]
      by_cases hww : w' = w
      · rw [hww, update_self]
        exact iff_of_false hnot nofun
      · rw [hst w' hww, ← hs.conds, hconds, mem_cons]
        exact ⟨.inr, fun h => h.resolve_left hww⟩
    · rw [update_of_ne hc, hs.conds]
      exact (stage_update (.popped t) (.queued c') hw (fun h => hc (Stage.queued.inj h))
        nofun w').symm
  · show v.waited c' = update v.signalled c _ c' ++ update v.conds c ws c'
    by_cases hc : c' = c
    · rw [hc, update_self, update_self, hs.fifo, hconds, append_assoc]
      rfl
    · rw [update_of_ne hc, update_of_ne hc, hs.fifo]
  · by_cases hut : u = t
    · rw [hut, update_self]
      by_cases hww : w' = w
      · rw [hww, update_self]
        exact iff_of_true rfl ⟨c, cast, rfl⟩
      · rw [hst w' hww, hs.popped, ht]
        exact iff_of_false (fun ⟨_, _, h⟩ => nomatch h)
          fun ⟨_, _, h⟩ => hww (Act.raising.inj h).2.1.symm
    · rw [update_of_ne hut, ← hs.popped]
      exact stage_update (.popped t) (.popped u) hw nofun (fun h => hut (Stage.popped.inj h)) w'
  · rw [hraised]
    have hmem : (∃ c', w' ∈ (v.pop t c w ws).signalled c') ↔
        (∃ c', w' ∈ v.signalled c') ∨ w' = w := by
      constructor
      · rintro ⟨c', h⟩
        have h : w' ∈ update v.signalled c _ c' := h
        by_cases hc : c' = c
        · rw [hc, update_self, mem_append, mem_singleton] at h
          exact h.imp_left fun h => ⟨c, h⟩
        · rw [update_of_ne hc] at h
          exact .inl ⟨c', h⟩
      · have hsub : ∀ c', v.signalled c' ⊆ (v.pop t c w ws).signalled c' := by
          intro c'
          show v.signalled c' ⊆ update v.signalled c _ c'
          by_cases hc : c' = c
          · rw [hc, update_self]
            exact subset_append_left ..
          · rw [update_of_ne hc]
            exact List.Subset.refl _
        rintro (⟨c', h⟩ | rfl)
        · exact ⟨c', hsub c' h⟩
        · refine ⟨c, ?_⟩
          show w' ∈ update v.signalled c _ c
          rw [update_self]
          exact mem_append_right _ mem_cons_self
    by_cases hww : w' = w
    · rw [hww] at hmem ⊢
      exact iff_of_true (hmem.2 (.inr rfl)) (.inl ⟨t, update_self ..⟩)
    · rw [hst w' hww, ← hs.signalled]
      exact hmem.trans (or_iff_left hww)
  · simp only [hraised]
    exact hs.ups w'
  · rw [hfresh]
    exact hs.unborn w' hw'
  · rw [hfresh]
    obtain ⟨_, hj, rfl⟩ := waiting_update (Q := Eq) (fun _ => rfl) (by nofun) h
    exact hs.waiting u c' w' _ hj
  · show (update v.casting t _ u).1 = (update v.casting t _ u).2 ++
        update v.conds c ws c' ∧ ∀ w' ∈ (update v.casting t _ u).2, _
    by_cases hut : u = t
    · rw [hut, update_self] at h ⊢
      obtain rfl : c = c' := by
        cases cast with
        | true => exact Option.some.inj h
        | false => cases h
      rw [update_self, update_self]
      refine ⟨?_, fun w' hw' => ?_⟩
      · rw [append_assoc]
        exact hlist
      · rcases mem_append.1 hw' with hw' | hw'
        · exact .inl ((hraised w').2 (hdone w' hw'))
        · rw [mem_singleton.1 hw']
          exact .inr ⟨cast, rfl⟩
    · rw [update_of_ne hut] at h ⊢
      have hc : c' ≠ c := fun hc => halone u hut (hc ▸ h)
      rw [update_of_ne hut, update_of_ne hc]
      simp only [hraised]
      exact hs.casting u c' h
  · show Act.Sent (update v.casting t _ u) _
    by_cases hut : u = t
    · rw [hut, update_self, update_self]
      cases cast with
      | true => trivial
      | false =>
        have hnil : (v.casting t).2 = [] := by
          have hsent := hs.sent t
          rwa [ht] at hsent
        rw [hnil] at hlist
        rw [hnil]
        exact ⟨rfl, by rw [hlist]; rfl⟩
    · rw [update_of_ne hut, update_of_ne hut]
      exact hs.sent u
  · simp only [hraised]
    exact hs.signals p h
  · simp only [hraised]
    exact hs.casts p h

theorem raise (ht : act t = .raising c w cast) :
    Monitor lockOf ((v.raise w).goOn t (afterSignal lockOf c cast))
      (update act t (.afterSignal c cast)) (update st w .raised) := by
  have hw : st w = .popped t := (hs.popped w t).2 ⟨c, cast, ht⟩
  have hst : ∀ w', w' ≠ w → update st w .raised w' = st w' := fun w' h =>
    update_of_ne h ..
  have hraised : ∀ w', st w' = .raised → update st w .raised w' = .raised := by
    intro _ h
    rw [update_apply]
    split_ifs
    · rfl
    · exact h
  have hfresh : ∀ w', update st w .raised w' = .fresh ↔ st w' = .fresh :=
    stage_update .raised .fresh hw nofun nofun
  have hnext : ∀ c' w' j, Act.afterSignal c cast = .waiting c' w' j → False := by
    cases cast with
    | true => exact nofun
    | false => exact nofun
  refine ⟨hs.fits_update ?_, fun c' w' => ?_, hs.fifo, hs.nodup, hs.one, fun w' u => ?_,
    fun w' => ?_, fun w' => ?_, fun w' => ?_, fun w' hw' => ?_, fun u c' w' j h => ?_,
    fun u u' c' w' j c'' j' => hs.caller_update fun c' w' j h => (hnext c' w' j h).elim,
    hs.returned, fun u c' h => ?_, hs.sent_update ?_, fun p h => ?_, fun p h => ?_⟩
  · cases cast with
    | true => rfl
    | false => exact nofun
  · rw [stage_update .raised (.queued c') hw nofun nofun w']
    exact hs.conds c' w'
  · by_cases hut : u = t
    · rw [hut, update_self]
      refine iff_of_false (fun h => ?_) fun ⟨_, _, h⟩ => ?_
      · by_cases hww : w' = w
        · rw [hww, update_self] at h
          cases h
        · rw [hst w' hww, hs.popped, ht] at h
          obtain ⟨_, _, h⟩ := h
          exact hww (Act.raising.inj h).2.1.symm
      · cases cast with
        | true => cases h
        | false => cases h
    · rw [update_of_ne hut, ← hs.popped]
      exact stage_update .raised (.popped u) hw (fun h => hut (Stage.popped.inj h))
        nofun w'
  · by_cases hww : w' = w
    · rw [hww, update_self]
      exact iff_of_true ((hs.signalled w).2 (.inl ⟨t, hw⟩)) (.inr rfl)
    · rw [hst w' hww]
      exact hs.signalled w'
  · have hups := hs.ups w'
    show update v.ups w _ w' = _
    by_cases hww : w' = w
    · rw [hww, hw, if_neg fun h => (nomatch h)] at hups
      rw [hww, update_self, update_self, if_pos rfl, hups]
    · rw [hst w' hww, update_of_ne hww]
      exact hups
  · have hval := hs.value w'
    show update v.value w _ w' + v.downs w' = update v.ups w _ w'
    by_cases hww : w' = w
    · rw [hww] at hval ⊢
      rw [update_self, update_self]
      omega
    · rw [update_of_ne hww, update_of_ne hww]
      exact hval
  · rw [hfresh]
    exact hs.unborn w' hw'
  · rw [hfresh]
    obtain ⟨_, hj, rfl⟩ := waiting_update (Q := Eq) (fun _ => rfl)
      (fun c' w' j h => (hnext c' w' j h).elim) h
    exact hs.waiting u c' w' _ hj
  · by_cases hut : u = t
    · rw [hut, update_self] at h ⊢
      cases cast with
      | false => cases h
      | true =>
        cases h
        have hon : (act t).on = some c := by rw [ht]; rfl
        obtain ⟨hlist, hdone⟩ := hs.casting t c hon
        refine ⟨hlist, fun w' hw' => .inl ?_⟩
        rcases hdone w' hw' with hr | ⟨_, hr⟩
        · exact hraised w' hr
        · rw [ht] at hr
          rw [(Act.raising.inj hr).2.1, update_self]
    · rw [update_of_ne hut] at h ⊢
      obtain ⟨hlist, hdone⟩ := hs.casting u c' h
      exact ⟨hlist, fun w' hw' => (hdone w' hw').imp_left (hraised w')⟩
  · cases cast with
    | true => trivial
    | false => trivial
  · exact ⟨(hs.signals p h).1, fun w' hw' => hraised w' ((hs.signals p h).2 w' hw')⟩
  · exact ⟨(hs.casts p h).1, fun w' hw' => hraised w' ((hs.casts p h).2 w' hw')⟩

/-! ### Calls and returns -/

lemma recordSignal (hp : p.2 = p.1.take 1) (hraised : ∀ w ∈ p.2, st w = .raised) :
    Monitor lockOf { v with signals := v.signals ++ [p] } act st := by
  refine { hs with signals := forall_mem_append.2 ⟨hs.signals, forall_mem_singleton.2 ?_⟩ }
  exact ⟨hp, hraised⟩

lemma recordCast (hp : p.2 = p.1) (hraised : ∀ w ∈ p.2, st w = .raised) :
    Monitor lockOf { v with casts := v.casts ++ [p] } act st := by
  refine { hs with casts := forall_mem_append.2 ⟨hs.casts, forall_mem_singleton.2 ?_⟩ }
  exact ⟨hp, hraised⟩

lemma recordReturn (hdowns : v.downs w = 1) :
    Monitor lockOf { v with returned := v.returned ++ [w] } act st := by
  refine { hs with returned := forall_mem_append.2 ⟨hs.returned, forall_mem_singleton.2 ?_⟩ }
  exact hdowns

lemma later : Monitor lockOf { v with calls := v.calls + 1 } act st := by
  refine { hs with
    unborn := fun w hw => hs.unborn w (Nat.le_of_succ_le hw)
    waiting := fun t c w i h => ?_ }
  obtain ⟨hlt, hrest⟩ := hs.waiting t c w i h
  exact ⟨Nat.lt_succ_of_lt hlt, hrest⟩

lemma recast (p : List ℕ × List ℕ) (ht : act t = .other) :
    Monitor lockOf { v with casting := update v.casting t p } act st := by
  refine { hs with casting := fun u c h => ?_, sent := fun u => ?_ }
  · have hut : u ≠ t := fun hut => by
      rw [hut, ht] at h
      cases h
    show (update v.casting t p u).1 = (update v.casting t p u).2 ++ v.conds c ∧
      ∀ w ∈ (update v.casting t p u).2, _
    rw [update_of_ne hut]
    exact hs.casting u c h
  · show (act u).Sent (update v.casting t p u)
    by_cases hut : u = t
    · rw [hut, ht]
      trivial
    · rw [update_of_ne hut]
      exact hs.sent u

lemma enter (ht : act t = .other) (c : ℕ) :
    Monitor lockOf ({ v with calls := v.calls + 1 }.goOn t (condWait c (lockOf c) v.calls))
      (update act t (.waiting c v.calls 0)) st := by
  have hold : ∀ u, u ≠ t → update act t (.waiting c v.calls 0) u = act u := fun u h =>
    update_of_ne h ..
  have hself : update act t (.waiting c v.calls 0) t = .waiting c v.calls 0 := update_self ..
  obtain ⟨hfresh, hdowns⟩ := hs.unborn v.calls le_rfl
  refine { hs.later with
    code := hs.later.fits_update ⟨by omega, rfl⟩
    popped := hs.popped_update fun _ _ _ => ht ▸ iff_of_false nofun nofun
    waiting := fun u c' w i h => ?_
    caller := fun u u' c1 w i c2 j h h' => ?_
    casting := fun u c' h => ?_
    sent := hs.sent_update trivial }
  · by_cases hut : u = t
    · rw [hut, hself] at h
      obtain ⟨rfl, rfl, rfl⟩ := Act.waiting.inj h
      exact ⟨Nat.lt_succ_self _, iff_of_true (Nat.zero_le 1) hfresh, hdowns⟩
    · exact hs.later.waiting u c' w i (hold u hut ▸ h)
  · -- the number of the call is new
    have hnew : ∀ u c' w i, u ≠ t → act u = .waiting c' w i → w ≠ v.calls := fun u c' w i _ h =>
      Nat.ne_of_lt (hs.waiting u c' w i h).1
    by_cases hu : u = t
    · by_cases hu' : u' = t
      · rw [hu, hu']
      · rw [hu, hself] at h
        rw [hold u' hu'] at h'
        exact absurd (Act.waiting.inj h).2.1.symm (hnew u' c2 w j hu' h')
    · rw [hold u hu] at h
      by_cases hu' : u' = t
      · rw [hu', hself] at h'
        exact absurd (Act.waiting.inj h').2.1.symm (hnew u c1 w i hu h)
      · rw [hold u' hu'] at h'
        exact hs.caller u u' c1 w i c2 j h h'
  · by_cases hut : u = t
    · rw [hut, hself] at h
      cases h
    · rw [hold u hut] at h ⊢
      exact hs.casting u c' h

end

end Monitor

end Pintos
