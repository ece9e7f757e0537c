/-
# Condition variables

The states of `Pintos.Threads.Synch` are watched (`Trace.watch`): every statement and event changes
the watched part in one of the ways that keep `Monitor`, or not at all.
-/

import Mathlib.Tactic.IntervalCases
import Pintos.Threads.Monitor

namespace Pintos

open Base Kernel List Option Synch
open Function (update update_apply update_eq_self update_of_ne update_self)

def Event.Monitored (lockOf : ℕ → ℕ) (s : Traced) (e : Event) : Prop :=
  e.Disciplined s ∧ ∀ c l, e = .call (.condWait c l) ∨ e = .call (.condSignal c l) ∨
    e = .call (.condBroadcast c l) → l = lockOf c

/-! ### The watched part of a state -/

def Trace.watch (tr : Trace) (s : Synch) : Watch where
  code := s.code
  conds := s.conds
  value w := (s.semas (.waiter w)).value
  ups w := tr.ups (.waiter w)
  downs w := tr.downs (.waiter w)
  waited := tr.waited
  signalled := tr.signalled
  returned := tr.returned
  casting := tr.casting
  signals := tr.signals
  casts := tr.casts
  calls := s.calls

variable {f : Call}

namespace Trace

variable {tr : Trace} {s s' : Synch} {e : Event} {stmt : Stmt} {rest : List Stmt} {c l w : ℕ}
  {x : Sema} {ws : List ℕ}

lemma opOf_step (hcode : s.code s.kernel.current = stmt :: rest) : s.opOf .step = stmt.op := by
  simp [opOf, hcode]

lemma watch_eq (hups : ∀ w, (tr.after s e s').ups (.waiter w) = tr.ups (.waiter w))
    (hdowns : ∀ w, (tr.after s e s').downs (.waiter w) = tr.downs (.waiter w))
    (hwaited : (tr.after s e s').waited = tr.waited)
    (hsignalled : (tr.after s e s').signalled = tr.signalled)
    (hreturned : (tr.after s e s').returned = tr.returned)
    (hcasting : (tr.after s e s').casting = tr.casting)
    (hsignals : (tr.after s e s').signals = tr.signals)
    (hcasts : (tr.after s e s').casts = tr.casts) :
    (tr.after s e s').watch s' = tr.watch s' := by
  ext1
  case ups => exact funext hups
  case downs => exact funext hdowns
  case waited => exact hwaited
  case signalled => exact hsignalled
  case returned => exact hreturned
  case casting => exact hcasting
  case signals => exact hsignals
  case casts => exact hcasts
  all_goals rfl

lemma counts_eq (tr : Trace) (s' : Synch) (hop : ∀ o w, s.opOf e ≠ some (o, .waiter w)) :
    (∀ w, (tr.after s e s').ups (.waiter w) = tr.ups (.waiter w)) ∧
      ∀ w, (tr.after s e s').downs (.waiter w) = tr.downs (.waiter w) :=
  ⟨fun w => if_neg (hop .up w), fun w => if_neg fun h => h.1.elim (hop .down w) (hop .tryDown w)⟩

lemma watch_plain (hcode : s.code s.kernel.current = stmt :: rest) (hplain : stmt.Plain) :
    (tr.after s .step s').watch s' = tr.watch s' := by
  have hstmt := Locked.stmtOf_step hcode
  have hop : ∀ o w, s.opOf .step ≠ some (o, .waiter w) := by
    intro o w h
    rw [opOf_step hcode] at h
    cases stmt with
    | semaDown | semaTryDown | semaUp => exact hplain w (Prod.mk.inj (some.inj h)).2
    | _ => cases h
  obtain ⟨hups, hdowns⟩ := counts_eq tr s' hop
  cases stmt with
  | pushWaiter | signal | broadcast | leave => exact hplain.elim
  | semaUp x =>
    refine watch_eq hups hdowns ?_ ?_ ?_ ?_ ?_ ?_
    case refine_5 =>
      cases x with
      | waiter w => exact absurd rfl (hplain w)
      | own | lock => simp only [after, hcode]
    all_goals simp only [after, hstmt]
  | semaDown | semaTryDown | assertHeld | assertNotHeld | tryAcquire | setHolder
  | clearHolder =>
    refine watch_eq hups hdowns ?_ ?_ ?_ ?_ ?_ ?_
    all_goals simp only [after, hstmt, hcode]

lemma watch_outside (hop : ∀ o w, s.opOf e ≠ some (o, .waiter w)) (hstep : e ≠ .step)
    (hcall : ∀ f, e ≠ .call f) : (tr.after s e s').watch s' = tr.watch s' := by
  obtain ⟨hups, hdowns⟩ := counts_eq tr s' hop
  cases e with
  | step => exact absurd rfl hstep
  | call f => exact absurd rfl (hcall f)
  | _ => exact watch_eq hups hdowns rfl rfl rfl rfl rfl rfl

lemma watch_setSema_of_ne {sema : Semaphore} (hx : ∀ w, x ≠ .waiter w) :
    tr.watch (s.setSema x sema) = tr.watch s := by
  ext1
  case value =>
    funext w
    show (update s.semas x sema (.waiter w)).value = _
    rw [update_of_ne (Ne.symm (hx w))]
    rfl
  all_goals rfl

lemma watch_setSema (tr : Trace) (s : Synch) (sema : Semaphore) :
    tr.watch (s.setSema (.waiter w) sema) =
    { tr.watch s with value := update (tr.watch s).value w sema.value } := by
  ext1
  case value =>
    funext w'
    show (update s.semas (.waiter w) sema (.waiter w')).value =
      update (tr.watch s).value w sema.value w'
    by_cases hww : w' = w
    · rw [hww, update_self, update_self]
    · rw [update_of_ne fun h => hww (Sema.waiter.inj h), update_of_ne hww]
      rfl
  all_goals rfl

lemma watch_semaUp (hx : ∀ w, x ≠ .waiter w) (h : s.semaUp x = .ok s') :
    tr.watch s' = tr.watch s := by
  rcases semaUp_eq_ok h with ⟨_, rfl⟩ | ⟨t, _, k, _, _, rfl⟩
  · exact watch_setSema_of_ne hx
  · exact watch_setSema_of_ne (s := s) hx

lemma watch_goOn (code : List Stmt) :
    tr.watch (s.goOn code) = (tr.watch s).goOn s.kernel.current code := rfl

lemma exec_plain (tr : Trace) (hplain : stmt.Plain) (hexec : s.exec rest stmt = .ok s') :
    tr.watch s' = tr.watch s ∨ tr.watch s' = (tr.watch s).goOn s.kernel.current rest ∨
      ∃ l, stmt = .tryAcquire l ∧
        tr.watch s' = (tr.watch s).goOn s.kernel.current (.setHolder l :: rest) := by
  cases stmt with
  | pushWaiter | signal | broadcast | leave => exact hplain.elim
  | semaDown =>
    simp only [exec, bind_eq_ok] at hexec
    obtain ⟨⟨r, _⟩, hdown, hexec⟩ := hexec
    rcases semaDown_eq_ok hdown with ⟨rfl, _, rfl⟩ | ⟨rfl, _, k, _, rfl⟩
    · cases hexec
      right; left
      rw [if_pos rfl, watch_goOn, watch_setSema_of_ne hplain]
      rfl
    · cases hexec
      exact .inl (watch_setSema_of_ne (s := s) hplain)
  | semaTryDown =>
    cases hexec
    right; left
    rw [watch_goOn, semaTryDown_eq]
    split_ifs
    · rw [watch_setSema_of_ne hplain]
      rfl
    · rfl
  | semaUp =>
    simp only [exec, bind_eq_ok] at hexec
    obtain ⟨_, hup, hexec⟩ := hexec
    cases hexec
    right; left
    rw [watch_goOn, (semaUp_frame hup).1, watch_semaUp hplain hup]
  | tryAcquire l =>
    by_cases hv : (s.semas (.lock l)).value ≠ 0
    · simp only [exec, semaTryDown_eq, if_pos hv] at hexec
      cases hexec
      refine .inr (.inr ⟨l, rfl, ?_⟩)
      rw [watch_goOn, watch_setSema_of_ne (by simp)]
      rfl
    · simp only [exec, semaTryDown_eq, if_neg hv, if_neg Bool.false_ne_true] at hexec
      cases hexec
      exact .inr (.inl rfl)
  | assertHeld | assertNotHeld =>
    simp only [exec, bind_eq_ok] at hexec
    obtain ⟨_, _, _, _, hexec⟩ := hexec
    cases hexec
    exact .inr (.inl rfl)
  | setHolder =>
    simp only [exec, bind_eq_ok] at hexec
    obtain ⟨_, _, hexec⟩ := hexec
    cases hexec
    exact .inr (.inl rfl)
  | clearHolder =>
    cases hexec
    exact .inr (.inl rfl)

/-! ### The statements that concern conditions -/

lemma watch_stmt (hcode : s.code s.kernel.current = stmt :: rest) (hop : stmt.op = none)
    (tr : Trace) (s' : Synch) : (tr.after s .step s').watch s' = { tr.watch s' with
      waited := (tr.after s .step s').waited
      signalled := (tr.after s .step s').signalled
      returned := (tr.after s .step s').returned
      casting := (tr.after s .step s').casting
      signals := (tr.after s .step s').signals
      casts := (tr.after s .step s').casts } := by
  obtain ⟨hups, hdowns⟩ := counts_eq (e := .step) tr s' fun o w h => by
    rw [opOf_step hcode, hop] at h
    cases h
  ext1
  case ups => exact funext hups
  case downs => exact funext hdowns
  all_goals rfl

lemma watch_pushWaiter (hcode : s.code s.kernel.current = .pushWaiter c w :: rest)
    (hexec : s.exec rest (.pushWaiter c w) = .ok s') :
    (tr.after s .step s').watch s' = ((tr.watch s).push c w).goOn s.kernel.current rest := by
  have hstmt := Locked.stmtOf_step hcode
  rw [watch_stmt hcode rfl]
  cases hexec
  ext1
  case waited =>
    funext c'
    show _ = update tr.waited c (tr.waited c ++ [w]) c'
    simp only [after, hstmt, update_apply]
    by_cases hc : c' = c
    · rw [if_pos hc.symm, if_pos hc, hc]
    · rw [if_neg (Ne.symm hc), if_neg hc]
  all_goals
    simp only [watch, after, hstmt, hcode]
    rfl

section

variable (hcode : s.code s.kernel.current = .signal c l :: rest)
include hcode

lemma signalled_signal (tr : Trace) (s' : Synch) : (tr.after s .step s').signalled =
      update tr.signalled c (tr.signalled c ++ (s.conds c).take 1) := by
  funext c'
  simp only [after, Locked.stmtOf_step hcode, update_apply]
  by_cases hc : c' = c
  · rw [if_pos hc.symm, if_pos hc, hc]
  · rw [if_neg (Ne.symm hc), if_neg hc]

lemma signals_signal (tr : Trace) (s' : Synch) :
    (tr.after s .step s').signals = if rest = [] ∧ s.conds c = [] then
      tr.signals ++ [tr.casting s.kernel.current] else tr.signals := by
  simp only [after, hcode]
  cases rest with
  | nil => simp
  | cons => simp

lemma watch_signal_nil (hconds : s.conds c = []) (hexec : s.exec rest (.signal c l) = .ok s') :
    (tr.after s .step s').watch s' = Watch.goOn { tr.watch s with
      signals := if rest = [] then tr.signals ++ [tr.casting s.kernel.current] else tr.signals }
        s.kernel.current rest := by
  have hstmt := Locked.stmtOf_step hcode
  rw [watch_stmt hcode rfl, signalled_signal hcode, signals_signal hcode]
  simp only [exec, hconds] at hexec
  cases hexec
  ext1
  case signalled =>
    rw [hconds, take_nil, append_nil, update_eq_self]
    rfl
  case casting =>
    simp only [watch, after, hstmt, hconds, take_nil, append_nil]
    exact update_eq_self ..
  case signals =>
    simp only [hconds, and_true]
    rfl
  all_goals
    simp only [watch, after, hstmt]
    rfl

lemma watch_signal_cons (hconds : s.conds c = w :: ws)
    (hexec : s.exec rest (.signal c l) = .ok s') :
    (tr.after s .step s').watch s' = ((tr.watch s).pop s.kernel.current c w ws).goOn
      s.kernel.current (.semaUp (.waiter w) :: rest) := by
  have hstmt := Locked.stmtOf_step hcode
  rw [watch_stmt hcode rfl, signalled_signal hcode, signals_signal hcode]
  simp only [exec, hconds] at hexec
  cases hexec
  ext1
  case signalled =>
    rw [hconds]
    rfl
  case casting =>
    simp only [watch, after, hstmt, hconds]
    rfl
  case signals =>
    simp only [hconds, reduceCtorEq, and_false, if_false]
    rfl
  all_goals
    simp only [watch, after, hstmt]
    rfl

end

lemma watch_broadcast_nil (hcode : s.code s.kernel.current = .broadcast c l :: rest)
    (hconds : s.conds c = []) (hexec : s.exec rest (.broadcast c l) = .ok s') :
    (tr.after s .step s').watch s' = Watch.goOn { tr.watch s with
      casts := tr.casts ++ [tr.casting s.kernel.current] } s.kernel.current rest := by
  have hstmt := Locked.stmtOf_step hcode
  rw [watch_stmt hcode rfl]
  simp only [exec, hconds] at hexec
  cases hexec
  ext1
  all_goals
    simp only [watch, after, hstmt, hcode, hconds, if_true]
    rfl

lemma watch_broadcast_cons (hcode : s.code s.kernel.current = .broadcast c l :: rest)
    (hconds : s.conds c = w :: ws) (hexec : s.exec rest (.broadcast c l) = .ok s') :
    (tr.after s .step s').watch s' =
      (tr.watch s).goOn s.kernel.current (condSignal c l ++ .broadcast c l :: rest) := by
  have hstmt := Locked.stmtOf_step hcode
  rw [watch_stmt hcode rfl]
  simp only [exec, hconds] at hexec
  cases hexec
  ext1
  all_goals
    simp only [watch, after, hstmt, hcode, hconds, reduceCtorEq, if_false]
    rfl

lemma watch_leave (hcode : s.code s.kernel.current = .leave l w :: rest)
    (hexec : s.exec rest (.leave l w) = .ok s') : (tr.after s .step s').watch s' =
      Watch.goOn { tr.watch s with returned := tr.returned ++ [w] } s.kernel.current rest := by
  have hstmt := Locked.stmtOf_step hcode
  rw [watch_stmt hcode rfl]
  cases hexec
  ext1
  all_goals
    simp only [watch, after, hstmt, hcode]
    rfl

/-! ### The semaphore of a call -/

lemma watch_sleep (hcode : s.code s.kernel.current = .semaDown (.waiter w) :: rest)
    (hv : (s.semas (.waiter w)).value = 0)
    (hexec : s.exec rest (.semaDown (.waiter w)) = .ok s') :
    (tr.after s .step s').watch s' = tr.watch s := by
  have hstmt := Locked.stmtOf_step hcode
  have hop : s.opOf .step = some (.down, .waiter w) := opOf_step hcode
  have hups : ∀ w', (tr.after s .step s').ups (.waiter w') = tr.ups (.waiter w') := fun w' => by
    simp [Traced.after_ups, hop]
  have hdowns : ∀ w', (tr.after s .step s').downs (.waiter w') = tr.downs (.waiter w') := by
    refine fun w' => if_neg fun h => ?_
    rcases h with ⟨h | h, hne⟩
    · rw [← (Prod.mk.inj (mem_unique hop h)).2] at hne
      exact hne hv
    · cases hop.symm.trans h
  rw [watch_eq hups hdowns (by simp only [after, hstmt]) (by simp only [after, hstmt])
    (by simp only [after, hstmt]) (by simp only [after, hstmt]) (by simp only [after, hcode])
    (by simp only [after, hstmt])]
  simp only [exec, bind_eq_ok] at hexec
  obtain ⟨⟨r, _⟩, hdown, hexec⟩ := hexec
  obtain ⟨rfl, _, k, _, rfl⟩ := (semaDown_eq_ok hdown).resolve_left fun h => h.2.1 hv
  cases hexec
  refine (watch_setSema tr s _).trans ?_
  refine Watch.ext rfl rfl ?_ rfl rfl rfl rfl rfl rfl rfl rfl rfl
  exact update_eq_self ..

lemma watch_pass (hcode : s.code s.kernel.current = .semaDown (.waiter w) :: rest)
    (hv : (s.semas (.waiter w)).value ≠ 0)
    (hexec : s.exec rest (.semaDown (.waiter w)) = .ok s') :
    (tr.after s .step s').watch s' = ((tr.watch s).pass w).goOn s.kernel.current rest := by
  have hstmt := Locked.stmtOf_step hcode
  have hop : s.opOf .step = some (.down, .waiter w) := opOf_step hcode
  have hups : ∀ w', (tr.after s .step s').ups (.waiter w') = tr.ups (.waiter w') := fun w' => by
    simp [Traced.after_ups, hop]
  have hdowns : ∀ w', (tr.after s .step s').downs (.waiter w') =
      update (tr.watch s).downs w ((tr.watch s).downs w + 1) w' := by
    intro w'
    rw [Traced.after_downs]
    by_cases hww : w' = w
    · subst hww
      rw [update_self, if_pos ⟨.inl hop, hv⟩]
      rfl
    · rw [update_of_ne hww, if_neg fun h => ?_]
      · rfl
      · rcases h with ⟨h | h, _⟩
        · exact hww (Sema.waiter.inj (Prod.mk.inj (mem_unique hop h)).2).symm
        · cases hop.symm.trans h
  simp only [exec, bind_eq_ok] at hexec
  obtain ⟨⟨r, _⟩, hdown, hexec⟩ := hexec
  obtain ⟨rfl, _, rfl⟩ := (semaDown_eq_ok hdown).resolve_right fun h => hv h.2.1
  cases hexec
  ext1
  case ups => exact funext hups
  case downs => exact funext hdowns
  case value =>
    have hset := congrArg Watch.value (watch_setSema (w := w) tr s
      { s.semas (.waiter w) with value := (s.semas (.waiter w)).value - 1 })
    exact hset
  all_goals
    simp only [watch, after, hstmt, hcode]
    rfl

lemma watch_raise (hcode : s.code s.kernel.current = .semaUp (.waiter w) :: rest)
    (hv : (s.semas (.waiter w)).value = 0)
    (hexec : s.exec rest (.semaUp (.waiter w)) = .ok s') :
    (tr.after s .step s').watch s' = Watch.goOn { (tr.watch s).raise w with
      signals := if rest = [] then tr.signals ++ [tr.casting s.kernel.current] else tr.signals }
        s.kernel.current rest := by
  have hstmt := Locked.stmtOf_step hcode
  have hop : s.opOf .step = some (.up, .waiter w) := opOf_step hcode
  have hups : ∀ w', (tr.after s .step s').ups (.waiter w') =
      update (tr.watch s).ups w ((tr.watch s).ups w + 1) w' := by
    intro w'
    rw [Traced.after_ups]
    by_cases hww : w' = w
    · subst hww
      rw [update_self, if_pos hop]
      rfl
    · rw [update_of_ne hww, if_neg fun h => ?_]
      · rfl
      · exact hww (Sema.waiter.inj (Prod.mk.inj (mem_unique hop h)).2).symm
  have hdowns : ∀ w', (tr.after s .step s').downs (.waiter w') = tr.downs (.waiter w') :=
    fun w' => by simp [Traced.after_downs, decrements, hop]
  have hsignals : (tr.after s .step s').signals =
      if rest = [] then tr.signals ++ [tr.casting s.kernel.current] else tr.signals := by
    simp only [after, hcode]
    cases rest with
    | nil => rfl
    | cons => rfl
  simp only [exec, bind_eq_ok] at hexec
  obtain ⟨s1, hup, hexec⟩ := hexec
  obtain ⟨hcur, hcode1⟩ := semaUp_frame hup
  have hvalue : ∀ ws, (tr.watch (s.setSema (.waiter w)
      ⟨u32 ((s.semas (.waiter w)).value + 1), ws⟩)).value =
        update (tr.watch s).value w ((tr.watch s).value w + 1) := by
    intro _
    have hzero : (tr.watch s).value w = 0 := hv
    rw [watch_setSema, hv, hzero]
    rfl
  have hwatch : s1.conds = s.conds ∧ s1.calls = s.calls ∧ (tr.watch s1).value =
      update (tr.watch s).value w ((tr.watch s).value w + 1) := by
    rcases semaUp_eq_ok hup with ⟨_, rfl⟩ | ⟨t, ws, k, _, _, rfl⟩
    · exact ⟨rfl, rfl, hvalue []⟩
    · exact ⟨rfl, rfl, hvalue ws⟩
  obtain ⟨hconds, hcalls, hval⟩ := hwatch
  cases hexec
  ext1
  case ups => exact funext hups
  case downs => exact funext hdowns
  case value => exact hval
  case signals => exact hsignals
  case conds => exact hconds
  case calls => exact hcalls
  case code =>
    show update s1.code s1.kernel.current rest = update s.code _ rest
    rw [hcur, hcode1]
  all_goals
    simp only [watch, after, hstmt]
    rfl

def calling (tr : Trace) (s : Synch) : Call → ℕ → List ℕ × List ℕ
  | .condSignal c _ | .condBroadcast c _ =>
    update tr.casting s.kernel.current (s.conds c, [])
  | _ => tr.casting

lemma watch_call (hnext : s.next (.call f) = some (.ok s')) :
    (tr.after s (.call f) s').watch s' = Watch.goOn { tr.watch s with
      calls := s.calls + 1
      casting := tr.calling s f } s.kernel.current (f.body s.calls) := by
  obtain ⟨hups, hdowns⟩ := counts_eq (s := s) (e := .call f) tr s' fun o w h =>
    nomatch h
  simp only [Synch.next] at hnext
  split_ifs at hnext
  cases hnext
  ext1
  case ups => exact funext hups
  case downs => exact funext hdowns
  case casting =>
    cases f with
    | _ => rfl
  all_goals rfl

end Trace

def Traced.Watched (lockOf : ℕ → ℕ) (s : Traced) : Prop :=
  ∃ act st, Monitor lockOf (s.trace.watch s.synch) act st

namespace Monitor

variable {lockOf : ℕ → ℕ} {s s' : Traced} {act : ℕ → Act} {st : ℕ → Stage} {ph : ℕ → ℕ → Phase}
  {e : Event} {stmt : Stmt} {rest : List Stmt} {a b : Act} {c w i t : ℕ} {v : Watch}

lemma fits (hs : Monitor lockOf (s.trace.watch s.synch) act st) {code : List Stmt}
    (hact : act t = a) (hcode : s.synch.code t = code) : a.Fits lockOf code := by
  rw [← hact, ← hcode]
  exact hs.code t

lemma noRaise (ha : ∀ c w cast, a ≠ .raising c w cast) (hact : act t = b)
    (hb : ∀ c w cast, b ≠ .raising c w cast) (c w : ℕ) (cast : Bool) :
    a = .raising c w cast ↔ act t = .raising c w cast := by
  rw [hact]
  exact iff_of_false (ha c w cast) (hb c w cast)

lemma raised_of_on (hs : Monitor lockOf (s.trace.watch s.synch) act st) (hact : act t = a)
    (hon : a.on = some c) (ha : ∀ c w cast, a ≠ .raising c w cast) :
    (s.trace.casting t).1 = (s.trace.casting t).2 ++ s.synch.conds c ∧
      ∀ w ∈ (s.trace.casting t).2, st w = .raised := by
  obtain ⟨hlist, hdone⟩ := hs.casting t c (by rw [hact, hon])
  refine ⟨hlist, fun w hw => (hdone w hw).resolve_right fun ⟨cast, h⟩ => ?_⟩
  exact ha c w cast (hact.symm.trans h)

lemma act_of_nil (hs : Monitor lockOf v act st) (h : v.code t = []) : act t = .other := by
  have hfits := hs.code t
  rw [h] at hfits
  cases hact : act t with
  | other => rfl
  | waiting c w i =>
    rw [hact] at hfits
    obtain ⟨_, heq⟩ := hfits
    interval_cases i <;> cases heq
  | asserting | signalling | raising | casting =>
    rw [hact] at hfits
    cases hfits

lemma held_of_on (hs : Monitor lockOf (s.trace.watch s.synch) act st) (hl : Locked s ph)
    (h : (act t).on = some c) : ph t (lockOf c) = .held := by
  have hfits := hs.fits (t := t) rfl rfl
  have htyped := hl.typed t
  cases hact : act t with
  | other | waiting =>
    rw [hact] at h
    cases h
  | asserting | signalling | casting =>
    rw [hact] at h hfits
    cases h
    rw [hfits] at htyped
    exact htyped.1
  | raising _ w cast =>
    rw [hact] at h hfits
    cases cast with
    | false => cases h
    | true =>
      cases h
      rw [hfits] at htyped
      exact htyped.1

lemma ne_on_of_held (hs : Monitor lockOf (s.trace.watch s.synch) act st) (hl : Locked s ph)
    (ht : ph t (lockOf c) = .held) {u : ℕ} (hut : u ≠ t) : (act u).on ≠ some c := by
  intro h
  have hheld := hs.held_of_on hl h
  rw [((hl.state (lockOf c)).alone (t := t) (by rw [ht]; decide)).2 u hut] at hheld
  cases hheld

lemma go_waiting (hs : Monitor lockOf v act st) (ht : act t = .waiting c w i) (hi : i + 1 < 10)
    (h1 : i ≠ 1) (h5 : i ≠ 5) :
    Monitor lockOf (v.goOn t ((condWait c (lockOf c) w).drop (i + 1)))
      (update act t (.waiting c w (i + 1))) st := by
  refine hs.go (a := .waiting c w (i + 1)) ⟨hi, rfl⟩ (noRaise nofun ht nofun) (fun c' w' j h => ?_)
    nofun trivial
  obtain ⟨rfl, rfl, rfl⟩ := Act.waiting.inj h
  exact ⟨i, ht, by omega, by omega⟩

/-! ### One statement -/

section Exec

variable (hs : Monitor lockOf (s.trace.watch s.synch) act st)
  (hcode : s.synch.code s.synch.kernel.current = stmt :: rest)
  (hexec : s.synch.exec rest stmt = .ok s'.synch)
  (htrace : s'.trace = s.trace.after s.synch .step s'.synch) {cast : Bool}

include hs hcode hexec htrace

lemma exec_plain (hplain : stmt.Plain) {a : Act}
    (hgo : Monitor lockOf ((s.trace.watch s.synch).goOn s.synch.kernel.current rest)
      (update act s.synch.kernel.current a) st)
    (htry : ∀ l, stmt = .tryAcquire l →
      Monitor lockOf ((s.trace.watch s.synch).goOn s.synch.kernel.current (.setHolder l :: rest))
        (update act s.synch.kernel.current a) st) :
    s'.Watched lockOf := by
  rw [Traced.Watched, htrace, Trace.watch_plain hcode hplain]
  rcases Trace.exec_plain s.trace hplain hexec with h | h | ⟨l, hl, h⟩
  · rw [h]
    exact ⟨act, st, hs⟩
  · rw [h]
    exact ⟨_, st, hgo⟩
  · rw [h]
    exact ⟨_, st, htry l hl⟩

lemma exec_other (hact : act s.synch.kernel.current = .other) : s'.Watched lockOf := by
  have hfits := hs.fits hact hcode
  have hgo : ∀ code : List Stmt, (∀ stmt ∈ code, stmt.Plain) →
      Monitor lockOf ((s.trace.watch s.synch).goOn s.synch.kernel.current code)
        (update act s.synch.kernel.current .other) st := by
    exact fun code hplain => hs.go (a := .other) hplain (noRaise nofun hact nofun) nofun nofun
      trivial
  have hrest : ∀ stmt ∈ rest, stmt.Plain := fun stmt h => hfits stmt (mem_cons_of_mem _ h)
  refine hs.exec_plain hcode hexec htrace (hfits stmt mem_cons_self) (hgo rest hrest)
    fun l _ => hgo _ fun stmt h => ?_
  rcases mem_cons.1 h with rfl | h
  · trivial
  · exact hrest stmt h

lemma exec_waiting (hl : Locked s ph) (hact : act s.synch.kernel.current = .waiting c w i) :
    s'.Watched lockOf := by
  have hfits := hs.fits hact hcode
  have htyped := hl.typed s.synch.kernel.current
  rw [hcode] at htyped
  obtain ⟨hi, heq⟩ := hfits
  -- the statements that concern locks only
  have hlock : stmt.Plain → (∀ l, stmt ≠ .tryAcquire l) → i + 1 < 10 ∧ i ≠ 1 ∧ i ≠ 5 →
      rest = (condWait c (lockOf c) w).drop (i + 1) → s'.Watched lockOf := by
    rintro hplain hne ⟨hi, h1, h5⟩ hrest
    refine hs.exec_plain hcode hexec htrace hplain (a := .waiting c w (i + 1)) ?_
      fun l h => absurd h (hne l)
    rw [hrest]
    exact hs.go_waiting hact hi h1 h5
  rw [Traced.Watched, htrace] at hlock ⊢
  interval_cases i <;> obtain ⟨rfl, rfl⟩ := cons.inj heq
  · exact hlock trivial nofun (by omega) rfl
  · -- it begins to wait, with the lock held
    rw [Trace.watch_pushWaiter hcode hexec]
    refine ⟨_, _, hs.push hact fun u => ?_⟩
    by_cases hu : u = s.synch.kernel.current
    · rw [hu, hact]
      exact nofun
    · exact hs.ne_on_of_held hl htyped.1 hu
  · exact hlock trivial nofun (by omega) rfl
  · exact hlock trivial nofun (by omega) rfl
  · exact hlock nofun nofun (by omega) rfl
  · by_cases hv : (s.synch.semas (.waiter w)).value = 0
    · rw [Trace.watch_sleep hcode hv hexec]
      exact ⟨act, st, hs⟩
    · rw [Trace.watch_pass hcode hv hexec]
      exact ⟨_, st, hs.pass hact hv⟩
  · exact hlock trivial nofun (by omega) rfl
  · exact hlock nofun nofun (by omega) rfl
  · exact hlock trivial nofun (by omega) rfl
  · rw [Trace.watch_leave hcode hexec]
    refine ⟨_, st, (hs.recordReturn (w := w) ?_).go (t := s.synch.kernel.current) (a := .other)
      nofun (noRaise nofun hact nofun) nofun nofun trivial⟩
    exact (hs.waiting _ c w 9 hact).2.2

lemma exec_signalling (hl : Locked s ph)
    (hact : act s.synch.kernel.current = .signalling c cast) : s'.Watched lockOf := by
  have hfits := hs.fits hact hcode
  have htyped := hl.typed s.synch.kernel.current
  rw [hcode] at htyped
  obtain ⟨rfl, rfl⟩ := cons.inj hfits
  obtain ⟨hlist, hdone⟩ := hs.raised_of_on hact rfl nofun
  rw [Traced.Watched, htrace]
  cases hconds : s.synch.conds c with
  | cons =>
    rw [Trace.watch_signal_cons hcode hconds hexec]
    exact ⟨_, _, hs.pop hact hconds fun u hu => hs.ne_on_of_held hl htyped.1 hu⟩
  | nil =>
    -- nobody waits
    rw [Trace.watch_signal_nil hcode hconds hexec]
    cases cast with
    | true =>
      exact ⟨_, st, hs.go (a := .casting c) rfl (noRaise nofun hact nofun)
        nofun (fun c' h => by
          cases h
          exact ⟨hlist, fun w hw => .inl (hdone w hw)⟩) trivial⟩
    | false =>
      have hsent : (s.trace.casting s.synch.kernel.current).2 = [] := by
        have hsent := hs.sent s.synch.kernel.current
        rwa [hact] at hsent
      rw [hsent, hconds] at hlist
      refine ⟨_, st, (hs.recordSignal (p := s.trace.casting s.synch.kernel.current) ?_ hdone).go
        (t := s.synch.kernel.current) (a := .other) nofun
        (noRaise nofun hact nofun)
        nofun nofun trivial⟩
      exact hsent.trans (congrArg (take 1) hlist).symm

lemma exec_raising (hact : act s.synch.kernel.current = .raising c w cast) :
    s'.Watched lockOf := by
  have hfits := hs.fits hact hcode
  obtain ⟨rfl, rfl⟩ := cons.inj hfits
  have hpopped := (hs.popped w s.synch.kernel.current).2 ⟨c, cast, hact⟩
  have hv : (s.synch.semas (.waiter w)).value = 0 := by
    have hvalue : (s.synch.semas (.waiter w)).value + _ = _ := hs.value w
    have hups := hs.ups w
    rw [hpopped, if_neg fun h => (nomatch h)] at hups
    omega
  rw [Traced.Watched, htrace, Trace.watch_raise hcode hv hexec]
  have hraise := hs.raise hact
  cases cast with
  | true => exact ⟨_, _, hraise⟩
  | false =>
    have hsent := hs.sent s.synch.kernel.current
    rw [hact] at hsent
    obtain ⟨hsent, htake⟩ := hsent
    refine ⟨_, _, hraise.recordSignal (p := s.trace.casting s.synch.kernel.current)
      (hsent.trans htake.symm) fun w' hw' => ?_⟩
    have hw' : w' ∈ ((s.trace.watch s.synch).casting s.synch.kernel.current).2 := hw'
    rw [hsent] at hw'
    rw [mem_singleton.1 hw', update_self]

lemma exec_casting (hact : act s.synch.kernel.current = .casting c) : s'.Watched lockOf := by
  have hfits := hs.fits hact hcode
  obtain ⟨rfl, rfl⟩ := cons.inj hfits
  obtain ⟨hlist, hdone⟩ := hs.raised_of_on hact rfl nofun
  rw [Traced.Watched, htrace]
  cases hconds : s.synch.conds c with
  | nil =>
    rw [hconds, append_nil] at hlist
    rw [Trace.watch_broadcast_nil hcode hconds hexec]
    exact ⟨_, st, (hs.recordCast (p := s.trace.casting s.synch.kernel.current) hlist.symm hdone).go
      (t := s.synch.kernel.current) (a := .other) nofun
      (noRaise nofun hact nofun)
      nofun nofun trivial⟩
  | cons w =>
    rw [Trace.watch_broadcast_cons hcode hconds hexec]
    exact ⟨_, st, hs.go (a := .asserting c true) rfl (noRaise nofun hact nofun)
      nofun (fun c' h => by
        cases h
        exact ⟨hlist, fun w hw => .inl (hdone w hw)⟩) trivial⟩

lemma exec (hl : Locked s ph) : s'.Watched lockOf := by
  cases hact : act s.synch.kernel.current with
  | other => exact hs.exec_other hcode hexec htrace hact
  | waiting => exact hs.exec_waiting hcode hexec htrace hl hact
  | signalling => exact hs.exec_signalling hcode hexec htrace hl hact
  | raising => exact hs.exec_raising hcode hexec htrace hact
  | casting => exact hs.exec_casting hcode hexec htrace hact
  | asserting c cast =>
    have hfits := hs.fits hact hcode
    obtain ⟨rfl, rfl⟩ := cons.inj hfits
    obtain ⟨hlist, hdone⟩ := hs.raised_of_on hact rfl nofun
    have hsent := hs.sent s.synch.kernel.current
    rw [hact] at hsent
    refine hs.exec_plain hcode hexec htrace trivial (a := .signalling c cast)
      (hs.go rfl (noRaise nofun hact nofun) nofun (fun c' h => ?_) ?_) nofun
    · cases h
      exact ⟨hlist, fun w hw => .inl (hdone w hw)⟩
    · cases cast with
      | true => trivial
      | false => exact hsent

end Exec

lemma call (hs : Monitor lockOf (s.trace.watch s.synch) act st)
    (hnext : s.synch.next (.call f) = some (.ok s'.synch))
    (htrace : s'.trace = s.trace.after s.synch (.call f) s'.synch)
    (hm : Event.Monitored lockOf s (.call f)) : s'.Watched lockOf := by
  have hfree : s.synch.Free := by
    by_contra hfree
    rw [Synch.next, if_neg hfree] at hnext
    cases hnext
  have hact : act s.synch.kernel.current = .other := hs.act_of_nil hfree.1
  have hplain : (∀ stmt ∈ f.body s.synch.calls, stmt.Plain) →
      s.trace.calling s.synch f = s.trace.casting → ∃ act' st', Monitor lockOf (Watch.goOn
        { s.trace.watch s.synch with
          calls := s.synch.calls + 1
          casting := s.trace.calling s.synch f } s.synch.kernel.current
            (f.body s.synch.calls)) act' st' := by
    intro hplain hcasting
    rw [hcasting]
    exact ⟨_, st, hs.later.go (t := s.synch.kernel.current) (a := .other) hplain
      (noRaise (by simp) hact (by simp)) (by simp) (by simp [Act.on]) trivial⟩
  -- a thread that calls `cond_signal` or `cond_broadcast`
  have hsignal : ∀ (c : ℕ) (a : Act), a.on = some c → (∀ c' w cast', a ≠ .raising c' w cast') →
      (∀ c' w j, a ≠ .waiting c' w j) → a.Sent (s.synch.conds c, []) →
      a.Fits lockOf (f.body s.synch.calls) → s.trace.calling s.synch f =
        update s.trace.casting s.synch.kernel.current (s.synch.conds c, []) →
      ∃ act' st', Monitor lockOf (Watch.goOn { s.trace.watch s.synch with
        calls := s.synch.calls + 1
        casting := s.trace.calling s.synch f } s.synch.kernel.current
          (f.body s.synch.calls)) act' st' := by
    intro c a hon hr hw hsent hfits hcasting
    rw [hcasting]
    refine ⟨_, st, (hs.later.recast (s.synch.conds c, []) hact).go (t := s.synch.kernel.current)
      (a := a) hfits (noRaise hr hact (by simp))
      (fun c' w j h => absurd h (hw c' w j)) (fun c' h => ?_) ?_⟩
    · obtain rfl := mem_unique hon h
      show (update s.trace.casting _ _ _).1 = (update s.trace.casting _ _ _).2 ++ _
        ∧ ∀ w ∈ (update s.trace.casting _ _ _).2, _
      rw [update_self]
      exact ⟨rfl, by simp⟩
    · show a.Sent (update s.trace.casting _ _ _)
      rw [update_self]
      exact hsent
  rw [Traced.Watched, htrace, Trace.watch_call hnext]
  cases f with
  | condWait c l =>
    obtain rfl := hm.2 c l (.inl rfl)
    exact ⟨_, st, hs.enter hact c⟩
  | condSignal c l =>
    obtain rfl := hm.2 c l (.inr (.inl rfl))
    exact hsignal c (.asserting c false) rfl (by simp) (by simp)
      rfl rfl rfl
  | condBroadcast c l =>
    obtain rfl := hm.2 c l (.inr (.inr rfl))
    exact hsignal c (.casting c) rfl (by simp) (by simp) trivial
      rfl rfl
  | semaDown | semaTryDown | semaUp | lockAcquire | lockTryAcquire | lockRelease =>
    refine hplain (fun stmt h => ?_) rfl
    simp only [Call.body, lockAcquire, lockTryAcquire, lockRelease, mem_cons,
      not_mem_nil, or_false] at h
    rcases h with rfl | rfl | rfl <;> first | trivial | simp [Stmt.Plain]

lemma step (hs : Monitor lockOf (s.trace.watch s.synch) act st) (hl : Locked s ph)
    (h : Traced.Step s e s') (hm : e.Monitored lockOf s) :
    s'.Watched lockOf := by
  obtain ⟨hnext, htrace⟩ := h
  -- events that are neither calls nor statements
  have hout : (∀ o w, s.synch.opOf e ≠ some (o, .waiter w)) → e ≠ .step → (∀ f, e ≠ .call f) →
      s.trace.watch s'.synch = s.trace.watch s.synch → s'.Watched lockOf := by
    intro hop hstep hcall hwatch
    rw [Traced.Watched, htrace, Trace.watch_outside hop hstep hcall, hwatch]
    exact ⟨act, st, hs⟩
  have hkernel : ∀ kernel : Kernel Threads, s.synch.onKernel kernel = .ok s'.synch →
      s.trace.watch s'.synch = s.trace.watch s.synch := by
    intro _ hk
    obtain ⟨k, _, hsynch⟩ := onKernel_eq_ok.1 hk
    rw [hsynch]
    rfl
  cases e with
  | call => exact hs.call hnext htrace hm
  | step =>
    cases hcode : s.synch.code s.synch.kernel.current with
    | nil => simp [Synch.next, hcode] at hnext
    | cons =>
      simp only [Synch.next, hcode, some.injEq] at hnext
      exact hs.exec hcode hnext htrace hl
  | yield | unblock =>
    exact hout (by simp [opOf]) (by simp) (by simp) (hkernel _ (some.inj hnext))
  | block | exit | create =>
    simp only [Synch.next] at hnext
    split_ifs at hnext
    exact hout (by simp [opOf]) (by simp) (by simp) (hkernel _ (some.inj hnext))
  | intrUp i =>
    exact hout (by simp [opOf]) (by simp) (by simp)
      (Trace.watch_semaUp (x := .own i) (by simp) (some.inj hnext))
  | intrTryDown =>
    have hsynch := (Except.ok.inj (some.inj hnext)).symm
    refine hout (by simp [opOf]) (by simp) (by simp) ?_
    rw [hsynch, semaTryDown_eq]
    split_ifs
    · exact Trace.watch_setSema_of_ne (by simp)
    · rfl

end Monitor

/-! ### Signals -/

namespace Traced

variable {lockOf : ℕ → ℕ} {s : Traced} {act : ℕ → Act} {st : ℕ → Stage} {ph : ℕ → ℕ → Phase}
  {w t : ℕ}

/-- A call was signalled, and is through its semaphore or will not sleep there. -/
def Able (s : Traced) (w : ℕ) : Prop :=
  s.trace.ups (.waiter w) = 1 ∧ (s.trace.downs (.waiter w) = 1 ∨
    (s.synch.semas (.waiter w)).value = 1 ∧ (s.synch.semas (.waiter w)).waiters = [])

/-- **Signals are neither lost nor duplicated.** -/
structure NoLostSignal (s : Traced) : Prop where
  /-- Calls are signalled in the order in which they began to wait. -/
  fifo : ∀ c, s.trace.waited c = s.trace.signalled c ++ s.synch.conds c
  /-- Those that wait were not signalled and cannot go on. -/
  waits : ∀ c, ∀ w ∈ s.synch.conds c,
    s.trace.ups (.waiter w) = 0 ∧ (s.synch.semas (.waiter w)).value = 0
  /-- A `cond_signal` makes the first that waited when it was called able to return. -/
  signals : ∀ cast ∈ s.trace.signals, cast.2 = cast.1.take 1 ∧ ∀ w ∈ cast.2, s.Able w
  /-- A `cond_broadcast` makes all of them able to return. -/
  casts : ∀ cast ∈ s.trace.casts, cast.2 = cast.1 ∧ ∀ w ∈ cast.2, s.Able w
  /-- Nobody else is. -/
  only : ∀ w, s.trace.ups (.waiter w) ≠ 0 →
    s.trace.ups (.waiter w) = 1 ∧ ∃ c, w ∈ s.trace.signalled c
  /-- A call that returned was signalled once, and is among no waiters. -/
  returns : ∀ w ∈ s.trace.returned, s.Able w ∧
    (∃ c, (s.trace.signalled c).count w = 1 ∧ ∀ c', c' ≠ c → w ∉ s.trace.signalled c') ∧
      ∀ c, w ∉ s.synch.conds c
  /-- It returns with the lock held, signalled. -/
  holds : ∀ t l w rest, s.synch.code t = .leave l w :: rest →
    s.synch.holder l = some t ∧ s.Able w

section Able

variable (hs : Monitor lockOf (s.trace.watch s.synch) act st)

include hs

lemma act_of_inside (h : s.synch.Inside t (.waiter w)) : ∃ c, act t = .waiting c w 5 := by
  obtain ⟨_, hcode⟩ := head?_eq_some_iff.1 h
  have hfits := hs.fits rfl hcode
  cases hact : act t with
  | other =>
    rw [hact] at hfits
    exact absurd rfl (hfits _ mem_cons_self w)
  | waiting c _ i =>
    rw [hact] at hfits
    obtain ⟨_, heq⟩ := hfits
    interval_cases i <;> cases heq
    exact ⟨c, rfl⟩
  | asserting | signalling | raising | casting =>
    rw [hact] at hfits
    cases hfits

lemma act_of_leave {l : ℕ} {rest : List Stmt} (h : s.synch.code t = .leave l w :: rest) :
    ∃ c, act t = .waiting c w 9 := by
  have hfits := hs.fits rfl h
  cases hact : act t with
  | other =>
    rw [hact] at hfits
    exact (hfits _ mem_cons_self).elim
  | waiting c _ i =>
    rw [hact] at hfits
    obtain ⟨_, heq⟩ := hfits
    interval_cases i <;> cases heq
    exact ⟨c, rfl⟩
  | asserting | signalling | raising | casting =>
    rw [hact] at hfits
    cases hfits

theorem able_of_ups (hw : s.synch.Waits) (hwoken : s.Woken) (hups : s.trace.ups (.waiter w) = 1) :
    s.Able w := by
  have hvalue : (s.synch.semas (.waiter w)).value + s.trace.downs (.waiter w) =
    s.trace.ups (.waiter w) := hs.value w
  refine ⟨hups, ?_⟩
  by_cases hdowns : s.trace.downs (.waiter w) = 1
  · exact .inl hdowns
  · have hone : (s.synch.semas (.waiter w)).value = 1 := by
      have hzero : s.trace.downs (.waiter w) = 0 := by omega
      omega
    refine .inr ⟨hone, ?_⟩
    -- one thread would sleep and another be on the way
    by_contra hne
    have henough := hwoken.enough (.waiter w) hne
    rw [hone] at henough
    obtain ⟨t, ht⟩ := exists_mem_of_ne_nil _ hne
    obtain ⟨u, hu⟩ := exists_mem_of_length_pos henough
    obtain ⟨_, hin, hnot⟩ := hwoken.onTheWay (.waiter w) u hu
    obtain ⟨c, hact⟩ := act_of_inside hs (hw.waiting (.waiter w) t ht).2.2
    obtain ⟨c', hact'⟩ := act_of_inside hs hin
    exact hnot (hs.caller t u c w 5 c' 5 hact hact' ▸ ht)

lemma able_of_raised (hw : s.synch.Waits) (hwoken : s.Woken) (h : st w = .raised) : s.Able w :=
  able_of_ups hs hw hwoken ((hs.ups w).trans (if_pos h))

lemma ups_of_downs (h : s.trace.downs (.waiter w) = 1) : s.trace.ups (.waiter w) = 1 := by
  have hvalue : _ + s.trace.downs (.waiter w) = s.trace.ups (.waiter w) := hs.value w
  have hups : s.trace.ups (.waiter w) = _ := hs.ups w
  split_ifs at hups
  · exact hups
  · omega

lemma raised_of_ups (h : s.trace.ups (.waiter w) ≠ 0) : st w = .raised := by
  by_contra hraised
  exact h ((hs.ups w).trans (if_neg hraised))

end Able

lemma NoLostSignal.of_monitor (hs : Monitor lockOf (s.trace.watch s.synch) act st)
    (hl : Locked s ph) (hw : s.synch.Waits) (hwoken : s.Woken) : s.NoLostSignal where
  fifo := hs.fifo
  waits c w hmem := by
    have hqueued := (hs.conds c w).1 hmem
    have hups : s.trace.ups (.waiter w) = 0 := by
      refine (hs.ups w).trans (if_neg ?_)
      rw [hqueued]
      exact nofun
    have hvalue : (s.synch.semas (.waiter w)).value + _ = s.trace.ups (.waiter w) := hs.value w
    exact ⟨hups, by omega⟩
  signals cast h := ⟨(hs.signals cast h).1, fun w hmem =>
    able_of_raised hs hw hwoken ((hs.signals cast h).2 w hmem)⟩
  casts cast h := ⟨(hs.casts cast h).1, fun w hmem =>
    able_of_raised hs hw hwoken ((hs.casts cast h).2 w hmem)⟩
  only w h := by
    have hraised := raised_of_ups hs h
    exact ⟨(hs.ups w).trans (if_pos hraised), (hs.signalled w).2 (.inr hraised)⟩
  returns w hmem := by
    have hups := ups_of_downs hs (hs.returned w hmem)
    have hraised := raised_of_ups hs (by rw [hups]; exact one_ne_zero)
    obtain ⟨c, hc⟩ := (hs.signalled w).2 (.inr hraised)
    have hsub : ∀ c, w ∈ s.trace.signalled c → w ∈ s.trace.waited c := fun c h => by
      have hfifo : s.trace.waited c = s.trace.signalled c ++ _ := hs.fifo c
      rw [hfifo]
      exact mem_append_left _ h
    have hnodup : (s.trace.signalled c).Nodup := by
      have hnodup : (s.trace.waited c).Nodup := hs.nodup c
      have hfifo : s.trace.waited c = s.trace.signalled c ++ _ := hs.fifo c
      rw [hfifo] at hnodup
      exact (nodup_append.1 hnodup).1
    refine ⟨able_of_ups hs hw hwoken hups, ⟨c, count_eq_one_of_mem hnodup hc, ?_⟩, ?_⟩
    · intro c' hne hc'
      exact hne (hs.one c' c w (hsub c' hc') (hsub c hc))
    · intro c' hc'
      have hqueued := (hs.conds c' w).1 hc'
      rw [hraised] at hqueued
      cases hqueued
  holds t l w rest h := by
    have htyped := hl.typed t
    rw [h] at htyped
    obtain ⟨c, hact⟩ := act_of_leave hs h
    have hdowns : s.trace.downs (.waiter w) = 1 := (hs.waiting t c w 9 hact).2.2
    exact ⟨((hl.state l).holder t).2 htyped.1, able_of_ups hs hw hwoken (ups_of_downs hs hdowns)⟩

variable {palloc : Palloc} {page idlePage idleFd : ℕ} {preempted : Bool} {init : ℕ → ℕ}

lemma start_monitor : Monitor lockOf ((start palloc page idlePage idleFd preempted init).trace.watch
    (start palloc page idlePage idleFd preempted init).synch) (fun _ => .other) fun _ =>
      .fresh where
  code _ _ h := nomatch h
  conds _ _ := iff_of_false nofun nofun
  fifo _ := rfl
  nodup _ := nodup_nil
  one _ _ _ h := nomatch h
  popped _ _ := iff_of_false nofun fun ⟨_, _, h⟩ => nomatch h
  signalled _ := iff_of_false (fun ⟨_, h⟩ => nomatch h)
    fun h => h.elim (fun ⟨_, h⟩ => nomatch h) nofun
  ups _ := rfl
  value _ := rfl
  unborn _ _ := ⟨rfl, rfl⟩
  waiting _ _ _ _ h := nomatch h
  caller _ _ _ _ _ _ _ h := nomatch h
  returned _ h := nomatch h
  casting _ _ h := nomatch h
  sent _ := trivial
  signals _ h := nomatch h
  casts _ h := nomatch h

/-- **Condition variables neither lose nor duplicate signals**, if they are used holding the
lock. -/
theorem noLostSignal_reaches (palloc : Palloc) (page idlePage idleFd : ℕ) (preempted : Bool)
    (init : ℕ → ℕ) (lockOf : ℕ → ℕ) {s : Traced}
    (hr : Reaches Step (fun s e => e.Direct s.synch ∧ e.Monitored lockOf s)
      (start palloc page idlePage idleFd preempted init) s) : s.NoLostSignal := by
  obtain ⟨hw, hwoken, ph, hl, _, st, hs⟩ := hr.invariant
    (fun s => s.synch.Waits ∧ s.Woken ∧ ∃ ph, Locked s ph ∧ s.Watched lockOf)
    (fun hs h hm => by
      obtain ⟨hw, hwoken, _, hl, _, _, hs⟩ := hs
      obtain ⟨ph', hl'⟩ := hl.step h hm.2.1
      exact ⟨hw.step (next_effect h.1) hm.1, hwoken.step hw h, ph', hl', hs.step hl h hm.2⟩)
    ⟨start_waits, start_woken, _, start_locked, _, _, start_monitor⟩
  exact .of_monitor hs hl hw hwoken

def monitored (s : Traced) (e : Event) : Bool :=
  disciplined s e && match e with
    | .call (.condWait _ l) | .call (.condSignal _ l) | .call (.condBroadcast _ l) => l == 0
    | _ => true

lemma meets_of_monitored (s : Traced) (e : Event) (h : monitored s e = true) :
    e.Direct s.synch ∧ e.Monitored (fun _ => 0) s := by
  obtain ⟨hd, hlock⟩ := Bool.and_eq_true_iff.1 h
  obtain ⟨hdirect, hdisciplined⟩ := meets_of_disciplined s e hd
  refine ⟨hdirect, hdisciplined, fun c l hcall => ?_⟩
  rcases hcall with rfl | rfl | rfl
  · exact beq_iff_eq.1 hlock
  · exact beq_iff_eq.1 hlock
  · exact beq_iff_eq.1 hlock

theorem noLostSignal_reaches_returned : ∃ s,
    Reaches Step (fun s e => e.Direct s.synch ∧ e.Monitored (fun _ => 0) s)
      (start somePages 0 0 0 false fun _ => 0) s ∧
      s.trace.signals = [([1], [1])] ∧ s.trace.returned = [1] ∧ s.NoLostSignal := by
  obtain ⟨s, hr, hs⟩ := exists_run meets_of_monitored (start somePages 0 0 0 false fun _ => 0)
    [.create PRI_DEFAULT, .call (.lockAcquire 0), .step, .step, .step,
      .call (.condWait 0 0), .step, .step, .step, .step, .step, .step,
      .call (.lockAcquire 0), .step, .step, .step, .call (.condSignal 0 0), .step, .step, .step,
      .call (.lockRelease 0), .step, .step, .step, .yield, .step, .step, .step, .step, .step]
    (fun s => s.trace.signals == [([1], [1])] && s.trace.returned == [1]) (by decide +kernel)
  simp only [Bool.and_eq_true, beq_iff_eq] at hs
  exact ⟨s, hr, hs.1, hs.2, noLostSignal_reaches somePages 0 0 0 false (fun _ => 0) (fun _ => 0) hr⟩

end Traced
end Pintos
