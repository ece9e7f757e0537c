/-
# Waiting for a program to load

What the system call `exec` promises, over the states of a run.  It waits for the `load` of its
child to return and then reads `load_succeeded`, which nobody sets: so it reports a failure whatever
`load` returned.  The semaphore and the flag are in the page of the child, which is freed when that
ends.
-/

import Pintos.Userprog.View

namespace Pintos.Userprog

open Base Function List Option Threads Pintos.Userprog.System

def Where.execs : Where → Option ℕ
  | .execGetChild c => some c
  | .execDown c => some c
  | .execRead c => some c
  | _ => none

def Where.awaitsLoad : Where → Option ℕ
  | .execGetChild c => some c
  | .execDown c => some c
  | _ => none

def Where.execNeeds : Where → List ℕ → List ℕ
  | .execGetChild _, l => l
  | .execDown c, _ => [c]
  | .execRead c, _ => [c]
  | _, _ => []

def Thread.Signals (th : Thread) : Prop :=
  (∃ params, th.stack = .load params) ∨ (∃ params success, th.stack = .loadUp params success) ∨
    th.loadSema.value ≠ 0

/-- **The protocol of `exec`.** -/
structure System.ExecProtocol (s : System) : Prop where
  /-- It returned after `load` had: the tid of the child, or `TID_ERROR` if that failed. -/
  returned : ∀ e ∈ s.execs, match e.1 with
    | some c => ∃ success, s.loads c = some success ∧
        e.2 = if success then (c : ℤ) else TID_ERROR
    | none => e.2 = TID_ERROR
  /-- A thread in it follows no pointer to a thread that has ended. -/
  reads : ∀ t th, s.kernel.threads t = some th →
    ∀ c ∈ Where.execNeeds th.stack th.childList, s.kernel.threads c ≠ none
  /-- A thread gets past the semaphore once the child has come out of `load`. -/
  signalled : ∀ t th c child, s.kernel.threads t = some th → Where.awaitsLoad th.stack = some c →
    s.kernel.threads c = some child → Thread.Signals child

/-- The condition: `load` succeeds only where nobody is in `exec` for it, the children of a thread
that calls `exec` exist, and no thread ends that another meets in `exec`. -/
def Action.LoadFails (s : System) : Action → Prop
  | .loaded success => success = true → ∀ t w l, s.kernel.view t = some (w, l) →
      Where.execs w ≠ some s.kernel.current
  | .exec => ∀ w l, s.kernel.view s.kernel.current = some (w, l) → ∀ c ∈ l,
      s.kernel.view c ≠ none
  | a => a.EndsUnneeded Where.execNeeds s

namespace System

variable {s s' : System} {a : Action} {t c : ℕ} {w w₀ : Where} {l : List ℕ} {th' th : Thread}

/-! ### Who is in `exec` -/

lemma execs_of_awaitsLoad (h : Where.awaitsLoad w = some c) : Where.execs w = some c := by
  cases w with
  | execGetChild => exact h
  | execDown => exact h
  | _ => cases h

lemma Turns.execs (hw : s.Turns l w₀ w) (h : Where.execs w = some c) :
    Where.execs w₀ = some c ∧ (Where.awaitsLoad w = some c → Where.awaitsLoad w₀ = some c) := by
  cases hw with
  | passes hw =>
    cases hw with
    | execGetChild => exact ⟨h, id⟩
    | _ => cases h
  | execDown => exact ⟨h, nofun⟩
  | _ => cases h

lemma Seen.execs (hs : s.Seen a s') (ht : s'.kernel.view t = some (w, l))
    (h : Where.execs w = some c) :
    (∃ w₀ l0, s.kernel.view t = some (w₀, l0) ∧ Where.execs w₀ = some c ∧ (c ∈ l0 → c ∈ l) ∧
      (Where.awaitsLoad w = some c → Where.awaitsLoad w₀ = some c)) ∨
    (a = .exec ∧ t = s.kernel.current ∧ c = s.kernel.nextTid ∧ c ∈ l ∧
      ∃ params, s'.kernel.view c = some (.load params, [])) := by
  cases hs with
  | same hv =>
    rw [hv] at ht
    exact .inl ⟨w, l, ht, h, id, id⟩
  | @turns l0 w₀ w1 hcur hw hv =>
    rw [hv] at ht
    rcases update_some_cases ht with ⟨htc, heq⟩ | ⟨_, ht⟩
    · cases heq
      exact .inl ⟨w₀, _, htc ▸ hcur, (hw.execs h).1, id, (hw.execs h).2⟩
    · exact .inl ⟨w, l, ht, h, id, id⟩
  | @bears l0 function w1 hcur hf hne hv =>
    rw [hv] at ht
    rcases update_some_cases ht with ⟨htc, heq⟩ | ⟨_, ht⟩
    · cases heq
      cases hf with
      | create => cases h
      | execute => cases h
      | @exec params =>
        cases h
        refine .inr ⟨rfl, htc, rfl, by simp, params, ?_⟩
        rw [hv, update_of_ne hne.symm, update_self]
    · rcases update_some_cases ht with ⟨_, heq⟩ | ⟨_, ht⟩
      · cases heq
        cases hf with
        | _ => cases h
      · exact .inl ⟨w, l, ht, h, id, id⟩
  | ends _ _ _ hv =>
    rw [hv] at ht
    exact .inl ⟨w, l, (update_none_cases ht).2, h, id, id⟩

def ExecsChild (s : System) : Prop :=
  ∀ t w l c, s.kernel.view t = some (w, l) → Where.execs w = some c → c ∈ l

lemma ExecsChild.step (h : s.ExecsChild) (hf : s.Facts) (hs : Step s a s') : s'.ExecsChild := by
  intro t w l c ht hw
  rcases (hs.effect hf).seen.execs ht hw with ⟨w₀, l0, ht0, hw0, hl, _⟩ | ⟨_, _, _, hc, _⟩
  · exact hl (h t w₀ l0 c ht0 hw0)
  · exact hc

lemma ExecsChild.parent (h : s.ExecsChild) (hf : s.Facts) (ht : s.kernel.view t = some (w, l))
    (hw : Where.execs w = some c) : s.parent c = some t := by
  have hc := h t w l c ht hw
  obtain ⟨th, hth, hp⟩ := view_eq_some.1 ht
  cases hp
  exact ((hf.thread t th hth).children c).1 hc

/-! ### What goes on record -/

lemma Effect.loads_kept (h : s.Effect a s') (hf : s.Facts) {success : Bool}
    (hc : s.loads c = some success) : s'.loads c = some success := by
  rcases h.record.1 with hl | ⟨params, _, _, ⟨cur, hcur, hstack⟩, hl⟩
  · rw [hl, hc]
  · have hnone := (hf.thread _ cur hcur).loading params hstack
    have hne : c ≠ s.kernel.current := by
      rintro rfl
      rw [hnone] at hc
      cases hc
    rw [hl, update_of_ne hne, hc]

/-! ### The semaphore -/

lemma signals_goTo (h : Thread.Signals th) (hl : ∀ params, th.stack ≠ .load params)
    (hu : ∀ params success, th.stack ≠ .loadUp params success)
    (hv : th'.loadSema.value = th.loadSema.value) : Thread.Signals th' := by
  rcases h with ⟨params, hst⟩ | ⟨params, success, hst⟩ | hpos
  · exact absurd hst (hl params)
  · exact absurd hst (hu params success)
  · exact .inr (.inr (hv ▸ hpos))

lemma signals_evolve (h : Thread.Signals th) (he : th.Evolves th') : Thread.Signals th' := by
  rcases h with ⟨params, hst⟩ | ⟨params, success, hst⟩ | hpos
  · exact .inl ⟨params, he.stack.trans hst⟩
  · exact .inr (.inl ⟨params, success, he.stack.trans hst⟩)
  · exact .inr (.inr (he.loadValue ▸ hpos))

lemma Passes.outside (hw : s.Passes l w₀ w) :
    (∀ params, w₀ ≠ .load params) ∧ ∀ params success, w₀ ≠ .loadUp params success := by
  cases hw with
  | _ => exact ⟨by simp, by simp⟩

lemma signals_move (he : (s.kernel.goTo w).Evolves s'.kernel) (hat : s.kernel.At w₀)
    (hl : ∀ params, w₀ ≠ .load params) (hu : ∀ params success, w₀ ≠ .loadUp params success)
    (hc : ∀ th, s.kernel.threads c = some th → Thread.Signals th)
    (ht : s'.kernel.threads c = some th') : Thread.Signals th' := by
  obtain ⟨th, hth, hev⟩ := he.moved ht
  obtain ⟨_, hcur, rfl⟩ := hat
  split_ifs at hev with hcc
  · obtain rfl := some.inj ((hcc ▸ hth).symm.trans hcur)
    exact signals_goTo (hc _ hth) hl hu hev.loadValue
  · exact signals_evolve (hc th hth) hev

/-- **The semaphore of a child stays up** until the thread in `exec` gets past it. -/
theorem Effect.signals (h : s.Effect a s') (hlt : c < s.kernel.nextTid)
    (hnot : ∀ l, s'.kernel.view s.kernel.current ≠ some (.execRead c, l))
    (hc : ∀ th, s.kernel.threads c = some th → Thread.Signals th)
    (ht : s'.kernel.threads c = some th') : Thread.Signals th' := by
  cases h with
  | quiet he | execError he =>
    obtain ⟨th, hth, hev⟩ := he.back ht
    exact signals_evolve (hc th hth) hev
  | move hcur hw he => exact signals_move he ⟨_, hcur, rfl⟩ hw.outside.1 hw.outside.2 hc ht
  | @execRead c0 _ sema _ hat _ _ hk =>
    obtain ⟨cur, hcur, hstack⟩ := hat
    have hview := view_of_threads hcur
    have hcc : c ≠ c0 := by
      rintro rfl
      refine hnot cur.childList ?_
      rw [hk, view_setSema_goTo hview, update_self]
    have h1 : ∀ th, (s.kernel.modify c0 fun th => th.setSema sema .load).threads c = some th →
        Thread.Signals th := by
      intro th hth
      rw [threads_modify, if_neg hcc] at hth
      exact hc th hth
    have hat1 : (s.kernel.modify c0 fun th => th.setSema sema .load).At (.execDown c0) :=
      Threads.At.modify ⟨cur, hcur, hstack⟩ fun _ => rfl
    exact signals_move (s := { s with
      kernel := s.kernel.modify c0 fun th => th.setSema sema .load }) (.of_eq hk) hat1 (by simp)
      (by simp) h1 ht
  | @signal _ _ cur sema _ hat hcur hv he =>
    obtain ⟨th, hth, hev⟩ := he.moved ht
    rw [threads_modify] at hth
    by_cases hcc : c = s.kernel.current
    · rw [if_pos hcc, hcur, map_some] at hth
      cases hth
      rw [if_pos (show c = (s.kernel.modify s.kernel.current fun th =>
        th.setSema sema .load).current from hcc)] at hev
      refine .inr (.inr ?_)
      have hval : th'.loadSema.value = sema.value := hev.loadValue
      omega
    · rw [if_neg hcc] at hth
      rw [if_neg (show ¬ c = (s.kernel.modify s.kernel.current fun th =>
        th.setSema sema .load).current from hcc)] at hev
      exact signals_evolve (hc th hth) hev
  | @loaded params success _ hat hk =>
    rw [hk, threads_goTo] at ht
    split_ifs at ht
    · obtain ⟨_, _, rfl⟩ := map_eq_some_iff.1 ht
      exact .inr (.inl ⟨params, success, rfl⟩)
    · exact hc th' ht
  | execReturn hat _ hk => exact signals_move (.of_eq hk) hat (by simp) (by simp) hc ht
  | waitReturn _ _ hk => exact hc th' (hk ▸ ht)
  | bear hat _ hb =>
    obtain ⟨cur, _, _, _, hcur, hthreads⟩ := hb.threads
    obtain ⟨_, hcur', hstack⟩ := hat
    obtain rfl := mem_unique hcur hcur'
    rw [hthreads, if_neg hlt.ne] at ht
    split_ifs at ht with hcc
    · cases ht
      exact signals_goTo (hc cur (hcc ▸ hcur)) (by simp [hstack]) (by simp [hstack]) rfl
    · exact hc th' ht
  | exited hat he => exact signals_move he hat (by simp) (by simp) hc ht
  | reap _ _ hthreads =>
    rw [hthreads] at ht
    split_ifs at ht
    exact hc th' ht

/-! ### The protocol -/

structure ExecInv (s : System) : Prop where
  child : s.ExecsChild
  safe : s.kernel.Safe Where.execNeeds
  /-- `load` did not succeed where a thread is in `exec` for it. -/
  fails : ∀ t w l c, s.kernel.view t = some (w, l) → Where.execs w = some c →
    s.loads c ≠ some true
  signals : ∀ t w l c, s.kernel.view t = some (w, l) → Where.awaitsLoad w = some c →
    ∀ th, s.kernel.threads c = some th → Thread.Signals th
  returned : ∀ e ∈ s.execs, match e.1 with
    | some c => ∃ success, s.loads c = some success ∧
        e.2 = if success then (c : ℤ) else TID_ERROR
    | none => e.2 = TID_ERROR

lemma ExecInv.safe_step (h : s.ExecInv) (hs : s.Seen a s') (hm : a.LoadFails s) :
    s'.kernel.Safe Where.execNeeds := by
  refine hs.safe h.safe ?_ ?_ ?_
  · intro l _ w hcur hw c hc
    cases hw with
    | passes hw =>
      cases hw with
      | execGetChild hlive =>
        obtain rfl := mem_singleton.1 hc
        exact fun hnone => hlive (view_eq_none.1 hnone)
      | _ => cases hc
    | @execDown c0 => exact h.safe _ _ l hcur c hc
    | _ => cases hc
  · intro l _ w hcur hstart
    cases hstart with
    | create | execute => exact ⟨rfl, fun c hc => by cases hc⟩
    | exec =>
      refine ⟨rfl, fun c hc => ?_⟩
      rcases mem_append.1 hc with hc | hc
      · exact .inr (hm _ _ hcur c hc)
      · exact .inl (mem_singleton.1 hc)
  · cases a with
    | go => exact hm
    | _ => trivial

section

variable (h : s.ExecInv) (hf : s.Facts)
include h hf

lemma ExecInv.fails_step (he : s.Effect a s') (hm : a.LoadFails s)
    (ht : s'.kernel.view t = some (w, l)) (hw : Where.execs w = some c) :
    s'.loads c ≠ some true := by
  rcases he.seen.execs ht hw with ⟨w₀, l0, ht0, hw0, _, _⟩ | ⟨rfl, _, rfl, _, _⟩
  · rcases he.record.1 with hl | ⟨_, _, rfl, _, hl⟩
    · rw [hl]
      exact h.fails t w₀ l0 c ht0 hw0
    · rw [hl]
      by_cases hc : c = s.kernel.current
      · rw [hc, update_self]
        intro hsome
        cases hsome
        exact hm rfl t w₀ l0 ht0 (hc ▸ hw0)
      · rw [update_of_ne hc]
        exact h.fails t w₀ l0 c ht0 hw0
  · -- the new process has not come out of `load`
    rcases he.record.1 with hl | ⟨_, _, ha, _⟩
    · rw [hl, hf.unborn _ le_rfl]
      exact nofun
    · cases ha

lemma ExecInv.signals_step (hf' : s'.Facts) (hchild : s'.ExecsChild) (he : s.Effect a s')
    (ht : s'.kernel.view t = some (w, l)) (hw : Where.awaitsLoad w = some c)
    (hth : s'.kernel.threads c = some th) : Thread.Signals th := by
  have hexec := execs_of_awaitsLoad hw
  rcases he.seen.execs ht hexec with ⟨w₀, l0, ht0, hw0, _, hwait⟩ | ⟨_, _, _, _, params, hview⟩
  · have hparent := h.child.parent hf ht0 hw0
    have hlt : c < s.kernel.nextTid := by
      by_contra hge
      rw [hf.orphan c (not_lt.1 hge)] at hparent
      cases hparent
    refine he.signals hlt (fun l' hread => ?_) (h.signals t w₀ l0 c ht0 (hwait hw)) hth
    -- a thread past the semaphore of its child is the only one in `exec` for it
    have hcur := hchild.parent hf' hread rfl
    obtain rfl := some.inj ((hchild.parent hf' ht hexec).symm.trans hcur)
    obtain ⟨rfl, _⟩ := Prod.mk.inj (mem_unique ht hread)
    cases hw
  · obtain ⟨_, hth', hp⟩ := view_eq_some.1 hview
    obtain rfl := mem_unique hth hth'
    exact .inl ⟨params, (Prod.mk.inj hp).1⟩

lemma ExecInv.returned_step (he : s.Effect a s') : ∀ e ∈ s'.execs, match e.1 with
    | some c => ∃ success, s'.loads c = some success ∧ e.2 = if success then (c : ℤ) else TID_ERROR
    | none => e.2 = TID_ERROR := by
  have hold : ∀ e ∈ s.execs, match e.1 with
      | some c => ∃ success, s'.loads c = some success ∧
          e.2 = if success then (c : ℤ) else TID_ERROR
      | none => e.2 = TID_ERROR := by
    rintro ⟨r, v⟩ hmem
    have hret := h.returned _ hmem
    cases r with
    | none => exact hret
    | some =>
      obtain ⟨success, hl, hv⟩ := hret
      exact ⟨success, he.loads_kept hf hl, hv⟩
  intro e hmem
  rcases he.record.2.1 with hx | hx | ⟨c, th, ⟨cur, hcur, hstack⟩, hth, hx⟩
  · exact hold e (hx ▸ hmem)
  · rw [hx] at hmem
    rcases mem_cons.1 hmem with rfl | hmem
    · rfl
    · exact hold e hmem
  · rw [hx] at hmem
    rcases mem_cons.1 hmem with rfl | hmem
    · have hview := view_of_threads hcur
      rw [hstack] at hview
      have hne := h.fails _ _ _ c hview rfl
      obtain ⟨success, hl⟩ := ne_none_iff_exists'.1 ((hf.thread _ cur hcur).read c hstack)
      have hfalse : success = false := by
        cases success with
        | false => rfl
        | true => exact absurd hl hne
      refine ⟨success, he.loads_kept hf hl, ?_⟩
      rw [(hf.thread c th hth).notLoaded, hfalse]
    · exact hold e hmem

lemma ExecInv.step (hs : Step s a s') (hm : a.LoadFails s) : s'.ExecInv := by
  have he := hs.effect hf
  have hchild := h.child.step hf hs
  exact ⟨hchild, h.safe_step he.seen hm, fun _ _ _ _ ht hw => h.fails_step hf he hm ht hw,
    fun _ _ _ _ ht hw _ hth => h.signals_step hf (hf.step hs) hchild he ht hw hth,
    h.returned_step hf he⟩

end

lemma ExecInv.protocol (h : s.ExecInv) : s.ExecProtocol where
  returned := h.returned
  reads := fun t _ hth c hc hnone =>
    h.safe t _ _ (view_of_threads hth) c hc (view_eq_none.2 hnone)
  signalled := fun t _ c child hth hw hc =>
    h.signals t _ _ c (view_of_threads hth) hw child hc

def OnlyErrors (s : System) : Prop := ∀ e ∈ s.execs, e.2 = TID_ERROR

theorem OnlyErrors.step (h : s.OnlyErrors) (hf : s.Facts) (hs : Step s a s') : s'.OnlyErrors := by
  intro e hmem
  rcases (hs.effect hf).record.2.1 with hx | hx | ⟨c, th, _, hth, hx⟩
  · exact h e (hx ▸ hmem)
  · rw [hx] at hmem
    rcases mem_cons.1 hmem with rfl | hmem
    · rfl
    · exact h e hmem
  · rw [hx, (hf.thread c th hth).notLoaded] at hmem
    rcases mem_cons.1 hmem with rfl | hmem
    · rfl
    · exact h e hmem

/-- **The condition is needed**: a return after a `load` that succeeded breaks the protocol. -/
theorem ExecProtocol.load_failed (h : s.ExecProtocol) (ho : s.OnlyErrors) {r : ℤ}
    (hmem : (some c, r) ∈ s.execs) : s.loads c = some false := by
  obtain ⟨success, hl, hr⟩ := h.returned _ hmem
  cases success with
  | false => exact hl
  | true =>
    have herr : r = TID_ERROR := ho _ hmem
    have hc : r = (c : ℤ) := hr
    simp only [TID_ERROR] at herr
    omega

variable {palloc : Palloc} {own : List Allocation} {page idlePage idleFd : ℕ} {openCnt : ℕ → ℕ}

lemma boot_execInv : (boot palloc own page idlePage idleFd openCnt).ExecInv := by
  have hnone : ∀ t w l, (boot palloc own page idlePage idleFd openCnt).kernel.view t = some (w, l) →
      Where.execs w = none ∧ Where.execNeeds w l = [] := by
    intro t w l ht
    obtain ⟨_, hth, hp⟩ := view_eq_some.1 ht
    cases hp
    rcases threads_boot hth with ⟨_, rfl⟩ | ⟨_, rfl⟩
    · exact ⟨rfl, rfl⟩
    · exact ⟨rfl, rfl⟩
  refine ⟨fun t w l c ht hw => ?_, fun t w l ht c hc => ?_, fun t w l c ht hw => ?_,
    fun t w l c ht hw => ?_, fun e he => ?_⟩
  · rw [(hnone t w l ht).1] at hw
    cases hw
  · rw [(hnone t w l ht).2] at hc
    cases hc
  · rw [(hnone t w l ht).1] at hw
    cases hw
  · have hexec := execs_of_awaitsLoad hw
    rw [(hnone t w l ht).1] at hexec
    cases hexec
  · cases he

end System

/-- **The protocol of `exec`** in every state of every run that meets the condition. -/
theorem exec_protocol {palloc : Palloc} {own : List Allocation} {page idlePage idleFd : ℕ}
    {openCnt : ℕ → ℕ} {s : System}
    (hrun : Reaches System.Step Action.LoadFails
      (boot palloc own page idlePage idleFd openCnt) s) : s.ExecProtocol := by
  have hinv : s.Facts ∧ s.ExecInv := by
    refine hrun.invariant (fun s => s.Facts ∧ s.ExecInv) ?_ ⟨boot_facts, boot_execInv⟩
    exact fun h hs hm => ⟨h.1.step hs, h.2.step h.1 hs hm⟩
  exact hinv.2.protocol

def Action.loadFails (s : System) : Action → Bool
  | .loaded success => !success || (List.range s.kernel.nextTid).all fun t =>
      (s.kernel.view t).all fun p => Where.execs p.1 != some s.kernel.current
  | .exec => (s.kernel.view s.kernel.current).all fun p => p.2.all fun c =>
      (s.kernel.view c).isSome
  | a => a.endsUnneeded Where.execNeeds s

lemma Action.loadFails_meets (s : System) (a : Action) (h : a.loadFails s = true) :
    a.LoadFails s := by
  cases a with
  | loaded =>
    rintro rfl t w l ht hw
    have hlt : t < s.kernel.nextTid := by
      by_contra hge
      rw [view_eq_none.2 (s.kernel.fresh t (by omega))] at ht
      cases ht
    simp only [loadFails, Bool.not_true, Bool.false_or] at h
    have htest := all_eq_true.1 h t (mem_range.2 hlt)
    simp only [ht, all_some, bne_iff_ne] at htest
    exact htest hw
  | exec =>
    intro w l hcur c hc hnone
    simp only [loadFails, hcur, all_some] at h
    have htest := all_eq_true.1 h c hc
    rw [hnone] at htest
    cases htest
  | go => exact endsUnneeded_meets Where.execNeeds s .go h
  | _ => trivial

theorem exec_protocol_load_fails : ∃ palloc own idlePage idleFd s, start 272 1 2 =
      .ok (boot palloc own INITIAL_PAGE idlePage idleFd fun _ => 0) ∧
    Reaches System.Step Action.LoadFails
      (boot palloc own INITIAL_PAGE idlePage idleFd fun _ => 0) s ∧
    (s.execs = [(some 4, TID_ERROR)] ∧ s.loads 4 = some false) ∧ s.ExecProtocol := by
  obtain ⟨_, _, _, _, s, hstart, hrun, hcheck⟩ :=
    start_run 272 1 2 [.execute, .yield, .loaded true, .go, .go, .exec, .go, .go, .yield,
        .loaded false, .go, .yield, .yield, .go, .go]
      (fun s => decide (s.execs = [(some 4, TID_ERROR)] ∧ s.loads 4 = some false))
      Action.loadFails_meets (by decide +kernel)
  exact ⟨_, _, _, _, s, hstart, hrun, of_decide_eq_true hcheck, exec_protocol hrun⟩

/-- **A loaded program reported as not loaded**: `load` succeeds, and `exec` returns `TID_ERROR`. -/
theorem exec_error_loaded : ∃ palloc own idlePage idleFd s, start 272 1 2 =
      .ok (boot palloc own INITIAL_PAGE idlePage idleFd fun _ => 0) ∧
    Reaches System.Step Always (boot palloc own INITIAL_PAGE idlePage idleFd fun _ => 0) s ∧
    s.execs = [(some 4, TID_ERROR)] ∧ s.loads 4 = some true ∧ ¬ s.ExecProtocol := by
  obtain ⟨_, _, _, _, s, hstart, hrun, hcheck⟩ :=
    start_run 272 1 2 [.execute, .yield, .loaded true, .go, .go, .exec, .go, .go, .yield,
        .loaded true, .go, .yield, .yield, .go, .go]
      (fun s => decide (s.execs = [(some 4, TID_ERROR)] ∧ s.loads 4 = some true))
      noTest_always (by decide +kernel)
  obtain ⟨hexecs, hloads⟩ := of_decide_eq_true hcheck
  refine ⟨_, _, _, _, s, hstart, hrun, hexecs, hloads, fun h => ?_⟩
  obtain ⟨_, hsuccess, hresult⟩ := h.returned (some 4, TID_ERROR) (by simp [hexecs])
  obtain rfl := mem_unique hloads hsuccess
  exact absurd hresult (by decide)

end Pintos.Userprog
