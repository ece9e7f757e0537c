/-
# Waiting for a child

What `process_wait` promises, over the states of a run.  It cannot keep it: nobody increments a
`wait_sema`, so a thread that waits for its child sleeps for good, and the end of the child frees
the page of the semaphore.  A child that has ended stays on the list, where the next `process_wait`
follows it.
-/

import Pintos.Userprog.View

namespace Pintos.Userprog

open Base Threads Pintos.Userprog.System List

/-- **The protocol of `process_wait`.** -/
structure System.WaitProtocol (s : System) : Prop where
  /-- It returned the status of a child that terminated, and `-1` for others and for a second
  wait. -/
  returned : ∀ w ∈ s.waits, if w.first then
      s.kernel.threads w.tid.toNat = none ∧ ∀ status ∈ s.reported w.tid.toNat, w.result = status
    else w.result = -1
  /-- A call on such a tid returns `-1` at once. -/
  refused : s.kernel.At .run → ∀ tid, s.awaits tid = false →
    Step s (.wait tid) (s.returns s.kernel tid (-1))
  /-- A call on a child gets to the child's semaphore. -/
  accepted : s.kernel.At .run → ∀ tid, s.awaits tid = true →
    Step s (.wait tid) { s with kernel := s.kernel.goTo (.waitDown tid.toNat) }
  /-- No thread is before the semaphore of a child that has terminated. -/
  blocked : ∀ t th c, s.kernel.threads t = some th → th.stack = .waitDown c →
    s.kernel.threads c ≠ none

/-- The children that a thread may still meet in `process_wait`: the one it waits for, or all. -/
def Where.waitNeeds : Where → List ℕ → List ℕ
  | .exit, _ => []
  | .exited, _ => []
  | .waitDown c, _ => [c]
  | _, l => l

namespace System

variable {s s' : System} {a : Action}

lemma Turns.waitNeeds {l : List ℕ} {w0 w : Where} (hw : s.Turns l w0 w) :
    ∀ c ∈ Where.waitNeeds w l, c ∈ Where.waitNeeds w0 l := by
  intro c hc
  cases hw with
  | passes hw =>
    cases hw with
    | execGetChild => exact hc
    | wait hmem =>
      obtain rfl := mem_singleton.1 hc
      exact hmem
    | start => exact hc
    | fail => cases hc
    | exit => cases hc
  | execDown => exact hc
  | execRead => exact hc
  | load => exact hc
  | loadUp => exact hc
  | exit => cases hc

lemma Starts.waitNeeds {function w : Where} (hf : s.Starts a function w) (l : List ℕ) :
    Where.waitNeeds function [] = [] ∧ Where.waitNeeds w l = l := by
  cases hf with
  | _ => exact ⟨rfl, rfl⟩

/-- **One step** in the condition keeps the children that are needed. -/
theorem Step.waitSafe (h : s.kernel.Safe Where.waitNeeds) (hf : s.Facts) (hs : Step s a s')
    (hm : a.EndsUnneeded Where.waitNeeds s) : s'.kernel.Safe Where.waitNeeds := by
  refine (hs.effect hf).seen.safe h ?_ ?_ hm
  · intro l w0 w hcur hw c hc
    exact h _ w0 l hcur c (hw.waitNeeds c hc)
  · intro l _ w hcur hstart
    refine ⟨(hstart.waitNeeds []).1, fun c hc => ?_⟩
    rw [(hstart.waitNeeds _).2] at hc
    rcases mem_append.1 hc with hc | hc
    · exact .inr (h _ _ l hcur c hc)
    · exact .inl (mem_singleton.1 hc)

def OnlyRefused (s : System) : Prop := ∀ w ∈ s.waits, w.first = false ∧ w.result = -1

lemma OnlyRefused.awaits_iff (h : s.OnlyRefused) (tid : ℤ) :
    s.awaits tid = true ↔ 0 ≤ tid ∧ s.parent tid.toNat = some s.kernel.current := by
  have hall : (s.waits.all fun w =>
      !(w.first && w.caller == s.kernel.current && w.tid == tid)) = true := by
    refine all_eq_true.2 fun w hw => ?_
    rw [(h w hw).1]
    rfl
  rw [awaits, hall, Bool.and_true, decide_eq_true_iff]

lemma OnlyRefused.awaits_iff_mem (h : s.OnlyRefused) (hf : s.Facts) {cur : Thread}
    (hcur : s.kernel.threads s.kernel.current = some cur) (tid : ℤ) :
    s.awaits tid = true ↔ ∃ c ∈ cur.childList, (c : ℤ) = tid := by
  rw [h.awaits_iff]
  constructor
  · rintro ⟨hpos, hparent⟩
    exact ⟨tid.toNat, ((hf.thread _ cur hcur).children _).2 hparent, Int.toNat_of_nonneg hpos⟩
  · rintro ⟨c, hc, rfl⟩
    exact ⟨Int.natCast_nonneg c, ((hf.thread _ cur hcur).children c).1 hc⟩

lemma OnlyRefused.step (h : s.OnlyRefused) (hf : s.Facts) (hs : Step s a s') :
    s'.OnlyRefused := by
  rcases (hs.effect hf).record.2.2 with hw | ⟨tid, _, hcur, hno, hw⟩
  · intro w hmem
    exact h w (hw ▸ hmem)
  · intro w hmem
    rw [hw] at hmem
    rcases mem_cons.1 hmem with rfl | hmem
    · refine ⟨Bool.eq_false_iff.2 fun hawaits => ?_, rfl⟩
      obtain ⟨c, hc, htid⟩ := (h.awaits_iff_mem hf hcur tid).1 hawaits
      exact hno c hc htid
    · exact h w hmem

theorem waitProtocol_of_safe (hr : s.kernel.Running) (hf : s.Facts) (ho : s.OnlyRefused)
    (hsafe : s.kernel.Safe Where.waitNeeds) : s.WaitProtocol := by
  -- in its own code, the running thread looks for a child without following a freed one
  have hfind : s.kernel.At .run → ∃ cur, s.kernel.threads s.kernel.current = some cur ∧
      ∀ tid, ∃ r, threadGetChild s.kernel tid = .ok r := by
    rintro ⟨cur, hcur, hstack⟩
    refine ⟨cur, hcur, fun tid => threadGetChild_of_exist hr hcur fun c hc hnone => ?_⟩
    have hview := view_of_threads hcur
    rw [hstack] at hview
    exact hsafe _ _ _ hview c hc (view_eq_none.2 hnone)
  refine ⟨fun w hw => ?_, fun hat tid hno => ?_, fun hat tid hyes => ?_, fun t th c ht hstack => ?_⟩
  · rw [(ho w hw).1]
    exact (ho w hw).2
  · obtain ⟨_, _, hget⟩ := hfind hat
    obtain ⟨r, hr⟩ := hget tid
    obtain ⟨_, hcur', ⟨c, _, htid, hmem, _⟩ | ⟨rfl, _⟩⟩ := threadGetChild_eq_ok hr
    · have hawaits := (ho.awaits_iff_mem hf hcur' tid).2 ⟨c, hmem, htid⟩
      rw [hno] at hawaits
      cases hawaits
    · exact .waitNone hat hr
  · obtain ⟨_, _, hget⟩ := hfind hat
    obtain ⟨r, hr⟩ := hget tid
    obtain ⟨_, hcur', ⟨c, rfl, rfl, _, _⟩ | ⟨_, hnone⟩⟩ := threadGetChild_eq_ok hr
    · exact .wait hat hr
    · obtain ⟨c, hc, htid⟩ := (ho.awaits_iff_mem hf hcur' tid).1 hyes
      exact absurd htid (hnone c hc)
  · have hview := view_of_threads ht
    rw [hstack] at hview
    exact fun hnone => hsafe t _ _ hview c mem_cons_self (view_eq_none.2 hnone)

variable {palloc : Palloc} {own : List Allocation} {page idlePage idleFd : ℕ} {openCnt : ℕ → ℕ}

lemma boot_waitSafe :
    (boot palloc own page idlePage idleFd openCnt).kernel.Safe Where.waitNeeds := by
  intro t w l ht c hc
  obtain ⟨_, hth, hp⟩ := view_eq_some.1 ht
  cases hp
  rcases threads_boot hth with ⟨rfl, rfl⟩ | ⟨rfl, rfl⟩
  · obtain rfl := mem_singleton.1 hc
    exact Option.some_ne_none _
  · cases hc

lemma boot_onlyRefused : (boot palloc own page idlePage idleFd openCnt).OnlyRefused := by
  intro w hw
  cases hw

end System

/-- **The protocol of `process_wait`**, if no thread ends that another may still meet in it. -/
theorem wait_protocol {palloc : Palloc} {own : List Allocation} {page idlePage idleFd : ℕ}
    {openCnt : ℕ → ℕ} {s : System}
    (hrun : Reaches System.Step (Action.EndsUnneeded Where.waitNeeds)
      (boot palloc own page idlePage idleFd openCnt) s) : s.WaitProtocol := by
  have hinv : s.Facts ∧ s.kernel.Running ∧ s.OnlyRefused ∧ s.kernel.Safe Where.waitNeeds := by
    refine hrun.invariant
      (fun s => s.Facts ∧ s.kernel.Running ∧ s.OnlyRefused ∧ s.kernel.Safe Where.waitNeeds) ?_
      ⟨boot_facts, boot_running, boot_onlyRefused, boot_waitSafe⟩
    rintro s a s' ⟨hf, hr, ho, hsafe⟩ hs hm
    exact ⟨hf.step hs, hs.running hr, ho.step hf hs, hs.waitSafe hsafe hf hm⟩
  exact waitProtocol_of_safe hinv.2.1 hinv.1 hinv.2.2.1 hinv.2.2.2

theorem wait_protocol_sleeping : ∃ palloc own idlePage idleFd s, start 272 1 2 =
      .ok (boot palloc own INITIAL_PAGE idlePage idleFd fun _ => 0) ∧
    Reaches System.Step (Action.EndsUnneeded Where.waitNeeds)
      (boot palloc own INITIAL_PAGE idlePage idleFd fun _ => 0) s ∧
    (s.waits = [⟨1, 7, false, -1⟩] ∧ s.kernel.status 1 = .THREAD_BLOCKED ∧
      s.kernel.current = 3) ∧ s.WaitProtocol := by
  obtain ⟨_, _, _, _, s, hstart, hrun, hcheck⟩ :=
    start_run 272 1 2 [.wait 7, .execute, .wait 3, .go, .loaded true, .go, .go]
      (fun s => decide (s.waits = [⟨1, 7, false, -1⟩] ∧ s.kernel.status 1 = .THREAD_BLOCKED ∧
        s.kernel.current = 3))
      (Action.endsUnneeded_meets Where.waitNeeds) (by decide +kernel)
  exact ⟨_, _, _, _, s, hstart, hrun, of_decide_eq_true hcheck, wait_protocol hrun⟩

/-- **A thread that sleeps for good**: it waits for a process, and the process exits. -/
theorem wait_blocked_exit : ∃ palloc own idlePage idleFd s th, start 272 1 2 =
      .ok (boot palloc own INITIAL_PAGE idlePage idleFd fun _ => 0) ∧
    Reaches System.Step Always (boot palloc own INITIAL_PAGE idlePage idleFd fun _ => 0) s ∧
    s.reported 3 = some 7 ∧ s.kernel.threads 3 = none ∧ s.kernel.threads 1 = some th ∧
    th.stack = .waitDown 3 ∧ s.kernel.status 1 = .THREAD_BLOCKED ∧ ¬ s.WaitProtocol := by
  obtain ⟨_, _, _, _, s, hstart, hrun, hcheck⟩ :=
    start_run 272 1 2 [.execute, .wait 3, .go, .loaded true, .go, .go, .exit 7, .go]
      (fun s => s.reported 3 == some 7 && (s.kernel.threads 3).isNone &&
        (s.kernel.threads 1).any (fun th => th.stack == .waitDown 3) &&
        s.kernel.status 1 == .THREAD_BLOCKED)
      noTest_always (by decide +kernel)
  simp only [Bool.and_eq_true, beq_iff_eq, Option.isNone_iff_eq_none, Option.any_eq_true] at hcheck
  obtain ⟨⟨⟨hreported, hgone⟩, th, hth, hstack⟩, hblocked⟩ := hcheck
  exact ⟨_, _, _, _, s, th, hstart, hrun, hreported, hgone, hth, hstack,
    hblocked, fun h => h.blocked 1 th 3 hth hstack hgone⟩

end Pintos.Userprog
