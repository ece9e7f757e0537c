/-
# The scheduler

`thread_block`, `thread_yield` and `thread_exit` hand the CPU to the first thread of the run queue,
or to the idle thread (`Threads.Dispatch`); `thread_unblock` and `thread_create` put a thread at its
end.  The one `elem` of a thread is in the queue or among the waiters of one semaphore.

`thread_unblock` asks only that the thread be blocked.  One that sleeps in `sema_down` is blocked
too, and is then in both lists; the kernel calls `thread_unblock` on its own only for a thread that
called `thread_block` on its own, which is the condition of the runs below (`Event.Direct`).
-/

import Mathlib.Data.List.Nodup
import Pintos.Threads.PallocSafety
import Pintos.Threads.Synch

namespace Pintos

open Base Function Kernel List Option Threads Synch

variable {left : ThreadStatus} {queue : List ℕ}

namespace Threads

variable {k k' : Threads} {t : ℕ} {function : Where} {priority : ℤ} {r : Option ℕ}

lemma modify_ne_none {f : Thread → Thread} {u : ℕ} :
    (k.modify u f).threads t ≠ none ↔ k.threads t ≠ none := by
  rw [threads_modify]
  split_ifs with h
  · rw [h, Ne, map_eq_none_iff]
  · rfl

/-! ### Switches -/

/-- The CPU goes from the running thread to the first of a queue or the idle one. -/
structure Dispatch (k k' : Threads) (queue : List ℕ) (left : ThreadStatus) : Prop where
  current : k'.current = queue.headD k.idleThread
  readyList : k'.readyList = queue.tail
  status : ∀ t, k'.status t =
    if t = k'.current then .THREAD_RUNNING else if t = k.current then left else k.status t
  idleThread : k'.idleThread = k.idleThread
  live : k.threads k'.current ≠ none

lemma threadScheduleTail_fields {prev : Option ℕ} (h : threadScheduleTail k prev = .ok k') :
    k'.current = k.current ∧ k'.readyList = k.readyList ∧ k'.idleThread = k.idleThread ∧
      k'.status = update k.status k.current .THREAD_RUNNING := by
  unfold threadScheduleTail at h
  cases prev with
  | none =>
    cases h
    exact ⟨rfl, rfl, rfl, rfl⟩
  | some =>
    simp only [bind_eq_ok] at h
    obtain ⟨_, _, h⟩ := h
    split_ifs at h
    · simp only [bind_eq_ok] at h
      obtain ⟨_, _, _, _, h⟩ := h
      cases h
      exact ⟨rfl, rfl, rfl, rfl⟩
    · cases h
      exact ⟨rfl, rfl, rfl, rfl⟩

lemma nextThreadToRun_eq (k : Threads) :
    nextThreadToRun k = (k.readyList.headD k.idleThread,
      { k with readyList := k.readyList.tail }) := by
  cases h : k.readyList with
  | nil =>
    simp only [nextThreadToRun, h, headD_nil, tail_nil]
    rw [← h]
  | cons => simp [nextThreadToRun, h]

theorem schedule_dispatch (h : schedule k = .ok k') :
    k'.current = k.readyList.headD k.idleThread ∧ k'.readyList = k.readyList.tail ∧
      (∀ t, k'.status t = if t = k'.current then .THREAD_RUNNING else k.status t) ∧
      k'.idleThread = k.idleThread ∧ k.threads k'.current ≠ none := by
  simp only [schedule, nextThreadToRun_eq, bind_eq_ok, get_eq_ok] at h
  obtain ⟨_, _, th, hth, h⟩ := h
  -- whether or not there is a switch, the tail runs in the next thread
  have htail : ∃ k1 prev, threadScheduleTail k1 prev = .ok k' ∧
      k1.current = k.readyList.headD k.idleThread ∧ k1.readyList = k.readyList.tail ∧
      k1.status = k.status ∧ k1.idleThread = k.idleThread := by
    split_ifs at h with hne
    · exact ⟨_, _, h, rfl, rfl, rfl, rfl⟩
    · exact ⟨_, _, h, not_not.1 hne, rfl, rfl, rfl⟩
  obtain ⟨_, _, h1, hcur, hready, hstatus, hidle⟩ := htail
  obtain ⟨hc, hr, hi, hs⟩ := threadScheduleTail_fields h1
  refine ⟨hc.trans hcur, hr.trans hready, fun t => ?_, hi.trans hidle, ?_⟩
  · rw [hs, hc, hstatus, update_apply]
  · rw [hc, hcur]
    exact fun hnone => some_ne_none th (hth.symm.trans hnone)

lemma schedule_returns (hrun : k.status k.current ≠ .THREAD_RUNNING)
    (hdying : k.status k.current ≠ .THREAD_DYING) (hcur : k.threads k.current ≠ none)
    (hnext : k.threads (k.readyList.headD k.idleThread) ≠ none) : ∃ k', schedule k = .ok k' := by
  obtain ⟨th, hth⟩ := ne_none_iff_exists'.1 hcur
  obtain ⟨next, hn⟩ := ne_none_iff_exists'.1 hnext
  have hget : Threads.get { k with readyList := k.readyList.tail }
      (k.readyList.headD k.idleThread) = .ok next := get_eq_ok.2 hn
  simp only [schedule, nextThreadToRun_eq]
  rw [ASSERT_of hrun, ok_bind, hget, ok_bind]
  split_ifs with hne
  · set k1 : Threads :=
      { k with readyList := k.readyList.tail, current := k.readyList.headD k.idleThread }
    have hprev : (k1.setStatus k1.current .THREAD_RUNNING).get k.current = .ok th := get_eq_ok.2 hth
    have hstatus : (k1.setStatus k1.current .THREAD_RUNNING).status k.current =
      k.status k.current :=
      update_of_ne hne ..
    refine ⟨k1.setStatus k1.current .THREAD_RUNNING, ?_⟩
    simp only [threadScheduleTail]
    rw [hprev, ok_bind, if_neg fun h => hdying (hstatus ▸ h.1)]
    rfl
  · exact ⟨_, rfl⟩

lemma dispatch_of_schedule {k1 : Threads} (h : schedule k1 = .ok k')
    (hready : k1.readyList = queue) (hstatus : k1.status = update k.status k.current left)
    (hidle : k1.idleThread = k.idleThread)
    (hthreads : ∀ t, k1.threads t ≠ none → k.threads t ≠ none) : Dispatch k k' queue left := by
  obtain ⟨hc, hr, hs, hi, hl⟩ := schedule_dispatch h
  refine ⟨?_, ?_, fun t => ?_, hi.trans hidle, hthreads _ hl⟩
  · rw [hc, hready, hidle]
  · rw [hr, hready]
  · rw [hs, hstatus, update_apply]

lemma threadBlock_dispatch (h : threadBlock k = .ok k') :
    Dispatch k k' k.readyList .THREAD_BLOCKED := by
  simp only [threadBlock, bind_eq_ok] at h
  obtain ⟨_, _, h⟩ := h
  exact dispatch_of_schedule h rfl rfl rfl fun _ => id

lemma threadYield_dispatch (h : threadYield k = .ok k') :
    Dispatch k k' (if k.current ≠ k.idleThread then k.readyList ++ [k.current] else k.readyList)
      .THREAD_READY := by
  simp only [threadYield, bind_eq_ok] at h
  obtain ⟨_, _, h⟩ := h
  exact dispatch_of_schedule h rfl rfl rfl fun _ => id

lemma threadExit_dispatch (h : threadExit k = .ok k') :
    Dispatch k k' k.readyList .THREAD_DYING := by
  simp only [threadExit, bind_eq_ok] at h
  obtain ⟨_, _, h⟩ := h
  refine dispatch_of_schedule h rfl rfl rfl fun t ht hnone => ht ?_
  show (k.goTo .exited).threads t = none
  rw [goTo, threads_modify]
  split_ifs with hc
  · rw [← hc, hnone, map_none]
  · exact hnone

/-! ### The run queue -/

structure Queued (k : Threads) : Prop where
  running : k.status k.current = .THREAD_RUNNING
  live : k.threads k.current ≠ none
  only : ∀ t, k.threads t ≠ none → k.status t = .THREAD_RUNNING → t = k.current
  queue : ∀ t ∈ k.readyList, k.threads t ≠ none ∧ k.status t = .THREAD_READY
  queued : ∀ t, k.threads t ≠ none → t ≠ k.idleThread → k.status t = .THREAD_READY →
    t ∈ k.readyList
  nodup : k.readyList.Nodup
  idle : k.threads k.idleThread ≠ none

namespace Queued

lemma current_notMem (hk : k.Queued) : k.current ∉ k.readyList := fun hmem => by
  have h := (hk.queue _ hmem).2
  rw [hk.running] at h
  cases h

lemma ne_current (hd : Dispatch k k' queue left) (hmem : t ∉ queue) (hidle : t ≠ k.idleThread) :
    t ≠ k'.current := by
  rintro rfl
  cases queue with
  | nil => exact hidle hd.current
  | cons u =>
    have hcur : k'.current = u := hd.current
    exact hmem (hcur ▸ mem_cons_self)

/-- **A switch keeps the queue**, if the running thread is queued when it stays ready. -/
theorem dispatch (hk : k.Queued) (hd : Dispatch k k' queue left) (hleft : left ≠ .THREAD_RUNNING)
    (hqueue : ∀ t, t ∈ queue ↔ t ∈ k.readyList ∨
      (t = k.current ∧ left = .THREAD_READY ∧ t ≠ k.idleThread)) (hnodup : queue.Nodup)
    (hthreads : ∀ t, k'.threads t ≠ none → k.threads t ≠ none)
    (hlive : ∀ t ∈ queue, k'.threads t ≠ none) (hidle : k'.threads k'.idleThread ≠ none) :
    k'.Queued := by
  have hcur : k'.threads k'.current ≠ none := by
    cases hq : queue with
    | nil =>
      have hci : k'.current = k'.idleThread := by rw [hd.current, hq, hd.idleThread]; rfl
      rw [hci]
      exact hidle
    | cons u =>
      have hcu : k'.current = u := by rw [hd.current, hq]; rfl
      rw [hcu]
      exact hlive u (by rw [hq]; exact mem_cons_self)
  -- the tail of the queue does not hold the thread that was dispatched
  have htail : ∀ t, t ∈ queue.tail ↔ t ∈ queue ∧ t ≠ k'.current := by
    intro t
    cases hq : queue with
    | nil => simp
    | cons u rest =>
      have hcu : k'.current = u := by rw [hd.current, hq]; rfl
      have hu : u ∉ rest := (nodup_cons.1 (hq ▸ hnodup)).1
      rw [hcu]
      constructor
      · exact fun hmem => ⟨mem_cons_of_mem _ hmem, fun htu => hu (htu ▸ hmem)⟩
      · exact fun ⟨hmem, hne⟩ => (mem_cons.1 hmem).resolve_left hne
  refine ⟨?_, hcur, fun t ht hrun => ?_, fun t hmem => ?_, fun t ht hti hready => ?_, ?_, hidle⟩
  · rw [hd.status, if_pos rfl]
  · rw [hd.status] at hrun
    split_ifs at hrun with h1 h2
    · exact h1
    · exact absurd hrun hleft
    · exact absurd (hk.only t (hthreads t ht) hrun) h2
  · rw [hd.readyList, htail] at hmem
    refine ⟨hlive t hmem.1, ?_⟩
    rw [hd.status, if_neg hmem.2]
    rcases (hqueue t).1 hmem.1 with hold | ⟨hc, hl, -⟩
    · rw [if_neg fun hc : t = k.current => hk.current_notMem (hc ▸ hold)]
      exact (hk.queue t hold).2
    · rw [if_pos hc, hl]
  · rw [hd.status] at hready
    rw [hd.idleThread] at hti
    rw [hd.readyList, htail, hqueue]
    split_ifs at hready with h1 h2
    · exact ⟨.inr ⟨h2, hready, hti⟩, h1⟩
    · exact ⟨.inl (hk.queued t (hthreads t ht) hti hready), h1⟩
  · rw [hd.readyList]
    exact hnodup.tail

lemma threadBlock (hk : k.Queued) (h : Pintos.threadBlock k = .ok k') : k'.Queued := by
  have hsw := threadBlock_switches h
  refine hk.dispatch (threadBlock_dispatch h) (by decide) (fun t => ?_) hk.nodup
    (fun t => by rw [hsw.threads]; exact id)
    (fun t hmem => by rw [hsw.threads]; exact (hk.queue t hmem).1) ?_
  · constructor
    · exact .inl
    · rintro (hmem | ⟨-, h, -⟩)
      · exact hmem
      · cases h
  · rw [hsw.threads, hsw.idleThread]
    exact hk.idle

lemma threadYield (hk : k.Queued) (h : Pintos.threadYield k = .ok k') : k'.Queued := by
  have hsw := threadYield_switches h
  have hqueue : ∀ t, t ∈ (if k.current ≠ k.idleThread then k.readyList ++ [k.current]
      else k.readyList) ↔ t ∈ k.readyList ∨
        (t = k.current ∧ ThreadStatus.THREAD_READY = .THREAD_READY ∧ t ≠ k.idleThread) := by
    intro t
    split_ifs with hidle
    · rw [mem_append, mem_singleton]
      exact or_congr_right ⟨fun hc => ⟨hc, rfl, hc ▸ hidle⟩, fun hc => hc.1⟩
    · exact ⟨.inl, fun hor => hor.resolve_right fun hc => hc.2.2 (hc.1.trans (not_not.1 hidle))⟩
  refine hk.dispatch (threadYield_dispatch h) (by decide) hqueue ?_
    (fun t => by rw [hsw.threads]; exact id) (fun t hmem => ?_) ?_
  · split_ifs
    · rw [nodup_append]
      refine ⟨hk.nodup, nodup_singleton _, fun a ha b hb hab => ?_⟩
      rw [mem_singleton.1 hb] at hab
      exact hk.current_notMem (hab ▸ ha)
    · exact hk.nodup
  · rw [hsw.threads]
    rcases (hqueue t).1 hmem with hmem | ⟨rfl, -⟩
    · exact (hk.queue t hmem).1
    · exact hk.live
  · rw [hsw.threads, hsw.idleThread]
    exact hk.idle

lemma threadCurrent_returns (hk : k.Queued) : ∃ th, threadCurrent k = .ok th := by
  obtain ⟨th, hth⟩ := ne_none_iff_exists'.1 hk.live
  exact ⟨th, by rw [threadCurrent, get_eq_ok.2 hth, ok_bind, ASSERT_of hk.running]; rfl⟩

theorem threadBlock_returns (hk : k.Queued) : ∃ k', Pintos.threadBlock k = .ok k' := by
  obtain ⟨_, hcur⟩ := hk.threadCurrent_returns
  have hnext : k.threads (k.readyList.headD k.idleThread) ≠ none := by
    cases hq : k.readyList with
    | nil => exact hk.idle
    | cons t => exact (hk.queue t (by rw [hq]; exact mem_cons_self)).1
  have hblocked : (k.setStatus k.current .THREAD_BLOCKED).status k.current = .THREAD_BLOCKED :=
    update_self ..
  obtain ⟨k', hk'⟩ := schedule_returns (k := k.setStatus k.current .THREAD_BLOCKED)
    (fun h => nomatch hblocked.symm.trans h) (fun h => nomatch hblocked.symm.trans h) hk.live hnext
  exact ⟨k', by rw [Pintos.threadBlock, hcur, ok_bind, hk']⟩

lemma threadExit_threads (h : Pintos.threadExit k = .ok k') (hne : t ≠ k.current) :
    k'.threads t = k.threads t := by
  obtain ⟨_, _, _, _, _, ⟨_, hthreads⟩ | ⟨_, _, hthreads⟩⟩ := threadExit_eq_ok h
  · rw [hthreads, if_neg hne]
  · rw [hthreads, if_neg hne]

lemma threadExit (hk : k.Queued) (hidle : k.current ≠ k.idleThread)
    (h : Pintos.threadExit k = .ok k') : k'.Queued := by
  have hd := threadExit_dispatch h
  refine hk.dispatch hd (by decide) (fun t => ?_) hk.nodup (fun t ht => ?_) (fun t hmem => ?_) ?_
  · constructor
    · exact .inl
    · rintro (hmem | ⟨-, h, -⟩)
      · exact hmem
      · cases h
  · by_cases htc : t = k.current
    · rw [htc]
      exact hk.live
    · rwa [threadExit_threads h htc] at ht
  · rw [threadExit_threads h fun htc => hk.current_notMem (htc ▸ hmem)]
    exact (hk.queue t hmem).1
  · rw [hd.idleThread, threadExit_threads h (Ne.symm hidle)]
    exact hk.idle

end Queued

/-- **`thread_unblock`**: a blocked thread becomes the last of the queue. -/
theorem threadUnblock_eq_ok (h : threadUnblock k t = .ok k') :
    k.threads t ≠ none ∧ k.status t = .THREAD_BLOCKED ∧
      k' = { k.setStatus t .THREAD_READY with readyList := k.readyList ++ [t] } := by
  simp only [threadUnblock, bind_eq_ok, ASSERT_eq_ok, get_eq_ok] at h
  obtain ⟨_, hth, _, hblocked, h⟩ := h
  exact ⟨by simp [hth], hblocked, (Except.ok.inj h).symm⟩

lemma Queued.notMem_of_blocked (hk : k.Queued) (h : k.status t = .THREAD_BLOCKED) :
    t ∉ k.readyList := fun hmem => by
  have hready := (hk.queue t hmem).2
  rw [h] at hready
  cases hready

lemma Queued.ne_current_of_blocked (hk : k.Queued) (h : k.status t = .THREAD_BLOCKED) :
    t ≠ k.current := by
  rintro rfl
  rw [hk.running] at h
  cases h

lemma Queued.threadUnblock (hk : k.Queued) (h : Pintos.threadUnblock k t = .ok k') :
    k'.Queued := by
  obtain ⟨hlive, hblocked, rfl⟩ := threadUnblock_eq_ok h
  have hcur : k.current ≠ t := Ne.symm (hk.ne_current_of_blocked hblocked)
  have hstatus : ∀ u, (k.setStatus t .THREAD_READY).status u =
      if u = t then .THREAD_READY else k.status u := fun u => update_apply ..
  refine ⟨?_, hk.live, fun u hu hrun => ?_, fun u hmem => ?_, fun u hu hidle hready => ?_, ?_,
    hk.idle⟩
  · exact (hstatus _).trans ((if_neg hcur).trans hk.running)
  · have hrun' := (hstatus u).symm.trans hrun
    split_ifs at hrun'
    exact hk.only u hu hrun'
  · rcases mem_append.1 hmem with hmem | hmem
    · refine ⟨(hk.queue u hmem).1, (hstatus u).trans ?_⟩
      rw [if_neg fun hut : u = t => hk.notMem_of_blocked hblocked (hut ▸ hmem)]
      exact (hk.queue u hmem).2
    · obtain rfl := mem_singleton.1 hmem
      exact ⟨hlive, (hstatus u).trans (if_pos rfl)⟩
  · have hready' := (hstatus u).symm.trans hready
    refine mem_append.2 ?_
    split_ifs at hready' with hut
    · exact .inr (mem_singleton.2 hut)
    · exact .inl (hk.queued u hu hidle hready')
  · refine nodup_append.2 ⟨hk.nodup, nodup_singleton _, fun a ha b hb hab => ?_⟩
    rw [mem_singleton.1 hb] at hab
    exact hk.notMem_of_blocked hblocked (hab ▸ ha)

/-- **`thread_create`**: a new thread, if any, becomes the last of the queue. -/
theorem threadCreate_queue (hk : k.Queued) (h : threadCreate k priority function = .ok (r, k')) :
    k'.current = k.current ∧ k'.idleThread = k.idleThread ∧ k.nextTid ≤ k'.nextTid ∧
      (∀ t, t ≠ k.nextTid → k'.status t = k.status t) ∧
      (∀ t, t ≠ k.nextTid → (k'.threads t ≠ none ↔ k.threads t ≠ none)) ∧
      ((k'.threads k.nextTid = none ∧ k'.readyList = k.readyList) ∨
        (k'.threads k.nextTid ≠ none ∧ k'.status k.nextTid = .THREAD_READY ∧
          k'.readyList = k.readyList ++ [k.nextTid] ∧ k.nextTid < k'.nextTid)) := by
  have hne : k.current ≠ k.nextTid := fun heq => hk.live (k.fresh _ heq.ge)
  have hfresh : k.threads k.nextTid = none := k.fresh _ le_rfl
  simp only [threadCreate, bind_eq_ok] at h
  obtain ⟨⟨page, p1⟩, _, h⟩ := h
  cases page with
  | none =>
    cases h
    exact ⟨rfl, rfl, le_rfl, fun _ _ => rfl, fun _ _ => Iff.rfl, .inl ⟨hfresh, rfl⟩⟩
  | some =>
    simp only [bind_eq_ok] at h
    obtain ⟨th, _, ⟨fdTable, _⟩, _, h⟩ := h
    have henter : ∀ t, t ≠ k.nextTid → (enter { k with palloc := p1 } th).threads t = k.threads t :=
      fun t ht => update_of_ne ht ..
    have hstatus : ∀ t, t ≠ k.nextTid → (enter { k with palloc := p1 } th).status t = k.status t :=
      fun t ht => update_of_ne ht ..
    cases fdTable with
    | none =>
      simp only [bind_eq_ok] at h
      obtain ⟨_, _, h⟩ := h
      cases h
      refine ⟨rfl, rfl, Nat.le_succ _, hstatus, fun t ht => ?_, .inl ⟨?_, rfl⟩⟩
      · rw [← henter t ht]
        exact iff_of_eq (congrArg (· ≠ none) (threads_drop.trans (if_neg ht)))
      · exact threads_drop.trans (if_pos rfl)
    | some =>
      simp only [bind_eq_ok] at h
      obtain ⟨_, _, _, hun, h⟩ := h
      cases h
      obtain ⟨hlive, _, rfl⟩ := threadUnblock_eq_ok hun
      refine ⟨rfl, rfl, Nat.le_succ _, fun t ht => ?_, fun t ht => ?_,
        .inr ⟨hlive, update_self .., rfl, Nat.lt_succ_self _⟩⟩
      · exact (update_of_ne ht ..).trans (hstatus t ht)
      · rw [← henter t ht]
        exact modify_ne_none.trans modify_ne_none

lemma Queued.threadCreate (hk : k.Queued)
    (h : Pintos.threadCreate k priority function = .ok (r, k')) : k'.Queued := by
  have hlt : ∀ t, k.threads t ≠ none → t ≠ k.nextTid := fun t ht heq => ht (k.fresh t heq.ge)
  obtain ⟨hcur, hidle, _, hstatus, hthreads, hnew⟩ := threadCreate_queue hk h
  have hlive : ∀ t, k.threads t ≠ none → k'.threads t ≠ none :=
    fun t ht => (hthreads t (hlt t ht)).2 ht
  have hold : ∀ t, k.threads t ≠ none → k'.status t = k.status t := fun t ht => hstatus t (hlt t ht)
  -- a thread is an old one, or the new one in the queue
  have hcases : ∀ t, k'.threads t ≠ none → k.threads t ≠ none ∨
      (t = k.nextTid ∧ k'.status t = .THREAD_READY ∧ t ∈ k'.readyList) := by
    intro t ht
    by_cases htn : t = k.nextTid
    · rcases hnew with ⟨hnone, _⟩ | ⟨_, hready, hlist, _⟩
      · exact absurd (htn ▸ hnone) ht
      · exact .inr ⟨htn, htn ▸ hready, by rw [hlist, htn]; simp⟩
    · exact .inl ((hthreads t htn).1 ht)
  have hmem : ∀ t, t ∈ k.readyList → t ∈ k'.readyList := by
    intro t ht
    rcases hnew with ⟨_, hlist⟩ | ⟨_, _, hlist, _⟩
    · rwa [hlist]
    · rw [hlist]
      exact mem_append_left _ ht
  refine ⟨?_, hcur ▸ hlive _ hk.live, fun t ht hrun => ?_, fun t ht => ?_,
    fun t ht hti hready => ?_,
    ?_, hidle ▸ hlive _ hk.idle⟩
  · rw [hcur, hold _ hk.live]
    exact hk.running
  · rw [hcur]
    rcases hcases t ht with hlt' | ⟨_, hready, _⟩
    · exact hk.only t hlt' (hold t hlt' ▸ hrun)
    · rw [hrun] at hready
      cases hready
  · have hin : t ∈ k.readyList → k'.threads t ≠ none ∧ k'.status t = .THREAD_READY := by
      intro hin
      obtain ⟨hl, hr⟩ := hk.queue t hin
      exact ⟨hlive t hl, (hold t hl).trans hr⟩
    rcases hnew with ⟨_, hlist⟩ | ⟨hl, hr, hlist, _⟩
    · exact hin (hlist ▸ ht)
    · rw [hlist] at ht
      rcases mem_append.1 ht with ht | ht
      · exact hin ht
      · rw [mem_singleton.1 ht]
        exact ⟨hl, hr⟩
  · rcases hcases t ht with hl | ⟨_, _, hin⟩
    · exact hmem t (hk.queued t hl (hidle ▸ hti) (hold t hl ▸ hready))
    · exact hin
  · rcases hnew with ⟨_, hlist⟩ | ⟨_, _, hlist, _⟩
    · rw [hlist]
      exact hk.nodup
    · rw [hlist]
      refine nodup_append.2 ⟨hk.nodup, nodup_singleton _, fun a ha b hb hab => ?_⟩
      exact hlt a (hk.queue a ha).1 (hab.trans (mem_singleton.1 hb))

/-! ### The list of all threads -/

end Threads

/-! ### Waiters -/

def Event.Direct (s : Synch) (e : Event) : Prop :=
  ∀ t, e = .unblock t → ∀ x, t ∉ (s.semas x).waiters

namespace Synch

variable {s s' : Synch} {e : Event} {t : ℕ} {x y : Sema} {o : SemaOp}

structure Waits (s : Synch) : Prop where
  queued : s.kernel.Queued
  waiting : ∀ x, ∀ t ∈ (s.semas x).waiters,
    s.kernel.threads t ≠ none ∧ s.kernel.status t = .THREAD_BLOCKED ∧ s.Inside t x
  asleep : ∀ x t, s.kernel.threads t ≠ none → s.kernel.status t = .THREAD_BLOCKED →
    s.Inside t x → t ∈ (s.semas x).waiters
  nodup : ∀ x, (s.semas x).waiters.Nodup
  idleOut : s.code s.kernel.idleThread = []
  unborn : ∀ t, s.kernel.nextTid ≤ t → s.code t = []

namespace Waits

lemma inside_ne_idle (hs : s.Waits) (h : s.Inside t x) : t ≠ s.kernel.idleThread := by
  rintro rfl
  rw [Inside, hs.idleOut] at h
  cases h

lemma ne_current (hs : s.Waits) (hmem : t ∈ (s.semas x).waiters) : t ≠ s.kernel.current :=
  hs.queued.ne_current_of_blocked (hs.waiting x t hmem).2.1

lemma current_lt (hs : s.Waits) : s.kernel.current < s.kernel.nextTid :=
  Nat.lt_of_not_le fun h => hs.queued.live (s.kernel.fresh _ h)

lemma code_of_goes (hs : s.Waits) (hgo : s.Goes s') :
    s'.code s.kernel.idleThread = [] ∧ ∀ t, s.kernel.nextTid ≤ t → s'.code t = [] := by
  constructor
  · rcases hgo s.kernel.idleThread with h | ⟨-, h⟩
    · exact h.trans hs.idleOut
    · exact absurd rfl (h hs.idleOut)
  · intro t ht
    rw [hgo.of_ne (by have := hs.current_lt; omega)]
    exact hs.unborn t ht

theorem advance (hs : s.Waits) (hgo : s.Goes s') (hkernel : s'.kernel = s.kernel)
    (hwaiters : ∀ x, (s'.semas x).waiters = (s.semas x).waiters) : s'.Waits := by
  obtain ⟨hidle, hunborn⟩ := hs.code_of_goes hgo
  -- the running thread does not sleep
  have hinside : ∀ t x, s.kernel.status t = .THREAD_BLOCKED → (s'.Inside t x ↔ s.Inside t x) := by
    intro t x hblocked
    rw [Inside, Inside, hgo.of_ne (hs.queued.ne_current_of_blocked hblocked)]
  refine ⟨hkernel ▸ hs.queued, fun x t hmem => ?_, fun x t hlive hblocked hin => ?_, fun x => ?_,
    hkernel ▸ hidle, fun t ht => hunborn t (hkernel ▸ ht)⟩
  · rw [hwaiters] at hmem
    obtain ⟨hlive, hblocked, hin⟩ := hs.waiting x t hmem
    rw [hkernel]
    exact ⟨hlive, hblocked, (hinside t x hblocked).2 hin⟩
  · rw [hkernel] at hlive hblocked
    rw [hwaiters]
    exact hs.asleep x t hlive hblocked ((hinside t x hblocked).1 hin)
  · rw [hwaiters]
    exact hs.nodup x

theorem schedule (hs : s.Waits) (hcode : s'.code = s.code) (hsemas : s'.semas = s.semas)
    (hq : s'.kernel.Queued) (hidle : s'.kernel.idleThread = s.kernel.idleThread)
    (hnext : s.kernel.nextTid ≤ s'.kernel.nextTid)
    (hstay : ∀ x, ∀ t ∈ (s.semas x).waiters,
      s'.kernel.threads t ≠ none ∧ s'.kernel.status t = .THREAD_BLOCKED)
    (hwere : ∀ x t, s'.kernel.threads t ≠ none → s'.kernel.status t = .THREAD_BLOCKED →
      s.Inside t x → s.kernel.threads t ≠ none ∧ s.kernel.status t = .THREAD_BLOCKED) :
    s'.Waits := by
  have hinside : ∀ t x, s'.Inside t x ↔ s.Inside t x := by
    intro t x
    rw [Inside, Inside, hcode]
  refine ⟨hq, fun x t hmem => ?_, fun x t hlive hblocked hin => ?_, fun x => ?_, ?_, fun t ht => ?_⟩
  · rw [hsemas] at hmem
    obtain ⟨hlive, hblocked⟩ := hstay x t hmem
    exact ⟨hlive, hblocked, (hinside t x).2 (hs.waiting x t hmem).2.2⟩
  · rw [hinside] at hin
    rw [hsemas]
    obtain ⟨hlive', hblocked'⟩ := hwere x t hlive hblocked hin
    exact hs.asleep x t hlive' hblocked' hin
  · rw [hsemas]
    exact hs.nodup x
  · rw [hidle, hcode]
    exact hs.idleOut
  · rw [hcode]
    exact hs.unborn t (by omega)

variable {k' : Threads} {value : ℕ}

lemma stays (hs : s.Waits) (hd : s.kernel.Dispatch k' queue left)
    (hqueue : ∀ t ∈ queue, t ∈ s.kernel.readyList ∨ t = s.kernel.current)
    (hblocked : s.kernel.status t = .THREAD_BLOCKED) (hin : s.Inside t x) :
    k'.status t = .THREAD_BLOCKED := by
  have hcur := hs.queued.ne_current_of_blocked hblocked
  have hmem : t ∉ queue := fun hmem =>
    (hqueue t hmem).elim (hs.queued.notMem_of_blocked hblocked) hcur
  rw [hd.status, if_neg (Threads.Queued.ne_current hd hmem (hs.inside_ne_idle hin)), if_neg hcur]
  exact hblocked

lemma slept {k : Threads} (hd : k.Dispatch k' queue left)
    (hblocked : k'.status t = .THREAD_BLOCKED) :
    t = k.current ∧ left = .THREAD_BLOCKED ∨ t ≠ k.current ∧ k.status t = .THREAD_BLOCKED := by
  rw [hd.status] at hblocked
  split_ifs at hblocked with _ h2
  · exact .inl ⟨h2, hblocked⟩
  · exact .inr ⟨h2, hblocked⟩

lemma sleeps (hs : s.Waits) (hin : s.Inside s.kernel.current x)
    (hk : threadBlock s.kernel = .ok s'.kernel)
    (hsemas : s'.semas = update s.semas x
      { s.semas x with waiters := (s.semas x).waiters ++ [s.kernel.current] })
    (hcode : s'.code = s.code) : s'.Waits := by
  have hd := threadBlock_dispatch hk
  have hsw := threadBlock_switches hk
  have hinside : ∀ t y, s'.Inside t y ↔ s.Inside t y := by
    intro t y
    rw [Inside, Inside, hcode]
  have hwaiters : ∀ y, (s'.semas y).waiters =
      if y = x then (s.semas x).waiters ++ [s.kernel.current] else (s.semas y).waiters := by
    intro y
    rw [hsemas, update_apply]
    split_ifs <;> rfl
  have hnot : ∀ y, s.kernel.current ∉ (s.semas y).waiters := fun y hmem => hs.ne_current hmem rfl
  -- the thread itself sleeps, for it is neither ready nor idle
  have hself : s'.kernel.status s.kernel.current = .THREAD_BLOCKED := by
    rw [hd.status, if_neg (Threads.Queued.ne_current hd hs.queued.current_notMem
      (hs.inside_ne_idle hin)), if_pos rfl]
  refine ⟨hs.queued.threadBlock hk, fun y t hmem => ?_, fun y t hlive hblocked hin' => ?_,
    fun y => ?_, ?_, fun t ht => ?_⟩
  · rw [hsw.threads, hinside]
    have hold : t ∈ (s.semas y).waiters → s.kernel.threads t ≠ none ∧
        s'.kernel.status t = .THREAD_BLOCKED ∧ s.Inside t y := by
      intro hmem
      obtain ⟨hlive, hblocked, hin'⟩ := hs.waiting y t hmem
      exact ⟨hlive, hs.stays hd (fun _ => .inl) hblocked hin', hin'⟩
    rw [hwaiters] at hmem
    split_ifs at hmem with hyx
    · rcases mem_append.1 hmem with hmem | hmem
      · exact hold (hyx ▸ hmem)
      · rw [mem_singleton.1 hmem, hyx]
        exact ⟨hs.queued.live, hself, hin⟩
    · exact hold hmem
  · rw [hsw.threads] at hlive
    rw [hinside] at hin'
    rw [hwaiters]
    rcases slept hd hblocked with ⟨rfl, -⟩ | ⟨-, hblocked'⟩
    · rw [if_pos (hin'.inj hin)]
      exact mem_append_right _ (mem_singleton.2 rfl)
    · have hmem := hs.asleep y t hlive hblocked' hin'
      split_ifs with hyx
      · exact mem_append_left _ (hyx ▸ hmem)
      · exact hmem
  · rw [hwaiters]
    split_ifs
    · refine nodup_append.2 ⟨hs.nodup x, nodup_singleton _, fun a ha b hb hab => ?_⟩
      rw [mem_singleton.1 hb] at hab
      exact hnot x (hab ▸ ha)
    · exact hs.nodup y
  · rw [hsw.idleThread, hcode]
    exact hs.idleOut
  · rw [hcode]
    exact hs.unborn t (hsw.nextTid ▸ ht)

lemma wakes {rest : List ℕ} (hs : s.Waits) (hw : (s.semas x).waiters = t :: rest)
    (hk : threadUnblock s.kernel t = .ok s'.kernel)
    (hsemas : s'.semas = update s.semas x ⟨value, rest⟩) (hgo : s.Goes s') : s'.Waits := by
  obtain ⟨_, _, heq⟩ := threadUnblock_eq_ok hk
  obtain ⟨hidle, hunborn⟩ := hs.code_of_goes hgo
  have hmemt : t ∈ (s.semas x).waiters := by rw [hw]; exact mem_cons_self
  have hint := (hs.waiting x t hmemt).2.2
  have hnot : t ∉ rest := (nodup_cons.1 (hw ▸ hs.nodup x)).1
  have hstatus : ∀ u, s'.kernel.status u = if u = t then .THREAD_READY else s.kernel.status u := by
    intro u
    rw [heq]
    exact update_apply ..
  have hthreads : s'.kernel.threads = s.kernel.threads := by rw [heq]; rfl
  -- the waiters are the old ones but for the thread that is woken
  have hwaiters : ∀ y u, u ∈ (s'.semas y).waiters ↔ u ∈ (s.semas y).waiters ∧ u ≠ t := by
    intro y u
    rw [hsemas, update_apply]
    split_ifs with hyx
    · rw [hyx, hw, mem_cons]
      constructor
      · exact fun hu => ⟨.inr hu, fun hut => hnot (hut ▸ hu)⟩
      · exact fun hu => hu.1.resolve_left hu.2
    · refine ⟨fun hu => ⟨hu, fun hut => hyx ?_⟩, fun hu => hu.1⟩
      exact Inside.inj (hut ▸ (hs.waiting y u hu).2.2) hint
  have hinside : ∀ u y, s.kernel.status u = .THREAD_BLOCKED → (s'.Inside u y ↔ s.Inside u y) := by
    intro u y hu
    rw [Inside, Inside, hgo.of_ne (hs.queued.ne_current_of_blocked hu)]
  refine ⟨hs.queued.threadUnblock hk, fun y u hu => ?_, fun y u hl hb hin => ?_, fun y => ?_, ?_,
    fun u hu => hunborn u ?_⟩
  · rw [hwaiters] at hu
    obtain ⟨hl, hb, hin⟩ := hs.waiting y u hu.1
    rw [hthreads, hstatus, if_neg hu.2]
    exact ⟨hl, hb, (hinside u y hb).2 hin⟩
  · rw [hstatus] at hb
    split_ifs at hb with hut
    rw [hthreads] at hl
    rw [hwaiters]
    exact ⟨hs.asleep y u hl hb ((hinside u y hb).1 hin), hut⟩
  · rw [hsemas, update_apply]
    split_ifs
    · exact (nodup_cons.1 (hw ▸ hs.nodup x)).2
    · exact hs.nodup y
  · rw [heq]
    exact hidle
  · rw [heq] at hu
    exact hu

lemma waiters_of_value (h : s'.semas = update s.semas x { s.semas x with value := value })
    (y : Sema) : (s'.semas y).waiters = (s.semas y).waiters := by
  rw [h, update_apply]
  split_ifs with hyx
  · rw [hyx]
  · rfl

lemma step (hs : s.Waits) (heff : s.Effect e s') (hdirect : e.Direct s) : s'.Waits := by
  cases heff with
  | moves _ _ kernel semas code => exact hs.advance code.goes kernel fun x => by rw [semas]
  | passes x _ _ _ inside kernel semas code =>
    have hgo : s.Goes s' := by
      intro t
      by_cases ht : t = s.kernel.current
      · refine .inr ⟨ht, fun hnil => ?_⟩
        rw [ht, inside] at hnil
        cases hnil
      · exact .inl (code ▸ update_of_ne ht ..)
    exact hs.advance hgo kernel (waiters_of_value semas)
  | takes x _ _ kernel semas code =>
    exact hs.advance code.goes kernel (waiters_of_value semas)
  | refused x _ _ kernel semas code =>
    exact hs.advance code.goes kernel fun y => by rw [semas]
  | sleeps x _ _ inside kernel semas code => exact hs.sleeps inside kernel semas code
  | raises x _ waiters kernel semas code =>
    refine hs.advance code.goes kernel fun y => ?_
    rw [semas, update_apply]
    split_ifs with hyx
    · rw [hyx, waiters]
    · rfl
  | wakes x t _ _ waiters kernel semas code => exact hs.wakes waiters kernel semas code.goes
  | yields _ kernel semas code =>
    have hd := threadYield_dispatch kernel
    have hsw := threadYield_switches kernel
    refine hs.schedule code semas (hs.queued.threadYield kernel) hsw.idleThread hsw.nextTid.ge
      (fun x t hmem => ?_) fun x t hlive hblocked hin => ?_
    · obtain ⟨hlive, hblocked, hin⟩ := hs.waiting x t hmem
      refine ⟨hsw.threads ▸ hlive, hs.stays hd (fun u hu => ?_) hblocked hin⟩
      split_ifs at hu
      · simpa using hu
      · exact .inl hu
    · rcases slept hd hblocked with ⟨-, h⟩ | ⟨-, h⟩
      · cases h
      · exact ⟨hsw.threads ▸ hlive, h⟩
  | blocks _ out kernel semas code =>
    have hd := threadBlock_dispatch kernel
    have hsw := threadBlock_switches kernel
    refine hs.schedule code semas (hs.queued.threadBlock kernel) hsw.idleThread hsw.nextTid.ge
      (fun x t hmem => ?_) fun x t hlive hblocked hin => ?_
    · obtain ⟨hlive, hblocked, hin⟩ := hs.waiting x t hmem
      exact ⟨hsw.threads ▸ hlive, hs.stays hd (fun _ => .inl) hblocked hin⟩
    · rcases slept hd hblocked with ⟨rfl, -⟩ | ⟨-, h⟩
      · rw [Inside, out] at hin
        cases hin
      · exact ⟨hsw.threads ▸ hlive, h⟩
  | exits _ free kernel semas code =>
    have hd := threadExit_dispatch kernel
    obtain ⟨_, _, hnext, _⟩ := threadExit_eq_ok kernel
    refine hs.schedule code semas (hs.queued.threadExit free.2 kernel) hd.idleThread hnext.ge
      (fun x t hmem => ?_) fun x t hlive hblocked hin => ?_
    · obtain ⟨hlive, hblocked, hin⟩ := hs.waiting x t hmem
      rw [Threads.Queued.threadExit_threads kernel (hs.ne_current hmem)]
      exact ⟨hlive, hs.stays hd (fun _ => .inl) hblocked hin⟩
    · rcases slept hd hblocked with ⟨-, h⟩ | ⟨hne, h⟩
      · cases h
      · rw [Threads.Queued.threadExit_threads kernel hne] at hlive
        exact ⟨hlive, h⟩
  | unblocks t event kernel semas code =>
    obtain ⟨_, _, heq⟩ := threadUnblock_eq_ok kernel
    have hsw := (threadUnblock_switches kernel).1
    have hstatus : ∀ u, s'.kernel.status u =
        if u = t then .THREAD_READY else s.kernel.status u := by
      intro u
      rw [heq]
      exact update_apply ..
    refine hs.schedule code semas (hs.queued.threadUnblock kernel) hsw.idleThread hsw.nextTid.ge
      (fun x u hmem => ?_) fun x u hl hb hin => ?_
    · obtain ⟨hl, hb, -⟩ := hs.waiting x u hmem
      have hut : u ≠ t := fun hut => hdirect t event x (hut ▸ hmem)
      rw [hstatus, if_neg hut, hsw.threads]
      exact ⟨hl, hb⟩
    · rw [hstatus] at hb
      split_ifs at hb
      exact ⟨hsw.threads ▸ hl, hb⟩
  | creates _ r _ kernel semas code =>
    obtain ⟨_, hidle, hnext, hstatus, hthreads, _⟩ := threadCreate_queue hs.queued kernel
    have hold : ∀ t, s.kernel.threads t ≠ none → t ≠ s.kernel.nextTid :=
      fun t ht heq => ht (s.kernel.fresh t heq.ge)
    refine hs.schedule code semas (hs.queued.threadCreate kernel) hidle hnext
      (fun x t hmem => ?_) fun x t hl hb hin => ?_
    · obtain ⟨hl, hb, -⟩ := hs.waiting x t hmem
      exact ⟨(hthreads t (hold t hl)).2 hl, (hstatus t (hold t hl)).trans hb⟩
    · -- a thread that does not exist yet is not in `sema_down`
      have hne : t ≠ s.kernel.nextTid := by
        rintro rfl
        rw [Inside, hs.unborn _ le_rfl] at hin
        cases hin
      exact ⟨(hthreads t hne).1 hl, (hstatus t hne).symm.trans hb⟩

end Waits

/-! ### The order of dispatch -/

lemma readies_of_op (h : s.opOf e = some (o, x)) :
    s.readies e s' = if o = .up then (s.semas x).waiters.take 1 else [] := by
  cases e with
  | step | intrUp | intrTryDown =>
    simp only [readies, h]
    cases o <;> rfl
  | _ => cases h

lemma dispatches_of_op (h : s.opOf e = some (o, x)) : s.dispatches e s' =
      if o = .down ∧ (s.semas x).value = 0 then [s'.kernel.current] else [] := by
  cases e with
  | step | intrUp | intrTryDown =>
    simp only [dispatches, h]
    cases o <;> simp
  | _ => cases h

end Synch

namespace Traced

variable {s s' : Traced} {e : Event}

def busy (s : Traced) (l : List ℕ) : List ℕ := l.filter (· ≠ s.synch.kernel.idleThread)

/-- The threads that became ready were dispatched, in order, or are in the queue. -/
def InOrder (s : Traced) : Prop :=
  s.busy s.trace.readied = s.busy s.trace.dispatched ++ s.busy s.synch.kernel.readyList

lemma busy_dispatch (hd : s.synch.kernel.Dispatch s'.synch.kernel queue left) :
    s.busy queue = s.busy [s'.synch.kernel.current] ++ s.busy s'.synch.kernel.readyList := by
  cases hq : queue with
  | nil =>
    have hcur : s'.synch.kernel.current = s.synch.kernel.idleThread := by rw [hd.current, hq]; rfl
    simp [busy, hcur, hd.readyList, hq]
  | cons t rest =>
    have hcur : s'.synch.kernel.current = t := by rw [hd.current, hq]; rfl
    rw [hcur, hd.readyList, hq]
    exact filter_append [t] rest

lemma busy_append (l l' : List ℕ) : s.busy (l ++ l') = s.busy l ++ s.busy l' := filter_append l l'

lemma InOrder.of_queue (hs : s.InOrder) (h : Step s e s')
    (hidle : s'.synch.kernel.idleThread = s.synch.kernel.idleThread)
    (hqueue : s.busy (s.synch.kernel.readyList ++ s.synch.readies e s'.synch) =
      s.busy (s.synch.dispatches e s'.synch) ++ s.busy s'.synch.kernel.readyList) : s'.InOrder := by
  have hbusy : ∀ l, s'.busy l = s.busy l := fun l => by rw [busy, busy, hidle]
  rw [InOrder, hbusy, hbusy, hbusy, h.2]
  show s.busy (s.trace.readied ++ _) = s.busy (s.trace.dispatched ++ _) ++ _
  rw [busy_append, busy_append, hs, append_assoc, append_assoc, ← busy_append, hqueue]

lemma InOrder.step (hs : s.InOrder) (hw : s.synch.Waits) (h : Step s e s') : s'.InOrder := by
  cases next_effect h.1 with
  | moves _ still kernel =>
    refine hs.of_queue h (by rw [kernel]) ?_
    rw [still.1, still.2, kernel, append_nil]
    rfl
  | passes x _ op value _ kernel =>
    refine hs.of_queue h (by rw [kernel]) ?_
    rw [readies_of_op op, if_neg (by decide), dispatches_of_op op, if_neg fun h => value h.2,
      kernel, append_nil]
    rfl
  | takes x op _ kernel | refused x op _ kernel =>
    refine hs.of_queue h (by rw [kernel]) ?_
    rw [readies_of_op op, if_neg (by decide), dispatches_of_op op, if_neg (fun h => nomatch h.1),
      kernel, append_nil]
    rfl
  | sleeps x op value _ kernel =>
    have hd := threadBlock_dispatch kernel
    refine hs.of_queue h hd.idleThread ?_
    rw [readies_of_op op, if_neg (by decide), dispatches_of_op op, if_pos ⟨rfl, value⟩, append_nil]
    exact busy_dispatch hd
  | raises x op waiters kernel =>
    refine hs.of_queue h (by rw [kernel]) ?_
    rw [readies_of_op op, if_pos rfl, waiters, dispatches_of_op op, if_neg (fun h => nomatch h.1),
      kernel]
    simp [busy]
  | wakes x t _ op waiters kernel =>
    obtain ⟨_, _, heq⟩ := threadUnblock_eq_ok kernel
    refine hs.of_queue h (by rw [heq]; rfl) ?_
    rw [readies_of_op op, if_pos rfl, waiters, dispatches_of_op op, if_neg (fun h => nomatch h.1),
      heq]
    simp [busy]
  | yields event kernel =>
    have hd := threadYield_dispatch kernel
    subst event
    refine hs.of_queue h hd.idleThread (Eq.trans ?_ (busy_dispatch hd))
    split_ifs with hidle
    · rfl
    · simp [readies, busy, not_not.1 hidle]
  | blocks event _ kernel =>
    have hd := threadBlock_dispatch kernel
    subst event
    refine hs.of_queue h hd.idleThread ?_
    exact (congrArg s.busy (append_nil _)).trans (busy_dispatch hd)
  | exits event _ kernel =>
    have hd := threadExit_dispatch kernel
    subst event
    refine hs.of_queue h hd.idleThread ?_
    exact (congrArg s.busy (append_nil _)).trans (busy_dispatch hd)
  | unblocks t event kernel =>
    obtain ⟨_, _, heq⟩ := threadUnblock_eq_ok kernel
    subst event
    refine hs.of_queue h (by rw [heq]; rfl) ?_
    rw [heq]
    rfl
  | creates _ r event kernel =>
    obtain ⟨_, hidle, _, _, _, hnew⟩ := threadCreate_queue hw.queued kernel
    subst event
    refine hs.of_queue h hidle ?_
    rcases hnew with ⟨hnone, hlist⟩ | ⟨hsome, _, hlist, _⟩
    · simp [readies, dispatches, opOf, hnone, hlist, busy]
    · have hsome' := isSome_iff_ne_none.2 hsome
      simp [readies, dispatches, opOf, hsome', hlist, busy]

/-! ### The scheduler invariant -/

/-- **The scheduler invariant.** -/
structure Scheduled (s : Traced) : Prop where
  /-- Exactly one thread runs. -/
  running : ∃! t, s.synch.kernel.threads t ≠ none ∧ s.synch.kernel.status t = .THREAD_RUNNING
  /-- Every other thread is ready if and only if it is in the queue, once. -/
  ready : ∀ t, s.synch.kernel.threads t ≠ none → s.synch.kernel.status t ≠ .THREAD_RUNNING →
    s.synch.kernel.status t ≠ .THREAD_DYING → t ≠ s.synch.kernel.idleThread →
    (s.synch.kernel.status t = .THREAD_READY ↔ s.synch.kernel.readyList.count t = 1)
  blocked : ∀ t, s.synch.kernel.threads t ≠ none → s.synch.kernel.status t = .THREAD_BLOCKED →
    t ∉ s.synch.kernel.readyList
  /-- The `elem` of a thread is in one list at most. -/
  queueOrSema : ∀ t x, s.synch.kernel.readyList.count t + (s.synch.semas x).waiters.count t ≤ 1
  oneSema : ∀ t x y, x ≠ y →
    (s.synch.semas x).waiters.count t + (s.synch.semas y).waiters.count t ≤ 1
  /-- Threads are dispatched in the order in which they became ready. -/
  order : s.InOrder

lemma count_add_count_le_one {t : ℕ} {l l' : List ℕ} (hl : l.Nodup) (hl' : l'.Nodup)
    (h : t ∈ l → t ∉ l') : l.count t + l'.count t ≤ 1 := by
  have h1 := nodup_iff_count_le_one.1 hl t
  have h2 := nodup_iff_count_le_one.1 hl' t
  by_cases hmem : t ∈ l
  · have h3 := count_eq_zero.2 (h hmem)
    omega
  · have h3 := count_eq_zero.2 hmem
    omega

lemma Scheduled.of_waits (hw : s.synch.Waits) (ho : s.InOrder) : s.Scheduled where
  running := ⟨s.synch.kernel.current, ⟨hw.queued.live, hw.queued.running⟩,
    fun t ht => hw.queued.only t ht.1 ht.2⟩
  ready t hlive _ _ hidle := by
    constructor
    · exact fun h => count_eq_one_of_mem hw.queued.nodup (hw.queued.queued t hlive hidle h)
    · exact fun h => (hw.queued.queue t (count_pos_iff.1 (by omega))).2
  blocked t _ h := hw.queued.notMem_of_blocked h
  queueOrSema t x := count_add_count_le_one hw.queued.nodup (hw.nodup x) fun hready hwait =>
    hw.queued.notMem_of_blocked (hw.waiting x t hwait).2.1 hready
  oneSema t x y hxy := count_add_count_le_one (hw.nodup x) (hw.nodup y) fun hx hy =>
    hxy (Synch.Inside.inj (hw.waiting x t hx).2.2 (hw.waiting y t hy).2.2)
  order := ho

variable {palloc : Palloc} {page idlePage idleFd : ℕ} {preempted : Bool} {init : ℕ → ℕ}

lemma start_status (t : ℕ) :
    (Synch.start palloc page idlePage idleFd preempted init).kernel.status t =
      if t = 1 then .THREAD_RUNNING
      else if t = 2 ∧ preempted = true then .THREAD_READY else .THREAD_BLOCKED := by
  cases preempted with
  | false =>
    rw [if_neg fun h : t = 2 ∧ _ => nomatch h.2]
    rfl
  | true =>
    by_cases h2 : t = 2
    · subst h2
      rfl
    · refine (update_of_ne h2 ..).trans ?_
      rw [if_neg fun h : t = 2 ∧ _ => h2 h.1]
      rfl

lemma start_kernel (palloc : Palloc) (page idlePage idleFd : ℕ) (preempted : Bool)
    (init : ℕ → ℕ) :
    (Synch.start palloc page idlePage idleFd preempted init).kernel.threads =
        (Threads.boot palloc page idlePage idleFd).threads ∧
      (Synch.start palloc page idlePage idleFd preempted init).kernel.current = 1 ∧
      (Synch.start palloc page idlePage idleFd preempted init).kernel.idleThread = 2 ∧
      (Synch.start palloc page idlePage idleFd preempted init).kernel.readyList = [] := by
  cases preempted
  · exact ⟨rfl, rfl, rfl, rfl⟩
  · exact ⟨rfl, rfl, rfl, rfl⟩

lemma start_queued : (Synch.start palloc page idlePage idleFd preempted init).kernel.Queued := by
  obtain ⟨hthreads, hcur, hidle, hready⟩ := start_kernel palloc page idlePage idleFd preempted init
  refine ⟨?_, ?_, fun t _ h => ?_, fun t h => ?_, fun t _ hi h => ?_, ?_, ?_⟩
  · rw [hcur, start_status, if_pos rfl]
  · rw [hthreads, hcur]
    exact nofun
  · rw [start_status] at h
    split_ifs at h with h1
    exact h1.trans hcur.symm
  · rw [hready] at h
    cases h
  · rw [start_status] at h
    split_ifs at h with _ h2
    exact absurd (h2.1.trans hidle.symm) hi
  · rw [hready]
    exact nodup_nil
  · rw [hthreads, hidle]
    exact nofun

lemma start_waits : (Synch.start palloc page idlePage idleFd preempted init).Waits where
  queued := start_queued
  waiting _ _ h := absurd h not_mem_nil
  asleep _ _ _ _ h := nomatch h
  nodup _ := nodup_nil
  idleOut := rfl
  unborn _ _ := rfl

lemma start_inOrder : (start palloc page idlePage idleFd preempted init).InOrder := by
  cases preempted
  · rfl
  · rfl

/-- `thread_unblock` is called only for threads that called `thread_block`. -/
def DirectRun (s s' : Traced) : Prop := Reaches Step (fun s e => e.Direct s.synch) s s'

/-- **The scheduler invariant holds in every run** without a `thread_unblock` of a thread that waits
at a semaphore. -/
theorem scheduled_reaches (palloc : Palloc) (page idlePage idleFd : ℕ) (preempted : Bool)
    (init : ℕ → ℕ) {s : Traced}
    (hr : Reaches Step (fun s e => e.Direct s.synch)
      (start palloc page idlePage idleFd preempted init) s) : s.Scheduled := by
  have hinv := hr.invariant (fun s => s.synch.Waits ∧ s.InOrder)
    (fun hs h hd => ⟨hs.1.step (next_effect h.1) hd, hs.2.step hs.1 h⟩)
    ⟨start_waits, start_inOrder⟩
  exact .of_waits hinv.1 hinv.2

def noPages : Palloc where
  kernelPool := ⟨⟨0, fun _ => 0⟩, 0, 0⟩
  userPool := ⟨⟨0, fun _ => 0⟩, 0, 0⟩
  mem _ := 0

def noUnblock (_ : Traced) : Event → Bool
  | .unblock _ => false
  | _ => true

lemma direct_of_noUnblock (s : Traced) (e : Event) (h : noUnblock s e = true) :
    e.Direct s.synch := by
  rintro t rfl
  cases h

theorem scheduled_reaches_woken : ∃ s,
    Reaches Step (fun s e => e.Direct s.synch) (start noPages 0 0 0 false fun _ => 0) s ∧
      s.trace.dispatched = [2, 1] ∧ s.Scheduled := by
  obtain ⟨s, hr, hs⟩ := exists_run direct_of_noUnblock (start noPages 0 0 0 false fun _ => 0)
    [.call (.semaDown 0), .step, .intrUp 0, .yield, .step]
    (fun s => s.trace.dispatched == [2, 1]) (by decide +kernel)
  exact ⟨s, hr, beq_iff_eq.1 hs, scheduled_reaches noPages 0 0 0 false (fun _ => 0) hr⟩

/-- The initial thread sleeps in `sema_down`, and a handler unblocks it: its `elem` is in the queue
and among the waiters. -/
theorem unblocked_waiter : ∃ s, Reaches Step Always (start noPages 0 0 0 false fun _ => 0) s ∧
      s.synch.kernel.readyList = [1] ∧ (s.synch.semas (.own 0)).waiters = [1] ∧
      ¬ s.Scheduled := by
  obtain ⟨s, hr, hs⟩ := exists_run noTest_always (start noPages 0 0 0 false fun _ => 0)
    [.call (.semaDown 0), .step, .unblock 1]
    (fun s => s.synch.kernel.readyList == [1] && (s.synch.semas (.own 0)).waiters == [1])
    (by decide +kernel)
  simp only [Bool.and_eq_true, beq_iff_eq] at hs
  refine ⟨s, hr, hs.1, hs.2, fun h => ?_⟩
  have hone := h.queueOrSema 1 (.own 0)
  rw [hs.1, hs.2] at hone
  exact absurd hone (by decide)

/-! ### First come, first served -/

lemma dispatch_served {k k' : Threads} {queue : List ℕ} {left : ThreadStatus}
    (hd : k.Dispatch k' queue left) : queue <+: [k'.current] ++ k'.readyList := by
  rw [hd.current, hd.readyList]
  cases queue with
  | nil => exact nil_prefix
  | cons => exact prefix_rfl

/-- A step dispatches the head of the queue, or adds to its end, or leaves it as it is. -/
lemma Step.served (hw : s.synch.Waits) (h : Step s e s') : s.synch.kernel.readyList <+:
    s.synch.dispatches e s'.synch ++ s'.synch.kernel.readyList := by
  cases next_effect h.1 with
  | moves _ still kernel =>
    rw [still.2, kernel]
    exact prefix_rfl
  | passes x _ op value _ kernel =>
    rw [dispatches_of_op op, if_neg fun h => value h.2, kernel]
    exact prefix_rfl
  | takes x op _ kernel | refused x op _ kernel | raises x op _ kernel =>
    rw [dispatches_of_op op, if_neg (fun h => nomatch h.1), kernel]
    exact prefix_rfl
  | sleeps x op value _ kernel =>
    rw [dispatches_of_op op, if_pos ⟨rfl, value⟩]
    exact dispatch_served (threadBlock_dispatch kernel)
  | blocks event _ kernel =>
    subst event
    exact dispatch_served (threadBlock_dispatch kernel)
  | exits event _ kernel =>
    subst event
    exact dispatch_served (threadExit_dispatch kernel)
  | yields event kernel =>
    subst event
    refine IsPrefix.trans ?_ (dispatch_served (threadYield_dispatch kernel))
    split_ifs
    · exact prefix_append _ _
    · exact prefix_rfl
  | wakes x t _ op waiters kernel =>
    obtain ⟨_, _, heq⟩ := threadUnblock_eq_ok kernel
    rw [dispatches_of_op op, if_neg (fun h => nomatch h.1), heq]
    exact prefix_append _ _
  | unblocks t event kernel =>
    obtain ⟨_, _, heq⟩ := threadUnblock_eq_ok kernel
    subst event
    rw [heq]
    exact prefix_append _ _
  | creates _ r event kernel =>
    obtain ⟨_, _, _, _, _, hnew⟩ := threadCreate_queue hw.queued kernel
    subst event
    rcases hnew with ⟨_, hlist⟩ | ⟨_, _, hlist, _⟩
    · rw [hlist]
      exact prefix_rfl
    · rw [hlist]
      exact prefix_append _ _

/-- **First come, first served.**  The threads in the run queue are the next to be dispatched, in
that order, whatever else becomes ready; those not dispatched yet stay in front. -/
theorem served_in_turn (palloc : Palloc) (page idlePage idleFd : ℕ) (preempted : Bool)
    (init : ℕ → ℕ) {s s' : Traced}
    (hr : DirectRun (start palloc page idlePage idleFd preempted init) s) (hr' : DirectRun s s') :
    ∃ since, s'.trace.dispatched = s.trace.dispatched ++ since ∧
      s.synch.kernel.readyList <+: since ++ s'.synch.kernel.readyList := by
  have hs := hr.invariant (fun s => s.synch.Waits)
    (fun hs h hd => hs.step (next_effect h.1) hd) start_waits
  refine (hr'.invariant (fun s' => s'.synch.Waits ∧ ∃ since,
    s'.trace.dispatched = s.trace.dispatched ++ since ∧
      s.synch.kernel.readyList <+: since ++ s'.synch.kernel.readyList) ?_
    ⟨hs, [], (append_nil _).symm, prefix_rfl⟩).2
  rintro s₁ e s₂ ⟨hw, since, hsince, hqueue⟩ h hm
  refine ⟨hw.step (next_effect h.1) hm, since ++ s₁.synch.dispatches e s₂.synch, ?_, ?_⟩
  · rw [h.2, ← append_assoc, ← hsince]
    rfl
  · rw [append_assoc]
    exact hqueue.trans (prefix_append_right_inj since |>.2 (h.served hw))

theorem served_in_turn_woken : ∃ s s' : Traced, s.synch.kernel.readyList = [1] ∧
    s'.trace.dispatched = [2, 1] ∧ ∃ since, s'.trace.dispatched = s.trace.dispatched ++ since ∧
      s.synch.kernel.readyList <+: since ++ s'.synch.kernel.readyList := by
  obtain ⟨s, hr, hs⟩ := exists_run direct_of_noUnblock (start noPages 0 0 0 false fun _ => 0)
    [.call (.semaDown 0), .step, .intrUp 0]
    (fun s => s.synch.kernel.readyList == [1] &&
      (runAll noUnblock [.yield] s).any fun s' => s'.trace.dispatched == [2, 1]) (by decide +kernel)
  rw [Bool.and_eq_true, beq_iff_eq] at hs
  obtain ⟨s', hr', hs'⟩ := exists_run direct_of_noUnblock s [.yield] _ hs.2
  exact ⟨s, s', hs.1, beq_iff_eq.1 hs', served_in_turn noPages 0 0 0 false (fun _ => 0) hr hr'⟩

end Traced
end Pintos
