/-
# Threads and the scheduler

`threads/thread.c`, and the operations of `threads/synch.c` on the semaphores of a `struct thread`.

A thread lives in a page of its own, which the next thread to run frees after it has died.  A
pointer to a thread is its tid: tids are not used twice, so a pointer to a freed thread never points
to another, and following it (`Threads.get`) halts the machine.  `next_tid` does not wrap:
`next_tid++` is a signed increment.

Each function below is one step.  The scheduler and the semaphores run with interrupts off;
`thread_create` does not, and no interrupt comes in the middle of it here.  The `status` members are
kept apart from the others, which the scheduler does not touch.  `Where` is where a thread is in the
kernel code.
-/

import Pintos.Threads.Palloc

namespace Pintos

open Base Function Kernel

inductive ThreadStatus
  | THREAD_RUNNING
  | THREAD_READY
  | THREAD_BLOCKED
  | THREAD_DYING
deriving DecidableEq, Repr

def PRI_MIN : ℤ := 0
def PRI_DEFAULT : ℤ := 31
def PRI_MAX : ℤ := 63

structure Semaphore where
  value : ℕ
  waiters : List ℕ
deriving DecidableEq, Repr

def semaInit (value : ℕ) : Semaphore := ⟨value, []⟩

/-- Where a thread is: in its own code, or in a function of the kernel, with the variables it still
needs. -/
inductive Where
  /-- A user program, or the function of a kernel thread. -/
  | run
  /-- The loop of `idle`. -/
  | idle
  /-- `exec`, before `thread_get_child (tid)`. -/
  | execGetChild (tid : ℕ)
  /-- `exec`, in `sema_down (&child->load_sema)`. -/
  | execDown (child : ℕ)
  /-- `exec`, before `child->load_succeeded` is read. -/
  | execRead (child : ℕ)
  /-- `process_wait`, in `sema_down (&child->wait_sema)`. -/
  | waitDown (child : ℕ)
  /-- `process_wait`, after it. -/
  | waitRest (child : ℕ)
  /-- `start_process`, in `load`. -/
  | load (params : ℕ)
  /-- `start_process`, before `sema_up (&t->load_sema)`. -/
  | loadUp (params : ℕ) (success : Bool)
  /-- `start_process`, after it. -/
  | startRest (params : ℕ) (success : Bool)
  /-- `thread_exit`, with interrupts on. -/
  | exit
  /-- `thread_exit`, after `schedule`, which does not return. -/
  | exited
deriving DecidableEq, Repr

/-- `struct thread` without names; its list elements are the membership in the lists; `fds` is what
the pages of `fd_table` hold, a file being the sector of its inode. -/
structure Thread where
  /-- The page that holds the structure. -/
  page : ℕ
  priority : ℤ
  exitStatus : ℤ
  childList : List ℕ
  waitSema : Semaphore
  destroySema : Semaphore
  loadSema : Semaphore
  loadSucceeded : Bool
  nextFd : ℕ
  fdTable : ℕ
  fds : ℕ → Option ℕ
  stack : Where

inductive ThreadSema
  | wait
  | destroy
  | load
deriving DecidableEq, Repr

def Thread.sema (t : Thread) : ThreadSema → Semaphore
  | .wait => t.waitSema
  | .destroy => t.destroySema
  | .load => t.loadSema

def Thread.setSema (t : Thread) (sema : Semaphore) : ThreadSema → Thread
  | .wait => { t with waitSema := sema }
  | .destroy => { t with destroySema := sema }
  | .load => { t with loadSema := sema }

/-- The static variables of `thread.c`, the threads, and the page allocator. -/
structure Threads where
  palloc : Palloc
  threads : ℕ → Option Thread
  status : ℕ → ThreadStatus
  current : ℕ
  readyList : List ℕ
  allList : List ℕ
  initialThread : ℕ
  idleThread : ℕ
  nextTid : ℕ
  fresh : ∀ t, nextTid ≤ t → threads t = none

namespace Threads

def get (s : Threads) (t : ℕ) : Kernel Thread :=
  match s.threads t with
  | some th => return th
  | none => PANIC "use of a thread whose page was freed"

def modify (s : Threads) (t : ℕ) (f : Thread → Thread) : Threads :=
  { s with
    threads := update s.threads t ((s.threads t).map f)
    fresh := fun u hu => by
      by_cases h : u = t
      · rw [h, update_self, ← h, s.fresh u hu, Option.map_none]
      · rw [update_of_ne h, s.fresh u hu] }

def drop (s : Threads) (t : ℕ) : Threads :=
  { s with
    threads := update s.threads t none
    fresh := fun u hu => by
      by_cases h : u = t
      · rw [h, update_self]
      · rw [update_of_ne h, s.fresh u hu] }

def enter (s : Threads) (th : Thread) : Threads :=
  { s with
    threads := update s.threads s.nextTid (some th)
    status := update s.status s.nextTid .THREAD_BLOCKED
    allList := s.allList ++ [s.nextTid]
    nextTid := s.nextTid + 1
    fresh := fun u hu => by
      rw [update_of_ne (by omega), s.fresh u (by omega)] }

def goTo (s : Threads) (w : Where) : Threads :=
  s.modify s.current fun th => { th with stack := w }

def setStatus (s : Threads) (t : ℕ) (status : ThreadStatus) : Threads :=
  { s with status := update s.status t status }

def At (s : Threads) (w : Where) : Prop :=
  ∃ th, s.threads s.current = some th ∧ th.stack = w

end Threads

/-! ### The scheduler -/

def threadCurrent (s : Threads) : Kernel Thread := do
  let th ← s.get s.current
  ASSERT (s.status s.current = .THREAD_RUNNING)
  return th

def nextThreadToRun (s : Threads) : ℕ × Threads :=
  match s.readyList with
  | [] => (s.idleThread, s)
  | t :: rest => (t, { s with readyList := rest })

/-- Completes a switch: marks the running thread, and destroys a dying one before. -/
def threadScheduleTail (s : Threads) (prev : Option ℕ) : Kernel Threads :=
  let s := s.setStatus s.current .THREAD_RUNNING
  match prev with
  | none => return s
  | some p => do
    let th ← s.get p
    if s.status p = .THREAD_DYING ∧ p ≠ s.initialThread then
      ASSERT (p ≠ s.current)
      let palloc ← pallocFreePage s.palloc th.page
      return { s.drop p with palloc := palloc }
    else return s

def schedule (s : Threads) : Kernel Threads := do
  let (next, s) := nextThreadToRun s
  ASSERT (s.status s.current ≠ .THREAD_RUNNING)
  let _ ← s.get next
  if s.current ≠ next then threadScheduleTail { s with current := next } (some s.current)
  else threadScheduleTail s none

def threadBlock (s : Threads) : Kernel Threads := do
  let _ ← threadCurrent s
  schedule (s.setStatus s.current .THREAD_BLOCKED)

def threadUnblock (s : Threads) (t : ℕ) : Kernel Threads := do
  let _ ← s.get t
  ASSERT (s.status t = .THREAD_BLOCKED)
  return { s.setStatus t .THREAD_READY with readyList := s.readyList ++ [t] }

def threadYield (s : Threads) : Kernel Threads := do
  let _ ← threadCurrent s
  let ready := if s.current ≠ s.idleThread then s.readyList ++ [s.current] else s.readyList
  schedule ({ s with readyList := ready }.setStatus s.current .THREAD_READY)

def threadExit (s : Threads) : Kernel Threads := do
  let _ ← threadCurrent s
  let s := s.goTo .exited
  schedule ({ s with allList := s.allList.erase s.current }.setStatus s.current .THREAD_DYING)

/-! ### Semaphores -/

/-- One turn of the loop of `sema_down`: the semaphore was decremented, or the thread sleeps among
the waiters. -/
def semaDown (s : Threads) (t : ℕ) (f : ThreadSema) : Kernel (Bool × Threads) := do
  let th ← s.get t
  let sema := th.sema f
  if sema.value = 0 then
    let sema := { sema with waiters := sema.waiters ++ [s.current] }
    let s ← threadBlock (s.modify t fun th => th.setSema sema f)
    return (false, s)
  else
    return (true, s.modify t fun th => th.setSema { sema with value := sema.value - 1 } f)

def semaUp (s : Threads) (t : ℕ) (f : ThreadSema) : Kernel Threads := do
  let th ← s.get t
  let sema := th.sema f
  match sema.waiters with
  | [] => return s.modify t fun th => th.setSema ⟨sema.value + 1, []⟩ f
  | w :: rest => do
    let s ← threadUnblock (s.modify t fun th => th.setSema ⟨sema.value, rest⟩ f) w
    return s.modify t fun th => th.setSema ⟨sema.value + 1, rest⟩ f

/-! ### Creation -/

def initThread (page : ℕ) (priority : ℤ) (function : Where) : Kernel Thread := do
  ASSERT (page ≠ 0)
  ASSERT (PRI_MIN ≤ priority ∧ priority ≤ PRI_MAX)
  return { page := page, priority := priority, exitStatus := 0, childList := []
           waitSema := semaInit 0, destroySema := semaInit 0, loadSema := semaInit 0
           loadSucceeded := false, nextFd := 0, fdTable := 0, fds := fun _ => none
           stack := function }

/-- `thread_create` with start `function`, unless there is no page for it or its descriptors. -/
def threadCreate (s : Threads) (priority : ℤ) (function : Where) :
    Kernel (Option ℕ × Threads) := do
  let (page, palloc) ← pallocGetPage s.palloc { PAL_ZERO := true }
  let s := { s with palloc := palloc }
  match page with
  | none => return (none, s)
  | some page => do
    let th ← initThread page priority function
    let t := s.nextTid
    let s := s.enter th
    let (fdTable, palloc) ← pallocGetMultiple s.palloc { PAL_ZERO := true } 2
    match fdTable with
    | none => do
      let palloc ← pallocFreePage palloc page
      return (none, { s.drop t with palloc := palloc })
    | some fdTable => do
      let s := { s with palloc := palloc }
      let s := s.modify t fun th =>
        { th with nextFd := 2, fdTable := u32 (fdTable + 2 ^ 32 - 4 * 2) }
      let _ ← threadCurrent s
      let s := s.modify s.current fun th => { th with childList := th.childList ++ [t] }
      let s ← threadUnblock s t
      return (some t, s)

def getChildLoop (s : Threads) (tid : ℤ) : List ℕ → Kernel (Option ℕ)
  | [] => return none
  | c :: rest => do
    let _ ← s.get c
    if (c : ℤ) = tid then return some c else getChildLoop s tid rest

def threadGetChild (s : Threads) (tid : ℤ) : Kernel (Option ℕ) := do
  let th ← threadCurrent s
  getChildLoop s tid th.childList

/-! ### What the operations do -/

namespace Threads

variable {s s' : Threads} {t u : ℕ} {th : Thread} {prev r : Option ℕ} {f : ThreadSema}
  {function : Where} {priority tid : ℤ} {l : List ℕ}

@[simp] lemma get_eq_ok : s.get t = .ok th ↔ s.threads t = some th := by
  unfold get
  cases s.threads t with
  | none => simp
  | some th' => simp [pure_eq_ok]

lemma threads_modify (f : Thread → Thread) :
    (s.modify t f).threads u = if u = t then (s.threads t).map f else s.threads u := by
  by_cases h : u = t
  · rw [if_pos h, h]
    exact update_self ..
  · rw [if_neg h]
    exact update_of_ne h ..

lemma threads_drop : (s.drop t).threads u = if u = t then none else s.threads u := by
  by_cases h : u = t
  · rw [if_pos h, h]
    exact update_self ..
  · rw [if_neg h]
    exact update_of_ne h ..

/-- Only the statuses, the run queue and the running thread change. -/
structure Switches (s s' : Threads) : Prop where
  palloc : s'.palloc = s.palloc
  threads : s'.threads = s.threads
  allList : s'.allList = s.allList
  initialThread : s'.initialThread = s.initialThread
  idleThread : s'.idleThread = s.idleThread
  nextTid : s'.nextTid = s.nextTid

structure Reaps (s s' : Threads) (t : ℕ) : Prop where
  freed : ∃ th, s.threads t = some th ∧ pallocFreePage s.palloc th.page = .ok s'.palloc
  threads : ∀ u, s'.threads u = if u = t then none else s.threads u
  allList : s'.allList = s.allList
  initialThread : s'.initialThread = s.initialThread
  idleThread : s'.idleThread = s.idleThread
  nextTid : s'.nextTid = s.nextTid

lemma threadScheduleTail_eq_ok (h : threadScheduleTail s prev = .ok s') :
    s.Switches s' ∨ ∃ p ∈ prev, p ≠ s.initialThread ∧
      (s.setStatus s.current .THREAD_RUNNING).status p = .THREAD_DYING ∧ s.Reaps s' p := by
  unfold threadScheduleTail at h
  cases prev with
  | none =>
    cases h
    exact .inl ⟨rfl, rfl, rfl, rfl, rfl, rfl⟩
  | some p =>
    simp only [bind_eq_ok, get_eq_ok] at h
    obtain ⟨th, hth, h⟩ := h
    split_ifs at h with hdying
    · simp only [bind_eq_ok, ASSERT_eq_ok] at h
      obtain ⟨_, _, _, hfree, h⟩ := h
      cases h
      exact .inr ⟨p, rfl, hdying.2, hdying.1, ⟨th, hth, hfree⟩, fun _ => threads_drop, rfl, rfl,
        rfl, rfl⟩
    · cases h
      exact .inl ⟨rfl, rfl, rfl, rfl, rfl, rfl⟩

lemma Switches.refl (s : Threads) : s.Switches s := ⟨rfl, rfl, rfl, rfl, rfl, rfl⟩

lemma Switches.trans {s'' : Threads} (h : s.Switches s') (h' : s'.Switches s'') :
    s.Switches s'' :=
  ⟨h'.palloc.trans h.palloc, h'.threads.trans h.threads, h'.allList.trans h.allList,
    h'.initialThread.trans h.initialThread, h'.idleThread.trans h.idleThread,
    h'.nextTid.trans h.nextTid⟩

lemma nextThreadToRun_switches (s : Threads) :
    s.Switches (nextThreadToRun s).2 ∧ (nextThreadToRun s).2.current = s.current ∧
      (nextThreadToRun s).2.status = s.status := by
  unfold nextThreadToRun
  cases s.readyList with
  | nil => exact ⟨.refl s, rfl, rfl⟩
  | cons => exact ⟨⟨rfl, rfl, rfl, rfl, rfl, rfl⟩, rfl, rfl⟩

/-- **A switch** destroys the thread it comes from if that is dying. -/
theorem schedule_eq_ok (h : schedule s = .ok s') : s.Switches s' ∨
      s.current ≠ s.initialThread ∧ s.status s.current = .THREAD_DYING ∧ s.Reaps s' s.current := by
  obtain ⟨hsw, hcur, hstatus⟩ := nextThreadToRun_switches s
  unfold schedule at h
  generalize nextThreadToRun s = r at h hsw hcur hstatus
  obtain ⟨_, s1⟩ := r
  dsimp only at h hsw hcur hstatus
  simp only [bind_eq_ok, ASSERT_eq_ok] at h
  obtain ⟨_, _, _, _, h⟩ := h
  split_ifs at h with hne
  · rcases threadScheduleTail_eq_ok h with hsw' | ⟨p, hp, hinit, hdying, hreap⟩
    · exact .inl (hsw.trans ⟨hsw'.palloc, hsw'.threads, hsw'.allList, hsw'.initialThread,
        hsw'.idleThread, hsw'.nextTid⟩)
    · cases hp
      have hstat : s1.status s1.current = .THREAD_DYING := (update_of_ne hne ..).symm.trans hdying
      obtain ⟨th, hth, hfree⟩ := hreap.freed
      rw [hcur] at hth hstat hinit
      refine .inr ⟨fun hi => hinit (hi.trans hsw.initialThread.symm), hstatus ▸ hstat,
        ⟨th, (congrFun hsw.threads _).symm.trans hth, hsw.palloc ▸ hfree⟩, fun u => ?_,
        hreap.allList.trans hsw.allList, hreap.initialThread.trans hsw.initialThread,
        hreap.idleThread.trans hsw.idleThread, hreap.nextTid.trans hsw.nextTid⟩
      rw [hreap.threads, hcur, ← hsw.threads]
  · rcases threadScheduleTail_eq_ok h with hsw' | ⟨p, hp, _⟩
    · exact .inl (hsw.trans hsw')
    · cases hp

lemma schedule_switches (h : schedule s = .ok s')
    (hstatus : s.status s.current ≠ .THREAD_DYING) : s.Switches s' := by
  rcases schedule_eq_ok h with hsw | ⟨_, hdying, _⟩
  · exact hsw
  · exact absurd hdying hstatus

lemma threadBlock_switches (h : threadBlock s = .ok s') : s.Switches s' := by
  simp only [threadBlock, bind_eq_ok] at h
  obtain ⟨_, _, h⟩ := h
  have hsw := schedule_switches h (by simp [setStatus])
  exact { hsw with }

lemma threadYield_switches (h : threadYield s = .ok s') : s.Switches s' := by
  simp only [threadYield, bind_eq_ok] at h
  obtain ⟨_, _, h⟩ := h
  have hsw := schedule_switches h (by simp [setStatus])
  exact { hsw with }

lemma threadUnblock_switches (h : threadUnblock s t = .ok s') :
    s.Switches s' ∧ s'.current = s.current := by
  simp only [threadUnblock, bind_eq_ok] at h
  obtain ⟨_, _, _, _, h⟩ := h
  obtain rfl := Except.ok.inj h
  exact ⟨⟨rfl, rfl, rfl, rfl, rfl, rfl⟩, rfl⟩

/-- **The end of a thread**: all but the initial thread lose their page. -/
theorem threadExit_eq_ok (h : threadExit s = .ok s') :
    ∃ th, s.threads s.current = some th ∧ s'.nextTid = s.nextTid ∧
      s'.initialThread = s.initialThread ∧ s'.idleThread = s.idleThread ∧
      ((s'.palloc = s.palloc ∧ ∀ u, s'.threads u =
          if u = s.current then some { th with stack := .exited } else s.threads u) ∨
        (s.current ≠ s.initialThread ∧ pallocFreePage s.palloc th.page = .ok s'.palloc ∧
          ∀ u, s'.threads u = if u = s.current then none else s.threads u)) := by
  simp only [threadExit, threadCurrent, bind_eq_ok, get_eq_ok] at h
  obtain ⟨_, ⟨th', hth, _, _, hth'⟩, h⟩ := h
  obtain rfl := Except.ok.inj hth'
  have hgo : ∀ u, (s.goTo .exited).threads u =
      if u = s.current then some { th' with stack := .exited } else s.threads u := by
    intro u
    rw [goTo, threads_modify, hth, Option.map_some]
  rcases schedule_eq_ok h with hsw | ⟨hinit, _, hreap⟩
  · refine ⟨th', hth, hsw.nextTid, hsw.initialThread, hsw.idleThread,
      .inl ⟨hsw.palloc, fun u => ?_⟩⟩
    rw [hsw.threads]
    exact hgo u
  · obtain ⟨th1, hth1, hfree⟩ := hreap.freed
    have hth₁' : some { th' with stack := Where.exited } = some th1 :=
      ((hgo s.current).trans (if_pos rfl)).symm.trans hth1
    cases hth₁'
    refine ⟨th', hth, hreap.nextTid, hreap.initialThread, hreap.idleThread,
      .inr ⟨hinit, hfree, fun u => ?_⟩⟩
    refine (hreap.threads u).trans ?_
    by_cases hu : u = s.current
    · exact (if_pos hu).trans (if_pos hu).symm
    · exact (if_neg hu).trans (((hgo u).trans (if_neg hu)).trans (if_neg hu).symm)

/-- **`sema_down`** decrements, or puts the thread to sleep on a semaphore that is zero. -/
theorem semaDown_eq_ok {r : Bool} (h : semaDown s t f = .ok (r, s')) :
    ∃ th, s.threads t = some th ∧ ∃ waiters, if r then
      (th.sema f).value ≠ 0 ∧
        s' = s.modify t fun th' => th'.setSema ⟨(th.sema f).value - 1, waiters⟩ f
      else (th.sema f).value = 0 ∧
        (s.modify t fun th' => th'.setSema ⟨0, waiters⟩ f).Switches s' := by
  simp only [semaDown, bind_eq_ok, get_eq_ok] at h
  obtain ⟨th, hth, h⟩ := h
  refine ⟨th, hth, ?_⟩
  split_ifs at h with hv
  · rw [bind_eq_ok] at h
    obtain ⟨_, hblock, h⟩ := h
    cases h
    rw [hv] at hblock
    exact ⟨_, hv, threadBlock_switches hblock⟩
  · cases h
    exact ⟨_, hv, rfl⟩

lemma setSema_setSema (th : Thread) (a b : Semaphore) (f : ThreadSema) :
    (th.setSema a f).setSema b f = th.setSema b f := by
  cases f <;> rfl

lemma semaUp_eq_ok (h : semaUp s t f = .ok s') :
    s'.current = s.current ∧ ∃ th, s.threads t = some th ∧ ∃ waiters,
      (s.modify t fun th' => th'.setSema ⟨(th.sema f).value + 1, waiters⟩ f).Switches s' := by
  simp only [semaUp, bind_eq_ok, get_eq_ok] at h
  obtain ⟨th, hth, h⟩ := h
  split at h
  · cases h
    exact ⟨rfl, th, hth, [], .refl _⟩
  · rename_i w rest _
    rw [bind_eq_ok] at h
    obtain ⟨_, hun, h⟩ := h
    cases h
    obtain ⟨hsw, hcur⟩ := threadUnblock_switches hun
    refine ⟨hcur, th, hth, rest, hsw.palloc, funext fun u => ?_, hsw.allList, hsw.initialThread,
      hsw.idleThread, hsw.nextTid⟩
    rw [threads_modify, hsw.threads]
    by_cases hu : u = t
    · simp [threads_modify, hu, hth, setSema_setSema]
    · simp [threads_modify, hu]

/-- What `thread_create` leaves, with the descriptors at `fdTable`. -/
def newThread (page : ℕ) (priority : ℤ) (function : Where) (fdTable : ℕ) : Thread :=
  { page := page, priority := priority, exitStatus := 0, childList := []
    waitSema := semaInit 0, destroySema := semaInit 0, loadSema := semaInit 0
    loadSucceeded := false, nextFd := 2, fdTable := u32 (fdTable + 2 ^ 32 - 4 * 2)
    fds := fun _ => none, stack := function }

structure Creates (s s' : Threads) (priority : ℤ) (function : Where) (page fdTable : ℕ) :
    Prop where
  palloc : ∃ palloc, pallocGetPage s.palloc { PAL_ZERO := true } = .ok (some page, palloc) ∧
    pallocGetMultiple palloc { PAL_ZERO := true } 2 = .ok (some fdTable, s'.palloc)
  threads : ∃ cur, s.threads s.current = some cur ∧ ∀ u, s'.threads u =
    if u = s.current then some { cur with childList := cur.childList ++ [s.nextTid] }
    else if u = s.nextTid then some (newThread page priority function fdTable)
    else s.threads u
  current : s'.current = s.current
  initialThread : s'.initialThread = s.initialThread
  idleThread : s'.idleThread = s.idleThread
  nextTid : s'.nextTid = s.nextTid + 1

structure CreateFails (s s' : Threads) : Prop where
  palloc : pallocGetPage s.palloc { PAL_ZERO := true } = .ok (none, s'.palloc) ∨
    ∃ page p₁ p₂, pallocGetPage s.palloc { PAL_ZERO := true } = .ok (some page, p₁) ∧
      pallocGetMultiple p₁ { PAL_ZERO := true } 2 = .ok (none, p₂) ∧
      pallocFreePage p₂ page = .ok s'.palloc
  threads : s'.threads = s.threads
  current : s'.current = s.current
  initialThread : s'.initialThread = s.initialThread
  idleThread : s'.idleThread = s.idleThread
  nextTid : s.nextTid ≤ s'.nextTid

/-- **Creation** makes a child of the running thread, or leaves the threads as they are. -/
theorem threadCreate_eq_ok (h : threadCreate s priority function = .ok (r, s')) :
    (r = none ∧ s.CreateFails s') ∨
      (r = some s.nextTid ∧ ∃ page fdTable, s.Creates s' priority function page fdTable) := by
  simp only [threadCreate, bind_eq_ok] at h
  obtain ⟨⟨page, p₁⟩, hget, h⟩ := h
  cases page with
  | none =>
    cases h
    exact .inl ⟨rfl, .inl hget, rfl, rfl, rfl, rfl, le_rfl⟩
  | some page =>
    simp only [bind_eq_ok, initThread, ASSERT_eq_ok] at h
    obtain ⟨th, ⟨_, _, _, _, hth⟩, ⟨fdTable, p₂⟩, hfd, h⟩ := h
    cases hth
    cases fdTable with
    | none =>
      simp only [bind_eq_ok] at h
      obtain ⟨_, hfree, h⟩ := h
      cases h
      refine .inl ⟨rfl, .inr ⟨page, p₁, p₂, hget, hfd, hfree⟩, funext fun u => ?_, rfl, rfl, rfl,
        Nat.le_succ _⟩
      -- the tid was not in use
      refine threads_drop.trans ?_
      by_cases hu : u = s.nextTid
      · rw [if_pos hu, hu]
        exact (s.fresh _ le_rfl).symm
      · rw [if_neg hu]
        exact update_of_ne hu ..
    | some fdTable =>
      simp only [bind_eq_ok] at h
      obtain ⟨_, hcur, _, hun, h⟩ := h
      cases h
      obtain ⟨hsw, hcurrent⟩ := threadUnblock_switches hun
      simp only [threadCurrent, bind_eq_ok, get_eq_ok, ASSERT_eq_ok] at hcur
      obtain ⟨th, hth, _, hrun, _⟩ := hcur
      -- the running thread is not the new one, which is blocked
      have hne : s.current ≠ s.nextTid := by
        intro heq
        have hblocked : (s.enter (newThread page priority function fdTable)).status s.current =
            .THREAD_BLOCKED := by
          rw [heq]
          exact update_self ..
        exact absurd (hblocked.symm.trans hrun) (by decide)
      have hth' : s.threads s.current = some th := by
        simpa [modify, enter, hne] using hth
      refine .inr ⟨rfl, page, fdTable, ⟨p₁, hget, hsw.palloc ▸ hfd⟩, ⟨th, hth', fun u => ?_⟩,
        hcurrent, hsw.initialThread, hsw.idleThread, hsw.nextTid⟩
      rw [hsw.threads]
      by_cases hu : u = s.current
      · simp [modify, enter, hu, hne, hth']
      · by_cases hun : u = s.nextTid
        · simp [modify, enter, hun, Ne.symm hne, newThread]
        · simp [modify, enter, hu, hun]

lemma getChildLoop_eq_ok (h : getChildLoop s tid l = .ok r) :
    (∃ c, r = some c ∧ (c : ℤ) = tid ∧ c ∈ l ∧ s.threads c ≠ none) ∨
      (r = none ∧ ∀ c ∈ l, (c : ℤ) ≠ tid) := by
  induction l with
  | nil => exact .inr ⟨(Except.ok.inj h).symm, by simp⟩
  | cons c _ ih =>
    simp only [getChildLoop, bind_eq_ok, get_eq_ok] at h
    obtain ⟨_, hth, h⟩ := h
    split_ifs at h with hc
    · exact .inl ⟨c, (Except.ok.inj h).symm, hc, by simp, by simp [hth]⟩
    · rcases ih h with ⟨c', hr, hc', hmem, hlive⟩ | ⟨hr, hno⟩
      · exact .inl ⟨c', hr, hc', List.mem_cons_of_mem _ hmem, hlive⟩
      · refine .inr ⟨hr, fun c' hc' => ?_⟩
        rcases List.mem_cons.1 hc' with rfl | hc'
        · exact hc
        · exact hno c' hc'

lemma threadGetChild_eq_ok (h : threadGetChild s tid = .ok r) :
    ∃ th, s.threads s.current = some th ∧
      ((∃ c, r = some c ∧ (c : ℤ) = tid ∧ c ∈ th.childList ∧ s.threads c ≠ none) ∨
        (r = none ∧ ∀ c ∈ th.childList, (c : ℤ) ≠ tid)) := by
  simp only [threadGetChild, threadCurrent, bind_eq_ok, get_eq_ok] at h
  obtain ⟨_, ⟨_, hth, _, _, hth'⟩, h⟩ := h
  cases hth'
  exact ⟨_, hth, getChildLoop_eq_ok h⟩

/-! ### The running thread -/

def Running (s : Threads) : Prop :=
  s.status s.current = .THREAD_RUNNING ∧ s.threads s.current ≠ none

lemma Running.threadCurrent (hr : s.Running) (hth : s.threads s.current = some th) :
    threadCurrent s = .ok th := by
  rw [Pintos.threadCurrent, get_eq_ok.2 hth, ok_bind, ASSERT_of hr.1]
  rfl

lemma running_of_threadCurrent (h : threadCurrent s = .ok th) :
    s.Running ∧ s.threads s.current = some th := by
  simp only [Pintos.threadCurrent, bind_eq_ok, ASSERT_eq_ok, get_eq_ok] at h
  obtain ⟨_, hth, _, hstatus, h⟩ := h
  cases h
  exact ⟨⟨hstatus, by rw [hth]; simp⟩, hth⟩

lemma threadScheduleTail_running (h : threadScheduleTail s prev = .ok s')
    (hcur : s.threads s.current ≠ none) : s'.Running := by
  unfold threadScheduleTail at h
  have hstatus : (s.setStatus s.current .THREAD_RUNNING).status s.current = .THREAD_RUNNING :=
    update_self ..
  cases prev with
  | none =>
    cases h
    exact ⟨hstatus, hcur⟩
  | some =>
    simp only [bind_eq_ok, get_eq_ok] at h
    obtain ⟨_, _, h⟩ := h
    split_ifs at h
    · simp only [bind_eq_ok, ASSERT_eq_ok] at h
      obtain ⟨_, hne, _, _, h⟩ := h
      cases h
      refine ⟨hstatus, fun hnone => hcur ?_⟩
      exact (threads_drop.trans (if_neg (Ne.symm hne))).symm.trans hnone
    · cases h
      exact ⟨hstatus, hcur⟩

lemma schedule_running (h : schedule s = .ok s') : s'.Running := by
  simp only [schedule, bind_eq_ok, ASSERT_eq_ok, get_eq_ok] at h
  obtain ⟨_, _, _, hth, h⟩ := h
  have hex : (nextThreadToRun s).2.threads (nextThreadToRun s).1 ≠ none := by simp [hth]
  split_ifs at h with hne
  · exact threadScheduleTail_running h hex
  · exact threadScheduleTail_running h (not_not.1 hne ▸ hex)

lemma threadBlock_running (h : threadBlock s = .ok s') : s'.Running := by
  simp only [threadBlock, bind_eq_ok] at h
  obtain ⟨_, _, h⟩ := h
  exact schedule_running h

lemma threadYield_running (h : threadYield s = .ok s') : s'.Running := by
  simp only [threadYield, bind_eq_ok] at h
  obtain ⟨_, _, h⟩ := h
  exact schedule_running h

lemma threadExit_running (h : threadExit s = .ok s') : s'.Running := by
  simp only [threadExit, bind_eq_ok] at h
  obtain ⟨_, _, h⟩ := h
  exact schedule_running h

section

variable (hr : s.Running)
include hr

lemma threadUnblock_running (h : threadUnblock s t = .ok s') : s'.Running := by
  simp only [threadUnblock, bind_eq_ok, ASSERT_eq_ok] at h
  obtain ⟨_, _, _, hblocked, h⟩ := h
  cases h
  have hne : s.current ≠ t := by
    rintro rfl
    rw [hr.1] at hblocked
    cases hblocked
  exact ⟨(update_of_ne hne ..).trans hr.1, hr.2⟩

lemma Running.modify (f : Thread → Thread) : (s.modify t f).Running := by
  refine ⟨hr.1, fun hnone => hr.2 ?_⟩
  have hnone' : (if s.current = t then (s.threads t).map f else s.threads s.current) = none :=
    (threads_modify f).symm.trans hnone
  split_ifs at hnone' with hct
  · rw [hct]
    exact Option.map_eq_none_iff.1 hnone'
  · exact hnone'

lemma Running.goTo (w : Where) : (s.goTo w).Running := hr.modify _

lemma semaDown_running {r : Bool} (h : semaDown s t f = .ok (r, s')) : s'.Running := by
  simp only [semaDown, bind_eq_ok] at h
  obtain ⟨_, _, h⟩ := h
  split_ifs at h
  · rw [bind_eq_ok] at h
    obtain ⟨_, hblock, h⟩ := h
    cases h
    exact threadBlock_running hblock
  · cases h
    exact hr.modify _

lemma semaUp_running (h : semaUp s t f = .ok s') : s'.Running := by
  simp only [semaUp, bind_eq_ok] at h
  obtain ⟨_, _, h⟩ := h
  split at h
  · cases h
    exact hr.modify _
  · rw [bind_eq_ok] at h
    obtain ⟨_, hun, h⟩ := h
    cases h
    exact (threadUnblock_running (hr.modify _) hun).modify _

lemma threadCreate_running (h : threadCreate s priority function = .ok (r, s')) : s'.Running := by
  have hne : s.current ≠ s.nextTid := fun heq => hr.2 (s.fresh _ heq.ge)
  simp only [threadCreate, bind_eq_ok] at h
  obtain ⟨⟨page, p₁⟩, _, h⟩ := h
  cases page with
  | none =>
    cases h
    exact hr
  | some =>
    simp only [bind_eq_ok] at h
    obtain ⟨th, _, ⟨fdTable, p₂⟩, _, h⟩ := h
    -- the new thread, which is another one, enters
    have henter : (enter { s with palloc := p₁ } th).Running := ⟨(update_of_ne hne ..).trans hr.1,
        fun hnone => hr.2 ((update_of_ne hne ..).symm.trans hnone)⟩
    cases fdTable with
    | none =>
      simp only [bind_eq_ok] at h
      obtain ⟨_, _, h⟩ := h
      cases h
      refine ⟨henter.1, fun hnone => henter.2 ?_⟩
      exact (threads_drop.trans (if_neg hne)).symm.trans hnone
    | some =>
      simp only [bind_eq_ok] at h
      obtain ⟨_, _, _, hun, h⟩ := h
      cases h
      have hpalloc : Running { enter { s with palloc := p₁ } th with palloc := p₂ } := henter
      exact threadUnblock_running ((hpalloc.modify _).modify _) hun

end

lemma getChildLoop_of_exist (tid : ℤ) (h : ∀ c ∈ l, s.threads c ≠ none) :
    ∃ r, getChildLoop s tid l = .ok r := by
  induction l with
  | nil => exact ⟨none, rfl⟩
  | cons c _ ih =>
    obtain ⟨r, hr⟩ := ih fun c' hc' => h c' (List.mem_cons_of_mem _ hc')
    obtain ⟨_, hth⟩ := Option.ne_none_iff_exists'.1 (h c List.mem_cons_self)
    by_cases hc : (c : ℤ) = tid
    · exact ⟨some c, by rw [getChildLoop, get_eq_ok.2 hth, ok_bind, if_pos hc]; rfl⟩
    · exact ⟨r, by rw [getChildLoop, get_eq_ok.2 hth, ok_bind, if_neg hc, hr]⟩

theorem threadGetChild_of_exist (hr : s.Running) (hth : s.threads s.current = some th)
    (h : ∀ c ∈ th.childList, s.threads c ≠ none) : ∃ r, threadGetChild s tid = .ok r := by
  obtain ⟨r, hloop⟩ := getChildLoop_of_exist tid h
  refine ⟨r, ?_⟩
  rw [threadGetChild, hr.threadCurrent hth, ok_bind, hloop]

/-! ### The start -/

/-- What `thread_start` leaves: the initial thread runs, and the idle thread is blocked. -/
def boot (palloc : Palloc) (page idlePage idleFd : ℕ) : Threads where
  palloc := palloc
  threads t :=
    if t = 1 then some { newThread page PRI_DEFAULT .run 0 with
      nextFd := 0, fdTable := 0, childList := [2] }
    else if t = 2 then some (newThread idlePage PRI_MIN .idle idleFd)
    else none
  status t := if t = 1 then .THREAD_RUNNING else .THREAD_BLOCKED
  current := 1
  readyList := []
  allList := [1, 2]
  initialThread := 1
  idleThread := 2
  nextTid := 3
  fresh t ht := by rw [if_neg (by omega), if_neg (by omega)]

end Threads

end Pintos
