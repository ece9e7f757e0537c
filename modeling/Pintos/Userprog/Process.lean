/-
# Processes

`userprog/process.c` and the system calls `exec`, `wait`, `exit`, `open` and `close` of
`userprog/syscall.c`, with `kill` of `userprog/exception.c`.

A `System` is the threads, the open counts of the inodes, and a record that the kernel does not
keep: who created whom, what `load` returned, the status each process ended with, and what `exec`
and `process_wait` returned.  A step of the running thread runs up to the next place where it may be
interrupted, so a run is any interleaving; a step that would halt the machine ends it.
-/

import Pintos.Base.Run
import Pintos.Threads.Thread
import Pintos.Threads.PallocSafety

namespace Pintos.Userprog

open Base Kernel Function

def TID_ERROR : ℤ := -1

/-! ### The functions -/

def processExecute (s : Threads) : Kernel (Option ℕ × Threads) := do
  let (params, palloc) ← pallocGetPage s.palloc { PAL_ZERO := true }
  let s := { s with palloc := palloc }
  match params with
  | none => return (none, s)
  | some params => do
    let (tid, s) ← threadCreate s PRI_DEFAULT (.load params)
    match tid with
    | none => do
      let palloc ← pallocFreePage s.palloc params
      return (none, { s with palloc := palloc })
    | some tid => return (some tid, s)

def execDown (s : Threads) (child : ℕ) : Kernel Threads := do
  let (down, s) ← semaDown s child .load
  return if down then s.goTo (.execRead child) else s

def execRead (s : Threads) (child : ℕ) : Kernel (ℤ × Threads) := do
  let th ← s.get child
  return (if th.loadSucceeded then child else TID_ERROR, s.goTo .run)

def startUp (s : Threads) (params : ℕ) (success : Bool) : Kernel Threads := do
  let s ← semaUp s s.current .load
  return s.goTo (.startRest params success)

/-- `start_process`, after the semaphore: to the user program, or to `thread_exit`. -/
def startRest (s : Threads) (params : ℕ) (success : Bool) : Kernel Threads := do
  let palloc ← pallocFreePage s.palloc params
  return { s with palloc := palloc }.goTo (if success then .run else .exit)

def waitDown (s : Threads) (child : ℕ) : Kernel Threads := do
  let (down, s) ← semaDown s child .wait
  return if down then s.goTo (.waitRest child) else s

def waitRest (s : Threads) (child : ℕ) : Kernel (ℤ × Threads) := do
  let th ← s.get child
  let s := s.modify s.current fun th => { th with childList := th.childList.erase child }
  let s ← semaUp s child .destroy
  return (th.exitStatus, s.goTo .run)

def exit (s : Threads) (status : ℤ) : Threads :=
  (s.modify s.current fun th => { th with exitStatus := status }).goTo .exit

def FD_MAX : ℕ := 2 * PGSIZE / 4

def processAddFile (s : Threads) (file : Option ℕ) : Kernel (ℤ × Threads) :=
  match file with
  | none => return (-1, s)
  | some f => do
    let th ← threadCurrent s
    let fd := th.nextFd
    if 2 ≤ fd ∧ fd < FD_MAX + 2 then
      return (fd, s.modify s.current fun th =>
        { th with nextFd := fd + 1, fds := update th.fds fd (some f) })
    else PANIC "fd_table: out of bounds"

def processCloseFile (s : Threads) (fd : ℤ) : Kernel (Option ℕ × Threads) := do
  let th ← threadCurrent s
  if fd ≤ 1 ∨ (th.nextFd : ℤ) ≤ fd then return (none, s)
  else return (th.fds fd.toNat, s.modify s.current fun th =>
    { th with fds := update th.fds fd.toNat none })

/-! ### The system -/

/-- A return of `process_wait`: who called, for which tid, whether that was a child not waited for,
and the result. -/
structure WaitReturn where
  caller : ℕ
  tid : ℤ
  first : Bool
  result : ℤ
deriving DecidableEq, Repr

structure System where
  kernel : Threads
  /-- `open_cnt` of the inode at each sector. -/
  openCnt : ℕ → ℕ
  /-- The pages held by kernel code other than `thread_create` and `process_execute`. -/
  own : List Allocation
  /-- The thread that created each thread. -/
  parent : ℕ → Option ℕ
  /-- The status each process passed to `exit`, or `-1` from `kill`. -/
  reported : ℕ → Option ℤ
  /-- What `load` returned in each process. -/
  loads : ℕ → Option Bool
  /-- The returns of `exec`: the child, if any, and the result. -/
  execs : List (Option ℕ × ℤ)
  waits : List WaitReturn

namespace System

def bear (s : System) (kernel : Threads) (r : Option ℕ) : System :=
  { s with
    kernel := kernel
    parent := match r with
      | some t => update s.parent t (some s.kernel.current)
      | none => s.parent }

def awaits (s : System) (tid : ℤ) : Bool :=
  decide (0 ≤ tid ∧ s.parent tid.toNat = some s.kernel.current) &&
    s.waits.all fun w => !(w.first && w.caller == s.kernel.current && w.tid == tid)

def returns (s : System) (kernel : Threads) (tid result : ℤ) : System :=
  { s with
    kernel := kernel
    waits := ⟨s.kernel.current, tid, s.awaits tid, result⟩ :: s.waits }

end System

inductive Action
  /-- A timer interrupt makes it yield. -/
  | yield
  /-- It goes on in the kernel function it is in. -/
  | go
  /-- `load` returns. -/
  | loaded (success : Bool)
  | create (priority : ℤ)
  /-- It calls `process_execute`, as `run_task` does. -/
  | execute
  | exec
  | wait (tid : ℤ)
  | exit (status : ℤ)
  /-- It raises an exception, and `kill` ends it. -/
  | kill
  /-- Its function returns to `kernel_thread`. -/
  | leave
  /-- It takes pages, for example in `malloc` or `pagedir_create`. -/
  | get (flags : PallocFlags) (pageCnt : ℕ)
  /-- It gives pages back, for example in `free` or `process_exit`. -/
  | free (a : Allocation)
  /-- It makes the system call `open`, and `filesys_open` finds the inode at a sector. -/
  | opens (file : Option ℕ)
  | close (fd : ℤ)

inductive System.Step : System → Action → System → Prop
  | yield {s : System} {k : Threads} : ¬ s.kernel.At .exited → threadYield s.kernel = .ok k →
      Step s .yield { s with kernel := k }
  | idle {s : System} {k : Threads} : s.kernel.At .idle → threadBlock s.kernel = .ok k →
      Step s .go { s with kernel := k }
  | create {s : System} {priority : ℤ} {r : Option ℕ} {k : Threads} : s.kernel.At .run →
      threadCreate s.kernel priority .run = .ok (r, k) → Step s (.create priority) (s.bear k r)
  | execute {s : System} {r : Option ℕ} {k : Threads} : s.kernel.At .run →
      processExecute s.kernel = .ok (r, k) → Step s .execute (s.bear k r)
  | execError {s : System} {k : Threads} : s.kernel.At .run →
      processExecute s.kernel = .ok (none, k) →
      Step s .exec { s with kernel := k, execs := (none, TID_ERROR) :: s.execs }
  | exec {s : System} {t : ℕ} {k : Threads} : s.kernel.At .run →
      processExecute s.kernel = .ok (some t, k) →
      Step s .exec (s.bear (k.goTo (.execGetChild t)) (some t))
  | execGetChild {s : System} {tid child : ℕ} : s.kernel.At (.execGetChild tid) →
      threadGetChild s.kernel tid = .ok (some child) →
      Step s .go { s with kernel := s.kernel.goTo (.execDown child) }
  | execDown {s : System} {child : ℕ} {k : Threads} : s.kernel.At (.execDown child) →
      execDown s.kernel child = .ok k → Step s .go { s with kernel := k }
  | execRead {s : System} {child : ℕ} {r : ℤ} {k : Threads} : s.kernel.At (.execRead child) →
      execRead s.kernel child = .ok (r, k) →
      Step s .go { s with kernel := k, execs := (some child, r) :: s.execs }
  | waitNone {s : System} {tid : ℤ} : s.kernel.At .run →
      threadGetChild s.kernel tid = .ok none → Step s (.wait tid) (s.returns s.kernel tid (-1))
  | wait {s : System} {tid : ℤ} {child : ℕ} : s.kernel.At .run →
      threadGetChild s.kernel tid = .ok (some child) →
      Step s (.wait tid) { s with kernel := s.kernel.goTo (.waitDown child) }
  | waitDown {s : System} {child : ℕ} {k : Threads} : s.kernel.At (.waitDown child) →
      waitDown s.kernel child = .ok k → Step s .go { s with kernel := k }
  | waitRest {s : System} {child : ℕ} {r : ℤ} {k : Threads} : s.kernel.At (.waitRest child) →
      waitRest s.kernel child = .ok (r, k) → Step s .go (s.returns k child r)
  | loaded {s : System} {params : ℕ} {success : Bool} : s.kernel.At (.load params) →
      Step s (.loaded success)
        { s with
          kernel := s.kernel.goTo (.loadUp params success)
          loads := update s.loads s.kernel.current (some success) }
  | startUp {s : System} {params : ℕ} {success : Bool} {k : Threads} :
      s.kernel.At (.loadUp params success) → startUp s.kernel params success = .ok k →
      Step s .go { s with kernel := k }
  | startRest {s : System} {params : ℕ} {success : Bool} {k : Threads} :
      s.kernel.At (.startRest params success) → startRest s.kernel params success = .ok k →
      Step s .go { s with kernel := k }
  | exit {s : System} {status : ℤ} : s.kernel.At .run →
      Step s (.exit status)
        { s with
          kernel := Userprog.exit s.kernel status
          reported := update s.reported s.kernel.current (some status) }
  | kill {s : System} : s.kernel.At .run →
      Step s .kill
        { s with
          kernel := s.kernel.goTo .exit
          reported := update s.reported s.kernel.current (some (-1)) }
  | leave {s : System} : s.kernel.At .run →
      Step s .leave { s with kernel := s.kernel.goTo .exit }
  | exited {s : System} {k : Threads} : s.kernel.At .exit → threadExit s.kernel = .ok k →
      Step s .go { s with kernel := k }
  | get {s : System} {flags : PallocFlags} {n : ℕ} {r : Option ℕ} {palloc : Palloc} :
      ¬ s.kernel.At .exited → pallocGetMultiple s.kernel.palloc flags n = .ok (r, palloc) →
      Step s (.get flags n)
        { s with
          kernel := { s.kernel with palloc := palloc }
          own := (r.map fun pages => ⟨pages, n, flags.PAL_USER⟩).toList ++ s.own }
  | free {s : System} {a : Allocation} {palloc : Palloc} : ¬ s.kernel.At .exited → a ∈ s.own →
      pallocFreeMultiple s.kernel.palloc a.pages a.pageCnt = .ok palloc →
      Step s (.free a)
        { s with kernel := { s.kernel with palloc := palloc }, own := s.own.erase a }
  | opens {s : System} {file : Option ℕ} {fd : ℤ} {k : Threads} : s.kernel.At .run →
      processAddFile s.kernel file = .ok (fd, k) →
      Step s (.opens file)
        { s with
          kernel := k
          openCnt := fun i => if i ∈ file then s.openCnt i + 1 else s.openCnt i }
  | close {s : System} {fd : ℤ} {file : Option ℕ} {k : Threads} : s.kernel.At .run →
      processCloseFile s.kernel fd = .ok (file, k) →
      Step s (.close fd)
        { s with
          kernel := k
          openCnt := fun i => if i ∈ file then s.openCnt i - 1 else s.openCnt i }

/-! ### Running the system -/

namespace System

def goOn (s : System) : Where → Kernel System
  | .idle => do
    let k ← threadBlock s.kernel
    return { s with kernel := k }
  | .execGetChild tid => do
    match ← threadGetChild s.kernel tid with
    | some child => return { s with kernel := s.kernel.goTo (.execDown child) }
    | none => PANIC "assertion failed."
  | .execDown child => do
    let k ← Userprog.execDown s.kernel child
    return { s with kernel := k }
  | .execRead child => do
    let (r, k) ← Userprog.execRead s.kernel child
    return { s with kernel := k, execs := (some child, r) :: s.execs }
  | .waitDown child => do
    let k ← Userprog.waitDown s.kernel child
    return { s with kernel := k }
  | .waitRest child => do
    let (r, k) ← Userprog.waitRest s.kernel child
    return s.returns k child r
  | .loadUp params success => do
    let k ← Userprog.startUp s.kernel params success
    return { s with kernel := k }
  | .startRest params success => do
    let k ← Userprog.startRest s.kernel params success
    return { s with kernel := k }
  | .exit => do
    let k ← threadExit s.kernel
    return { s with kernel := k }
  | _ => PANIC "the running thread is not in a kernel function that goes on"

def call (s : System) : Action → Kernel System
  | .create priority => do
    let (r, k) ← threadCreate s.kernel priority .run
    return s.bear k r
  | .execute => do
    let (r, k) ← processExecute s.kernel
    return s.bear k r
  | .exec => do
    match ← processExecute s.kernel with
    | (none, k) => return { s with kernel := k, execs := (none, TID_ERROR) :: s.execs }
    | (some t, k) => return s.bear (k.goTo (.execGetChild t)) (some t)
  | .wait tid => do
    match ← threadGetChild s.kernel tid with
    | none => return s.returns s.kernel tid (-1)
    | some child => return { s with kernel := s.kernel.goTo (.waitDown child) }
  | .exit status => return { s with
      kernel := Userprog.exit s.kernel status
      reported := update s.reported s.kernel.current (some status) }
  | .kill => return { s with
      kernel := s.kernel.goTo .exit
      reported := update s.reported s.kernel.current (some (-1)) }
  | .leave => return { s with kernel := s.kernel.goTo .exit }
  | _ => PANIC "not a call"

/-- A step of the running thread, computed, but for `get`, `free`, `opens` and `close`. -/
def next (s : System) (a : Action) : Kernel System := do
  let th ← s.kernel.get s.kernel.current
  match a, th.stack with
  | .yield, .exited => PANIC "executed an unreachable statement"
  | .yield, _ => do
    let k ← threadYield s.kernel
    return { s with kernel := k }
  | .go, w => s.goOn w
  | .loaded success, .load params => return { s with
      kernel := s.kernel.goTo (.loadUp params success)
      loads := update s.loads s.kernel.current (some success) }
  | a, .run => s.call a
  | _, _ => PANIC "not possible here"

def runAll (test : System → Action → Bool) (s : System) : List Action → Kernel System
  | [] => return s
  | a :: rest => do
    ASSERT (test s a = true)
    let s ← s.next a
    runAll test s rest

def noTest (_ : System) (_ : Action) : Bool := true

lemma noTest_always (s : System) (a : Action) (_ : noTest s a = true) : Always s a := trivial

variable {s s' : System} {a : Action}

lemma goOn_step {w : Where} (hat : s.kernel.At w) (h : s.goOn w = .ok s') : Step s .go s' := by
  cases w with
  | run => cases h
  | idle =>
    obtain ⟨k, hk, h⟩ := bind_eq_ok.1 h
    cases h
    exact .idle hat hk
  | execGetChild =>
    obtain ⟨r, hr, h⟩ := bind_eq_ok.1 h
    cases r with
    | none => cases h
    | some =>
      cases h
      exact .execGetChild hat hr
  | execDown =>
    obtain ⟨k, hk, h⟩ := bind_eq_ok.1 h
    cases h
    exact .execDown hat hk
  | execRead =>
    obtain ⟨⟨r, k⟩, hk, h⟩ := bind_eq_ok.1 h
    cases h
    exact .execRead hat hk
  | waitDown =>
    obtain ⟨k, hk, h⟩ := bind_eq_ok.1 h
    cases h
    exact .waitDown hat hk
  | waitRest =>
    obtain ⟨⟨r, k⟩, hk, h⟩ := bind_eq_ok.1 h
    cases h
    exact .waitRest hat hk
  | load => cases h
  | loadUp =>
    obtain ⟨k, hk, h⟩ := bind_eq_ok.1 h
    cases h
    exact .startUp hat hk
  | startRest =>
    obtain ⟨k, hk, h⟩ := bind_eq_ok.1 h
    cases h
    exact .startRest hat hk
  | exit =>
    obtain ⟨k, hk, h⟩ := bind_eq_ok.1 h
    cases h
    exact .exited hat hk
  | exited => cases h

lemma call_step (hat : s.kernel.At .run) (h : s.call a = .ok s') : Step s a s' := by
  cases a with
  | create =>
    obtain ⟨⟨r, k⟩, hk, h⟩ := bind_eq_ok.1 h
    cases h
    exact .create hat hk
  | execute =>
    obtain ⟨⟨r, k⟩, hk, h⟩ := bind_eq_ok.1 h
    cases h
    exact .execute hat hk
  | exec =>
    obtain ⟨⟨r, k⟩, hk, h⟩ := bind_eq_ok.1 h
    cases r with
    | none =>
      cases h
      exact .execError hat hk
    | some =>
      cases h
      exact .exec hat hk
  | wait =>
    obtain ⟨r, hr, h⟩ := bind_eq_ok.1 h
    cases r with
    | none =>
      cases h
      exact .waitNone hat hr
    | some =>
      cases h
      exact .wait hat hr
  | exit =>
    cases h
    exact .exit hat
  | kill =>
    cases h
    exact .kill hat
  | leave =>
    cases h
    exact .leave hat
  | yield | go | loaded | get | free | opens | close => cases h

lemma next_step (h : s.next a = .ok s') : Step s a s' := by
  simp only [next, bind_eq_ok, Threads.get_eq_ok] at h
  obtain ⟨th, hth, h⟩ := h
  split at h
  · cases h
  · rename_i hne
    obtain ⟨k, hk, h⟩ := bind_eq_ok.1 h
    cases h
    refine .yield ?_ hk
    rintro ⟨_, hth', hx⟩
    obtain rfl := Option.mem_unique hth hth'
    exact hne hx
  · exact goOn_step ⟨th, hth, rfl⟩ h
  · rename_i hst
    cases h
    exact .loaded ⟨th, hth, hst⟩
  · rename_i hst
    exact call_step ⟨th, hth, hst⟩ h
  · cases h

lemma runAll_reaches {Meets : System → Action → Prop} {test : System → Action → Bool}
    (htest : ∀ s a, test s a = true → Meets s a) {s0 : System} {l : List Action}
    (h0 : Reaches Step Meets s0 s) (h : runAll test s l = .ok s') : Reaches Step Meets s0 s' := by
  induction l generalizing s with
  | nil =>
    cases h
    exact h0
  | cons a _ ih =>
    simp only [runAll, bind_eq_ok, ASSERT_eq_ok] at h
    obtain ⟨_, ht, _, hs1, h⟩ := h
    exact ih (h0.step (next_step hs1) (htest s a ht)) h

end System

end Userprog

/-! ### What a step does to the threads -/

/-- A thread before and after another's step: threads may come to wait on its semaphores. -/
structure Thread.Evolves (th th' : Thread) : Prop where
  page : th'.page = th.page
  childList : th'.childList = th.childList
  stack : th'.stack = th.stack
  loadSucceeded : th'.loadSucceeded = th.loadSucceeded
  waitValue : th'.waitSema.value = th.waitSema.value
  loadValue : th'.loadSema.value = th.loadSema.value

lemma Thread.Evolves.refl (th : Thread) : th.Evolves th := ⟨rfl, rfl, rfl, rfl, rfl, rfl⟩

variable {th' : Thread}

lemma Thread.Evolves.trans {th th'' : Thread} (h : th.Evolves th') (h' : th'.Evolves th'') :
    th.Evolves th'' :=
  ⟨h'.page.trans h.page, h'.childList.trans h.childList, h'.stack.trans h.stack,
    h'.loadSucceeded.trans h.loadSucceeded, h'.waitValue.trans h.waitValue,
    h'.loadValue.trans h.loadValue⟩

namespace Threads

open Base Userprog Kernel

variable {s s' s'' : Threads} {t u : ℕ} {w : Where} {f : Thread → Thread}

/-- The threads are the same, up to who waits for them and what nobody else sees. -/
structure Evolves (s s' : Threads) : Prop where
  kept : ∀ u th, s.threads u = some th → ∃ th', s'.threads u = some th' ∧ th.Evolves th'
  absent : ∀ u, s.threads u = none → s'.threads u = none
  nextTid : s.nextTid ≤ s'.nextTid
  initialThread : s'.initialThread = s.initialThread

namespace Evolves

lemma refl (s : Threads) : s.Evolves s :=
  ⟨fun _ th h => ⟨th, h, .refl th⟩, fun _ h => h, le_rfl, rfl⟩

lemma of_eq (h : s' = s) : s.Evolves s' := h ▸ refl s

lemma trans (h : s.Evolves s') (h' : s'.Evolves s'') : s.Evolves s'' := by
  refine ⟨fun u th hu => ?_, fun u hu => h'.absent u (h.absent u hu), h.nextTid.trans h'.nextTid,
    h'.initialThread.trans h.initialThread⟩
  obtain ⟨th', hu', he⟩ := h.kept u th hu
  obtain ⟨th'', hu'', he'⟩ := h'.kept u th' hu'
  exact ⟨th'', hu'', he.trans he'⟩

lemma back (h : s.Evolves s') (hu : s'.threads u = some th') :
    ∃ th, s.threads u = some th ∧ th.Evolves th' := by
  cases hth : s.threads u with
  | none =>
    rw [h.absent u hth] at hu
    cases hu
  | some th =>
    obtain ⟨_, hu1, he⟩ := h.kept u th hth
    obtain rfl := Option.mem_unique hu hu1
    exact ⟨th, rfl, he⟩

lemma of_threads (hthreads : s'.threads = s.threads) (hnext : s.nextTid ≤ s'.nextTid)
    (hinit : s'.initialThread = s.initialThread) : s.Evolves s' :=
  ⟨fun u th h => ⟨th, by rw [hthreads, h], .refl th⟩, fun u h => by rw [hthreads, h], hnext, hinit⟩

lemma of_switches (h : s.Switches s') : s.Evolves s' :=
  of_threads h.threads h.nextTid.ge h.initialThread

lemma of_modify (hf : ∀ th, s.threads t = some th → th.Evolves (f th)) :
    s.Evolves (s.modify t f) := by
  refine ⟨fun u th hu => ?_, fun u hu => ?_, le_rfl, rfl⟩
  · rw [threads_modify]
    by_cases hut : u = t
    · subst hut
      exact ⟨f th, by rw [if_pos rfl, hu, Option.map_some], hf th hu⟩
    · exact ⟨th, by rw [if_neg hut, hu], .refl th⟩
  · rw [threads_modify]
    by_cases hut : u = t
    · rw [if_pos hut, ← hut, hu, Option.map_none]
    · rw [if_neg hut, hu]

end Evolves

lemma At.modify (h : s.At w) (hf : ∀ th, (f th).stack = th.stack) : (s.modify t f).At w := by
  obtain ⟨th, hth, rfl⟩ := h
  by_cases ht : s.current = t
  · exact ⟨f th, by rw [threads_modify]; simp [Threads.modify, ← ht, hth], hf th⟩
  · exact ⟨th, (threads_modify f).trans ((if_neg ht).trans hth), rfl⟩

lemma threads_goTo : (s.goTo w).threads u =
    if u = s.current then (s.threads s.current).map (fun th => { th with stack := w })
    else s.threads u := threads_modify _

lemma Evolves.moved (h : (s.goTo w).Evolves s') (hu : s'.threads u = some th') :
    ∃ th, s.threads u = some th ∧
      if u = s.current then Thread.Evolves { th with stack := w } th' else th.Evolves th' := by
  obtain ⟨th, hth, _⟩ := h.back hu
  rw [threads_goTo] at hth
  split_ifs at hth with huc
  · rw [Option.map_eq_some_iff] at hth
    obtain ⟨th0, hth0, rfl⟩ := hth
    exact ⟨th0, huc ▸ hth0, by rwa [if_pos huc]⟩
  · exact ⟨th, hth, by rwa [if_neg huc]⟩

lemma Evolves.goTo (h : s.Evolves s') (hcur : s'.current = s.current) :
    (s.goTo w).Evolves (s'.goTo w) := by
  refine ⟨fun u th hu => ?_, fun u hu => ?_, h.nextTid, h.initialThread⟩
  · rw [threads_goTo] at hu ⊢
    rw [hcur]
    split_ifs at hu ⊢
    · rw [Option.map_eq_some_iff] at hu
      obtain ⟨th0, hth0, rfl⟩ := hu
      obtain ⟨th', hth', he⟩ := h.kept _ th0 hth0
      refine ⟨{ th' with stack := w }, by rw [hth', Option.map_some], ?_⟩
      exact ⟨he.page, he.childList, rfl, he.loadSucceeded, he.waitValue, he.loadValue⟩
    · exact h.kept u th hu
  · rw [threads_goTo] at hu ⊢
    rw [hcur]
    split_ifs at hu ⊢
    · rw [Option.map_eq_none_iff] at hu
      rw [h.absent _ hu, Option.map_none]
    · exact h.absent u hu

end Threads

lemma Thread.setSema_evolves (th : Thread) {f : ThreadSema} {sema : Semaphore}
    (hsema : sema.value = (th.sema f).value) : th.Evolves (th.setSema sema f) := by
  cases f with
  | wait => exact ⟨rfl, rfl, rfl, rfl, hsema, rfl⟩
  | destroy => exact ⟨rfl, rfl, rfl, rfl, rfl, rfl⟩
  | load => exact ⟨rfl, rfl, rfl, rfl, rfl, hsema⟩

namespace Userprog

open Base Threads Kernel

variable {s s' : Threads} {child params : ℕ} {success : Bool} {f : ThreadSema} {file r : Option ℕ}
  {fd : ℤ}

lemma semaDown_evolves (h : semaDown s child f = .ok (false, s')) : s.Evolves s' := by
  obtain ⟨_, hth, waiters, hzero, hsw⟩ := semaDown_eq_ok h
  have hmod : s.Evolves (s.modify child fun th' => th'.setSema ⟨0, waiters⟩ f) := by
    refine .of_modify fun th' hth' => th'.setSema_evolves ?_
    obtain rfl := Option.mem_unique hth hth'
    exact hzero.symm
  exact hmod.trans (.of_switches hsw)

lemma execDown_eq_ok (h : execDown s child = .ok s') :
    s.Evolves s' ∨ ∃ th sema, s.threads child = some th ∧ th.loadSema.value = sema.value + 1 ∧
      s' = (s.modify child fun th' => th'.setSema sema .load).goTo (.execRead child) := by
  simp only [execDown, bind_eq_ok] at h
  obtain ⟨⟨down, _⟩, hdown, h⟩ := h
  cases h
  cases down with
  | false => exact .inl (semaDown_evolves hdown)
  | true =>
    obtain ⟨th, hth, waiters, hpos, rfl⟩ := semaDown_eq_ok hdown
    exact .inr ⟨th, ⟨th.loadSema.value - 1, waiters⟩, hth,
      (Nat.sub_one_add_one_eq_of_pos (Nat.pos_of_ne_zero hpos)).symm, rfl⟩

lemma execRead_eq_ok {r : ℤ} (h : execRead s child = .ok (r, s')) :
    s' = s.goTo .run ∧ ∃ th, s.threads child = some th ∧
      r = if th.loadSucceeded then (child : ℤ) else TID_ERROR := by
  simp only [execRead, bind_eq_ok, get_eq_ok] at h
  obtain ⟨th, hth, h⟩ := h
  cases h
  exact ⟨rfl, th, hth, rfl⟩

lemma waitDown_eq_ok (h : waitDown s child = .ok s') :
    s.Evolves s' ∨ ∃ th, s.threads child = some th ∧ th.waitSema.value ≠ 0 := by
  simp only [waitDown, bind_eq_ok] at h
  obtain ⟨⟨down, _⟩, hdown, h⟩ := h
  cases h
  cases down with
  | false => exact .inl (semaDown_evolves hdown)
  | true =>
    obtain ⟨th, hth, _, hpos, _⟩ := semaDown_eq_ok hdown
    exact .inr ⟨th, hth, hpos⟩

lemma startUp_eq_ok (h : startUp s params success = .ok s') :
    ∃ th sema, s.threads s.current = some th ∧ sema.value = th.loadSema.value + 1 ∧
      ((s.modify s.current fun th' => th'.setSema sema .load).goTo
        (.startRest params success)).Evolves s' := by
  simp only [startUp, bind_eq_ok] at h
  obtain ⟨_, hup, h⟩ := h
  cases h
  obtain ⟨hcur, th, hth, _, hsw⟩ := semaUp_eq_ok hup
  exact ⟨th, _, hth, rfl, (Evolves.of_switches hsw).goTo hcur⟩

lemma startRest_eq_ok (h : startRest s params success = .ok s') :
    ∃ palloc, pallocFreePage s.palloc params = .ok palloc ∧
      s' = { s with palloc := palloc }.goTo (if success then .run else .exit) := by
  simp only [startRest, bind_eq_ok] at h
  obtain ⟨palloc, hfree, h⟩ := h
  exact ⟨palloc, hfree, (Except.ok.inj h).symm⟩

lemma exit_evolves (s : Threads) (status : ℤ) : (s.goTo .exit).Evolves (exit s status) := by
  have he : s.Evolves (s.modify s.current fun th => { th with exitStatus := status }) :=
    .of_modify fun _ _ => ⟨rfl, rfl, rfl, rfl, rfl, rfl⟩
  exact he.goTo rfl

def Describes (s s' : Threads) : Prop :=
  s' = s ∨ ∃ (n : Thread → ℕ) (g : Thread → ℕ → Option ℕ),
    s' = s.modify s.current fun th => { th with nextFd := n th, fds := g th }

lemma processAddFile_describes (h : processAddFile s file = .ok (fd, s')) : Describes s s' := by
  cases file with
  | none =>
    cases h
    exact .inl rfl
  | some =>
    simp only [processAddFile, bind_eq_ok] at h
    obtain ⟨_, _, h⟩ := h
    split_ifs at h
    · cases h
      exact .inr ⟨_, _, rfl⟩
    · cases h

lemma processCloseFile_describes (h : processCloseFile s fd = .ok (file, s')) :
    Describes s s' := by
  obtain ⟨_, _, h⟩ := bind_eq_ok.1 h
  split_ifs at h
  · cases h
    exact .inl rfl
  · cases h
    exact .inr ⟨_, _, rfl⟩

lemma Describes.evolves (h : Describes s s') : s.Evolves s' := by
  obtain rfl | ⟨n, g, rfl⟩ := h
  · exact .refl _
  · exact .of_modify fun _ _ => ⟨rfl, rfl, rfl, rfl, rfl, rfl⟩

/-- A process was not created, and what it got was given back. -/
structure ExecuteFails (s s' : Threads) : Prop where
  palloc : pallocGetPage s.palloc { PAL_ZERO := true } = .ok (none, s'.palloc) ∨
    ∃ params p₁ s₁, pallocGetPage s.palloc { PAL_ZERO := true } = .ok (some params, p₁) ∧
      CreateFails { s with palloc := p₁ } s₁ ∧ pallocFreePage s₁.palloc params = .ok s'.palloc
  threads : s'.threads = s.threads
  current : s'.current = s.current
  initialThread : s'.initialThread = s.initialThread
  nextTid : s.nextTid ≤ s'.nextTid

/-- **Creating a process**: a page for the parameters, and a thread. -/
theorem processExecute_eq_ok (h : processExecute s = .ok (r, s')) : (r = none ∧ ExecuteFails s s') ∨
      (r = some s.nextTid ∧ ∃ params p₁ page fdTable,
        pallocGetPage s.palloc { PAL_ZERO := true } = .ok (some params, p₁) ∧
          Creates { s with palloc := p₁ } s' PRI_DEFAULT (.load params) page fdTable) := by
  simp only [processExecute, bind_eq_ok] at h
  obtain ⟨⟨params, p₁⟩, hget, h⟩ := h
  cases params with
  | none =>
    cases h
    exact .inl ⟨rfl, .inl hget, rfl, rfl, rfl, le_rfl⟩
  | some params =>
    simp only [bind_eq_ok] at h
    obtain ⟨⟨_, s₁⟩, hcreate, h⟩ := h
    rcases threadCreate_eq_ok hcreate with ⟨rfl, hf⟩ | ⟨rfl, page, fdTable, hc⟩
    · simp only [bind_eq_ok] at h
      obtain ⟨_, hfree, h⟩ := h
      cases h
      exact .inl ⟨rfl, .inr ⟨params, p₁, s₁, hget, hf, hfree⟩, hf.threads, hf.current,
        hf.initialThread, hf.nextTid⟩
    · cases h
      exact .inr ⟨rfl, params, p₁, page, fdTable, hget, hc⟩

/-! ### The running thread -/

section

variable (hr : s.Running)
include hr

lemma processExecute_running (h : processExecute s = .ok (r, s')) : s'.Running := by
  simp only [processExecute, bind_eq_ok] at h
  obtain ⟨⟨params, p₁⟩, _, h⟩ := h
  cases params with
  | none =>
    cases h
    exact hr
  | some =>
    simp only [bind_eq_ok] at h
    obtain ⟨⟨tid, s₁⟩, hcreate, h⟩ := h
    have hr1 : Running { s with palloc := p₁ } := hr
    have hr2 : s₁.Running := threadCreate_running hr1 hcreate
    cases tid with
    | none =>
      simp only [bind_eq_ok] at h
      obtain ⟨_, _, h⟩ := h
      cases h
      exact hr2
    | some =>
      cases h
      exact hr2

lemma down_running {w : Where} (h : (do
    let (down, s) ← semaDown s child f
    return if down then s.goTo w else s) = .ok s') : s'.Running := by
  obtain ⟨⟨down, _⟩, hdown, h⟩ := bind_eq_ok.1 h
  cases h
  have hr1 := semaDown_running hr hdown
  cases down with
  | false => exact hr1
  | true => exact hr1.goTo _

lemma waitRest_running {r : ℤ} (h : waitRest s child = .ok (r, s')) : s'.Running := by
  simp only [waitRest, bind_eq_ok] at h
  obtain ⟨_, _, _, hup, h⟩ := h
  cases h
  exact (semaUp_running (hr.modify _) hup).goTo _

lemma startUp_running (h : startUp s params success = .ok s') : s'.Running := by
  simp only [startUp, bind_eq_ok] at h
  obtain ⟨_, hup, h⟩ := h
  cases h
  exact (semaUp_running hr hup).goTo _

lemma startRest_running (h : startRest s params success = .ok s') : s'.Running := by
  obtain ⟨palloc, _, rfl⟩ := startRest_eq_ok h
  have hr1 : Running { s with palloc := palloc } := hr
  exact hr1.goTo _

lemma Describes.running (h : Describes s s') : s'.Running := by
  obtain rfl | ⟨n, g, rfl⟩ := h
  · exact hr
  · exact hr.modify _

end

lemma System.Step.running {s s' : System} {a : Action} (hs : System.Step s a s')
    (hr : s.kernel.Running) : s'.kernel.Running := by
  cases hs with
  | yield _ hy => exact threadYield_running hy
  | idle _ hb => exact threadBlock_running hb
  | create _ hc => exact threadCreate_running hr hc
  | execute _ hx | execError _ hx => exact processExecute_running hr hx
  | exec _ hx => exact (processExecute_running hr hx).goTo _
  | execGetChild => exact hr.goTo _
  | execDown _ hd | waitDown _ hd => exact down_running hr hd
  | execRead _ hx =>
    obtain ⟨rfl, _⟩ := execRead_eq_ok hx
    exact hr.goTo _
  | waitNone => exact hr
  | wait => exact hr.goTo _
  | waitRest _ hx => exact waitRest_running hr hx
  | loaded => exact hr.goTo _
  | startUp _ hu => exact startUp_running hr hu
  | startRest _ hx => exact startRest_running hr hx
  | exit => exact (hr.modify _).goTo _
  | kill => exact hr.goTo _
  | leave => exact hr.goTo _
  | exited _ hx => exact threadExit_running hx
  | get => exact hr
  | free => exact hr
  | opens _ ho => exact (processAddFile_describes ho).running hr
  | close _ hc => exact (processCloseFile_describes hc).running hr

end Pintos.Userprog
