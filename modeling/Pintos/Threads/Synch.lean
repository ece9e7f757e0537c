/-
# Semaphores, locks and condition variables

`threads/synch.c` on the scheduler of `threads/thread.c`, for any number of threads, semaphores,
locks and conditions.

A thread may be interrupted between any two statements: what is left of the function it is in is a
list of statements (`Synch.code`), empty in its own code.  A turn of the loop of `sema_down`,
`sema_try_down` and `sema_up` run with interrupts off, so each is one statement.  The `struct
semaphore_elem` of a `cond_wait` is on the stack of the caller; it is named by the number of the
call.  A `Trace` keeps what happened in a run.
-/

import Pintos.Base.Run
import Pintos.Threads.Thread

namespace Pintos

open Base Function Kernel Option

/-- The semaphores: declared by code, of the locks, and of the calls of `cond_wait`. -/
inductive Sema
  | own (i : ℕ)
  | lock (l : ℕ)
  | waiter (w : ℕ)
deriving DecidableEq, Repr

/-- The statements of the functions of `synch.c`. -/
inductive Stmt
  /-- `sema_down (x)`, from the test of its loop on. -/
  | semaDown (x : Sema)
  | semaTryDown (x : Sema)
  | semaUp (x : Sema)
  /-- `ASSERT (lock_held_by_current_thread (lock))`. -/
  | assertHeld (l : ℕ)
  /-- `ASSERT (!lock_held_by_current_thread (lock))`. -/
  | assertNotHeld (l : ℕ)
  /-- `success = sema_try_down (&lock->semaphore); if (success)`. -/
  | tryAcquire (l : ℕ)
  /-- `lock->holder = thread_current ()`. -/
  | setHolder (l : ℕ)
  /-- `lock->holder = NULL`. -/
  | clearHolder (l : ℕ)
  /-- `list_push_back (&cond->waiters, &waiter.elem)`. -/
  | pushWaiter (c w : ℕ)
  /-- `if (!list_empty (&cond->waiters))` and the `list_pop_front` of `cond_signal`. -/
  | signal (c l : ℕ)
  /-- `while (!list_empty (&cond->waiters))` of `cond_broadcast`. -/
  | broadcast (c l : ℕ)
  /-- The return from `cond_wait`, which takes `waiter` off the stack. -/
  | leave (l w : ℕ)
deriving DecidableEq, Repr

/-! ### The functions -/

def lockAcquire (l : ℕ) : List Stmt := [.assertNotHeld l, .semaDown (.lock l), .setHolder l]

def lockTryAcquire (l : ℕ) : List Stmt := [.assertNotHeld l, .tryAcquire l]

def lockRelease (l : ℕ) : List Stmt := [.assertHeld l, .clearHolder l, .semaUp (.lock l)]

def condWait (c l w : ℕ) : List Stmt :=
  [.assertHeld l, .pushWaiter c w] ++ lockRelease l ++ [.semaDown (.waiter w)] ++ lockAcquire l ++
    [.leave l w]

def condSignal (c l : ℕ) : List Stmt := [.assertHeld l, .signal c l]

def condBroadcast (c l : ℕ) : List Stmt := [.broadcast c l]

inductive Call
  | semaDown (i : ℕ)
  | semaTryDown (i : ℕ)
  | semaUp (i : ℕ)
  | lockAcquire (l : ℕ)
  | lockTryAcquire (l : ℕ)
  | lockRelease (l : ℕ)
  | condWait (c l : ℕ)
  | condSignal (c l : ℕ)
  | condBroadcast (c l : ℕ)
deriving DecidableEq, Repr

def Call.body (n : ℕ) : Call → List Stmt
  | .semaDown i => [.semaDown (.own i)]
  | .semaTryDown i => [.semaTryDown (.own i)]
  | .semaUp i => [.semaUp (.own i)]
  | .lockAcquire l => Pintos.lockAcquire l
  | .lockTryAcquire l => Pintos.lockTryAcquire l
  | .lockRelease l => Pintos.lockRelease l
  | .condWait c l => Pintos.condWait c l n
  | .condSignal c l => Pintos.condSignal c l
  | .condBroadcast c l => Pintos.condBroadcast c l

structure Synch where
  kernel : Threads
  semas : Sema → Semaphore
  holder : ℕ → Option ℕ
  conds : ℕ → List ℕ
  /-- What is left of the function that a thread is in. -/
  code : ℕ → List Stmt
  /-- The number of calls so far. -/
  calls : ℕ

namespace Synch

def goOn (s : Synch) (code : List Stmt) : Synch :=
  { s with code := update s.code s.kernel.current code }

def setSema (s : Synch) (x : Sema) (sema : Semaphore) : Synch :=
  { s with semas := update s.semas x sema }

section Fields

variable (s : Synch) (code : List Stmt) (x : Sema) (sema : Semaphore)

lemma goOn_code : (s.goOn code).code = update s.code s.kernel.current code := rfl

@[simp] lemma setSema_kernel : (s.setSema x sema).kernel = s.kernel := rfl
lemma setSema_semas : (s.setSema x sema).semas = update s.semas x sema := rfl

end Fields

def semaDown (s : Synch) (x : Sema) : Kernel (Bool × Synch) := do
  let sema := s.semas x
  if sema.value = 0 then
    let _ ← threadCurrent s.kernel
    let s := s.setSema x { sema with waiters := sema.waiters ++ [s.kernel.current] }
    let kernel ← threadBlock s.kernel
    return (false, { s with kernel := kernel })
  else return (true, s.setSema x { sema with value := sema.value - 1 })

def semaTryDown (s : Synch) (x : Sema) : Bool × Synch :=
  let sema := s.semas x
  if sema.value > 0 then (true, s.setSema x { sema with value := sema.value - 1 }) else (false, s)

def semaUp (s : Synch) (x : Sema) : Kernel Synch := do
  let sema := s.semas x
  match sema.waiters with
  | [] => return s.setSema x { sema with value := u32 (sema.value + 1) }
  | t :: rest => do
    let kernel ← threadUnblock s.kernel t
    return { s.setSema x ⟨u32 (sema.value + 1), rest⟩ with kernel := kernel }

def lockHeldByCurrentThread (s : Synch) (l : ℕ) : Kernel Bool := do
  let _ ← threadCurrent s.kernel
  return s.holder l == some s.kernel.current

def exec (s : Synch) (rest : List Stmt) : Stmt → Kernel Synch
  | .semaDown x => do
    let (down, s) ← s.semaDown x
    return if down then s.goOn rest else s
  | .semaTryDown x => return (s.semaTryDown x).2.goOn rest
  | .semaUp x => do
    let s ← s.semaUp x
    return s.goOn rest
  | .assertHeld l => do
    let held ← s.lockHeldByCurrentThread l
    ASSERT (held = true)
    return s.goOn rest
  | .assertNotHeld l => do
    let held ← s.lockHeldByCurrentThread l
    ASSERT (held = false)
    return s.goOn rest
  | .tryAcquire l =>
    let (success, s) := s.semaTryDown (.lock l)
    return s.goOn (if success then .setHolder l :: rest else rest)
  | .setHolder l => do
    let _ ← threadCurrent s.kernel
    return { s with holder := update s.holder l (some s.kernel.current) }.goOn rest
  | .clearHolder l =>
    return { s with holder := update s.holder l none }.goOn rest
  | .pushWaiter c w =>
    return { s with conds := update s.conds c (s.conds c ++ [w]) }.goOn rest
  | .signal c _ =>
    match s.conds c with
    | [] => return s.goOn rest
    | w :: ws =>
      return { s with conds := update s.conds c ws }.goOn (.semaUp (.waiter w) :: rest)
  | .broadcast c l =>
    match s.conds c with
    | [] => return s.goOn rest
    | _ :: _ => return s.goOn (condSignal c l ++ .broadcast c l :: rest)
  | .leave _ _ => return s.goOn rest

end Synch

/-! ### Runs -/

inductive SemaOp
  | down
  | tryDown
  | up
deriving DecidableEq, Repr

def Stmt.op : Stmt → Option (SemaOp × Sema)
  | .semaDown x => some (.down, x)
  | .semaTryDown x => some (.tryDown, x)
  | .tryAcquire l => some (.tryDown, .lock l)
  | .semaUp x => some (.up, x)
  | _ => none

namespace Synch

/-- The running thread is in its own code and is not the idle thread. -/
def Free (s : Synch) : Prop := s.code s.kernel.current = [] ∧ s.kernel.current ≠ s.kernel.idleThread

instance (s : Synch) : Decidable s.Free := inferInstanceAs (Decidable (_ ∧ _))

end Synch

inductive Event
  /-- The running thread calls a function of `synch.c`. -/
  | call (f : Call)
  /-- It executes its next statement. -/
  | step
  /-- It calls `thread_yield`, or the timer makes it. -/
  | yield
  /-- It calls `thread_block`, as the loop of `idle` does. -/
  | block
  | exit
  | create (priority : ℤ)
  /-- It calls `thread_unblock`, or an interrupt handler does. -/
  | unblock (t : ℕ)
  /-- An interrupt handler calls `sema_up`. -/
  | intrUp (i : ℕ)
  /-- An interrupt handler calls `sema_try_down`. -/
  | intrTryDown (i : ℕ)
deriving DecidableEq, Repr

namespace Synch

def onKernel (s : Synch) (kernel : Kernel Threads) : Kernel Synch := do
  let kernel ← kernel
  return { s with kernel := kernel }

def next (s : Synch) : Event → Option (Kernel Synch)
  | .call f =>
    if s.Free then some (return { s with calls := s.calls + 1 }.goOn (f.body s.calls)) else none
  | .step =>
    match s.code s.kernel.current with
    | [] => none
    | stmt :: rest => some (s.exec rest stmt)
  | .yield => some (s.onKernel (threadYield s.kernel))
  | .block =>
    if s.code s.kernel.current = [] then some (s.onKernel (threadBlock s.kernel)) else none
  | .exit => if s.Free then some (s.onKernel (threadExit s.kernel)) else none
  | .create priority =>
    if s.Free then some (s.onKernel do
      let (_, kernel) ← threadCreate s.kernel priority .run
      return kernel) else none
  | .unblock t => some (s.onKernel (threadUnblock s.kernel t))
  | .intrUp i => some (s.semaUp (.own i))
  | .intrTryDown i => some (return (s.semaTryDown (.own i)).2)

def opOf (s : Synch) : Event → Option (SemaOp × Sema)
  | .step => (s.code s.kernel.current).head?.bind Stmt.op
  | .intrUp i => some (.up, .own i)
  | .intrTryDown i => some (.tryDown, .own i)
  | _ => none

def stmtOf (s : Synch) : Event → Option Stmt
  | .step => (s.code s.kernel.current).head?
  | _ => none

def decrements (s : Synch) (e : Event) (x : Sema) : Prop :=
  (s.opOf e = some (.down, x) ∨ s.opOf e = some (.tryDown, x)) ∧ (s.semas x).value ≠ 0

instance (s : Synch) (e : Event) (x : Sema) : Decidable (s.decrements e x) :=
  inferInstanceAs (Decidable (_ ∧ _))

/-- The threads that an event makes ready: it sets their `status` to `THREAD_READY`. -/
def readies (s : Synch) (e : Event) (s' : Synch) : List ℕ :=
  match e with
  | .yield => [s.kernel.current]
  | .unblock t => [t]
  | .create _ =>
    if (s'.kernel.threads s.kernel.nextTid).isSome then [s.kernel.nextTid] else []
  | e =>
    match s.opOf e with
    | some (.up, x) => (s.semas x).waiters.take 1
    | _ => []

def dispatches (s : Synch) (e : Event) (s' : Synch) : List ℕ :=
  match e with
  | .yield | .block | .exit => [s'.kernel.current]
  | e =>
    match s.opOf e with
    | some (.down, x) => if (s.semas x).value = 0 then [s'.kernel.current] else []
    | _ => []

end Synch

structure Trace where
  /-- The number of times that a semaphore was decremented. -/
  downs : Sema → ℕ
  /-- The number of times that `sema_up` was called. -/
  ups : Sema → ℕ
  /-- The threads taken off the waiters that have not tested the value since. -/
  woken : Sema → List ℕ
  /-- The threads that became ready, and those dispatched, in order. -/
  readied : List ℕ
  dispatched : List ℕ
  /-- The threads past an acquire of a lock, and not past the release. -/
  owners : ℕ → List ℕ
  /-- The calls that began to wait, and those that were signalled, in order. -/
  waited : ℕ → List ℕ
  signalled : ℕ → List ℕ
  /-- The calls of `cond_wait` that returned. -/
  returned : List ℕ
  /-- The calls that waited when a thread began to signal, and those it signalled. -/
  casting : ℕ → List ℕ × List ℕ
  /-- The same, for every `cond_signal` and every `cond_broadcast` that returned. -/
  signals : List (List ℕ × List ℕ)
  casts : List (List ℕ × List ℕ)

namespace Trace

def after (tr : Trace) (s : Synch) (e : Event) (s' : Synch) : Trace where
  downs x := if s.decrements e x then tr.downs x + 1 else tr.downs x
  ups x := if s.opOf e = some (.up, x) then tr.ups x + 1 else tr.ups x
  woken x :=
    if s.opOf e = some (.up, x) then tr.woken x ++ (s.semas x).waiters.take 1
    else if s.opOf e = some (.down, x) then (tr.woken x).erase s.kernel.current
    else tr.woken x
  readied := tr.readied ++ s.readies e s'
  dispatched := tr.dispatched ++ s.dispatches e s'
  owners l :=
    if s.stmtOf e = some (.setHolder l) then tr.owners l ++ [s.kernel.current]
    else if s.stmtOf e = some (.clearHolder l) then (tr.owners l).erase s.kernel.current
    else tr.owners l
  waited c :=
    match s.stmtOf e with
    | some (.pushWaiter c' w) => if c' = c then tr.waited c ++ [w] else tr.waited c
    | _ => tr.waited c
  signalled c :=
    match s.stmtOf e with
    | some (.signal c' _) =>
      if c' = c then tr.signalled c ++ (s.conds c).take 1 else tr.signalled c
    | _ => tr.signalled c
  returned :=
    match s.stmtOf e with
    | some (.leave _ w) => tr.returned ++ [w]
    | _ => tr.returned
  casting :=
    match e, s.stmtOf e with
    | .call (.condSignal c _), _ | .call (.condBroadcast c _), _ =>
      update tr.casting s.kernel.current (s.conds c, [])
    | _, some (.signal c _) => update tr.casting s.kernel.current
        ((tr.casting s.kernel.current).1, (tr.casting s.kernel.current).2 ++ (s.conds c).take 1)
    | _, _ => tr.casting
  signals :=
    match e, s.code s.kernel.current with
    | .step, [.signal c _] =>
      if s.conds c = [] then tr.signals ++ [tr.casting s.kernel.current] else tr.signals
    | .step, [.semaUp (.waiter _)] => tr.signals ++ [tr.casting s.kernel.current]
    | _, _ => tr.signals
  casts :=
    match s.stmtOf e with
    | some (.broadcast c _) =>
      if s.conds c = [] then tr.casts ++ [tr.casting s.kernel.current] else tr.casts
    | _ => tr.casts

def empty : Trace where
  downs _ := 0
  ups _ := 0
  woken _ := []
  readied := []
  dispatched := []
  owners _ := []
  waited _ := []
  signalled _ := []
  returned := []
  casting _ := ([], [])
  signals := []
  casts := []

end Trace

/-- The initial value of a semaphore: `init`, but for those of locks and of `cond_wait`. -/
def Sema.init (init : ℕ → ℕ) : Sema → ℕ
  | .own i => init i
  | .lock _ => 1
  | .waiter _ => 0

/-- After `thread_start`: the idle thread has blocked itself, or the timer took the CPU from it
before. -/
def Synch.start (palloc : Palloc) (page idlePage idleFd : ℕ) (preempted : Bool) (init : ℕ → ℕ) :
    Synch where
  kernel :=
    let kernel := Threads.boot palloc page idlePage idleFd
    if preempted then kernel.setStatus kernel.idleThread .THREAD_READY else kernel
  semas x := semaInit (x.init init)
  holder _ := none
  conds _ := []
  code _ := []
  calls := 0

structure Traced where
  synch : Synch
  trace : Trace

namespace Traced

def Step (s : Traced) (e : Event) (s' : Traced) : Prop :=
  s.synch.next e = some (.ok s'.synch) ∧ s'.trace = s.trace.after s.synch e s'.synch

def start (palloc : Palloc) (page idlePage idleFd : ℕ) (preempted : Bool) (init : ℕ → ℕ) :
    Traced :=
  ⟨.start palloc page idlePage idleFd preempted init, .empty⟩

def runAll (test : Traced → Event → Bool) : List Event → Traced → Option Traced
  | [], s => some s
  | e :: rest, s =>
    if test s e then
      match s.synch.next e with
      | some (.ok s') => runAll test rest ⟨s', s.trace.after s.synch e s'⟩
      | _ => none
    else none

variable {Meets : Traced → Event → Prop} {test : Traced → Event → Bool}

lemma runAll_reaches (htest : ∀ s e, test s e = true → Meets s e) {s0 s s' : Traced}
    {l : List Event} (hr : Reaches Step Meets s0 s) (h : runAll test l s = some s') :
    Reaches Step Meets s0 s' := by
  induction l generalizing s with
  | nil =>
    cases h
    exact hr
  | cons e _ ih =>
    rw [runAll] at h
    split_ifs at h with ht
    split at h
    · rename_i s₁ hnext
      exact ih (hr.step ⟨hnext, rfl⟩ (htest s e ht)) h
    · cases h

def noTest (_ : Traced) (_ : Event) : Bool := true

lemma noTest_always (s : Traced) (e : Event) (_ : noTest s e = true) : Always s e := trivial

lemma exists_run (htest : ∀ s e, test s e = true → Meets s e) (s : Traced) (l : List Event)
    (check : Traced → Bool) (h : (runAll test l s).any check = true) :
    ∃ s', Reaches Step Meets s s' ∧ check s' = true := by
  cases hrun : runAll test l s with
  | none =>
    rw [hrun] at h
    cases h
  | some s' =>
    rw [hrun] at h
    exact ⟨s', runAll_reaches htest .refl hrun, h⟩

end Traced

/-! ### What the events do -/

namespace Synch

variable {s s' : Synch} {x : Sema} {e : Event} {t : ℕ}

def Inside (s : Synch) (t : ℕ) (x : Sema) : Prop := (s.code t).head? = some (.semaDown x)

def Goes (s s' : Synch) : Prop :=
  ∀ t, s'.code t = s.code t ∨
    t = s.kernel.current ∧ (s.code t = [] → t ≠ s.kernel.idleThread)

/-- And nobody leaves `sema_down`. -/
structure Advances (s s' : Synch) : Prop where
  goes : s.Goes s'
  inside : ∀ {t x}, s.Inside t x → s'.Inside t x

lemma Inside.inj {y : Sema} (hx : s.Inside t x) (hy : s.Inside t y) : x = y :=
  Stmt.semaDown.inj (mem_unique hx hy)

lemma Goes.of_ne (h : s.Goes s') (ht : t ≠ s.kernel.current) : s'.code t = s.code t :=
  (h t).resolve_right fun hc => ht hc.1

section

variable (s₁ : Synch) (code : List Stmt) (hcur : s₁.kernel.current = s.kernel.current)
  (hcode : s₁.code = s.code)
  (hidle : s.code s.kernel.current = [] → s.kernel.current ≠ s.kernel.idleThread)
include s₁ code hcur hcode hidle

lemma Goes.goOn : s.Goes (s₁.goOn code) := by
  intro t
  by_cases ht : t = s.kernel.current
  · exact .inr ⟨ht, ht ▸ hidle⟩
  · left
    rw [← hcode]
    exact update_of_ne (hcur ▸ ht) ..

lemma Advances.goOn (hout : ∀ x, ¬ s.Inside s.kernel.current x) : s.Advances (s₁.goOn code) := by
  have hgoes := Goes.goOn s₁ code hcur hcode hidle
  refine ⟨hgoes, fun {t x} hin => ?_⟩
  have ht : t ≠ s.kernel.current := fun ht => hout x (ht ▸ hin)
  rwa [Inside, hgoes.of_ne ht]

end

lemma Advances.of_code (h : s'.code = s.code) : s.Advances s' :=
  ⟨fun t => .inl (congrFun h t), fun {t x} hin => by rwa [Inside, h]⟩

inductive Effect (s : Synch) (e : Event) (s' : Synch) : Prop
  /-- Neither the scheduler nor a semaphore is concerned. -/
  | moves (op : s.opOf e = none) (still : s.readies e s' = [] ∧ s.dispatches e s' = [])
      (kernel : s'.kernel = s.kernel) (semas : s'.semas = s.semas)
      (code : s.Advances s')
  /-- The running thread gets through `sema_down`. -/
  | passes (x : Sema) (rest : List Stmt) (op : s.opOf e = some (.down, x))
      (value : (s.semas x).value ≠ 0) (inside : s.code s.kernel.current = .semaDown x :: rest)
      (kernel : s'.kernel = s.kernel)
      (semas : s'.semas = update s.semas x
        { s.semas x with value := (s.semas x).value - 1 })
      (code : s'.code = update s.code s.kernel.current rest)
  | takes (x : Sema) (op : s.opOf e = some (.tryDown, x)) (value : (s.semas x).value ≠ 0)
      (kernel : s'.kernel = s.kernel)
      (semas : s'.semas = update s.semas x
        { s.semas x with value := (s.semas x).value - 1 })
      (code : s.Advances s')
  | refused (x : Sema) (op : s.opOf e = some (.tryDown, x)) (value : (s.semas x).value = 0)
      (kernel : s'.kernel = s.kernel) (semas : s'.semas = s.semas)
      (code : s.Advances s')
  | sleeps (x : Sema) (op : s.opOf e = some (.down, x)) (value : (s.semas x).value = 0)
      (inside : (s.code s.kernel.current).head? = some (.semaDown x))
      (kernel : threadBlock s.kernel = .ok s'.kernel)
      (semas : s'.semas = update s.semas x
        { s.semas x with waiters := (s.semas x).waiters ++ [s.kernel.current] })
      (code : s'.code = s.code)
  | raises (x : Sema) (op : s.opOf e = some (.up, x)) (waiters : (s.semas x).waiters = [])
      (kernel : s'.kernel = s.kernel)
      (semas : s'.semas = update s.semas x ⟨u32 ((s.semas x).value + 1), []⟩)
      (code : s.Advances s')
  | wakes (x : Sema) (t : ℕ) (rest : List ℕ) (op : s.opOf e = some (.up, x))
      (waiters : (s.semas x).waiters = t :: rest)
      (kernel : threadUnblock s.kernel t = .ok s'.kernel)
      (semas : s'.semas = update s.semas x ⟨u32 ((s.semas x).value + 1), rest⟩)
      (code : s.Advances s')
  | yields (event : e = .yield) (kernel : threadYield s.kernel = .ok s'.kernel)
      (semas : s'.semas = s.semas) (code : s'.code = s.code)
  | blocks (event : e = .block) (out : s.code s.kernel.current = [])
      (kernel : threadBlock s.kernel = .ok s'.kernel) (semas : s'.semas = s.semas)
      (code : s'.code = s.code)
  | exits (event : e = .exit) (free : s.Free) (kernel : threadExit s.kernel = .ok s'.kernel)
      (semas : s'.semas = s.semas) (code : s'.code = s.code)
  | unblocks (t : ℕ) (event : e = .unblock t) (kernel : threadUnblock s.kernel t = .ok s'.kernel)
      (semas : s'.semas = s.semas) (code : s'.code = s.code)
  | creates (priority : ℤ) (r : Option ℕ) (event : e = .create priority)
      (kernel : threadCreate s.kernel priority .run = .ok (r, s'.kernel))
      (semas : s'.semas = s.semas) (code : s'.code = s.code)

lemma onKernel_eq_ok {kernel : Kernel Threads} :
    s.onKernel kernel = .ok s' ↔ ∃ k, kernel = .ok k ∧ s' = { s with kernel := k } := by
  rw [onKernel, bind_eq_ok]
  constructor
  · rintro ⟨k, hk, h⟩
    exact ⟨k, hk, (Except.ok.inj h).symm⟩
  · rintro ⟨k, hk, rfl⟩
    exact ⟨k, hk, rfl⟩

lemma semaDown_eq_ok {r : Bool} (h : s.semaDown x = .ok (r, s')) :
    (r = true ∧ (s.semas x).value ≠ 0 ∧
      s' = s.setSema x { s.semas x with value := (s.semas x).value - 1 }) ∨
    (r = false ∧ (s.semas x).value = 0 ∧ ∃ k, threadBlock s.kernel = .ok k ∧
      s' = { s.setSema x { s.semas x with waiters := (s.semas x).waiters ++
        [s.kernel.current] } with
        kernel := k }) := by
  simp only [semaDown] at h
  split_ifs at h with hv
  · simp only [bind_eq_ok] at h
    obtain ⟨_, _, k, hk, h⟩ := h
    cases h
    exact .inr ⟨rfl, hv, k, hk, rfl⟩
  · cases h
    exact .inl ⟨rfl, hv, rfl⟩

lemma semaTryDown_eq (s : Synch) (x : Sema) : s.semaTryDown x =
    if (s.semas x).value ≠ 0 then
      (true, s.setSema x { s.semas x with value := (s.semas x).value - 1 }) else (false, s) := by
  simp only [semaTryDown, Nat.pos_iff_ne_zero, gt_iff_lt]

lemma semaUp_eq_ok (h : s.semaUp x = .ok s') :
    ((s.semas x).waiters = [] ∧ s' = s.setSema x ⟨u32 ((s.semas x).value + 1), []⟩) ∨
    (∃ t rest k, (s.semas x).waiters = t :: rest ∧ threadUnblock s.kernel t = .ok k ∧
      s' = { s.setSema x ⟨u32 ((s.semas x).value + 1), rest⟩ with kernel := k }) := by
  simp only [semaUp] at h
  split at h
  · rename_i hw
    cases h
    exact .inl ⟨hw, by rw [hw]⟩
  · rename_i t rest hw
    obtain ⟨k, hk, h⟩ := bind_eq_ok.1 h
    cases h
    exact .inr ⟨t, rest, k, hw, hk, rfl⟩

lemma semaTryDown_frame (s : Synch) (x : Sema) :
    (s.semaTryDown x).2.kernel = s.kernel ∧ (s.semaTryDown x).2.code = s.code := by
  rw [semaTryDown_eq]
  split_ifs
  · exact ⟨rfl, rfl⟩
  · exact ⟨rfl, rfl⟩

lemma semaUp_frame (h : s.semaUp x = .ok s') :
    s'.kernel.current = s.kernel.current ∧ s'.code = s.code := by
  rcases semaUp_eq_ok h with ⟨_, rfl⟩ | ⟨t, _, k, _, hk, rfl⟩
  · exact ⟨rfl, rfl⟩
  · exact ⟨(Threads.threadUnblock_switches hk).2, rfl⟩

lemma Effect.of_semaUp (hop : s.opOf e = some (.up, x)) {s₁ : Synch} (h : s.semaUp x = .ok s₁)
    (hkernel : s'.kernel = s₁.kernel) (hsemas : s'.semas = s₁.semas) (hcode : s.Advances s') :
    s.Effect e s' := by
  rcases semaUp_eq_ok h with ⟨hw, rfl⟩ | ⟨t, rest, k, hw, hk, rfl⟩
  · exact .raises x hop hw hkernel hsemas hcode
  · exact .wakes x t rest hop hw (hkernel ▸ hk) hsemas hcode

lemma Effect.of_semaTryDown (hop : s.opOf e = some (.tryDown, x))
    (hkernel : s'.kernel = (s.semaTryDown x).2.kernel)
    (hsemas : s'.semas = (s.semaTryDown x).2.semas) (hcode : s.Advances s') :
    s.Effect e s' := by
  rw [semaTryDown_eq] at hkernel hsemas
  split_ifs at hkernel hsemas with hv
  · exact .takes x hop hv hkernel hsemas hcode
  · exact .refused x hop (not_not.1 hv) hkernel hsemas hcode

lemma exec_moves {stmt : Stmt} {rest : List Stmt} (hop : stmt.op = none)
    (hcode : s.code s.kernel.current = stmt :: rest) (h : s.exec rest stmt = .ok s') :
    s'.kernel = s.kernel ∧ s'.semas = s.semas ∧ s.Advances s' := by
  have hout : ∀ x, ¬ s.Inside s.kernel.current x := by
    intro x hin
    rw [Inside, hcode] at hin
    cases hin
    cases hop
  have hgo : ∀ {s₁ : Synch} {code : List Stmt}, s₁.goOn code = s' → s₁.kernel = s.kernel →
      s₁.semas = s.semas → s₁.code = s.code →
        s'.kernel = s.kernel ∧ s'.semas = s.semas ∧ s.Advances s' := by
    rintro s₁ code rfl hk hs hc
    refine ⟨hk, hs, .goOn s₁ code (by rw [hk]) hc (fun hnil => ?_) hout⟩
    rw [hcode] at hnil
    cases hnil
  cases stmt with
  | semaDown => cases hop
  | semaTryDown => cases hop
  | semaUp => cases hop
  | tryAcquire => cases hop
  | assertHeld | assertNotHeld =>
    simp only [exec, bind_eq_ok] at h
    obtain ⟨_, _, _, _, h⟩ := h
    exact hgo (Except.ok.inj h) rfl rfl rfl
  | setHolder =>
    simp only [exec, bind_eq_ok] at h
    obtain ⟨_, _, h⟩ := h
    exact hgo (Except.ok.inj h) rfl rfl rfl
  | clearHolder | pushWaiter | leave => exact hgo (Except.ok.inj h) rfl rfl rfl
  | signal | broadcast =>
    simp only [exec] at h
    split at h
    · exact hgo (Except.ok.inj h) rfl rfl rfl
    · exact hgo (Except.ok.inj h) rfl rfl rfl

lemma next_effect (h : s.next e = some (.ok s')) : s.Effect e s' := by
  cases e with
  | call =>
    simp only [next] at h
    split_ifs at h with hfree
    cases h
    exact .moves rfl ⟨rfl, rfl⟩ rfl rfl
      (.goOn _ _ rfl rfl (fun _ => hfree.2) fun x hin => by rw [Inside, hfree.1] at hin; cases hin)
  | step =>
    cases hcode : s.code s.kernel.current with
    | nil => simp [next, hcode] at h
    | cons stmt rest =>
      simp only [next, hcode, some.injEq] at h
      have hadv : (∀ x, stmt ≠ .semaDown x) → ∀ (s₁ : Synch) (code : List Stmt),
          s₁.kernel.current = s.kernel.current → s₁.code = s.code → s.Advances (s₁.goOn code) := by
        refine fun hout s₁ code hk hc => .goOn s₁ code hk hc (fun hnil => ?_) fun x hin => ?_
        · rw [hcode] at hnil
          cases hnil
        · rw [Inside, hcode] at hin
          exact hout x (some.inj hin)
      have hop : s.opOf .step = stmt.op := by simp [opOf, hcode]
      cases hstmt : stmt.op with
      | none =>
        obtain ⟨hk, hs, hc⟩ := exec_moves hstmt hcode h
        refine .moves (hop.trans hstmt) ⟨?_, ?_⟩ hk hs hc
        · simp [readies, hop, hstmt]
        · simp [dispatches, hop, hstmt]
      | some =>
        rw [hstmt] at hop
        cases stmt with
        | semaDown x =>
          cases hstmt
          simp only [exec, bind_eq_ok] at h
          obtain ⟨⟨r, _⟩, hdown, h⟩ := h
          have h := Except.ok.inj h
          rcases semaDown_eq_ok hdown with ⟨rfl, hv, rfl⟩ | ⟨rfl, hv, k, hk, rfl⟩
          · obtain rfl := h
            exact .passes x rest hop hv hcode rfl rfl rfl
          · obtain rfl := h
            exact .sleeps x hop hv (by rw [hcode]; rfl) hk rfl rfl
        | semaTryDown x =>
          cases hstmt
          cases h
          obtain ⟨hk, hc⟩ := s.semaTryDown_frame x
          exact .of_semaTryDown hop rfl rfl (hadv nofun (s.semaTryDown x).2 _ (by rw [hk]) hc)
        | tryAcquire l =>
          cases hstmt
          cases h
          obtain ⟨hk, hc⟩ := s.semaTryDown_frame (.lock l)
          exact .of_semaTryDown hop rfl rfl
            (hadv nofun (s.semaTryDown (.lock l)).2 _ (by rw [hk]) hc)
        | semaUp =>
          cases hstmt
          simp only [exec, bind_eq_ok] at h
          obtain ⟨_, hup, h⟩ := h
          cases h
          obtain ⟨hcur, hc⟩ := semaUp_frame hup
          exact .of_semaUp hop hup rfl rfl (hadv nofun _ _ hcur hc)
        | _ => cases hstmt
  | yield =>
    obtain ⟨k, hk, rfl⟩ := onKernel_eq_ok.1 (some.inj h)
    exact .yields rfl hk rfl rfl
  | block =>
    simp only [next] at h
    split_ifs at h with hout
    obtain ⟨k, hk, rfl⟩ := onKernel_eq_ok.1 (some.inj h)
    exact .blocks rfl hout hk rfl rfl
  | exit =>
    simp only [next] at h
    split_ifs at h with hfree
    obtain ⟨k, hk, rfl⟩ := onKernel_eq_ok.1 (some.inj h)
    exact .exits rfl hfree hk rfl rfl
  | create priority =>
    simp only [next] at h
    split_ifs at h
    obtain ⟨k, hk, rfl⟩ := onKernel_eq_ok.1 (some.inj h)
    obtain ⟨⟨r, _⟩, hcreate, hk⟩ := bind_eq_ok.1 hk
    cases hk
    exact .creates priority r rfl hcreate rfl rfl
  | unblock t =>
    obtain ⟨k, hk, rfl⟩ := onKernel_eq_ok.1 (some.inj h)
    exact .unblocks t rfl hk rfl rfl
  | intrUp =>
    exact .of_semaUp rfl (some.inj h) rfl rfl (.of_code (semaUp_frame (some.inj h)).2)
  | intrTryDown =>
    cases h
    exact .of_semaTryDown rfl rfl rfl (.of_code (s.semaTryDown_frame _).2)

end Synch
end Pintos
