/-
# Interrupt queues

`devices/intq.c`: a circular buffer that threads and interrupt handlers share.  Its functions run
with interrupts off, so a thread gives up the processor at two places only: in the loop of
`sema_down`, when another holds `q->lock`, and in `wait`.  From one such place to the next is one
step (`Event.call`, `Event.resume`), of any thread that is not blocked.  A handler gets a byte only
when the queue is not empty and puts one only when it is not full.  The bytes put and got are
recorded.
-/

import Pintos.Base.Ring
import Pintos.Base.Run
import Pintos.Threads.Thread

namespace Pintos.Devices

open Base Function Kernel

def INTQ_BUFSIZE : ℕ := 64

/-- The members `not_full` and `not_empty` of a queue. -/
inductive Waiter
  | notFull
  | notEmpty
deriving DecidableEq, Repr

structure Intq extends Ring (BitVec 8) INTQ_BUFSIZE where
  /-- Only one thread may wait at once: the semaphore and the holder of `lock`. -/
  lock : Semaphore
  holder : Option ℕ
  /-- Thread waiting for the not-full and for the not-empty condition. -/
  waiter : Waiter → Option ℕ

def intqInit (buf : ℕ → BitVec 8) : Intq where
  buf := buf
  head := 0
  tail := 0
  head_lt := by decide
  tail_lt := by decide
  lock := semaInit 1
  holder := none
  waiter := fun _ => none

def intqEmpty (q : Intq) : Bool := q.head == q.tail

def intqFull (q : Intq) : Bool := Ring.next INTQ_BUFSIZE q.head == q.tail

inductive Op
  | getc
  | putc (byte : BitVec 8)
deriving DecidableEq, Repr

def Waiter.unmet (q : Intq) : Waiter → Bool
  | .notFull => intqFull q
  | .notEmpty => intqEmpty q

def Op.waitsFor : Op → Waiter
  | .getc => .notEmpty
  | .putc _ => .notFull

def Op.signals : Op → Waiter
  | .getc => .notFull
  | .putc _ => .notEmpty

def Op.mustWait (q : Intq) (op : Op) : Bool := op.waitsFor.unmet q

inductive Place
  | out
  /-- In the loop of the `sema_down` of `lock_acquire`. -/
  | acquiring (op : Op)
  /-- In the `thread_block` of `wait`. -/
  | waiting (op : Op)
deriving DecidableEq, Repr

structure Queue where
  q : Intq
  place : ℕ → Place
  blocked : ℕ → Bool
  puts : List (BitVec 8)
  gets : List (BitVec 8)

namespace Queue

def init (buf : ℕ → BitVec 8) : Queue where
  q := intqInit buf
  place := fun _ => .out
  blocked := fun _ => false
  puts := []
  gets := []

def threadBlock (s : Queue) (t : ℕ) (place : Place) : Queue :=
  { s with place := update s.place t place, blocked := update s.blocked t true }

def threadUnblock (s : Queue) (t : ℕ) : Kernel Queue := do
  ASSERT (s.blocked t = true)
  return { s with blocked := update s.blocked t false }

def wait (s : Queue) (t : ℕ) (op : Op) (waiter : Waiter) : Kernel Queue := do
  ASSERT (waiter.unmet s.q = true)
  let q := { s.q with waiter := update s.q.waiter waiter (some t) }
  return { s with q := q }.threadBlock t (.waiting op)

def signal (s : Queue) (waiter : Waiter) : Kernel Queue := do
  ASSERT (waiter.unmet s.q = false)
  match s.q.waiter waiter with
  | some t => do
    let s ← s.threadUnblock t
    return { s with q := { s.q with waiter := update s.q.waiter waiter none } }
  | none => return s

def takeByte (s : Queue) : Queue :=
  { s with
    q := { s.q with toRing := s.q.toRing.take.2 }
    gets := s.gets ++ [s.q.toRing.take.1] }

def putByte (s : Queue) (byte : BitVec 8) : Queue :=
  { s with
    q := { s.q with toRing := s.q.toRing.put byte }
    puts := s.puts ++ [byte] }

def transfer (s : Queue) (op : Op) : Kernel Queue :=
  match op with
  | .getc => s.takeByte.signal op.signals
  | .putc byte => (s.putByte byte).signal op.signals

def semaDown (s : Queue) (t : ℕ) (op : Op) : Kernel Queue :=
  if s.q.lock.value = 0 then
    let lock := { s.q.lock with waiters := s.q.lock.waiters ++ [t] }
    return { s with q := { s.q with lock := lock } }.threadBlock t (.acquiring op)
  else
    let lock := { s.q.lock with value := s.q.lock.value - 1 }
    { s with q := { s.q with lock := lock, holder := some t } }.wait t op op.waitsFor

def lockRelease (s : Queue) (t : ℕ) : Kernel Queue := do
  ASSERT (s.q.holder = some t)
  match s.q.lock.waiters with
  | [] =>
    let lock := ⟨s.q.lock.value + 1, []⟩
    return { s with q := { s.q with lock := lock, holder := none } }
  | w :: ws => do
    let s ← s.threadUnblock w
    let lock := ⟨s.q.lock.value + 1, ws⟩
    return { s with q := { s.q with lock := lock, holder := none } }

def loop (s : Queue) (t : ℕ) (op : Op) : Kernel Queue :=
  if op.mustWait s.q then do
    -- `lock_acquire`
    ASSERT (s.q.holder ≠ some t)
    s.semaDown t op
  else
    { s with place := update s.place t .out }.transfer op

end Queue

inductive Event
  /-- A thread calls `intq_getc` or `intq_putc`. -/
  | call (t : ℕ) (op : Op)
  /-- A thread that is in one of them and not blocked runs. -/
  | resume (t : ℕ)
  /-- An interrupt handler calls one of them. -/
  | intr (op : Op)
deriving DecidableEq, Repr

namespace Queue

def Enabled (s : Queue) : Event → Prop
  | .call t _ => s.place t = .out ∧ s.blocked t = false
  | .resume t => s.place t ≠ .out ∧ s.blocked t = false
  | .intr op => op.mustWait s.q = false

instance (s : Queue) (e : Event) : Decidable (s.Enabled e) := by
  cases e <;> unfold Enabled <;> infer_instance

def exec (s : Queue) : Event → Kernel Queue
  | .call t op => s.loop t op
  | .resume t =>
    match s.place t with
    | .out => return s
    | .acquiring op => s.semaDown t op
    | .waiting op => do
      let s ← s.lockRelease t
      s.loop t op
  | .intr op => s.transfer op

def Step (s : Queue) (e : Event) (s' : Queue) : Prop := s.Enabled e ∧ s.exec e = .ok s'

/-! ### First in, first out -/

def Lossless (s : Queue) : Prop := s.puts = s.gets ++ s.q.contents

variable {s s' : Queue} {t : ℕ} {op : Op} {e : Event}

lemma intqEmpty_iff (q : Intq) : intqEmpty q = true ↔ q.count = 0 := by
  rw [intqEmpty, beq_iff_eq, q.head_eq_tail_iff]

lemma intqFull_iff (q : Intq) : intqFull q = true ↔ q.count = INTQ_BUFSIZE - 1 := by
  rw [intqFull, beq_iff_eq, q.next_head_eq_tail_iff]

def SameBytes (s s' : Queue) : Prop :=
  s'.q.toRing = s.q.toRing ∧ s'.puts = s.puts ∧ s'.gets = s.gets

lemma SameBytes.lossless (h : s.SameBytes s') (hl : s.Lossless) : s'.Lossless := by
  obtain ⟨hring, hputs, hgets⟩ := h
  rw [Lossless, hputs, hgets, hring]
  exact hl

lemma threadUnblock_sameBytes (h : s.threadUnblock t = .ok s') : s.SameBytes s' := by
  simp only [threadUnblock, bind_eq_ok, ASSERT_eq_ok, pure_eq_ok] at h
  obtain ⟨_, _, h⟩ := h
  cases h
  exact ⟨rfl, rfl, rfl⟩

lemma signal_sameBytes {w : Waiter} (h : s.signal w = .ok s') : s.SameBytes s' := by
  simp only [signal, bind_eq_ok, ASSERT_eq_ok] at h
  obtain ⟨_, _, h⟩ := h
  cases hw : s.q.waiter w with
  | none =>
    rw [hw] at h
    cases h
    exact ⟨rfl, rfl, rfl⟩
  | some =>
    rw [hw] at h
    obtain ⟨_, h1, h⟩ := bind_eq_ok.1 h
    cases h
    obtain ⟨hring, hputs, hgets⟩ := threadUnblock_sameBytes h1
    exact ⟨hring, hputs, hgets⟩

lemma semaDown_sameBytes (h : s.semaDown t op = .ok s') : s.SameBytes s' := by
  unfold semaDown at h
  split_ifs at h
  · cases h
    exact ⟨rfl, rfl, rfl⟩
  · simp only [wait, bind_eq_ok, ASSERT_eq_ok] at h
    obtain ⟨_, _, h⟩ := h
    cases h
    exact ⟨rfl, rfl, rfl⟩

lemma lockRelease_sameBytes (h : s.lockRelease t = .ok s') : s.SameBytes s' := by
  simp only [lockRelease, bind_eq_ok, ASSERT_eq_ok] at h
  obtain ⟨_, _, h⟩ := h
  cases hw : s.q.lock.waiters with
  | nil =>
    rw [hw] at h
    cases h
    exact ⟨rfl, rfl, rfl⟩
  | cons =>
    rw [hw] at h
    obtain ⟨_, h1, h⟩ := bind_eq_ok.1 h
    cases h
    obtain ⟨hring, hputs, hgets⟩ := threadUnblock_sameBytes h1
    exact ⟨hring, hputs, hgets⟩

/-- **A byte moves**: it enters the queue at its end, or leaves it at its front. -/
theorem transfer_lossless (hl : s.Lossless) (hwait : op.mustWait s.q = false)
    (h : s.transfer op = .ok s') : s'.Lossless := by
  cases op with
  | getc =>
    have hne : s.q.count ≠ 0 := by
      intro hzero
      rw [show Op.getc.mustWait s.q = true from (intqEmpty_iff s.q).2 hzero] at hwait
      cases hwait
    refine (signal_sameBytes h).lossless ?_
    rw [Lossless] at hl
    rw [Lossless, takeByte, hl, s.q.toRing.contents_take hne, List.append_assoc]
    rfl
  | putc byte =>
    have hne : s.q.count ≠ INTQ_BUFSIZE - 1 := by
      intro hlast
      rw [show (Op.putc byte).mustWait s.q = true from (intqFull_iff s.q).2 hlast] at hwait
      cases hwait
    refine (signal_sameBytes h).lossless ?_
    rw [Lossless] at hl
    rw [Lossless, putByte, s.q.toRing.contents_put byte hne, hl, List.append_assoc]

lemma loop_lossless (hl : s.Lossless) (h : s.loop t op = .ok s') : s'.Lossless := by
  unfold loop at h
  split_ifs at h with hwait
  · obtain ⟨_, _, h⟩ := bind_eq_ok.1 h
    exact (semaDown_sameBytes h).lossless hl
  · exact transfer_lossless (s := { s with place := update s.place t .out }) hl
      (Bool.eq_false_iff.2 hwait) h

lemma Step.lossless (hs : s.Step e s') (hl : s.Lossless) : s'.Lossless := by
  obtain ⟨hen, h⟩ := hs
  cases e with
  | call => exact loop_lossless hl h
  | resume t =>
    simp only [exec] at h
    cases hp : s.place t with
    | out => exact absurd hp hen.1
    | acquiring =>
      rw [hp] at h
      exact (semaDown_sameBytes h).lossless hl
    | waiting =>
      rw [hp] at h
      obtain ⟨_, h1, h⟩ := bind_eq_ok.1 h
      exact loop_lossless ((lockRelease_sameBytes h1).lossless hl) h
  | intr => exact transfer_lossless hl hen h

/-- **The queue is a lossless FIFO** under any interleaving of threads and interrupt handlers. -/
theorem fifo (buf : ℕ → BitVec 8) (s : Queue) (hr : Reaches Step Always (init buf) s) :
    s.gets <+: s.puts ∧ s.puts = s.gets ++ s.q.contents ∧ s.q.contents.length ≤ INTQ_BUFSIZE - 1 ∧
      (intqEmpty s.q = true ↔ s.puts.length - s.gets.length = 0) ∧
      (intqFull s.q = true ↔ s.puts.length - s.gets.length = INTQ_BUFSIZE - 1) := by
  have hl : s.Lossless := by
    have hinit : (init buf).Lossless := by
      have hcount : (init buf).q.count = 0 := (Ring.head_eq_tail_iff _).1 rfl
      rw [Lossless, Ring.contents, hcount]
      rfl
    refine hr.invariant Lossless ?_ hinit
    intro s e _ hl hs _
    exact hs.lossless hl
  have hdiff : s.puts.length - s.gets.length = s.q.count := by
    rw [hl, List.length_append, Ring.length_contents]
    omega
  refine ⟨⟨_, hl.symm⟩, hl, ?_, ?_, ?_⟩
  · rw [Ring.length_contents]
    exact Nat.le_sub_one_of_lt s.q.count_lt
  · rw [hdiff, intqEmpty_iff]
  · rw [hdiff, intqFull_iff]

def after (s : Queue) (e : Event) : Option Queue :=
  if s.Enabled e then (s.exec e).toOption else none

lemma step_of_after (h : s.after e = some s') : s.Step e s' := by
  unfold after at h
  split_ifs at h with hen
  refine ⟨hen, ?_⟩
  cases hx : s.exec e with
  | error =>
    rw [hx] at h
    cases h
  | ok =>
    rw [hx] at h
    cases h
    rfl

lemma exists_run (Meets : Queue → Event → Prop) [∀ s e, Decidable (Meets s e)] (s : Queue)
    (l : List Event) (check : Queue → Bool)
    (h : (runThrough (fun s e => if Meets s e then s.after e else none) l s).any check = true) :
    ∃ s', Reaches Step Meets s s' ∧ check s' = true := by
  refine exists_runThrough (fun {s e s'} hs => ?_) s l check h
  split_ifs at hs with hm
  exact ⟨step_of_after hs, hm⟩

instance (s : Queue) (e : Event) : Decidable (Always s e) := .isTrue trivial

theorem fifo_two_bytes : ∃ s, Reaches Step Always (init fun _ => 0) s ∧
    (s.puts = [1, 2] ∧ s.gets = [1]) ∧ s.q.contents.length ≤ INTQ_BUFSIZE - 1 := by
  obtain ⟨s, hr, hcheck⟩ := exists_run Always (init fun _ => 0)
    [.call 1 .getc, .intr (.putc 1), .intr (.putc 2), .resume 1]
    (fun s => decide (s.puts = [1, 2] ∧ s.gets = [1])) (by decide)
  exact ⟨s, hr, of_decide_eq_true hcheck, (fifo _ s hr).2.2.1⟩

end Queue

end Pintos.Devices
