/-
# The file descriptors of a process

A process has two pages of pointers to files, from descriptor 2 on.  `process_add_file` gives
descriptors out in order and `process_close_file` empties a slot, so none is given out again.
Nothing looks where the pages end: a process that adds more than `FD_MAX` files writes behind them,
even if it closed all.
-/

import Pintos.Userprog.Process

namespace Pintos.Userprog

open Base Function Kernel List Threads

def processGetFile (s : Threads) (fd : ℤ) : Kernel (Option ℕ) := do
  let th ← threadCurrent s
  if fd ≤ 1 ∨ (th.nextFd : ℤ) ≤ fd then return none
  else if fd < FD_MAX + 2 then return th.fds fd.toNat
  else PANIC "fd_table: out of bounds"

def fdTable (s : Threads) (t : ℕ) : Option (ℕ × (ℕ → Option ℕ)) :=
  (s.threads t).map fun th => (th.nextFd, th.fds)

structure FdLog where
  /-- The file added under a descriptor, unless that was closed since. -/
  file : ℤ → Option ℕ := fun _ => none
  /-- The descriptors that were returned for files. -/
  given : List ℤ := []
  /-- The descriptors whose file was passed to `file_close`. -/
  ended : List ℤ := []

inductive FdStep (t : ℕ) : Threads × FdLog → Unit → Threads × FdLog → Prop
  | add {s s' l f fd} : s.current = t → processAddFile s (some f) = .ok (fd, s') →
      FdStep t (s, l) () (s', ⟨update l.file fd (some f), fd :: l.given, l.ended⟩)
  | close {s s' l fd file} : s.current = t → processCloseFile s fd = .ok (file, s') →
      FdStep t (s, l) () (s', ⟨update l.file fd none, l.given,
        file.elim l.ended fun _ => fd :: l.ended⟩)
  | other {s s' l} : fdTable s' t = fdTable s t → FdStep t (s, l) () (s', l)

def slot (n : ℕ) (fds : ℕ → Option ℕ) (x : ℤ) : Option ℕ :=
  if x ≤ 1 ∨ (n : ℤ) ≤ x then none else fds x.toNat

/-- **The table is what the calls made it.** -/
structure Table (n : ℕ) (fds : ℕ → Option ℕ) (l : FdLog) : Prop where
  next : n = 2 + l.given.length
  room : n ≤ FD_MAX + 2
  file : l.file = slot n fds
  given : ∀ x ∈ l.given, 2 ≤ x ∧ x < n
  nodup : l.given.Nodup
  ended : ∀ x ∈ l.ended, x < n ∧ l.file x = none
  once : l.ended.Nodup

variable {s s' : Threads} {t n : ℕ} {th : Thread} {fds fds' : ℕ → Option ℕ} {l : FdLog} {fd : ℤ}

lemma Table.add (ht : Table n fds l) (hlt : n < FD_MAX + 2) (f : ℕ) : Table (n + 1)
    (update fds n (some f)) ⟨update l.file n (some f), n :: l.given, l.ended⟩ := by
  have hn := ht.next
  refine ⟨congrArg (· + 1) hn, hlt, funext fun x => ?_, fun x hx => ?_,
    nodup_cons.2 ⟨fun hmem => (ht.given _ hmem).2.ne rfl, ht.nodup⟩, fun x hx => ?_, ht.once⟩
  · dsimp only
    rw [ht.file, slot]
    by_cases hx : x = n
    · rw [if_neg (by omega), hx, Int.toNat_natCast, update_self, update_self]
    · rw [update_of_ne hx, slot]
      split_ifs
      · rfl
      · omega
      · omega
      · rw [update_of_ne (by omega)]
  · rcases mem_cons.1 hx with rfl | hx
    · omega
    · have := ht.given x hx
      omega
  · obtain ⟨hlt, hnone⟩ := ht.ended x hx
    exact ⟨by omega, (update_of_ne hlt.ne ..).trans hnone⟩

lemma Table.close (ht : Table n fds l) (hslot : slot n fds' = update (slot n fds) fd none) :
    Table n fds' ⟨update l.file fd none, l.given,
      (slot n fds fd).elim l.ended fun _ => fd :: l.ended⟩ := by
  have hfile : update l.file fd none = slot n fds' := by rw [hslot, ht.file]
  have hstill : ∀ x ∈ l.ended, x < n ∧ update l.file fd none x = none := by
    intro x hx
    rw [update_apply, (ht.ended x hx).2, ite_self]
    exact ⟨(ht.ended x hx).1, rfl⟩
  cases hf : slot n fds fd with
  | none => exact ⟨ht.next, ht.room, hfile, ht.given, ht.nodup, hstill, ht.once⟩
  | some f =>
    refine ⟨ht.next, ht.room, hfile, ht.given, ht.nodup, fun x hx => ?_,
      nodup_cons.2 ⟨fun hmem => ?_, ht.once⟩⟩
    · rcases mem_cons.1 hx with rfl | hx
      · rw [slot] at hf
        split_ifs at hf
        exact ⟨by omega, update_self ..⟩
      · exact hstill x hx
    · cases hf.symm.trans (ht.file ▸ (ht.ended fd hmem).2)

lemma fdTable_modify (hth : s.threads s.current = some th) (f : Thread → Thread) :
    fdTable (s.modify s.current f) s.current = some ((f th).nextFd, (f th).fds) := by
  rw [fdTable, threads_modify, if_pos rfl, hth]
  rfl

lemma processAddFile_some (hr : s.Running) (hth : s.threads s.current = some th)
    (hlt : 2 ≤ th.nextFd ∧ th.nextFd < FD_MAX + 2) (f : ℕ) :
    processAddFile s (some f) = .ok ((th.nextFd : ℤ), s.modify s.current fun th' =>
      { th' with nextFd := th.nextFd + 1, fds := update th'.fds th.nextFd (some f) }) := by
  rw [processAddFile, hr.threadCurrent hth, ok_bind, if_pos hlt]
  rfl

lemma processCloseFile_slot (hr : s.Running) (hth : s.threads s.current = some th) (fd : ℤ) :
    ∃ s' fds', processCloseFile s fd = .ok (slot th.nextFd th.fds fd, s') ∧
      fdTable s' s.current = some (th.nextFd, fds') ∧
      slot th.nextFd fds' = update (slot th.nextFd th.fds) fd none := by
  rw [processCloseFile, hr.threadCurrent hth, ok_bind]
  by_cases hout : fd ≤ 1 ∨ (th.nextFd : ℤ) ≤ fd
  · have hnone : slot th.nextFd th.fds fd = none := if_pos hout
    rw [if_pos hout, hnone]
    refine ⟨s, th.fds, rfl, by rw [fdTable, hth]; rfl, ?_⟩
    rw [← hnone, update_eq_self]
  · rw [if_neg hout, slot, if_neg hout]
    refine ⟨_, _, rfl, fdTable_modify hth _, funext fun x => ?_⟩
    by_cases hx : x = fd
    · rw [hx, update_self, slot, if_neg hout]
      exact update_self ..
    · rw [update_of_ne hx, slot, slot]
      split_ifs
      · rfl
      · exact update_of_ne (by omega) ..

def Tabled (t : ℕ) (s : Threads × FdLog) : Prop :=
  ∃ n fds, fdTable s.1 t = some (n, fds) ∧ Table n fds s.2

lemma Tabled.current (hs : Tabled s.current (s, l)) (hth : s.threads s.current = some th) :
    Table th.nextFd th.fds l := by
  obtain ⟨n, fds, htab, ht⟩ := hs
  rw [fdTable, hth] at htab
  cases htab
  exact ht

lemma Tabled.step {s s' : Threads × FdLog} {e : Unit} (hs : Tabled t s)
    (hstep : FdStep t s e s') : Tabled t s' := by
  cases hstep with
  | other hsame =>
    obtain ⟨n, fds, htab, ht⟩ := hs
    exact ⟨n, fds, hsame.trans htab, ht⟩
  | add hcur hadd =>
    subst hcur
    simp only [processAddFile, bind_eq_ok] at hadd
    obtain ⟨th, hth, hadd⟩ := hadd
    obtain ⟨_, hth⟩ := running_of_threadCurrent hth
    split_ifs at hadd with hlt
    · cases hadd
      exact ⟨_, _, fdTable_modify hth _, (hs.current hth).add hlt.2 _⟩
    · cases hadd
  | @close _ _ _ fd _ hcur hclose =>
    subst hcur
    obtain ⟨th, hth, _⟩ := bind_eq_ok.1 hclose
    obtain ⟨hr, hth⟩ := running_of_threadCurrent hth
    obtain ⟨s1, fds', heq, htab, hslot⟩ := processCloseFile_slot hr hth fd
    cases hclose.symm.trans heq
    exact ⟨_, _, htab, (hs.current hth).close hslot⟩

/-- **The descriptors of a process**, in every run from a new table: `fd_table` is followed between
2 and `next_fd` only; `process_add_file` stays in its pages while fewer than `FD_MAX` files were
added. -/
theorem fd_table_map {s₀ : Threads} (h₀ : fdTable s₀ t = some (2, fun _ => none))
    (hrun : Reaches (FdStep t) Always (s₀, {}) (s, l)) :
    l.given.Nodup ∧ (∀ fd ∈ l.given, 2 ≤ fd) ∧ l.ended.Nodup ∧
    (∀ n fds, fdTable s t = some (n, fds) → n ≤ FD_MAX + 2) ∧
    (s.current = t → s.Running → (∀ fd, processGetFile s fd = .ok (l.file fd)) ∧
      (∀ fd, ∃ s', processCloseFile s fd = .ok (l.file fd, s')) ∧
      (l.given.length < FD_MAX → ∀ file, ∃ r, processAddFile s file = .ok r)) := by
  have hs : Tabled t (s, l) := by
    refine hrun.invariant (Tabled t) (fun hs hstep _ => hs.step hstep) ⟨_, _, h₀, ?_⟩
    exact ⟨rfl, by decide, funext fun x => (ite_self none).symm, nofun, nodup_nil, nofun, nodup_nil⟩
  have ⟨n, fds, htab, ht⟩ := hs
  refine ⟨ht.nodup, fun fd hfd => (ht.given fd hfd).1, ht.once, fun n' fds' htab' => ?_,
    fun hcur hr => ?_⟩
  · cases htab.symm.trans htab'
    exact ht.room
  subst hcur
  obtain ⟨th, hth⟩ := Option.ne_none_iff_exists'.1 hr.2
  have ht := hs.current hth
  have hroom := ht.room
  have hnext := ht.next
  rw [ht.file]
  refine ⟨fun fd => ?_, fun fd => ?_, fun hlt file => ?_⟩
  · rw [processGetFile, hr.threadCurrent hth, ok_bind, slot]
    split_ifs
    · rfl
    · rfl
    · omega
  · obtain ⟨s', _, heq, _⟩ := processCloseFile_slot hr hth fd
    exact ⟨s', heq⟩
  · cases file with
    | none => exact ⟨_, rfl⟩
    | some f => exact ⟨_, processAddFile_some hr hth (by omega) f⟩

def opening : Threads :=
  (boot ⟨⟨⟨0, fun _ => 0⟩, 0, 0⟩, ⟨⟨0, fun _ => 0⟩, 0, 0⟩, fun _ => 0⟩ 1 1 1).modify 1 fun th =>
    { th with nextFd := 2 }

theorem fd_table_map_two : ∃ s l, Reaches (FdStep 1) Always (opening, {}) (s, l) ∧
    processGetFile s 2 = .ok (some 7) ∧ processGetFile s 3 = .ok (some 8) := by
  have hrun : Reaches (FdStep 1) Always (opening, {}) _ :=
    .step (.step .refl (.add (f := 7) rfl rfl) trivial) (.add (f := 8) rfl rfl) trivial
  have hget := ((fd_table_map rfl hrun).2.2.2.2 rfl ⟨rfl, nofun⟩).1
  exact ⟨_, _, hrun, hget 2, hget 3⟩

lemma exists_full (n : ℕ) (hn : n ≤ FD_MAX) : ∃ s l th,
    Reaches (FdStep 1) Always (opening, {}) (s, l) ∧ s.current = 1 ∧ s.Running ∧
      s.threads s.current = some th ∧ th.nextFd = 2 + n := by
  induction n with
  | zero => exact ⟨opening, {}, _, .refl, rfl, ⟨rfl, nofun⟩, rfl, rfl⟩
  | succ n ih =>
    obtain ⟨s, l, th, hrun, hcur, hr, hth, hnext⟩ := ih (by omega)
    have hadd := processAddFile_some hr hth (by omega) 7
    exact ⟨_, _, _, hrun.step (.add hcur hadd) trivial, hcur, hr.modify _,
      (threads_modify _).trans ((if_pos rfl).trans (congrArg _ hth)), congrArg (· + 1) hnext⟩

/-- **`process_add_file` leaves the pages** after `FD_MAX` files. -/
theorem fd_table_overrun : ∃ s l, Reaches (FdStep 1) Always (opening, {}) (s, l) ∧
    processAddFile s (some 7) = PANIC "fd_table: out of bounds" := by
  obtain ⟨s, l, th, hrun, _, hr, hth, hnext⟩ := exists_full FD_MAX le_rfl
  refine ⟨s, l, hrun, ?_⟩
  rw [processAddFile, hr.threadCurrent hth, ok_bind, if_neg (by omega)]

end Pintos.Userprog
