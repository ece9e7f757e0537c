/-
# Supplemental page tables and the state of virtual memory

The data of `vm/page.c` and `vm/frame.c`, and the operations of `vm/page.c` on one supplemental page
table.  A process has a page directory and a supplemental page table; the frame table, the swap
table and the page allocator are shared.

A supplemental page table is a hash table keyed by `upage`: a map to the other fields of the entry,
without those that name a file, which nothing reads.  The block that `malloc` returns for an entry,
with whatever it holds, is an argument; when there is none, the operation writes through a null
pointer.
-/

import Pintos.Threads.Palloc
import Pintos.Userprog.Pagedir
import Pintos.Vm.Swap

namespace Pintos.Virtualmemory

open Base Function

inductive PageStatus
  | ALL_ZERO
  | ON_FRAME
  | ON_SWAP
  | FROM_FILESYS
  | other (word : ℕ)
deriving DecidableEq, Repr

structure PageTableEntry where
  writable : Bool
  kpage : ℕ
  status : PageStatus
  dirty : Bool
  swapIndex : ℕ
deriving DecidableEq, Repr

abbrev PageTable := ℕ → Option PageTableEntry

structure Process where
  pagedir : Pagedir
  table : PageTable

structure FrameTableEntry where
  upage : ℕ
  kpage : ℕ
  t : ℕ
  pinned : Bool
  history : ℤ
deriving DecidableEq, Repr

structure Vm where
  palloc : Palloc
  swap : Swap
  /-- `frame_list`, oldest first; `frame_map` holds the same entries by `kpage`. -/
  frames : List FrameTableEntry
  historyNum : ℤ
  procs : ℕ → Process
  /-- The kernel half that all page directories share. -/
  initPageDir : Pagedir
  initRamPages : ℕ

def Vm.spte (vm : Vm) (p upage : ℕ) : Option PageTableEntry := (vm.procs p).table upage

def Vm.maps (vm : Vm) (p upage : ℕ) : Option (ℕ × Bool) := (vm.procs p).pagedir.maps upage

def Vm.setProc (vm : Vm) (p : ℕ) (proc : Process) : Vm :=
  { vm with procs := update vm.procs p proc }

def Vm.setPagedir (vm : Vm) (p : ℕ) (pd : Pagedir) : Vm :=
  vm.setProc p { vm.procs p with pagedir := pd }

def Vm.setSpte (vm : Vm) (p upage : ℕ) (e : Option PageTableEntry) : Vm :=
  vm.setProc p { vm.procs p with table := update (vm.procs p).table upage e }

def Vm.setMem (vm : Vm) (mem : Memory) : Vm := { vm with palloc := { vm.palloc with mem := mem } }

def Vm.isDirty (vm : Vm) (p vpage : ℕ) : Bool :=
  if isUserVaddr vpage then pagedirIsDirty (vm.procs p).pagedir vpage
  else pagedirIsDirty vm.initPageDir vpage

def Vm.setDirty (vm : Vm) (p vpage : ℕ) (dirty : Bool) : Vm :=
  if isUserVaddr vpage then vm.setPagedir p (pagedirSetDirty (vm.procs p).pagedir vpage dirty)
  else { vm with initPageDir := pagedirSetDirty vm.initPageDir vpage dirty }

/-- An access of the kernel to an unmapped address, such as a null pointer: no return. -/
def kernelFault {α : Type} : Kernel α := PANIC "page fault in kernel context"

/-- Installs `upage` on frame `kpage`: false if there is an entry.  All assignments but the first
stand in a comment that it opens: the entry keeps what the block held. -/
def tableInstallFrame (vm : Vm) (p upage _kpage : ℕ) (block : Option PageTableEntry) :
    Kernel (Bool × Vm) :=
  match block with
  | none => kernelFault
  | some spte =>
    match vm.spte p upage with
    | none => return (true, vm.setSpte p upage (some spte))
    | some _ => return (false, vm)

def tableInstallZeropage (vm : Vm) (p upage : ℕ) (block : Option PageTableEntry) :
    Kernel (Bool × Vm) :=
  match block with
  | none => kernelFault
  | some spte =>
    match vm.spte p upage with
    | none =>
      return (true, vm.setSpte p upage
        (some { spte with kpage := 0, status := .ALL_ZERO, dirty := false }))
    | some _ => PANIC "중복된 엔트리"

def tableSetSwap (vm : Vm) (p page swapIndex : ℕ) : Bool × Vm :=
  match vm.spte p page with
  | none => (false, vm)
  | some spte =>
    (true, vm.setSpte p page
      (some { spte with status := .ON_SWAP, kpage := 0, swapIndex := swapIndex }))

def tableHasEntry (vm : Vm) (p page : ℕ) : Bool := (vm.spte p page).isSome

def tableSetDirty (vm : Vm) (p page : ℕ) (value : Bool) : Kernel Vm :=
  match vm.spte p page with
  | none => PANIC "더티비트를 설정할 테이블을 찾을 수 없다"
  | some spte => return vm.setSpte p page (some { spte with dirty := spte.dirty || value })

/-! ### Replacing and looking up -/

section Views

variable (vm : Vm) (p q u v : ℕ)

@[simp] lemma Vm.spte_setSpte (e : Option PageTableEntry) :
    (vm.setSpte p u e).spte q v = if q = p ∧ v = u then e else vm.spte q v := by
  unfold Vm.setSpte Vm.setProc Vm.spte
  by_cases hq : q = p
  · subst hq
    by_cases hv : v = u
    · subst hv
      simp
    · simp [hv]
  · simp [hq]

@[simp] lemma Vm.maps_setSpte (e : Option PageTableEntry) :
    (vm.setSpte p u e).maps q v = vm.maps q v := by
  unfold Vm.setSpte Vm.setProc Vm.maps
  by_cases hq : q = p
  · subst hq
    simp
  · simp [hq]

@[simp] lemma Vm.spte_setPagedir (pd : Pagedir) :
    (vm.setPagedir p pd).spte q v = vm.spte q v := by
  unfold Vm.setPagedir Vm.setProc Vm.spte
  by_cases hq : q = p
  · subst hq
    simp
  · simp [hq]

@[simp] lemma Vm.maps_setPagedir (pd : Pagedir) :
    (vm.setPagedir p pd).maps q v = if q = p then pd.maps v else vm.maps q v := by
  unfold Vm.setPagedir Vm.setProc Vm.maps
  by_cases hq : q = p
  · subst hq
    simp
  · simp [hq]

lemma Vm.maps_setPagedir_page {pd : Pagedir} {x : Option (ℕ × Bool)}
    (hpd : ∀ v, pd.maps v = if v = u then x else vm.maps p v) :
    (vm.setPagedir p pd).maps q v = if q = p ∧ v = u then x else vm.maps q v := by
  rw [maps_setPagedir, hpd]
  by_cases hq : q = p
  · subst hq
    simp only [if_true, true_and]
  · simp only [hq, if_false, false_and]

lemma Vm.setPagedir_self : vm.setPagedir p (vm.procs p).pagedir = vm := by
  rw [setPagedir, setProc, update_eq_self]

@[simp] lemma Vm.spte_setDirty (dirty : Bool) :
    (vm.setDirty p u dirty).spte q v = vm.spte q v := by
  unfold Vm.setDirty
  split_ifs
  · rw [spte_setPagedir]
  · rfl

@[simp] lemma Vm.maps_setDirty (dirty : Bool) :
    (vm.setDirty p u dirty).maps q v = vm.maps q v := by
  unfold Vm.setDirty
  split_ifs
  · rw [maps_setPagedir, maps_pagedirSetDirty]
    split_ifs with hq
    · rw [hq, Vm.maps]
    · rfl
  · rfl

@[simp] lemma Vm.frames_setDirty (dirty : Bool) : (vm.setDirty p u dirty).frames = vm.frames := by
  unfold Vm.setDirty
  split_ifs <;> rfl

@[simp] lemma Vm.palloc_setDirty (dirty : Bool) : (vm.setDirty p u dirty).palloc = vm.palloc := by
  unfold Vm.setDirty
  split_ifs <;> rfl

@[simp] lemma Vm.swap_setDirty (dirty : Bool) : (vm.setDirty p u dirty).swap = vm.swap := by
  unfold Vm.setDirty
  split_ifs <;> rfl

@[simp] lemma Vm.frames_setPagedir (pd : Pagedir) : (vm.setPagedir p pd).frames = vm.frames := rfl

@[simp] lemma Vm.palloc_setPagedir (pd : Pagedir) : (vm.setPagedir p pd).palloc = vm.palloc := rfl

@[simp] lemma Vm.swap_setPagedir (pd : Pagedir) : (vm.setPagedir p pd).swap = vm.swap := rfl

end Views

end Pintos.Virtualmemory
