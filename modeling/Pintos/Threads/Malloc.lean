/-
# The block allocator

`threads/malloc.c`.  Blocks of 16, 32, …, 1024 bytes are cut from pages, the arenas, each size with
a descriptor and a list of free blocks; a larger block has pages of its own.  An arena starts with a
header, its descriptor and the number of its free blocks, and is found by rounding the address of a
block down to a page.

The page allocator is a parameter (`PageAllocator`): a state, the two functions that `malloc.c`
calls, and their contract, under which a request may fail at any time.  The lock of a descriptor
makes each call one step.  A free list is the list of the addresses of its blocks.
-/

import Pintos.Threads.PallocSafety

namespace Pintos

open Base Function

/-- A page allocator: what a client may rely on if `live` are all allocations. -/
structure PageAllocator where
  State : Type
  /-- `palloc_get_multiple (0, n)`. -/
  get : State → ℕ → Kernel (Option ℕ × State)
  /-- `palloc_free_multiple (pages, n)`. -/
  free : State → ℕ → ℕ → Kernel State
  Holds : State → List Allocation → Prop
  placed : ∀ {s live}, Holds s live → ∀ a ∈ live, pgOfs a.pages = 0 ∧ 0 < a.pages ∧
    0 < a.pageCnt ∧ a.pages + PGSIZE * a.pageCnt ≤ 2 ^ 32
  disjoint : ∀ {s live}, Holds s live → live.Pairwise fun a b => Disjoint a.area b.area
  get_spec : ∀ {s live n}, Holds s live → 0 < n → ∃ r s', get s n = .ok (r, s') ∧
    Holds s' ((r.map fun pages => ⟨pages, n, false⟩).toList ++ live)
  free_spec : ∀ {s live a}, Holds s live → a ∈ live → ∃ s', free s a.pages a.pageCnt = .ok s' ∧
    Holds s' (live.erase a)

/-! ### The data -/

def ARENA_MAGIC : ℕ := 0x9a548eed

def ARENA_SIZE : ℕ := 12

def DESC_MAX : ℕ := 10

structure Desc where
  blockSize : ℕ
  blocksPerArena : ℕ
  freeList : List ℕ
deriving DecidableEq, Repr

structure Arena where
  magic : ℕ
  /-- The index of the descriptor, or null for a big block. -/
  desc : Option ℕ
  /-- Free blocks; pages in big block. -/
  freeCnt : ℕ
deriving DecidableEq, Repr

/-- What `memset (…, 0xcc, …)` leaves of a header: no descriptor. -/
def Arena.cleared : Arena := ⟨0xcccccccc, some 0xcccccccc, 0xcccccccc⟩

structure Heap (A : PageAllocator) where
  palloc : A.State
  descs : List Desc
  /-- What a page starts with, read as a header. -/
  arena : ℕ → Arena
  /-- What was obtained from the page allocator and not returned. -/
  pages : List Allocation

/-- The loop of `malloc_init` from a size on, with room for `room` descriptors. -/
def mallocInitFrom (blockSize : ℕ) : (room : ℕ) → Kernel (List Desc)
  | 0 => do
    ASSERT (¬ blockSize < PGSIZE / 2)
    return []
  | room + 1 =>
    if blockSize < PGSIZE / 2 then do
      let rest ← mallocInitFrom (u32 (blockSize * 2)) room
      return ⟨blockSize, (PGSIZE - ARENA_SIZE) / blockSize, []⟩ :: rest
    else return []

def mallocInit : Kernel (List Desc) := mallocInitFrom 16 DESC_MAX

def listRemove (l : List ℕ) (b : ℕ) : Kernel (List ℕ) := do
  ASSERT (b ∈ l)
  return l.erase b

namespace Heap

variable {A : PageAllocator} (h : Heap A)

def getDesc (i : ℕ) : Kernel Desc :=
  match h.descs[i]? with
  | some d => return d
  | none => PANIC "bad pointer"

def setFreeList (i : ℕ) (freeList : List ℕ) : Heap A :=
  { h with descs := h.descs.modify i fun d => { d with freeList := freeList } }

def setArena (a : ℕ) (arena : Arena) : Heap A :=
  { h with arena := update h.arena a arena }

/-- `memset (dst, 0xcc, size)`: the headers that overlap are lost. -/
def clear (dst size : ℕ) : Heap A :=
  { h with arena := fun x => if x < dst + size ∧ dst < x + ARENA_SIZE then .cleared else h.arena x }

def getPages (n : ℕ) : Kernel (Option ℕ × Heap A) := do
  let (r, palloc) ← A.get h.palloc n
  return (r, { h with
    palloc := palloc
    pages := (r.map fun pages => ⟨pages, n, false⟩).toList ++ h.pages })

def freePages (pages n : ℕ) : Kernel (Heap A) := do
  let palloc ← A.free h.palloc pages n
  return { h with
    palloc := palloc
    pages := h.pages.erase ⟨pages, n, false⟩ }.clear pages (PGSIZE * n)

def blockToArena (b : ℕ) : Kernel ℕ := do
  let a := pgRoundDown b
  ASSERT (a ≠ 0)
  ASSERT ((h.arena a).magic = ARENA_MAGIC)
  match (h.arena a).desc with
  | some i => do
    let d ← h.getDesc i
    ASSERT (u32 (pgOfs b + 2 ^ 32 - ARENA_SIZE) % d.blockSize = 0)
  | none => ASSERT (pgOfs b = ARENA_SIZE)
  return a

def arenaToBlock (a idx : ℕ) : Kernel ℕ := do
  ASSERT (a ≠ 0)
  ASSERT ((h.arena a).magic = ARENA_MAGIC)
  match (h.arena a).desc with
  | some i => do
    let d ← h.getDesc i
    ASSERT (idx < d.blocksPerArena)
    return u32 (a + ARENA_SIZE + u32 (idx * d.blockSize))
  | none => PANIC "null pointer"

def newArena (i : ℕ) : Kernel (Bool × Heap A) := do
  let (a, h) ← h.getPages 1
  match a with
  | none => return (false, h)
  | some a => do
    let d ← h.getDesc i
    let h := h.setArena a ⟨ARENA_MAGIC, some i, d.blocksPerArena⟩
    let freeList ← forLoop d.blocksPerArena (fun freeList idx => do
      let b ← h.arenaToBlock a idx
      return freeList ++ [b]) d.freeList
    return (true, h.setFreeList i freeList)

def takeBlock (i : ℕ) : Kernel (Option ℕ × Heap A) := do
  let d ← h.getDesc i
  match d.freeList with
  | [] => PANIC "assertion failed."
  | b :: rest => do
    let h := h.setFreeList i rest
    let a ← h.blockToArena b
    return (some b,
      h.setArena a { h.arena a with freeCnt := u32 ((h.arena a).freeCnt + 2 ^ 32 - 1) })

/-- The smallest block that fits, or whole pages behind an arena of their own. -/
def malloc (size : ℕ) : Kernel (Option ℕ × Heap A) :=
  if size = 0 then return (none, h)
  else
    match h.descs.findIdx? (fun d => size ≤ d.blockSize) with
    | none => do
      let pageCnt := DIV_ROUND_UP (u32 (size + ARENA_SIZE)) PGSIZE
      let (a, h) ← h.getPages pageCnt
      match a with
      | none => return (none, h)
      | some a =>
        return (some (u32 (a + ARENA_SIZE)), h.setArena a ⟨ARENA_MAGIC, none, pageCnt⟩)
    | some i => do
      let d ← h.getDesc i
      let (success, h) ← if d.freeList = [] then h.newArena i else pure (true, h)
      if success then h.takeBlock i else return (none, h)

def blockSize (block : ℕ) : Kernel ℕ := do
  let a ← h.blockToArena block
  match (h.arena a).desc with
  | some i => do
    let d ← h.getDesc i
    return d.blockSize
  | none => return u32 (u32 (PGSIZE * (h.arena a).freeCnt) + 2 ^ 32 - pgOfs block)

def free (p : ℕ) : Kernel (Heap A) :=
  if p = 0 then return h
  else do
    let a ← h.blockToArena p
    match (h.arena a).desc with
    | some i => do
      let d ← h.getDesc i
      let h := (h.clear p d.blockSize).setFreeList i (p :: d.freeList)
      let freeCnt := u32 ((h.arena a).freeCnt + 1)
      let h := h.setArena a { h.arena a with freeCnt := freeCnt }
      if freeCnt ≥ d.blocksPerArena then do
        ASSERT (freeCnt = d.blocksPerArena)
        let freeList ← forLoop d.blocksPerArena (fun freeList idx => do
          let b ← h.arenaToBlock a idx
          listRemove freeList b) (p :: d.freeList)
        (h.setFreeList i freeList).freePages a 1
      else return h
    | none => h.freePages a (h.arena a).freeCnt

end Heap

lemma PallocClient.Inv.page {ram : ℕ} {c : PallocClient} (hram : ram ≤ 2 ^ 18) (h : c.Inv ram) :
    ∀ a ∈ c.live, pgOfs a.pages = 0 ∧ 0 < a.pages ∧ 0 < a.pageCnt ∧
      a.pages + PGSIZE * a.pageCnt ≤ 2 ^ 32 := by
  intro a ha
  obtain ⟨hpos, i, hpages, hi⟩ := h.placed a ha
  obtain ⟨start, pages, hl⟩ := h.pool_layout a.user
  obtain ⟨hstart, hend, hal⟩ := hl.page (i := i) (by omega)
  have hram' := (h.safe.apart a ha).2.2.2
  have hfirst := hram' (show a.pages ∈ a.area from ⟨le_rfl, by simp only [PGSIZE]; omega⟩)
  have hlast := hram' (show a.pages + PGSIZE * a.pageCnt - 1 ∈ a.area from
    ⟨by simp only [PGSIZE]; omega, by simp only [PGSIZE]; omega⟩)
  simp only [Set.mem_ofPred_eq, PHYS_BASE, PGSIZE, pgOfs] at *
  exact ⟨by omega, by omega, hpos, by omega⟩

/-- **`palloc.c` is a page allocator**, on a machine with `ram` pages of memory. -/
def pallocAllocator (ram : ℕ) (hram : ram ≤ 2 ^ 18) : PageAllocator where
  State := Palloc
  get s n := pallocGetMultiple s {} n
  free := pallocFreeMultiple
  Holds s live := PallocClient.Inv ram ⟨s, live⟩
  placed h := h.page hram
  disjoint h := h.disjoint
  get_spec := by
    intro s _ n h _
    obtain ⟨⟨r, s'⟩, hr⟩ := h.safe.total.1 {} n rfl
    exact ⟨r, s', hr, h.step (.get hr)⟩
  free_spec := by
    intro s _ a h ha
    obtain ⟨s', hs'⟩ := h.safe.total.2 a ha
    exact ⟨s', hs', h.step (.free ha hs')⟩

end Pintos
