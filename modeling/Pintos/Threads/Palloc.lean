/-
# The page allocator

`threads/palloc.c`.  Free memory from 1 MB to the end of RAM is split into a kernel pool and a user
pool.  A pool starts with the pages of its bitmap, whose bit `i` stands for the `i`-th page after
them.

The state is the two pools and the bytes of memory; the locks around the scan make each call one
step.  `init_ram_pages` and every size are 32-bit words, and `palloc_init` wraps.
-/

import Pintos.Lib.Bitmap
import Pintos.Threads.Vaddr

namespace Pintos

open Base

/-- `struct pool`, with the address `used_map` points to. -/
structure Pool where
  usedMap : Bitmap
  /-- Where the bitmap is stored: the start of the pool. -/
  mapAddr : ℕ
  base : ℕ

structure PallocFlags where
  PAL_ASSERT : Bool := false
  PAL_ZERO : Bool := false
  PAL_USER : Bool := false
deriving DecidableEq, Repr

structure Palloc where
  kernelPool : Pool
  userPool : Pool
  mem : Memory

def Palloc.pool (s : Palloc) (user : Bool) : Pool := if user then s.userPool else s.kernelPool

def Palloc.setMap (s : Palloc) (user : Bool) (map : Bitmap) : Palloc :=
  if user then { s with userPool := { s.userPool with usedMap := map } }
  else { s with kernelPool := { s.kernelPool with usedMap := map } }

/-- A pool of `pageCnt` pages at `base`; `buf` is the memory of the bitmap. -/
def initPool (base pageCnt : ℕ) (name : String) (buf : ℕ → BitVec 32) : Kernel Pool := do
  let bmPages := DIV_ROUND_UP (bitmapBufSize pageCnt) PGSIZE
  if bmPages > pageCnt then
    PANIC ("Not enough memory in " ++ name ++ " for bitmap.")
  else
    let map ← bitmapCreateInBuf (pageCnt - bmPages) base (u32 (bmPages * PGSIZE)) buf
    return { usedMap := map, mapAddr := base, base := u32 (base + u32 (bmPages * PGSIZE)) }

/-- `palloc_init (USER_PAGE_LIMIT)` with `initRamPages` pages; `kbuf` and `ubuf` are at the
bitmaps. -/
def pallocInit (initRamPages userPageLimit : ℕ) (mem : Memory) (kbuf ubuf : ℕ → BitVec 32) :
    Kernel Palloc := do
  let freeStart ← ptov (1024 * 1024)
  let freeEnd ← ptov (u32 (initRamPages * PGSIZE))
  let freePages := wordOf ((ptrDiff freeEnd freeStart).tdiv PGSIZE)
  let userPages := if freePages / 2 > userPageLimit then userPageLimit else freePages / 2
  let kernelPages := freePages - userPages
  let kernelPool ← initPool freeStart kernelPages "kernel pool" kbuf
  let userPool ← initPool (u32 (freeStart + u32 (kernelPages * PGSIZE))) userPages "user pool" ubuf
  return { kernelPool, userPool, mem }

def pallocGetMultiple (s : Palloc) (flags : PallocFlags) (pageCnt : ℕ) :
    Kernel (Option ℕ × Palloc) :=
  if pageCnt = 0 then
    return (none, s)
  else do
    let pool := s.pool flags.PAL_USER
    let (pageIdx, map) ← bitmapScanAndFlip pool.usedMap 0 pageCnt false
    let s := s.setMap flags.PAL_USER map
    let pages := if pageIdx ≠ BITMAP_ERROR then u32 (pool.base + u32 (PGSIZE * pageIdx)) else 0
    if pages ≠ 0 then
      let mem := if flags.PAL_ZERO then memset s.mem pages 0#8 (u32 (PGSIZE * pageCnt)) else s.mem
      return (some pages, { s with mem := mem })
    else if flags.PAL_ASSERT then
      PANIC "palloc_get: out of pages"
    else
      return (none, s)

def pageFromPool (pool : Pool) (page : ℕ) : Bool :=
  let startPage := pgNo pool.base
  let endPage := u32 (startPage + pool.usedMap.bitCnt)
  decide (startPage ≤ pgNo page ∧ pgNo page < endPage)

/-- The pool `palloc_free_multiple` finds a page in: the kernel pool is tried
first. -/
def poolOfPage (s : Palloc) (page : ℕ) : Kernel Bool :=
  if pageFromPool s.kernelPool page then pure false
  else if pageFromPool s.userPool page then pure true
  else PANIC "executed an unreachable statement"

def pallocFreeMultiple (s : Palloc) (pages pageCnt : ℕ) : Kernel Palloc := do
  ASSERT (pgOfs pages = 0)
  if pages = 0 ∨ pageCnt = 0 then
    return s
  else
    let user ← poolOfPage s pages
    let pool := s.pool user
    let pageIdx := u32 (pgNo pages + 2 ^ 32 - pgNo pool.base)
    let mem := memset s.mem pages 0xcc#8 (u32 (PGSIZE * pageCnt))
    let all ← bitmapAll pool.usedMap pageIdx pageCnt
    ASSERT (all = true)
    let map ← bitmapSetMultiple pool.usedMap pageIdx pageCnt false
    return { s.setMap user map with mem := mem }

def pallocGetPage (s : Palloc) (flags : PallocFlags) : Kernel (Option ℕ × Palloc) :=
  pallocGetMultiple s flags 1

def pallocFreePage (s : Palloc) (page : ℕ) : Kernel Palloc := pallocFreeMultiple s page 1

/-! ### Selecting and replacing -/

@[simp] lemma Palloc.pool_setMap (s : Palloc) (u v : Bool) (map : Bitmap) :
    (s.setMap u map).pool v = if v = u then { s.pool u with usedMap := map } else s.pool v := by
  cases u <;> cases v <;> rfl

@[simp] lemma Palloc.mem_setMap (s : Palloc) (u : Bool) (map : Bitmap) :
    (s.setMap u map).mem = s.mem := by
  cases u <;> rfl

@[simp] lemma Palloc.pool_mem (s : Palloc) (u : Bool) (mem : Memory) :
    Palloc.pool { s with mem := mem } u = s.pool u := by
  cases u <;> rfl

lemma Palloc.ext_pool {s s' : Palloc} (h : ∀ u, s.pool u = s'.pool u) (hm : s.mem = s'.mem) :
    s = s' := by
  have hk : s.kernelPool = s'.kernelPool := h false
  have hu : s.userPool = s'.userPool := h true
  cases s; cases s'
  simp_all

end Pintos
