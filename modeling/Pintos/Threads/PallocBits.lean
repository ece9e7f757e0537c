/-
# The page allocator, bit by bit

`palloc_get_multiple` and `palloc_free_multiple` of `threads/palloc.c` as programs whose actions are
single tests and single writes of a bit.  `bitmap_mark` and `bitmap_reset` are one instruction each
(`orl`, `andl`), so a write changes no other bit.  A request holds the lock of its pool from before
its scan to after its last write and the printing of the map; a free takes no lock.  `memset` is one
action.

A client keeps its allocations in a ledger, `live`: it enters what a request returned, and takes an
allocation out to free it, so that only live allocations are freed, each once.  `allocs` counts how
often the bit of a page has been set; no source function reads it.
-/

import Pintos.Base.Prog
import Pintos.Threads.PallocSafety

namespace Pintos.PallocBits

open Base Function

/-- The pools, the holders of their locks, the live allocations, and the counts of the pages. -/
structure Shared (ι : Type) where
  alloc : Palloc
  lock : Bool → Option ι
  live : List Allocation
  allocs : Bool → ℕ → ℕ

variable {ι : Type}

def Shared.map (s : Shared ι) (u : Bool) : Bitmap := (s.alloc.pool u).usedMap

def bitmapTest (u : Bool) (j : ℕ) : Prog (Shared ι) Bool :=
  .atom fun s => do return (← Pintos.bitmapTest (s.map u) j, s)

def Shared.written (s : Shared ι) (u : Bool) (j : ℕ) (value : Bool) (map : Bitmap) : Shared ι :=
  { s with
    alloc := s.alloc.setMap u map
    allocs := if value then
        update s.allocs u (update (s.allocs u) j (s.allocs u j + 1))
      else s.allocs }

def bitmapSet (u : Bool) (j : ℕ) (value : Bool) : Prog (Shared ι) Unit :=
  .atom fun s => do
    let map ← Pintos.bitmapSet (s.map u) j value
    return ((), s.written u j value map)

def assertRange (u : Bool) (start cnt : ℕ) : Prog (Shared ι) Unit :=
  .atom fun s => do
    ASSERT (start ≤ (s.map u).bitCnt)
    ASSERT (u32 (start + cnt) ≤ (s.map u).bitCnt)
    return ((), s)

def containsFrom (u : Bool) (start : ℕ) (value : Bool) : ℕ → ℕ → Prog (Shared ι) Bool
  | 0, _ => pure false
  | k + 1, i => do
    let bit ← bitmapTest u (u32 (start + i))
    if bit == value then
      return true
    else
      containsFrom u start value k (i + 1)

def bitmapContains (u : Bool) (start cnt : ℕ) (value : Bool) : Prog (Shared ι) Bool := do
  assertRange u start cnt
  containsFrom u start value cnt 0

def bitmapAll (u : Bool) (start cnt : ℕ) : Prog (Shared ι) Bool := do
  return !(← bitmapContains u start cnt false)

def setFrom (u : Bool) (start : ℕ) (value : Bool) : ℕ → ℕ → Prog (Shared ι) Unit
  | 0, _ => pure ()
  | k + 1, i => do
    bitmapSet u (u32 (start + i)) value
    setFrom u start value k (i + 1)

def bitmapSetMultiple (u : Bool) (start cnt : ℕ) (value : Bool) : Prog (Shared ι) Unit := do
  assertRange u start cnt
  setFrom u start value cnt 0

/-- The loop of `FIRST_FIT`, at index `i` with `k` indices to go. -/
def scanFrom (u : Bool) (cnt : ℕ) (value : Bool) : ℕ → ℕ → Prog (Shared ι) (Option ℕ)
  | 0, _ => pure none
  | k + 1, i => do
    let other ← bitmapContains u i cnt (!value)
    if !other then
      return some i
    else
      scanFrom u cnt value k (i + 1)

def bitmapSize (u : Bool) (start : ℕ) : Prog (Shared ι) ℕ :=
  .atom fun s => do
    ASSERT (start ≤ (s.map u).bitCnt)
    return ((s.map u).bitCnt, s)

def bitmapScan (u : Bool) (start cnt : ℕ) (value : Bool) : Prog (Shared ι) ℕ := do
  let bitCnt ← bitmapSize u start
  if cnt ≤ bitCnt then
    let i ← scanFrom u cnt value (bitCnt - cnt + 1 - start) start
    return i.getD BITMAP_ERROR
  else
    return BITMAP_ERROR

def printFrom (u : Bool) : ℕ → ℕ → Prog (Shared ι) Unit
  | 0, _ => pure ()
  | k + 1, i => do
    let _ ← bitmapContains u i 1 true
    printFrom u k (i + 1)

def flipFound (u : Bool) (idx cnt : ℕ) (value : Bool) : Prog (Shared ι) Unit :=
  if idx ≠ BITMAP_ERROR then bitmapSetMultiple u idx cnt (!value) else pure ()

def bitmapScanAndFlip (u : Bool) (start cnt : ℕ) (value : Bool) : Prog (Shared ι) ℕ := do
  let idx ← bitmapScan u start cnt value
  flipFound u idx cnt value
  let bitCnt ← bitmapSize u 0
  printFrom u bitCnt 0
  return idx

variable [DecidableEq ι]

def lockAcquire (i : ι) (u : Bool) : Prog (Shared ι) Unit :=
  .atomWhen (fun s => s.lock u = none) fun s =>
    .ok ((), { s with lock := update s.lock u (some i) })

def lockRelease (i : ι) (u : Bool) : Prog (Shared ι) Unit :=
  .atom fun s => do
    ASSERT (s.lock u = some i)
    return ((), { s with lock := update s.lock u none })

def pageAddr (u : Bool) (pageIdx : ℕ) : Prog (Shared ι) ℕ :=
  .atom fun s =>
    .ok (if pageIdx ≠ BITMAP_ERROR then u32 ((s.alloc.pool u).base + u32 (PGSIZE * pageIdx))
      else 0, s)

def memset (pages : ℕ) (value : BitVec 8) (size : ℕ) : Prog (Shared ι) Unit :=
  .atom fun s =>
    .ok ((), { s with alloc := { s.alloc with mem := Base.memset s.alloc.mem pages value size } })

/-- Pages given to a request, with zeros if it asked for that. -/
def givePages (flags : PallocFlags) (pageCnt pages : ℕ) : Prog (Shared ι) (Option ℕ) :=
  if pages ≠ 0 then
    if flags.PAL_ZERO then do
      memset pages 0#8 (u32 (PGSIZE * pageCnt))
      return some pages
    else
      return some pages
  else if flags.PAL_ASSERT then
    .atom fun _ => PANIC "palloc_get: out of pages"
  else
    return none

def pallocGetMultiple (i : ι) (flags : PallocFlags) (pageCnt : ℕ) :
    Prog (Shared ι) (Option ℕ) :=
  if pageCnt = 0 then
    return none
  else do
    lockAcquire i flags.PAL_USER
    let pageIdx ← bitmapScanAndFlip flags.PAL_USER 0 pageCnt false
    lockRelease i flags.PAL_USER
    let pages ← pageAddr flags.PAL_USER pageIdx
    givePages flags pageCnt pages

def pageIndex (pages : ℕ) : Prog (Shared ι) (Bool × ℕ) :=
  .atom fun s => do
    let user ← poolOfPage s.alloc pages
    return ((user, u32 (pgNo pages + 2 ^ 32 - pgNo (s.alloc.pool user).base)), s)

def assert (c : Prop) [Decidable c] : Prog (Shared ι) Unit :=
  .atom fun s => do
    ASSERT c
    return ((), s)

def pallocFreeMultiple (pages pageCnt : ℕ) : Prog (Shared ι) Unit := do
  assert (pgOfs pages = 0)
  if pages = 0 ∨ pageCnt = 0 then
    return
  else
    let (user, pageIdx) ← pageIndex pages
    memset pages 0xcc#8 (u32 (PGSIZE * pageCnt))
    let all ← bitmapAll user pageIdx pageCnt
    assert (all = true)
    bitmapSetMultiple user pageIdx pageCnt false

inductive Call where
  | get (flags : PallocFlags) (pageCnt : ℕ)
  | free (a : Allocation)

/-- What a call returns: the pages it got, or the counts when the free began. -/
inductive Result where
  | pages (pages : Option ℕ)
  | freed (allocs : Bool → ℕ → ℕ)

def Call.code (i : ι) : Call → Prog (Shared ι) Result
  | .get flags pageCnt => do
    match ← pallocGetMultiple i flags pageCnt with
    | some pages =>
      .atom fun s => .ok ((), { s with live := ⟨pages, pageCnt, flags.PAL_USER⟩ :: s.live })
      return .pages (some pages)
    | none => return .pages none
  | .free a => do
    let allocs ← .atomWhen (fun s => decide (a ∈ s.live)) fun s =>
      .ok (s.allocs, { s with live := s.live.erase a })
    pallocFreeMultiple a.pages a.pageCnt
    return .freed allocs

abbrev Clients (ι : Type) := Base.Pool ι (Shared ι) Call Result

def Clients.init (ι : Type) (p : Palloc) : Clients ι where
  state := { alloc := p, lock := fun _ => none, live := [], allocs := fun _ _ => 0 }
  running := fun _ => none
  log := []

def Clients.Reaches (P P' : Clients ι) : Prop :=
  Base.Reaches (Base.Pool.Step Call.code) Base.Always P P'

end Pintos.PallocBits
