/-
# The four policies of `bitmap_scan`

`bitmap_scan` of `lib/kernel/bitmap.c` in full.  `Select` chooses between four searches for `cnt`
consecutive bits `value`, and three static variables are kept between calls: `lastestAlloc`, where
the last successful next-fit search ended, and `check_cnt` and `check_size`, which the buddy search
adds to its limit; `check_cnt` is never written.

First fit and next fit look at the map only through `bitmap_contains (b, i, cnt, !value)`.  Best fit
and the buddy search test bits against `false` and `true`, whatever `value` is; their endless loops
take a bound on the rounds.
-/

import Pintos.Lib.Bitmap

namespace Pintos

open Base Bitmap Kernel

/-! ### The source -/

inductive Selector where
  | FIRST_FIT
  | NEXT_FIT
  | BEST_FIT
  | BUDDY_SYSTEM
deriving DecidableEq, Repr

structure ScanStatics where
  lastestAlloc : ℕ
  checkCnt : ℕ
  checkSize : ℕ
deriving DecidableEq, Repr

def ULONG_MAX : ℕ := 2 ^ 32 - 1

def bitmapCount (b : Bitmap) (start cnt : ℕ) (value : Bool) : Kernel ℕ := do
  ASSERT (start ≤ b.bitCnt)
  ASSERT (u32 (start + cnt) ≤ b.bitCnt)
  forLoop cnt (fun valueCnt i => do
    return if (← bitmapTest b (u32 (start + i))) == value then valueCnt + 1 else valueCnt) 0

def isGroup (b : Bitmap) (cnt : ℕ) (value : Bool) (i : ℕ) : Kernel Bool := do
  return !(← bitmapContains b i cnt (!value))

def firstFit (b : Bitmap) (start cnt last : ℕ) (value : Bool) : Kernel (Option ℕ) :=
  findLoop start (last + 1 - start) (isGroup b cnt value)

/-- `Select == NEXT_FIT`: from `lastestAlloc` to the end, then from `start` to there. -/
def nextFit (b : Bitmap) (lastestAlloc start cnt last : ℕ) (value : Bool) :
    Kernel (Option ℕ) := do
  match ← findLoop lastestAlloc (last + 1 - lastestAlloc) (isGroup b cnt value) with
  | some i => return some i
  | none => findLoop start (lastestAlloc + 1 - start) (isGroup b cnt value)

/-- The inner loop of best fit: the first index after `i` with a true bit or past `last`. -/
def runEnd (b : Bitmap) (last : ℕ) : ℕ → ℕ → Kernel ℕ
  | 0, _ => PANIC "out of fuel"
  | fuel + 1, i => do
    let i := u32 (i + 1)
    if i > last then
      return i
    if (← bitmapTest b i) == true then
      return i
    runEnd b last fuel i

/-- The best page so far, after a free run of `tempSize` bits at `tempIdx`. -/
def betterPage (cnt tempIdx tempSize : ℕ) (best : ℕ × ℕ) : ℕ × ℕ :=
  if cnt ≤ tempSize then
    if best.2 = 0 then (tempIdx, tempSize)
    else if best.2 - cnt > tempSize - cnt then (tempIdx, tempSize)
    else best
  else best

/-- `Select == BEST_FIT` from index `i` on, with the best page so far. -/
def bestFit (b : Bitmap) (cnt last : ℕ) : ℕ → ℕ → ℕ × ℕ → Kernel ℕ
  | 0, _, _ => PANIC "out of fuel"
  | fuel + 1, i, best => do
    if i > last then
      if best.1 = ULONG_MAX then
        return BITMAP_ERROR
      return best.1
    if (← bitmapTest b i) == false then
      let tempIdx := i
      let i ← runEnd b last fuel i
      let tempSize ← bitmapCount b tempIdx (u32 (i + 2 ^ 32 - tempIdx)) false
      bestFit b cnt last fuel i (betterPage cnt tempIdx tempSize best)
    else
      bestFit b cnt last fuel (u32 (i + 1)) best

def BUDDY_MAX : ℕ := 512

/-- The first loop of the buddy search: half the least power of two that holds `cnt`. -/
def buddyBound (cnt : ℕ) : ℕ → ℕ → Kernel ℕ
  | 0, _ => PANIC "out of fuel"
  | fuel + 1, bound => do
    let bound := bound / 2
    if cnt > bound then
      return bound
    buddyBound cnt fuel bound

/-- The loop that adds the run of true bits at `j` to `offset`, but at the limit. -/
def buddyOffset (b : Bitmap) (limit : ℕ) : ℕ → ℕ → ℕ → Kernel (Option ℕ)
  | 0, _, _ => PANIC "out of fuel"
  | fuel + 1, j, offset => do
    if j ≥ limit then
      return none
    if (← bitmapTest b j) == true then
      buddyOffset b limit fuel (u32 (j + 1)) (u32 (offset + 1))
    else
      return some offset

def buddyRound (offset : ℕ) : ℕ :=
  if offset > 128 then 256
  else if offset > 64 then 128
  else if offset > 32 then 64
  else if offset > 16 then 32
  else if offset > 8 then 16
  else if offset > 4 then 8
  else if offset > 2 then 4
  else if offset > 1 then 2
  else if offset > 0 then 1
  else offset

def buddySearch (b : Bitmap) (value : Bool) (bound limit : ℕ) : ℕ → ℕ → ℕ → Kernel ℕ
  | 0, _, _ => PANIC "out of fuel"
  | fuel + 1, i, offset => do
    if i ≥ limit then
      return BITMAP_ERROR
    if (← bitmapTest b i) == true then
      match ← buddyOffset b limit fuel i offset with
      | none => return BITMAP_ERROR
      | some offset =>
        if offset > 256 then
          return 0
        let offset := buddyRound offset
        if offset > bound * 2 then
          buddySearch b value bound limit fuel (u32 (i + offset)) offset
        else
          buddySearch b value bound limit fuel (u32 (i + bound * 2)) offset
    else if bound ≠ 0 then
      if !(← bitmapContains b i (bound * 2) (!value)) then
        return i
      buddySearch b value bound limit fuel (u32 (i + bound * 2)) offset
    else
      if (← bitmapTest b i) == false then
        return i
      buddySearch b value bound limit fuel (u32 (i + 1)) offset

def buddySystem (fuel : ℕ) (b : Bitmap) (checkSize cnt : ℕ) (value : Bool) : Kernel ℕ := do
  if cnt > BUDDY_MAX then
    return BITMAP_ERROR
  let bound ← buddyBound cnt fuel BUDDY_MAX
  buddySearch b value bound (u32 (BUDDY_MAX + checkSize)) fuel 0 0

/-- `bitmap_scan` with the policy and the rounds its endless loops get as arguments. -/
def bitmapScanWith (select : Selector) (fuel : ℕ) (st : ScanStatics) (b : Bitmap)
    (start cnt : ℕ) (value : Bool) : Kernel (ℕ × ScanStatics) := do
  ASSERT (start ≤ b.bitCnt)
  let st := if st.checkCnt < 3 then { st with checkSize := u32 (st.checkSize + cnt) } else st
  if cnt ≤ b.bitCnt then
    let last := b.bitCnt - cnt
    match select with
    | .FIRST_FIT =>
      let i ← firstFit b start cnt last value
      return (i.getD BITMAP_ERROR, st)
    | .NEXT_FIT =>
      match ← nextFit b st.lastestAlloc start cnt last value with
      | some i => return (i, { st with lastestAlloc := i })
      | none => return (BITMAP_ERROR, st)
    | .BEST_FIT => return (← bestFit b cnt last fuel start (ULONG_MAX, 0), st)
    | .BUDDY_SYSTEM => return (← buddySystem fuel b st.checkSize cnt value, st)
  else
    return (BITMAP_ERROR, st)

/-! ### The complement -/

lemma bitmapScanWith_firstFit (fuel : ℕ) (st : ScanStatics) (b : Bitmap) (start cnt : ℕ)
    (value : Bool) :
    (do return (← bitmapScanWith .FIRST_FIT fuel st b start cnt value).1 : Kernel ℕ) =
      bitmapScan b start cnt value := by
  by_cases hstart : start ≤ b.bitCnt
  swap
  · rw [bitmapScanWith, bitmapScan, ASSERT, if_neg hstart]
    rfl
  rw [bitmapScanWith, bitmapScan, ASSERT_of hstart, ok_bind, ok_bind]
  by_cases hcnt : cnt ≤ b.bitCnt
  · have hfit : firstFit b start cnt (b.bitCnt - cnt) value =
        findLoop start (b.bitCnt - cnt + 1 - start) fun i => do
          return !(← bitmapContains b i cnt (!value)) := rfl
    simp only [if_pos hcnt, ← hfit]
    cases firstFit b start cnt (b.bitCnt - cnt) value with
    | error => rfl
    | ok => rfl
  · rw [if_neg hcnt, if_neg hcnt]
    rfl

end Pintos
