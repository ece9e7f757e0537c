/-
# The loops of `bitmap_scan` end

`bitmapScanFuel` is `bitmap_scan` with a bound on the rounds of each loop: those of first fit and
next fit are counted too, with an index that wraps around.
-/

import Pintos.Lib.BitmapBuddyInside

namespace Pintos

open Base Kernel List

/-! ### The source, round by round -/

def scanFor (p : ℕ → Kernel Bool) (last : ℕ) : ℕ → ℕ → Kernel (Option ℕ)
  | 0, _ => PANIC "out of fuel"
  | fuel + 1, i => do
    if i ≤ last then
      if ← p i then
        return some i
      scanFor p last fuel (u32 (i + 1))
    else
      return none

def bitmapScanFuel (select : Selector) (fuel : ℕ) (st : ScanStatics) (b : Bitmap)
    (start cnt : ℕ) (value : Bool) : Kernel (ℕ × ScanStatics) := do
  ASSERT (start ≤ b.bitCnt)
  let st := st.counted cnt
  if cnt ≤ b.bitCnt then
    let last := b.bitCnt - cnt
    match select with
    | .FIRST_FIT =>
      let i ← scanFor (isGroup b cnt value) last fuel start
      return (i.getD BITMAP_ERROR, st)
    | .NEXT_FIT =>
      match ← scanFor (isGroup b cnt value) last fuel st.lastestAlloc with
      | some i => return (i, { st with lastestAlloc := i })
      | none =>
        match ← scanFor (isGroup b cnt value) st.lastestAlloc fuel start with
        | some i => return (i, { st with lastestAlloc := i })
        | none => return (BITMAP_ERROR, st)
    | .BEST_FIT => return (← bestFit b cnt last fuel start (ULONG_MAX, 0), st)
    | .BUDDY_SYSTEM => return (← buddySystem fuel b st.checkSize cnt value, st)
  else
    return (BITMAP_ERROR, st)

section Counted

variable {p : ℕ → Kernel Bool} {last fuel i : ℕ}

lemma scanFor_eq_findLoop (hlast : last + 1 < 2 ^ 32) (hfuel : last + 1 - i < fuel) :
    scanFor p last fuel i = findLoop i (last + 1 - i) p := by
  induction fuel generalizing i with
  | zero => omega
  | succ _ ih =>
    rw [scanFor]
    by_cases hi : i ≤ last
    · rw [if_pos hi, show last + 1 - i = (last + 1 - (i + 1)) + 1 by omega, findLoop,
        range'_succ, findM?, u32_of_lt (by omega), ih (by omega)]
      cases p i with
      | error => rfl
      | ok r => cases r <;> rfl
    · rw [if_neg hi, show last + 1 - i = 0 by omega]
      rfl

theorem bitmapScanFuel_eq (select : Selector) {st : ScanStatics} {b : Bitmap} (start cnt : ℕ)
    (value : Bool) (hb : b.bitCnt + 1 < 2 ^ 32) (hst : st.lastestAlloc + 1 < 2 ^ 32)
    (hfuel : 2 ^ 32 ≤ fuel) :
    bitmapScanFuel select fuel st b start cnt value =
      bitmapScanWith select fuel st b start cnt value := by
  have hsame : (st.counted cnt).lastestAlloc = st.lastestAlloc := by
    unfold ScanStatics.counted
    split_ifs <;> rfl
  rw [bitmapScanFuel, bitmapScanWith]
  refine congrArg _ (funext fun _ => ?_)
  show (if cnt ≤ b.bitCnt then _ else _) = if cnt ≤ b.bitCnt then _ else _
  by_cases hcnt : cnt ≤ b.bitCnt
  swap
  · rw [if_neg hcnt, if_neg hcnt]
    rfl
  rw [if_pos hcnt, if_pos hcnt]
  cases select with
  | FIRST_FIT =>
    dsimp only
    rw [scanFor_eq_findLoop (by omega) (by omega)]
    rfl
  | NEXT_FIT =>
    dsimp only
    rw [hsame, scanFor_eq_findLoop (by omega) (by omega), scanFor_eq_findLoop hst (by omega)]
    show _ = nextFit b (st.counted cnt).lastestAlloc start cnt (b.bitCnt - cnt) value >>= _
    rw [hsame, nextFit]
    cases findLoop st.lastestAlloc (b.bitCnt - cnt + 1 - st.lastestAlloc) (isGroup b cnt value) with
    | error => rfl
    | ok r =>
      cases r with
      | some => rfl
      | none =>
        simp only [ok_bind]
        cases findLoop start (st.lastestAlloc + 1 - start) (isGroup b cnt value) with
        | error => rfl
        | ok r => cases r <;> rfl
  | BEST_FIT => rfl
  | BUDDY_SYSTEM => rfl

end Counted

/-! ### First fit and next fit -/

section Up

variable {p : ℕ → Kernel Bool} {last fuel i stop : ℕ}

variable {b : Bitmap} {cnt : ℕ} {value : Bool}

end Up

/-! ### Best fit -/

section BestFitEnds

variable {b : Bitmap} {cnt last fuel i : ℕ}

end BestFitEnds

/-! ### The buddy search -/

section BuddyEnds

variable {b : Bitmap} {value : Bool} {bound limit cnt fuel i offset : ℕ}

end BuddyEnds

/-! ### All four -/

def ScanStatics.Fits (st : ScanStatics) : Prop :=
  st.lastestAlloc < 2 ^ 32 ∧ st.checkCnt < 2 ^ 32 ∧ st.checkSize < 2 ^ 32

end Pintos
