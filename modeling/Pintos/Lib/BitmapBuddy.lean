/-
# The buddy search

`bitmap_scan` with `Select == BUDDY_SYSTEM`.  A request is rounded up to a block of `buddyBlock cnt`
bits, a power of two, and the search goes over the map block by block; at a bit in use it adds the
length of the run of true bits to `offset`, rounds that up to a power of two on a ladder that ends
at 256, and steps over as many bits.

`offset` is not reset between two runs and doubles on the ladder: past 256 the search returns
`NULL`, index 0, which is not the error code.
-/

import Mathlib.Data.Nat.Log
import Pintos.Base.Avoids
import Pintos.Lib.BitmapScan

namespace Pintos

open Base Kernel Bitmap

/-! ### Blocks -/

def buddyBlock (cnt : ℕ) : ℕ := 2 ^ Nat.clog 2 cnt

variable {cnt k i fuel : ℕ} {st' : ScanStatics} {value : Bool}

lemma buddyBlock_half (cnt : ℕ) :
    buddyBlock cnt / 2 * 2 = buddyBlock cnt ∨ (buddyBlock cnt = 1 ∧ buddyBlock cnt / 2 = 0) := by
  unfold buddyBlock
  cases Nat.clog 2 cnt with
  | zero => exact .inr ⟨rfl, rfl⟩
  | succ =>
    left
    rw [Nat.pow_succ, Nat.mul_div_cancel _ (by decide)]

lemma buddyBound_spec (hcnt : 0 < cnt) (hle : cnt ≤ 2 ^ k) : buddyBound cnt fuel (2 ^ k) =
      if k < fuel + Nat.clog 2 cnt then .ok (buddyBlock cnt / 2) else PANIC "out of fuel" := by
  have hlog : Nat.clog 2 cnt ≤ k := Nat.clog_le_of_le_pow hle
  induction fuel generalizing k with
  | zero =>
    rw [if_neg (by omega)]
    rfl
  | succ fuel ih =>
    rw [buddyBound]
    by_cases hgt : cnt > 2 ^ k / 2
    · -- The halving ends where the block is `2 ^ k`.
      have heq : Nat.clog 2 cnt = k := by
        refine le_antisymm hlog ?_
        cases k with
        | zero => exact Nat.zero_le _
        | succ =>
          rw [Nat.pow_succ, Nat.mul_div_cancel _ (by decide)] at hgt
          exact (Nat.lt_clog_iff_pow_lt (by decide)).2 hgt
      rw [if_pos hgt, if_pos (by omega), buddyBlock, heq]
      rfl
    · rw [if_neg hgt]
      cases k with
      | zero =>
        simp only [Nat.pow_zero] at hgt
        omega
      | succ k =>
        have hhalf : (2 : ℕ) ^ (k + 1) / 2 = 2 ^ k := by
          rw [Nat.pow_succ, Nat.mul_div_cancel _ (by decide)]
        rw [hhalf] at hgt ⊢
        rw [ih (by omega) (Nat.clog_le_of_le_pow (by omega))]
        by_cases hfuel : k < fuel + Nat.clog 2 cnt
        · rw [if_pos hfuel, if_pos (by omega)]
        · rw [if_neg hfuel, if_neg (by omega)]

/-! ### The ladder -/

section Ladder

variable {n : ℕ}

lemma buddyBlock_eq (h1 : 2 ^ k < n) (h2 : n ≤ 2 ^ (k + 1)) : buddyBlock n = 2 ^ (k + 1) := by
  have hlog : Nat.clog 2 n = k + 1 :=
    le_antisymm (Nat.clog_le_of_le_pow h2) ((Nat.lt_clog_iff_pow_lt (by decide)).2 h1)
  rw [buddyBlock, hlog]

lemma buddyRound_eq (hn : 0 < n) (h : n ≤ 256) : buddyRound n = buddyBlock n := by
  unfold buddyRound
  symm
  split_ifs
  · exact buddyBlock_eq (k := 7) (by omega) (by omega)
  · exact buddyBlock_eq (k := 6) (by omega) (by omega)
  · exact buddyBlock_eq (k := 5) (by omega) (by omega)
  · exact buddyBlock_eq (k := 4) (by omega) (by omega)
  · exact buddyBlock_eq (k := 3) (by omega) (by omega)
  · exact buddyBlock_eq (k := 2) (by omega) (by omega)
  · exact buddyBlock_eq (k := 1) (by omega) (by omega)
  · exact buddyBlock_eq (k := 0) (by omega) (by omega)
  · obtain rfl : n = 1 := by omega
    rw [buddyBlock, Nat.clog_one_right, Nat.pow_zero]

lemma buddyRound_le (h : n ≤ 256) : buddyRound n ≤ 256 := by
  rcases Nat.eq_zero_or_pos n with rfl | hn
  · exact Nat.zero_le _
  · rw [buddyRound_eq hn h]
    exact Nat.pow_le_pow_right (by decide) (Nat.clog_le_of_le_pow (show n ≤ 2 ^ 8 from h))

end Ladder

/-! ### The search, access by access -/

def buddyOffsetOn (test : ℕ → Kernel Bool) (limit : ℕ) : ℕ → ℕ → ℕ → Kernel (Option ℕ)
  | 0, _, _ => PANIC "out of fuel"
  | fuel + 1, j, offset => do
    if j ≥ limit then
      return none
    if (← test j) == true then
      buddyOffsetOn test limit fuel (u32 (j + 1)) (u32 (offset + 1))
    else
      return some offset

def buddyStepOn (test : ℕ → Kernel Bool) (contains : ℕ → ℕ → Kernel Bool)
    (bound limit fuel i offset : ℕ) : Kernel (ℕ ⊕ ℕ × ℕ) := do
  if i ≥ limit then
    return .inl BITMAP_ERROR
  if (← test i) == true then
    match ← buddyOffsetOn test limit fuel i offset with
    | none => return .inl BITMAP_ERROR
    | some offset =>
      if offset > 256 then
        return .inl 0
      return .inr (u32 (i + max (buddyRound offset) (bound * 2)), buddyRound offset)
  else if bound ≠ 0 then
    if !(← contains i (bound * 2)) then
      return .inl i
    return .inr (u32 (i + bound * 2), offset)
  else
    if (← test i) == false then
      return .inl i
    return .inr (u32 (i + 1), offset)

def buddySearchOn (test : ℕ → Kernel Bool) (contains : ℕ → ℕ → Kernel Bool) (bound limit : ℕ) :
    ℕ → ℕ → ℕ → Kernel ℕ
  | 0, _, _ => PANIC "out of fuel"
  | fuel + 1, i, offset => do
    match ← buddyStepOn test contains bound limit fuel i offset with
    | .inl r => return r
    | .inr (i, offset) => buddySearchOn test contains bound limit fuel i offset

section Accesses

variable (b : Bitmap) (value : Bool) (bound limit : ℕ)

lemma buddyOffset_eq_on (fuel j offset : ℕ) :
    buddyOffset b limit fuel j offset = buddyOffsetOn (bitmapTest b) limit fuel j offset := by
  induction fuel generalizing j offset with
  | zero => rfl
  | succ _ ih => simp only [buddyOffset, buddyOffsetOn, ih]

lemma buddySearch_eq_on (fuel i offset : ℕ) :
    buddySearch b value bound limit fuel i offset = buddySearchOn (bitmapTest b)
      (fun i n => bitmapContains b i n (!value)) bound limit fuel i offset := by
  induction fuel generalizing i offset with
  | zero => rfl
  | succ fuel ih =>
    simp only [buddySearch, buddySearchOn, buddyStepOn, buddyOffset_eq_on, ih]
    by_cases hi : i ≥ limit
    · simp only [if_pos hi]
      rfl
    simp only [if_neg hi]
    cases bitmapTest b i with
    | error => rfl
    | ok r =>
      cases r with
      | true =>
        simp only [ok_bind, beq_self_eq_true, if_true]
        cases buddyOffsetOn (bitmapTest b) limit fuel i offset with
        | error => rfl
        | ok o =>
          cases o with
          | none => rfl
          | some o =>
            simp only [ok_bind]
            by_cases ho : o > 256
            · simp only [if_pos ho]
              rfl
            · simp only [if_neg ho, pure_eq_ok, ok_bind]
              by_cases hmax : buddyRound o > bound * 2
              · rw [if_pos hmax, Nat.max_eq_left (by omega)]
              · rw [if_neg hmax, Nat.max_eq_right (by omega)]
      | false =>
        simp only [ok_bind, Bool.false_eq_true, beq_iff_eq, if_false, if_true]
        by_cases hbound : bound ≠ 0
        · simp only [if_pos hbound]
          cases bitmapContains b i (bound * 2) (!value) with
          | error => rfl
          | ok r => cases r <;> rfl
        · simp only [if_neg hbound]
          rfl

end Accesses

/-! ### What is returned is free -/

section Rounds

variable {b : Bitmap} {value : Bool} {bound limit fuel i offset r : ℕ}

lemma bitmapTest_eq_ok {r : Bool} (h : bitmapTest b i = .ok r) : i < b.bitCnt ∧ b.bit i = r := by
  have hi : i < b.bitCnt := by
    rw [bitmapTest, bind_eq_ok] at h
    obtain ⟨_, hassert, _⟩ := h
    exact ASSERT_eq_ok.1 hassert
  rw [bitmapTest_ok hi] at h
  exact ⟨hi, Except.ok.inj h⟩

lemma bitmapContains_eq_ok_false {n : ℕ} {v : Bool} (hb : b.bitCnt < 2 ^ 32) (hi : i ≤ b.bitCnt)
    (h : bitmapContains b i n v = .ok false) : i + n ≤ b.bitCnt ∧ b.AllBits i n (!v) := by
  have hall : ∀ k < n, bitmapTest b (u32 (i + k)) = .ok (!v) := by
    intro k hk
    rw [bitmapContains, bind_eq_ok] at h
    obtain ⟨_, _, h⟩ := h
    rw [bind_eq_ok] at h
    obtain ⟨_, _, h⟩ := h
    have htest := anyM_eq_ok_false h k (List.mem_range.2 hk)
    rw [bind_eq_ok] at htest
    obtain ⟨r, hr, hne⟩ := htest
    rw [hr]
    have hneq : (r == v) = false := Except.ok.inj hne
    cases r <;> cases v <;> first | rfl | cases hneq
  have hin : i + n ≤ b.bitCnt := by
    by_contra hgt
    -- The bit behind the map would have been tested.
    have htest := hall (b.bitCnt - i) (by omega)
    rw [u32_of_lt (by omega)] at htest
    have hlt := (bitmapTest_eq_ok htest).1
    omega
  refine ⟨hin, fun j h1 h2 => ?_⟩
  have htest := hall (j - i) (by omega)
  rw [u32_of_lt (by omega), show i + (j - i) = j by omega] at htest
  exact (bitmapTest_eq_ok htest).2

structure Bitmap.TrueRun (b : Bitmap) (i n : ℕ) : Prop where
  inside : i + n < b.bitCnt
  all : b.AllBits i n true
  ends : b.bit (i + n) = false

lemma buddyOffset_run (hb : b.bitCnt < 2 ^ 32) (hoff : offset < 2 ^ 32) {o : ℕ}
    (h : buddyOffsetOn (bitmapTest b) limit fuel i offset = .ok (some o)) :
    ∃ n, b.TrueRun i n ∧ o = u32 (offset + n) := by
  induction fuel generalizing i offset with
  | zero => cases h
  | succ _ ih =>
    rw [buddyOffsetOn] at h
    by_cases hi : i ≥ limit
    · rw [if_pos hi] at h
      cases h
    rw [if_neg hi, bind_eq_ok] at h
    obtain ⟨r, htest, h⟩ := h
    obtain ⟨hlt, hbit⟩ := bitmapTest_eq_ok htest
    cases r with
    | false =>
      obtain rfl : offset = o := by simpa [pure_eq_ok] using h
      refine ⟨0, ⟨hlt, fun x h1 h2 => ?_, hbit⟩, (u32_of_lt hoff).symm⟩
      omega
    | true =>
      rw [beq_self_eq_true, if_pos rfl, u32_of_lt (show i + 1 < 2 ^ 32 by omega)] at h
      obtain ⟨n, ⟨_, hall, _⟩, rfl⟩ := ih (u32_lt _) h
      have hmore : b.AllBits i (n + 1) true := by
        intro x h1 _
        rcases Nat.eq_or_lt_of_le h1 with rfl | hx
        · exact hbit
        · exact hall x hx (by omega)
      refine ⟨n + 1, ⟨by omega, hmore, ?_⟩, ?_⟩
      · rwa [show i + (n + 1) = i + 1 + n by omega]
      · simp only [u32]
        omega

/-- **What one round may do.** -/
inductive BuddyOutcome (b : Bitmap) (value : Bool) (bound i offset : ℕ) : ℕ ⊕ ℕ × ℕ → Prop
  | error : BuddyOutcome b value bound i offset (.inl BITMAP_ERROR)
  /-- The ladder has ended. -/
  | null {n : ℕ} : b.TrueRun i n → b.bit i = true → 256 < u32 (offset + n) →
      BuddyOutcome b value bound i offset (.inl 0)
  | skip {n : ℕ} : b.TrueRun i n → b.bit i = true → u32 (offset + n) ≤ 256 →
      BuddyOutcome b value bound i offset
        (.inr (u32 (i + max (buddyRound (u32 (offset + n))) (bound * 2)),
          buddyRound (u32 (offset + n))))
  /-- The block is free. -/
  | found : i + max 1 (bound * 2) ≤ b.bitCnt →
      (value = false → b.AllBits i (max 1 (bound * 2)) false) →
      BuddyOutcome b value bound i offset (.inl i)
  /-- The block is not free. -/
  | next : i < b.bitCnt → b.bit i = false → bound ≠ 0 →
      (i + bound * 2 ≤ b.bitCnt → ¬ b.AllBits i (bound * 2) value) →
      BuddyOutcome b value bound i offset (.inr (u32 (i + bound * 2), offset))

lemma buddyStep_outcome (hb : b.bitCnt < 2 ^ 32) (hoff : offset < 2 ^ 32) {o : ℕ ⊕ ℕ × ℕ}
    (h : buddyStepOn (bitmapTest b) (fun i n => bitmapContains b i n (!value)) bound limit fuel i
      offset = .ok o) : BuddyOutcome b value bound i offset o := by
  rw [buddyStepOn] at h
  by_cases hi : i ≥ limit
  · rw [if_pos hi] at h
    cases h
    exact .error
  rw [if_neg hi, bind_eq_ok] at h
  obtain ⟨r, htest, h⟩ := h
  obtain ⟨hlt, hbit⟩ := bitmapTest_eq_ok htest
  cases r with
  | true =>
    rw [beq_self_eq_true, if_pos rfl, bind_eq_ok] at h
    obtain ⟨run, hrun, h⟩ := h
    cases run with
    | none =>
      cases h
      exact .error
    | some =>
      obtain ⟨n, hn, rfl⟩ := buddyOffset_run hb hoff hrun
      dsimp only at h
      by_cases hbig : u32 (offset + n) > 256
      · rw [if_pos hbig] at h
        cases h
        exact .null hn hbit hbig
      · rw [if_neg hbig] at h
        cases h
        exact .skip hn hbit (by omega)
  | false =>
    rw [if_neg (by decide)] at h
    by_cases hbound : bound ≠ 0
    · rw [if_pos hbound, bind_eq_ok] at h
      obtain ⟨r, hcontains, h⟩ := h
      have hmax : max 1 (bound * 2) = bound * 2 := Nat.max_eq_right (by omega)
      cases r with
      | false =>
        cases h
        obtain ⟨_, hall⟩ := bitmapContains_eq_ok_false hb hlt.le hcontains
        refine .found (by rwa [hmax]) fun hv => ?_
        rw [hmax]
        rw [hv] at hall
        exact hall
      | true =>
        cases h
        refine .next hlt hbit hbound fun hin hall => ?_
        obtain ⟨r, hr, hfree⟩ := bitmapContains_spec i (bound * 2) (!value) hb hin
        rw [hcontains] at hr
        rw [← Except.ok.inj hr, Bool.not_not] at hfree
        cases hfree.2 hall
    · rw [if_neg hbound, htest, ok_bind, beq_self_eq_true, if_pos rfl] at h
      cases h
      have hmax : max 1 (bound * 2) = 1 := Nat.max_eq_left (by omega)
      refine .found (by omega) fun _ x h1 h2 => ?_
      obtain rfl : x = i := by omega
      exact hbit

end Rounds

/-- `bitmap_scan_and_flip` under a policy, with the static variables. -/
def bitmapScanAndFlipWith (select : Selector) (fuel : ℕ) (st : ScanStatics) (b : Bitmap)
    (start cnt : ℕ) (value : Bool) : Kernel (ℕ × Bitmap × ScanStatics) := do
  let (idx, st) ← bitmapScanWith select fuel st b start cnt value
  let b ← if idx ≠ BITMAP_ERROR then bitmapSetMultiple b idx cnt (!value) else pure b
  let _ ← forLoop b.bitCnt (fun _ i => bitmapContains b i 1 true) false
  return (idx, b, st)

lemma bitmapScanAndFlipWith_eq_ok {select : Selector} {start : ℕ} {st : ScanStatics}
    {b b' : Bitmap}
    (h : bitmapScanAndFlipWith select fuel st b start cnt value = .ok (i, b', st')) :
    bitmapScanWith select fuel st b start cnt value = .ok (i, st') ∧
      (b' = b ∨ bitmapSetMultiple b i cnt (!value) = .ok b') := by
  rw [bitmapScanAndFlipWith, bind_eq_ok] at h
  obtain ⟨⟨_, _⟩, hscan, h⟩ := h
  dsimp only at h
  split_ifs at h
  · rw [bind_eq_ok] at h
    obtain ⟨_, hset, h⟩ := h
    rw [bind_eq_ok] at h
    obtain ⟨_, _, h⟩ := h
    cases h
    exact ⟨hscan, .inr hset⟩
  · rw [pure_eq_ok, ok_bind, bind_eq_ok] at h
    obtain ⟨_, _, h⟩ := h
    cases h
    exact ⟨hscan, .inl rfl⟩

/-- **First fit and flip.**  The least group of `cnt` bits `v` from `start` on is flipped, if
any. -/
theorem firstFit_scanAndFlip (fuel : ℕ) (st : ScanStatics) {b : Bitmap} {start : ℕ} (cnt : ℕ)
    (v : Bool) (hb : b.bitCnt < 2 ^ 32) (hstart : start ≤ b.bitCnt) :
    ∃ r b' st', bitmapScanAndFlipWith .FIRST_FIT fuel st b start cnt v = .ok (r, b', st') ∧
      b'.bitCnt = b.bitCnt ∧
      ((IsLeast {i | start ≤ i ∧ i + cnt ≤ b.bitCnt ∧ b.AllBits i cnt v} r ∧
          ∀ j, b'.bit j = if r ≤ j ∧ j < r + cnt then !v else b.bit j) ∨
        (r = BITMAP_ERROR ∧ b' = b ∧
          ∀ i, start ≤ i → i + cnt ≤ b.bitCnt → ¬ b.AllBits i cnt v)) := by
  obtain ⟨r, hr, hscan⟩ := bitmapScan_spec cnt v hb hstart
  obtain ⟨b', x, hset, hx, hcnt', herr, hbit⟩ :=
    scanFlip_spec r cnt v hb (hscan.symm.imp And.left fun h => h.2.1)
  rw [← bitmapScanWith_firstFit fuel st, bind_eq_ok] at hr
  obtain ⟨⟨_, st'⟩, hr, h⟩ := hr
  cases h
  refine ⟨_, b', st', by simp only [bitmapScanAndFlipWith, hr, ok_bind, hset, hx]; rfl, hcnt', ?_⟩
  refine hscan.imp (fun ⟨h1, h2, h3, h4⟩ => ⟨⟨⟨h1, h2, h3⟩, ?_⟩, hbit h2⟩)
    fun ⟨hr, h2⟩ => ⟨hr, herr hr, h2⟩
  exact fun i hi => not_lt.mp fun hlt => h4 i hi.1 hlt hi.2.2

theorem firstFit_scanAndFlip_two :
    ∃ r b' st', bitmapScanAndFlipWith .FIRST_FIT 0 ⟨0, 0, 0⟩ ⟨8, fun _ => 5#32⟩ 1 2 false =
      .ok (r, b', st') ∧ b'.bitCnt = 8 := by
  obtain ⟨r, b', st', h, hcnt, -⟩ := firstFit_scanAndFlip 0 ⟨0, 0, 0⟩ (b := ⟨8, fun _ => 5#32⟩) 2
    false (by decide) (show 1 ≤ 8 by decide)
  exact ⟨r, b', st', h, hcnt⟩

end Pintos
