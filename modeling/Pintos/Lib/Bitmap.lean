/-
# Bitmaps

`lib/kernel/bitmap.c`.  A bitmap is a bit count and an array of 32-bit elements; bit `i` is bit `i %
32` of element `i / 32`.  The elements are a function of their number, so that a write past the end
would be seen.  `Bitmap.bit` is the array of bits a bitmap stands for.

`bitmap_scan` is the scan under `Select = FIRST_FIT`, the value the variable has and keeps.
-/

import Pintos.Base.Kernel
import Pintos.Base.Word

namespace Pintos

open Base Function Kernel BitVec

structure Bitmap where
  bitCnt : ℕ
  bits : ℕ → BitVec 32

def ELEM_BITS : ℕ := 32

def BITMAP_ERROR : ℕ := SIZE_MAX

def elemIdx (i : ℕ) : ℕ := i / ELEM_BITS

def bitMask (i : ℕ) : BitVec 32 := 1#32 <<< (i % ELEM_BITS)

def elemCnt (n : ℕ) : ℕ := DIV_ROUND_UP n ELEM_BITS

def byteCnt (n : ℕ) : ℕ := u32 (4 * elemCnt n)

/-- Bytes for `n` bits: the two words of `struct bitmap`, the elements. -/
def bitmapBufSize (n : ℕ) : ℕ := u32 (8 + byteCnt n)

def bitmapFileSize (b : Bitmap) : ℕ := byteCnt b.bitCnt

def Bitmap.byte (b : Bitmap) (i : ℕ) : BitVec 8 := (b.bits (i / 4)).extractLsb' (8 * (i % 4)) 8

def elemOfBytes (byte : ℕ → BitVec 8) (k : ℕ) : BitVec 32 :=
  byte (4 * k + 3) ++ byte (4 * k + 2) ++ byte (4 * k + 1) ++ byte (4 * k)

def lastMask (b : Bitmap) : BitVec 32 :=
  if b.bitCnt % ELEM_BITS = 0 then ~~~ 0#32 else (1#32 <<< (b.bitCnt % ELEM_BITS)) - 1#32

def Bitmap.bit (b : Bitmap) (i : ℕ) : Bool := (b.bits (i / 32)).getLsbD (i % 32)

def bitmapMark (b : Bitmap) (i : ℕ) : Bitmap :=
  { b with bits := update b.bits (elemIdx i) (b.bits (elemIdx i) ||| bitMask i) }

def bitmapReset (b : Bitmap) (i : ℕ) : Bitmap :=
  { b with bits := update b.bits (elemIdx i) (b.bits (elemIdx i) &&& ~~~ bitMask i) }

def bitmapSet (b : Bitmap) (i : ℕ) (value : Bool) : Kernel Bitmap := do
  ASSERT (i < b.bitCnt)
  return if value then bitmapMark b i else bitmapReset b i

def bitmapTest (b : Bitmap) (i : ℕ) : Kernel Bool := do
  ASSERT (i < b.bitCnt)
  return (b.bits (elemIdx i) &&& bitMask i) != 0#32

def bitmapSetMultiple (b : Bitmap) (start cnt : ℕ) (value : Bool) : Kernel Bitmap := do
  ASSERT (start ≤ b.bitCnt)
  ASSERT (u32 (start + cnt) ≤ b.bitCnt)
  forLoop cnt (fun b i => bitmapSet b (u32 (start + i)) value) b

def bitmapSetAll (b : Bitmap) (value : Bool) : Kernel Bitmap :=
  bitmapSetMultiple b 0 b.bitCnt value

def bitmapContains (b : Bitmap) (start cnt : ℕ) (value : Bool) : Kernel Bool := do
  ASSERT (start ≤ b.bitCnt)
  ASSERT (u32 (start + cnt) ≤ b.bitCnt)
  anyLoop cnt fun i => do return (← bitmapTest b (u32 (start + i))) == value

def bitmapAll (b : Bitmap) (start cnt : ℕ) : Kernel Bool := do
  return !(← bitmapContains b start cnt false)

/-- The first index from `start` on of `cnt` bits `value`, or `BITMAP_ERROR`. -/
def bitmapScan (b : Bitmap) (start cnt : ℕ) (value : Bool) : Kernel ℕ := do
  ASSERT (start ≤ b.bitCnt)
  if cnt ≤ b.bitCnt then
    let last := b.bitCnt - cnt
    let i ← findLoop start (last + 1 - start) fun i => do
      return !(← bitmapContains b i cnt (!value))
    return i.getD BITMAP_ERROR
  else
    return BITMAP_ERROR

/-- Finds a group as `bitmapScan` does and flips it; the last loop prints the map. -/
def bitmapScanAndFlip (b : Bitmap) (start cnt : ℕ) (value : Bool) : Kernel (ℕ × Bitmap) := do
  let idx ← bitmapScan b start cnt value
  let b ← if idx ≠ BITMAP_ERROR then bitmapSetMultiple b idx cnt (!value) else pure b
  let _ ← forLoop b.bitCnt (fun _ i => bitmapContains b i 1 true) false
  return (idx, b)

/-- A bitmap of `n` bits in preallocated storage, with `buf` as its elements. -/
def bitmapCreateInBuf (n block blockSize : ℕ) (buf : ℕ → BitVec 32) : Kernel Bitmap := do
  ASSERT (bitmapBufSize n ≤ blockSize)
  ASSERT (block ≠ 0)
  bitmapSetAll ⟨n, buf⟩ false

/-- A bitmap of `n` false bits, or a null pointer: `hdr` and `elems` are what `malloc` returned. -/
def bitmapCreate (n : ℕ) (hdr : Bool) (elems : Option (ℕ → BitVec 32)) : Kernel (Option Bitmap) :=
  if hdr then
    match elems with
    | some buf => do return some (← bitmapSetAll ⟨n, buf⟩ false)
    | none => if n = 0 then do return some (← bitmapSetAll ⟨n, fun _ => 0#32⟩ false) else pure none
  else
    pure none

/-! ### What the operations do to the array of bits -/

lemma elemOfBytes_byte (b : Bitmap) (k : ℕ) : elemOfBytes b.byte k = b.bits k := by
  have hbyte : ∀ o < 4, b.byte (4 * k + o) = (b.bits k).extractLsb' (8 * o) 8 := by
    intro o _
    rw [Bitmap.byte, show (4 * k + o) / 4 = k by omega, show (4 * k + o) % 4 = o by omega]
  rw [elemOfBytes, hbyte 3 (by omega), hbyte 2 (by omega), hbyte 1 (by omega),
    show b.byte (4 * k) = _ from hbyte 0 (by omega)]
  refine eq_of_getLsbD_eq fun i hi => ?_
  simp only [getLsbD_append, getLsbD_extractLsb']
  split_ifs <;> grind

lemma elemOfBytes_congr {f g : ℕ → BitVec 8} {k : ℕ} (h : ∀ o < 4, f (4 * k + o) = g (4 * k + o)) :
    elemOfBytes f k = elemOfBytes g k := by
  rw [elemOfBytes, elemOfBytes, h 3 (by omega), h 2 (by omega), h 1 (by omega),
    show f (4 * k) = g (4 * k) from h 0 (by omega)]

lemma bitMask_getLsbD (i j : ℕ) : (bitMask i).getLsbD j = decide (i % 32 = j) := by
  rw [bitMask, ← twoPow_eq, getLsbD_twoPow, ELEM_BITS,
    decide_eq_true (Nat.mod_lt i (by norm_num : 0 < 32)), Bool.true_and]

lemma Bitmap.bit_update (b : Bitmap) (i j : ℕ) (e : BitVec 32) (v : Bool)
    (he : ∀ k < 32, e.getLsbD k = if k = i % 32 then v else (b.bits (elemIdx i)).getLsbD k) :
    Bitmap.bit { b with bits := update b.bits (elemIdx i) e } j =
      if j = i then v else b.bit j := by
  have hj : j % 32 < 32 := Nat.mod_lt _ (by norm_num)
  simp only [Bitmap.bit]
  by_cases hij : j / 32 = elemIdx i
  · have hiff : j % 32 = i % 32 ↔ j = i := by
      simp only [elemIdx, ELEM_BITS] at hij
      omega
    simp only [hij, update_self, he _ hj, hiff]
  · have hne : j ≠ i := fun h => hij (h ▸ rfl)
    rw [update_of_ne hij, if_neg hne]

@[simp] lemma bitmapMark_bit (b : Bitmap) (i j : ℕ) :
    (bitmapMark b i).bit j = if j = i then true else b.bit j := by
  refine b.bit_update i j _ true fun k _ => ?_
  rw [getLsbD_or, bitMask_getLsbD]
  by_cases h : k = i % 32
  · simp [h]
  · simp [h, Ne.symm h]

@[simp] lemma bitmapReset_bit (b : Bitmap) (i j : ℕ) :
    (bitmapReset b i).bit j = if j = i then false else b.bit j := by
  refine b.bit_update i j _ false fun k hk => ?_
  rw [getLsbD_and, getLsbD_not, bitMask_getLsbD]
  by_cases h : k = i % 32
  · simp [h]
  · simp [h, Ne.symm h, hk]

variable {b : Bitmap} {i n : ℕ}

lemma bitmapSet_spec (v : Bool) (hi : i < b.bitCnt) :
    ∃ b', bitmapSet b i v = .ok b' ∧ b'.bitCnt = b.bitCnt ∧
      ∀ j, b'.bit j = if j = i then v else b.bit j := by
  refine ⟨_, by rw [bitmapSet, ASSERT_of hi]; rfl, ?_, fun j => ?_⟩
  · split_ifs <;> rfl
  · cases v <;> simp

lemma bitmapTest_ok (hi : i < b.bitCnt) : bitmapTest b i = .ok (b.bit i) := by
  have hi32 : i % 32 < 32 := Nat.mod_lt _ (by norm_num)
  rw [bitmapTest, ASSERT_of hi, ok_bind, pure_eq_ok, bitMask, ← twoPow_eq, and_twoPow]
  cases hb : (b.bits (elemIdx i)).getLsbD (i % ELEM_BITS) with
  | false => simp [Bitmap.bit, show (b.bits (i / 32)).getLsbD (i % 32) = false from hb]
  | true =>
    have hne : twoPow 32 (i % ELEM_BITS) ≠ 0#32 := fun h => by
      have := congrArg (fun x => x.getLsbD (i % 32)) h
      simp [ELEM_BITS, hi32] at this
    simp [Bitmap.bit, hne, show (b.bits (i / 32)).getLsbD (i % 32) = true from hb]

lemma bitmapSetMultiple_spec (start cnt : ℕ) (v : Bool) (hb : b.bitCnt < 2 ^ 32)
    (h : start + cnt ≤ b.bitCnt) :
    ∃ b', bitmapSetMultiple b start cnt v = .ok b' ∧ b'.bitCnt = b.bitCnt ∧
      ∀ j, b'.bit j = if start ≤ j ∧ j < start + cnt then v else b.bit j := by
  rw [bitmapSetMultiple, ASSERT_of (by omega), ok_bind,
    ASSERT_of (by rw [u32_of_lt (by omega)]; exact h), ok_bind]
  refine forLoop_ok (fun i (b' : Bitmap) => b'.bitCnt = b.bitCnt ∧
    ∀ j, b'.bit j = if start ≤ j ∧ j < start + i then v else b.bit j) ⟨rfl, fun j => ?_⟩ ?_
  · rw [if_neg (by omega)]
  · rintro i b' hi ⟨hcnt, hbit⟩
    obtain ⟨b'', hb'', hcnt'', hbit''⟩ := bitmapSet_spec (b := b') (i := start + i) v (by omega)
    refine ⟨b'', by rw [u32_of_lt (by omega), hb''], by rw [hcnt'', hcnt], fun j => ?_⟩
    rw [hbit'', hbit]
    split_ifs <;> first | rfl | omega

def Bitmap.AllBits (b : Bitmap) (start cnt : ℕ) (v : Bool) : Prop :=
  ∀ j, start ≤ j → j < start + cnt → b.bit j = v

lemma bitmapContains_eq {start cnt : ℕ} (v : Bool) (hb : b.bitCnt < 2 ^ 32)
    (h : start + cnt ≤ b.bitCnt) :
    bitmapContains b start cnt v = .ok ((List.range' start cnt).any (b.bit · == v)) := by
  rw [bitmapContains, ASSERT_of (by omega), ok_bind,
    ASSERT_of (by rw [u32_of_lt (by omega)]; exact h), ok_bind, anyLoop,
    anyM_ok (q := fun i => b.bit (start + i) == v) fun i hi => ?_, List.range'_eq_map_range,
    List.any_map]
  · rfl
  · rw [List.mem_range] at hi
    rw [u32_of_lt (by omega), bitmapTest_ok (by omega)]
    rfl

lemma bitmapContains_spec (start cnt : ℕ) (v : Bool) (hb : b.bitCnt < 2 ^ 32)
    (h : start + cnt ≤ b.bitCnt) :
    ∃ r, bitmapContains b start cnt v = .ok r ∧ (r = false ↔ b.AllBits start cnt (!v)) := by
  refine ⟨_, bitmapContains_eq v hb h, ?_⟩
  simp [Bitmap.AllBits, Bool.eq_not]

lemma bitmapAll_spec (start cnt : ℕ) (hb : b.bitCnt < 2 ^ 32) (h : start + cnt ≤ b.bitCnt) :
    ∃ r, bitmapAll b start cnt = .ok r ∧ (r = true ↔ b.AllBits start cnt true) := by
  obtain ⟨r, hr, hiff⟩ := bitmapContains_spec start cnt false hb h
  refine ⟨!r, by rw [bitmapAll, hr]; rfl, ?_⟩
  rw [Bool.not_eq_true', hiff, Bool.not_false]

/-- **First fit.**  The least index from `start` on of `cnt` bits `v` in the map, or
`BITMAP_ERROR`. -/
theorem bitmapScan_spec {start : ℕ} (cnt : ℕ) (v : Bool) (hb : b.bitCnt < 2 ^ 32)
    (hstart : start ≤ b.bitCnt) :
    ∃ r, bitmapScan b start cnt v = .ok r ∧ ((start ≤ r ∧ r + cnt ≤ b.bitCnt ∧ b.AllBits r cnt v ∧
          ∀ j, start ≤ j → j < r → ¬ b.AllBits j cnt v) ∨
        (r = BITMAP_ERROR ∧ ∀ j, start ≤ j → j + cnt ≤ b.bitCnt → ¬ b.AllBits j cnt v)) := by
  rw [bitmapScan, ASSERT_of hstart, ok_bind]
  by_cases hc : cnt ≤ b.bitCnt
  · rw [if_pos hc]
    have hall : ∀ i, i + cnt ≤ b.bitCnt → ∃ r : Bool,
        (do return !(← bitmapContains b i cnt (!v)) : Kernel Bool) = .ok r ∧
          (r = true ↔ b.AllBits i cnt v) := by
      intro i hi
      obtain ⟨r, hr, hiff⟩ := bitmapContains_spec i cnt (!v) hb hi
      refine ⟨!r, by rw [hr]; rfl, ?_⟩
      rw [Bool.not_eq_true', hiff, Bool.not_not]
    choose! q hq hiff using hall
    obtain ⟨r, hr, hsome, hnone⟩ := findLoop_ok (q := q) start
      (b.bitCnt - cnt + 1 - start) fun i _ hin => hq i (by omega)
    refine ⟨r.getD BITMAP_ERROR, by simp only [hr]; rfl, ?_⟩
    cases r with
    | some i =>
      obtain ⟨h1, _, h3, h4⟩ := hsome i rfl
      refine Or.inl ⟨h1, by simp only [Option.getD_some]; omega, (hiff i (by omega)).1 h3,
        fun j hj hji hA => ?_⟩
      simp only [Option.getD_some] at hji
      have hqj := h4 j hj hji
      rw [(hiff j (by omega)).2 hA] at hqj
      exact Bool.noConfusion hqj
    | none =>
      refine Or.inr ⟨rfl, fun j hj hjc hA => ?_⟩
      have hqj := hnone rfl j hj (by omega)
      rw [(hiff j hjc).2 hA] at hqj
      exact Bool.noConfusion hqj
  · rw [if_neg hc]
    exact ⟨_, rfl, Or.inr ⟨rfl, fun j _ hjc => absurd hjc (by omega)⟩⟩

lemma scanFlip_spec (r cnt : ℕ) (v : Bool) (hb : b.bitCnt < 2 ^ 32)
    (hr : r = BITMAP_ERROR ∨ r + cnt ≤ b.bitCnt) :
    ∃ b' x, (∀ (α : Type) (k : Bitmap → Kernel α), (if r ≠ BITMAP_ERROR then
        bitmapSetMultiple b r cnt (!v) >>= k else pure b >>= k) = k b') ∧
      forLoop b'.bitCnt (fun _ i => bitmapContains b' i 1 true) false = .ok x ∧
      b'.bitCnt = b.bitCnt ∧ (r = BITMAP_ERROR → b' = b) ∧ (r + cnt ≤ b.bitCnt →
        ∀ j, b'.bit j = if r ≤ j ∧ j < r + cnt then !v else b.bit j) := by
  have hprint : ∀ b' : Bitmap, b'.bitCnt < 2 ^ 32 →
      ∃ x, forLoop b'.bitCnt (fun _ i => bitmapContains b' i 1 true) false = .ok x ∧ True := by
    intro _ hb'
    refine forLoop_ok (fun _ _ => True) trivial fun i _ hi _ => ?_
    obtain ⟨r, hr, _⟩ := bitmapContains_spec i 1 true hb' hi
    exact ⟨r, hr, trivial⟩
  by_cases hne : r = BITMAP_ERROR
  · obtain ⟨x, hx, _⟩ := hprint b hb
    refine ⟨b, x, fun _ _ => if_neg (not_not.mpr hne), hx, rfl, fun _ => rfl, fun hle j => ?_⟩
    simp only [BITMAP_ERROR, SIZE_MAX] at hne
    rw [if_neg (by omega)]
  · have hle := hr.resolve_left hne
    obtain ⟨b', hb', hcnt', hbit⟩ := bitmapSetMultiple_spec r cnt (!v) hb hle
    obtain ⟨x, hx, _⟩ := hprint b' (by omega)
    refine ⟨b', x, fun _ _ => ?_, hx, hcnt', fun h => absurd h hne, fun _ => hbit⟩
    rw [if_pos hne, hb', ok_bind]

/-- **First fit and flip** of a group that is not empty, or `start` not `BITMAP_ERROR`. -/
theorem bitmapScanAndFlip_spec (start cnt : ℕ) (v : Bool) (hb : b.bitCnt < 2 ^ 32)
    (hstart : start ≤ b.bitCnt) (hcnt : 0 < cnt ∨ start < BITMAP_ERROR) :
    ∃ r b', bitmapScanAndFlip b start cnt v = .ok (r, b') ∧ b'.bitCnt = b.bitCnt ∧
      ((r ≠ BITMAP_ERROR ∧ start ≤ r ∧ r + cnt ≤ b.bitCnt ∧ b.AllBits r cnt v ∧
          (∀ j, start ≤ j → j < r → ¬ b.AllBits j cnt v) ∧
          ∀ j, b'.bit j = if r ≤ j ∧ j < r + cnt then !v else b.bit j) ∨
        (r = BITMAP_ERROR ∧ b' = b ∧
          ∀ j, start ≤ j → j + cnt ≤ b.bitCnt → ¬ b.AllBits j cnt v)) := by
  obtain ⟨r, hr, hscan⟩ := bitmapScan_spec cnt v hb hstart
  obtain ⟨b', x, hset, hx, hcnt', herr, hbit⟩ :=
    scanFlip_spec r cnt v hb (hscan.symm.imp And.left fun h => h.2.1)
  refine ⟨r, b', by simp only [bitmapScanAndFlip, hr, ok_bind, hset, hx]; rfl, hcnt', ?_⟩
  rcases hscan with ⟨h1, h2, h3, h4⟩ | ⟨hr, h2⟩
  · refine Or.inl ⟨fun hr => ?_, h1, h2, h3, h4, hbit h2⟩
    have hempty : b.AllBits start 0 v := fun j hj hlt => absurd hlt (by omega)
    rcases Nat.eq_zero_or_pos cnt with rfl | _
    · exact h4 start (le_refl _) (by omega) hempty
    · simp only [BITMAP_ERROR, SIZE_MAX] at hr
      omega
  · exact Or.inr ⟨hr, herr hr, h2⟩

lemma bitmapCreateInBuf_spec {block blockSize : ℕ} (buf : ℕ → BitVec 32) (hn : n < 2 ^ 32)
    (hsize : bitmapBufSize n ≤ blockSize) (hblock : block ≠ 0) :
    ∃ b, bitmapCreateInBuf n block blockSize buf = .ok b ∧ b.bitCnt = n ∧
      ∀ j < n, b.bit j = false := by
  obtain ⟨b, hb, hcnt, hbit⟩ := bitmapSetMultiple_spec (b := ⟨n, buf⟩) 0 n false hn (by simp)
  refine ⟨b, ?_, hcnt, fun j hj => by rw [hbit, if_pos (by omega)]⟩
  rw [bitmapCreateInBuf, ASSERT_of hsize, ok_bind, ASSERT_of hblock, ok_bind, bitmapSetAll, hb]

lemma bitmapCreate_eq_some {hdr : Bool} {elems : Option (ℕ → BitVec 32)} (hn : n < 2 ^ 32)
    (h : bitmapCreate n hdr elems = .ok (some b)) : b.bitCnt = n ∧ ∀ j < n, b.bit j = false := by
  have hall : ∀ buf : ℕ → BitVec 32, (do return some (← bitmapSetAll ⟨n, buf⟩ false) :
      Kernel (Option Bitmap)) = .ok (some b) → b.bitCnt = n ∧ ∀ j < n, b.bit j = false := by
    intro buf hbuf
    obtain ⟨b', hb', hcnt, hbit⟩ := bitmapSetMultiple_spec (b := ⟨n, buf⟩) 0 n false hn (by simp)
    rw [bitmapSetAll, hb', ok_bind, pure_eq_ok] at hbuf
    obtain rfl : b' = b := by simpa using hbuf
    exact ⟨hcnt, fun j hj => by rw [hbit, if_pos ⟨Nat.zero_le _, by omega⟩]⟩
  cases hdr with
  | false => cases h
  | true =>
    cases elems with
    | some buf => exact hall buf h
    | none =>
      by_cases hz : n = 0
      · exact hall _ ((if_pos hz).symm.trans h)
      · cases (if_neg hz).symm.trans h

lemma elemCnt_eq (hn : n + 31 < 2 ^ 32) : elemCnt n = (n + 31) / 32 :=
  DIV_ROUND_UP_of_lt n 32 (by omega)

lemma byteCnt_eq (hn : n + 31 < 2 ^ 32) : byteCnt n = 4 * ((n + 31) / 32) := by
  rw [byteCnt, elemCnt_eq hn, u32_of_lt (by omega)]

lemma bitmapBufSize_eq (hn : n + 31 < 2 ^ 32) : bitmapBufSize n = 8 + 4 * ((n + 31) / 32) := by
  rw [bitmapBufSize, byteCnt_eq hn, u32_of_lt (by omega)]

end Pintos
