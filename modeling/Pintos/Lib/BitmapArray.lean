/-
# Bitmaps as arrays of bits

The operations of `lib/kernel/bitmap.c` on 32-bit elements, against those on an array of `bit_cnt`
booleans.  Each call changes every element by a function of it alone, and those from `elem_cnt
(bit_cnt)` on not at all.

`elem_cnt` rounds up with a sum that wraps for the last 31 values of `size_t`: a bitmap of that many
bits has no elements.
-/

import Pintos.Lib.BitmapScan

namespace Pintos

open Base Function Kernel BitVec

def bitmapFlip (b : Bitmap) (i : ℕ) : Bitmap :=
  { b with bits := update b.bits (elemIdx i) (b.bits (elemIdx i) ^^^ bitMask i) }

def bitmapAny (b : Bitmap) (start cnt : ℕ) : Kernel Bool := bitmapContains b start cnt true

def bitmapNone (b : Bitmap) (start cnt : ℕ) : Kernel Bool := do
  return !(← bitmapContains b start cnt true)

inductive BitmapOp
  | set (i : ℕ) (value : Bool)
  | mark (i : ℕ)
  | reset (i : ℕ)
  | flip (i : ℕ)
  | setMultiple (start cnt : ℕ) (value : Bool)
  | setAll (value : Bool)

namespace BitmapOp

def InRange (n : ℕ) : BitmapOp → Prop
  | set i _ | mark i | reset i | flip i => i < n
  | setMultiple start cnt _ => start + cnt ≤ n
  | setAll _ => True

def run (b : Bitmap) : BitmapOp → Kernel Bitmap
  | set i value => bitmapSet b i value
  | mark i => pure (bitmapMark b i)
  | reset i => pure (bitmapReset b i)
  | flip i => pure (bitmapFlip b i)
  | setMultiple start cnt value => bitmapSetMultiple b start cnt value
  | setAll value => bitmapSetAll b value

def apply (n : ℕ) (a : ℕ → Bool) : BitmapOp → ℕ → Bool
  | set i value => update a i value
  | mark i => update a i true
  | reset i => update a i false
  | flip i => update a i (!a i)
  | setMultiple start cnt value => fun j => if start ≤ j ∧ j < start + cnt then value else a j
  | setAll value => fun j => if j < n then value else a j

end BitmapOp

structure Bitmap.Answers (b : Bitmap) (a : ℕ → Bool) : Prop where
  test : ∀ i < b.bitCnt, bitmapTest b i = .ok (a i)
  count : ∀ start cnt value, start + cnt ≤ b.bitCnt →
    bitmapCount b start cnt value = .ok ((List.range' start cnt).countP (a · == value))
  contains : ∀ start cnt value, start + cnt ≤ b.bitCnt →
    bitmapContains b start cnt value = .ok ((List.range' start cnt).any (a · == value))
  any : ∀ start cnt, start + cnt ≤ b.bitCnt →
    bitmapAny b start cnt = .ok ((List.range' start cnt).any a)
  none : ∀ start cnt, start + cnt ≤ b.bitCnt →
    bitmapNone b start cnt = .ok !((List.range' start cnt).any a)
  all : ∀ start cnt, start + cnt ≤ b.bitCnt →
    bitmapAll b start cnt = .ok ((List.range' start cnt).all a)

variable {b : Bitmap} {i n : ℕ}

lemma bitmapFlip_bit (b : Bitmap) (i j : ℕ) :
    (bitmapFlip b i).bit j = if j = i then !b.bit i else b.bit j := by
  refine b.bit_update i j _ _ fun k _ => ?_
  rw [getLsbD_xor, bitMask_getLsbD]
  by_cases h : k = i % 32
  · simp [h, Bitmap.bit, elemIdx, ELEM_BITS]
  · simp [h, Ne.symm h]

lemma bitmapCount_eq {start : ℕ} {v : Bool} (hb : b.bitCnt < 2 ^ 32) (h : start + n ≤ b.bitCnt) :
    bitmapCount b start n v = .ok ((List.range' start n).countP (b.bit · == v)) := by
  rw [bitmapCount, ASSERT_of (by omega), ok_bind,
    ASSERT_of (by rw [u32_of_lt (by omega)]; exact h), ok_bind]
  obtain ⟨c, hc, rfl⟩ := forLoop_ok (n := n) (b := 0) (f := fun valueCnt i => do
      return if (← bitmapTest b (u32 (start + i))) == v then valueCnt + 1 else valueCnt)
    (fun i c => c = (List.range' start i).countP (b.bit · == v)) rfl fun i c hi hci => by
      refine ⟨_, by rw [u32_of_lt (by omega), bitmapTest_ok (by omega)]; rfl, ?_⟩
      rw [hci, List.range'_concat, List.countP_append, List.countP_singleton, Nat.one_mul]
      split_ifs <;> rfl
  exact hc

lemma Bitmap.answers (hb : b.bitCnt < 2 ^ 32) : b.Answers b.bit := by
  refine ⟨fun i => bitmapTest_ok, fun start cnt value h => bitmapCount_eq hb h,
    fun start cnt value h => bitmapContains_eq value hb h, fun start cnt h => ?_,
    fun start cnt h => ?_, fun start cnt h => ?_⟩
  · rw [bitmapAny, bitmapContains_eq true hb h]
    simp
  · rw [bitmapNone, bitmapContains_eq true hb h]
    simp
  · rw [bitmapAll, bitmapContains_eq false hb h]
    simp [List.not_any_eq_all_not]

/-- `f` changes each element by a function of it, and none from `elem_cnt (n)` on. -/
def OnElements (n : ℕ) (f : Bitmap → Kernel Bitmap) : Prop :=
  ∃ F : ℕ → BitVec 32 → BitVec 32, (∀ k, elemCnt n ≤ k → ∀ e, F k e = e) ∧
    ∀ b, b.bitCnt = n → f b = .ok ⟨n, fun k => F k (b.bits k)⟩

lemma OnElements.bind {f g : Bitmap → Kernel Bitmap} (hf : OnElements n f) (hg : OnElements n g) :
    OnElements n fun b => f b >>= g := by
  obtain ⟨F, hF, hf⟩ := hf
  obtain ⟨G, hG, hg⟩ := hg
  refine ⟨fun k e => G k (F k e), fun k hk e => (hG k hk _).trans (hF k hk e), fun b hb => ?_⟩
  dsimp only
  rw [hf b hb, ok_bind, hg _ rfl]

lemma elemIdx_lt (hn : n + 31 < 2 ^ 32) (hi : i < n) : elemIdx i < elemCnt n := by
  rw [elemCnt_eq hn, elemIdx, ELEM_BITS]
  omega

lemma OnElements.update (hn : n + 31 < 2 ^ 32) (hi : i < n) (G : BitVec 32 → BitVec 32) :
    OnElements n fun b =>
      pure { b with bits := update b.bits (elemIdx i) (G (b.bits (elemIdx i))) } := by
  refine ⟨fun k e => if k = elemIdx i then G e else e, fun k hk e => ?_, ?_⟩
  · have := elemIdx_lt hn hi
    exact if_neg (by omega)
  · rintro b rfl
    dsimp only
    rw [pure_eq_ok]
    congr 2
    funext k
    by_cases hk : k = elemIdx i <;> simp [hk]

lemma OnElements.set (hn : n + 31 < 2 ^ 32) (hi : i < n) (value : Bool) :
    OnElements n fun b => bitmapSet b i value := by
  obtain ⟨F, hF, h⟩ := OnElements.update hn hi fun e => if value then e ||| bitMask i else
    e &&& ~~~bitMask i
  refine ⟨F, hF, fun b hb => (Eq.trans ?_ (h b hb))⟩
  dsimp only
  rw [bitmapSet, ASSERT_of (by omega), ok_bind]
  cases value <;> rfl

lemma OnElements.setMultiple {start cnt : ℕ} (hn : n + 31 < 2 ^ 32) (h : start + cnt ≤ n)
    (value : Bool) : OnElements n fun b => bitmapSetMultiple b start cnt value := by
  have hloop : ∀ c ≤ cnt, OnElements n fun b =>
      forLoop c (fun b i => bitmapSet b (u32 (start + i)) value) b := by
    intro c hc
    induction c with
    | zero => exact ⟨fun _ e => e, fun _ _ _ => rfl, by rintro b rfl; rfl⟩
    | succ c ih =>
      simp only [forLoop_succ]
      refine (ih (by omega)).bind ?_
      rw [u32_of_lt (by omega)]
      exact .set hn (by omega) value
  obtain ⟨F, hF, hf⟩ := hloop cnt le_rfl
  refine ⟨F, hF, fun b hb => ?_⟩
  dsimp only
  rw [bitmapSetMultiple, ASSERT_of (by omega), ok_bind,
    ASSERT_of (by rw [u32_of_lt (by omega)]; omega), ok_bind]
  exact hf b hb

lemma BitmapOp.run_onElements (hn : n + 31 < 2 ^ 32) {op : BitmapOp} (hop : op.InRange n) :
    OnElements n op.run := by
  cases op with
  | set i value => exact .set hn hop value
  | mark i => exact .update hn hop (· ||| bitMask i)
  | reset i => exact .update hn hop (· &&& ~~~bitMask i)
  | flip i => exact .update hn hop (· ^^^ bitMask i)
  | setMultiple start cnt value => exact .setMultiple hn hop value
  | setAll value =>
    obtain ⟨F, hF, h⟩ := @OnElements.setMultiple n 0 n hn (Nat.zero_add n).le value
    refine ⟨F, hF, ?_⟩
    rintro b rfl
    exact h b rfl

lemma BitmapOp.run_bits {op : BitmapOp} (hb : b.bitCnt < 2 ^ 32) (hop : op.InRange b.bitCnt) :
    ∃ b', op.run b = .ok b' ∧ b'.bitCnt = b.bitCnt ∧ b'.bit = op.apply b.bitCnt b.bit := by
  cases op with
  | set i value =>
    obtain ⟨b', h, hcnt, hbit⟩ := bitmapSet_spec value hop
    exact ⟨b', h, hcnt, funext fun j => by rw [hbit, apply, update_apply]⟩
  | mark i => exact ⟨_, rfl, rfl, funext fun j => by rw [bitmapMark_bit, apply, update_apply]⟩
  | reset i => exact ⟨_, rfl, rfl, funext fun j => by rw [bitmapReset_bit, apply, update_apply]⟩
  | flip i => exact ⟨_, rfl, rfl, funext fun j => by rw [bitmapFlip_bit, apply, update_apply]⟩
  | setMultiple start cnt value =>
    obtain ⟨b', h, hcnt, hbit⟩ := bitmapSetMultiple_spec start cnt value hb hop
    exact ⟨b', h, hcnt, funext hbit⟩
  | setAll value =>
    obtain ⟨b', h, hcnt, hbit⟩ := bitmapSetMultiple_spec 0 b.bitCnt value hb (by simp)
    exact ⟨b', h, hcnt, funext fun j => by simp [hbit, apply]⟩

lemma BitmapOp.runs_bits {ops : List BitmapOp} (hb : b.bitCnt < 2 ^ 32)
    (hops : ∀ op ∈ ops, op.InRange b.bitCnt) : ∃ b', ops.foldlM run b = .ok b' ∧
      b'.bitCnt = b.bitCnt ∧ b'.bit = ops.foldl (apply b.bitCnt) b.bit := by
  induction ops generalizing b with
  | nil => exact ⟨b, rfl, rfl, rfl⟩
  | cons op ops ih =>
    obtain ⟨hop, hops⟩ := List.forall_mem_cons.1 hops
    obtain ⟨b', h, hcnt, hbit⟩ := run_bits hb hop
    rw [List.foldlM_cons, h, ok_bind, List.foldl_cons, ← hbit, ← hcnt]
    exact ih (by omega) (by rwa [hcnt])

lemma BitmapOp.runs_onElements {ops : List BitmapOp} (hn : n + 31 < 2 ^ 32)
    (hops : ∀ op ∈ ops, op.InRange n) : OnElements n (ops.foldlM run ·) := by
  induction ops with
  | nil => exact ⟨fun _ e => e, fun _ _ _ => rfl, by rintro b rfl; rfl⟩
  | cons op ops ih =>
    simp only [List.foldlM_cons]
    obtain ⟨hop, hops⟩ := List.forall_mem_cons.1 hops
    exact (run_onElements hn hop).bind (ih hops)

/-- **The elements are the array of bits**, while `elem_cnt` does not wrap. -/
theorem bitmap_refines_array (hn : n + 31 < 2 ^ 32) {ops : List BitmapOp}
    (hops : ∀ op ∈ ops, op.InRange n) :
    (∀ b, b.bitCnt = n → ∃ b', ops.foldlM BitmapOp.run b = .ok b' ∧ b'.bitCnt = n ∧
      b'.Answers (ops.foldl (BitmapOp.apply n) b.bit)) ∧
    OnElements n (ops.foldlM BitmapOp.run ·) ∧ ∀ i < n, elemIdx i < elemCnt n := by
  refine ⟨?_, BitmapOp.runs_onElements hn hops, fun i => elemIdx_lt hn⟩
  rintro b rfl
  obtain ⟨b', h, hcnt, hbit⟩ := BitmapOp.runs_bits (by omega) hops
  exact ⟨b', h, hcnt, hbit ▸ b'.answers (by omega)⟩

lemma bitmap_refines_array_two : OnElements 40 (List.foldlM BitmapOp.run ·
    [.mark 39, .setMultiple 30 4 true]) :=
  (@bitmap_refines_array 40 (by norm_num) [.mark 39, .setMultiple 30 4 true]
    (by simp [BitmapOp.InRange])).2.1

lemma bitmap_bits_past_elements : ∃ b b' : Bitmap, b.bitCnt = 2 ^ 32 - 1 ∧ elemCnt b.bitCnt = 0 ∧
    (BitmapOp.mark 0).InRange b.bitCnt ∧ (BitmapOp.mark 0).run b = .ok b' ∧ b'.bits 0 ≠ b.bits 0 :=
  ⟨⟨2 ^ 32 - 1, fun _ => 0⟩, _, rfl, by decide, by simp [BitmapOp.InRange], rfl, by decide⟩

end Pintos
