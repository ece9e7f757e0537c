/-
# Next fit

`bitmap_scan` with `Select == NEXT_FIT`.  `lastestAlloc`, where the last successful search ended, is
one static variable for all bitmaps.  A search goes from there to the last index at which a group
can start, then from `start` up to `lastestAlloc`.

The second loop ignores the size of the map: after a search in a larger map or for a smaller group
it may run past that index.
-/

import Pintos.Base.Run
import Pintos.Lib.BitmapScan

namespace Pintos

open Base

/-! ### Searching for a group -/

/-- The least index from `start` on of `cnt` bits `v` inside the map. -/
structure Bitmap.LeastGroup (b : Bitmap) (start cnt : ℕ) (v : Bool) (i : ℕ) : Prop where
  le : start ≤ i
  inside : i + cnt ≤ b.bitCnt
  all : b.AllBits i cnt v
  least : ∀ j, start ≤ j → j < i → ¬ b.AllBits j cnt v

def Bitmap.NoGroup (b : Bitmap) (start cnt : ℕ) (v : Bool) : Prop :=
  ∀ j, start ≤ j → j + cnt ≤ b.bitCnt → ¬ b.AllBits j cnt v

section Search

variable {b : Bitmap} {cnt : ℕ} {v : Bool}

lemma isGroup_spec (hb : b.bitCnt < 2 ^ 32) {i : ℕ} (h : i + cnt ≤ b.bitCnt) :
    ∃ r, isGroup b cnt v i = .ok r ∧ (r = true ↔ b.AllBits i cnt v) := by
  obtain ⟨r, hr, hiff⟩ := bitmapContains_spec i cnt (!v) hb h
  refine ⟨!r, ?_, ?_⟩
  · rw [isGroup, hr]
    rfl
  · rw [Bool.not_eq_true', hiff, Bool.not_not]

theorem findGroup_spec (hb : b.bitCnt < 2 ^ 32) (start n cnt : ℕ) (v : Bool)
    (hin : ∀ i, start ≤ i → i < start + n → i + cnt ≤ b.bitCnt) :
    ∃ r, findLoop start n (isGroup b cnt v) = .ok r ∧
      (∀ i, r = some i → i < start + n ∧ b.LeastGroup start cnt v i) ∧
      (r = none → ∀ j, start ≤ j → j < start + n → ¬ b.AllBits j cnt v) := by
  have htest : ∀ i, start ≤ i → i < start + n →
      ∃ r, isGroup b cnt v i = .ok r ∧ (r = true ↔ b.AllBits i cnt v) :=
    fun i h1 h2 => isGroup_spec hb (hin i h1 h2)
  choose! q hq hiff using htest
  obtain ⟨r, hr, hsome, hnone⟩ := findLoop_ok start n hq
  have hno : ∀ j, start ≤ j → j < start + n → q j = false → ¬ b.AllBits j cnt v := by
    intro j h1 h2 hfalse hall
    rw [(hiff j h1 h2).2 hall] at hfalse
    cases hfalse
  refine ⟨r, hr, fun i hi => ?_, fun hn j h1 h2 => hno j h1 h2 (hnone hn j h1 h2)⟩
  obtain ⟨hle, hlt, htrue, hfirst⟩ := hsome i hi
  refine ⟨hlt, hle, hin i hle hlt, (hiff i hle hlt).1 htrue, fun j hj hji => ?_⟩
  exact hno j hj (by omega) (hfirst j hj hji)

lemma findLoop_add (p : ℕ → Kernel Bool) (start m n : ℕ) : findLoop start (m + n) p = (do
      match ← findLoop start m p with
      | some i => return some i
      | none => findLoop (start + m) n p) := by
  unfold findLoop
  rw [← List.range'_append_1]
  induction List.range' start m with
  | nil => rfl
  | cons a l ih =>
    rw [List.cons_append, List.findM?, List.findM?]
    cases hp : p a with
    | error => rfl
    | ok r =>
      cases r with
      | true => rfl
      | false => exact ih

end Search

/-! ### The policy -/

def Bitmap.NextFit (b : Bitmap) (lastestAlloc cnt : ℕ) (v : Bool) (r : ℕ) : Prop :=
  b.LeastGroup lastestAlloc cnt v r ∨
    (b.NoGroup lastestAlloc cnt v ∧ b.LeastGroup 0 cnt v r) ∨
    (b.NoGroup 0 cnt v ∧ r = BITMAP_ERROR)

/-- The search is refused, a group can start at `lastestAlloc`, or there is a group. -/
def Bitmap.NextFitInside (b : Bitmap) (lastestAlloc cnt : ℕ) (v : Bool) : Prop :=
  b.bitCnt < cnt ∨ lastestAlloc + cnt ≤ b.bitCnt ∨ ∃ i, i + cnt ≤ b.bitCnt ∧ b.AllBits i cnt v

section NextFit

variable {b : Bitmap} {lastestAlloc cnt : ℕ} {v : Bool}

section

variable (hb : b.bitCnt < 2 ^ 32) (hcnt : cnt ≤ b.bitCnt) (hin : b.NextFitInside lastestAlloc cnt v)
include hb hcnt hin

lemma nextFit_again : ∃ r, findLoop 0 (lastestAlloc + 1) (isGroup b cnt v) = .ok r ∧
      (∀ i, r = some i → b.LeastGroup 0 cnt v i) ∧
      (r = none → lastestAlloc + cnt ≤ b.bitCnt ∧ ∀ j ≤ lastestAlloc, ¬ b.AllBits j cnt v) := by
  by_cases hle : lastestAlloc + cnt ≤ b.bitCnt
  · obtain ⟨r, hr, hsome, hnone⟩ := findGroup_spec hb 0 (lastestAlloc + 1) cnt v
      fun i _ hi => by omega
    refine ⟨r, hr, fun i hi => (hsome i hi).2, fun hn => ⟨hle, fun j hj => ?_⟩⟩
    exact hnone hn j (Nat.zero_le j) (by omega)
  · -- The map has a group, so that the loop ends before it leaves the map.
    obtain ⟨g, _, hall⟩ : ∃ i, i + cnt ≤ b.bitCnt ∧ b.AllBits i cnt v := by
      rcases hin with _ | hle' | hgroup
      · omega
      · exact absurd hle' hle
      · exact hgroup
    obtain ⟨r, hr, hsome, hnone⟩ := findGroup_spec hb 0 (g + 1) cnt v fun i _ hi => by omega
    cases r with
    | none => exact absurd hall (hnone rfl g (Nat.zero_le g) (by omega))
    | some i =>
      refine ⟨some i, ?_, fun j hj => ?_, nofun⟩
      · rw [show lastestAlloc + 1 = (g + 1) + (lastestAlloc - g) by omega, findLoop_add, hr]
        rfl
      · cases hj
        exact (hsome i rfl).2

theorem nextFit_spec : ∃ r, nextFit b lastestAlloc 0 cnt (b.bitCnt - cnt) v = .ok r ∧
      b.NextFit lastestAlloc cnt v (r.getD BITMAP_ERROR) := by
  obtain ⟨r, hr, hsome, hnone⟩ := findGroup_spec hb lastestAlloc
    (b.bitCnt - cnt + 1 - lastestAlloc) cnt v fun i _ hi => by omega
  cases r with
  | some i =>
    refine ⟨some i, ?_, .inl (hsome i rfl).2⟩
    rw [nextFit, hr]
    rfl
  | none =>
    have hno : b.NoGroup lastestAlloc cnt v := fun j hj hjc => hnone rfl j hj (by omega)
    obtain ⟨r', hr', hsome', hnone'⟩ := nextFit_again hb hcnt hin
    refine ⟨r', ?_, ?_⟩
    · rw [nextFit, hr]
      exact hr'
    · cases r' with
      | some i => exact .inr (.inl ⟨hno, hsome' i rfl⟩)
      | none =>
        obtain ⟨_, hbelow⟩ := hnone' rfl
        refine .inr (.inr ⟨fun j _ hjc => ?_, rfl⟩)
        rcases Nat.le_total j lastestAlloc with hj | hj
        · exact hbelow j hj
        · exact hno j hj hjc

end

end NextFit

/-! ### Histories of calls -/

structure ScanCall where
  map : Bitmap
  start : ℕ
  cnt : ℕ
  value : Bool

/-- One call of a history, with the static variables before and after. -/
inductive ScanStep (select : Selector) : ScanStatics → ScanCall → ScanStatics → Prop
  | call {st st' : ScanStatics} {c : ScanCall} {fuel r : ℕ} :
      bitmapScanWith select fuel st c.map c.start c.cnt c.value = .ok (r, st') →
      ScanStep select st c st'

def ScanStatics.init : ScanStatics := ⟨0, 0, 0⟩

/-- The size of the map is a `size_t`, and the search stays inside. -/
def ScanCall.NextFitMeets (st : ScanStatics) (c : ScanCall) : Prop :=
  c.map.bitCnt < 2 ^ 32 ∧ c.map.NextFitInside st.lastestAlloc c.cnt c.value

/-- **Next fit over any history** of calls that stay inside their maps. -/
theorem nextFit_history {st : ScanStatics}
    (hrun : Reaches (ScanStep .NEXT_FIT) (fun st c => c.NextFitMeets st) .init st) (c : ScanCall)
    (hstart : c.start = 0) (hmeets : c.NextFitMeets st) (fuel : ℕ) :
    ∃ r st', bitmapScanWith .NEXT_FIT fuel st c.map c.start c.cnt c.value = .ok (r, st') ∧
      c.map.NextFit st.lastestAlloc c.cnt c.value r ∧
      Reaches (ScanStep .NEXT_FIT) (fun st c => c.NextFitMeets st) .init st' := by
  -- The call returns, and its result is next fit; that the history goes on is its step.
  have hcall : ∃ r st',
      bitmapScanWith .NEXT_FIT fuel st c.map c.start c.cnt c.value = .ok (r, st') ∧
      c.map.NextFit st.lastestAlloc c.cnt c.value r := by
    obtain ⟨hb, hin⟩ := hmeets
    rw [hstart, bitmapScanWith, ASSERT_of (Nat.zero_le _), Kernel.ok_bind]
    dsimp only
    have hsame : (if st.checkCnt < 3 then { st with checkSize := u32 (st.checkSize + c.cnt) }
        else st).lastestAlloc = st.lastestAlloc := by split_ifs <;> rfl
    by_cases hcnt : c.cnt ≤ c.map.bitCnt
    · obtain ⟨r, hr, hspec⟩ := nextFit_spec hb hcnt hin
      rw [if_pos hcnt, hsame, hr, Kernel.ok_bind]
      cases r with
      | some i => exact ⟨i, _, rfl, hspec⟩
      | none => exact ⟨BITMAP_ERROR, _, rfl, hspec⟩
    · rw [if_neg hcnt]
      refine ⟨BITMAP_ERROR, _, rfl, .inr (.inr ⟨fun j _ hj => ?_, rfl⟩)⟩
      omega
  obtain ⟨r, st', hr, hspec⟩ := hcall
  exact ⟨r, st', hr, hspec, hrun.step (.call hr) hmeets⟩

theorem nextFit_history_wraps :
    ∃ r st', bitmapScanWith .NEXT_FIT 0 ⟨4, 0, 1⟩ ⟨6, fun _ => 0#32⟩ 0 3 false = .ok (r, st') ∧
      Bitmap.NextFit ⟨6, fun _ => 0#32⟩ 4 3 false r := by
  have hfirst : bitmapScanWith .NEXT_FIT 0 .init ⟨8, fun _ => 0x0f#32⟩ 0 1 false =
      .ok (4, ⟨4, 0, 1⟩) := by rfl
  have hmeets1 : ScanCall.NextFitMeets .init ⟨⟨8, fun _ => 0x0f#32⟩, 0, 1, false⟩ :=
    ⟨by norm_num, .inr (.inl (by decide))⟩
  have hrun : Reaches (ScanStep .NEXT_FIT) (fun st c => c.NextFitMeets st) .init ⟨4, 0, 1⟩ :=
    Reaches.refl.step (e := ⟨⟨8, fun _ => 0x0f#32⟩, 0, 1, false⟩) (.call hfirst) hmeets1
  have hmeets2 : ScanCall.NextFitMeets ⟨4, 0, 1⟩ ⟨⟨6, fun _ => 0#32⟩, 0, 3, false⟩ := by
    refine ⟨by norm_num, .inr (.inr ⟨0, by decide, fun j _ _ => ?_⟩)⟩
    simp [Bitmap.bit]
  obtain ⟨r, st', hr, hspec, _⟩ := nextFit_history hrun ⟨⟨6, fun _ => 0#32⟩, 0, 3, false⟩ rfl
    hmeets2 0
  exact ⟨r, st', hr, hspec⟩

/-- **The search leaves a full map.**  One search ends at bit 4; the next, in a map of two bits,
tests the group at bit 2. -/
theorem nextFit_leaves_map : (do
      let (_, st) ← bitmapScanWith .NEXT_FIT 0 .init ⟨8, fun _ => 0x0f#32⟩ 0 1 false
      bitmapScanWith .NEXT_FIT 0 st ⟨2, fun _ => 3#32⟩ 0 1 false) = PANIC "assertion failed." := by
  rfl

end Pintos
