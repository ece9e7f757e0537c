/-
# Where the buddy search looks

The loops of the buddy search test bits up to `512 + check_size`, whatever the size of the map, and
`check_size` grows with every call: its guard `check_cnt < 3` is never advanced.  Nor does the test
of a block look at the end of the map: a request for five of six free bits fails an assertion
(`buddy_leaves_map`).
-/

import Pintos.Base.Run
import Pintos.Lib.BitmapBuddy

namespace Pintos

open Base Kernel

/-! ### Checked accesses -/

def testInside (b : Bitmap) (i : ℕ) : Kernel Bool :=
  if i < b.bitCnt then bitmapTest b i else PANIC "outside the map"

def containsInside (b : Bitmap) (value : Bool) (i n : ℕ) : Kernel Bool :=
  if i + n ≤ b.bitCnt then bitmapContains b i n (!value) else PANIC "outside the map"

def buddySystemInside (fuel : ℕ) (b : Bitmap) (checkSize cnt : ℕ) (value : Bool) : Kernel ℕ := do
  if cnt > BUDDY_MAX then
    return BITMAP_ERROR
  let bound ← buddyBound cnt fuel BUDDY_MAX
  buddySearchOn (testInside b) (containsInside b value) bound (u32 (BUDDY_MAX + checkSize)) fuel 0 0

def ScanStatics.counted (st : ScanStatics) (cnt : ℕ) : ScanStatics :=
  if st.checkCnt < 3 then { st with checkSize := u32 (st.checkSize + cnt) } else st

/-- `BUDDY_SYSTEM`, with accesses that check their ranges. -/
def bitmapScanInside (fuel : ℕ) (st : ScanStatics) (b : Bitmap) (start cnt : ℕ) (value : Bool) :
    Kernel (ℕ × ScanStatics) := do
  ASSERT (start ≤ b.bitCnt)
  if cnt ≤ b.bitCnt then
    return (← buddySystemInside fuel b (st.counted cnt).checkSize cnt value, st.counted cnt)
  else
    return (BITMAP_ERROR, st.counted cnt)

variable {cnt start : ℕ}

section Inside

variable {b : Bitmap} {value : Bool} {bound limit fuel i offset : ℕ}

def Bitmap.Stops (b : Bitmap) (limit i : ℕ) : Prop :=
  limit ≤ b.bitCnt ∨ ∃ e, i ≤ e ∧ e < b.bitCnt ∧ b.bit e = false

lemma buddyOffset_inside (hb : b.bitCnt < 2 ^ 32) (hstops : b.Stops limit i) :
    buddyOffsetOn (testInside b) limit fuel i offset =
      buddyOffsetOn (bitmapTest b) limit fuel i offset := by
  induction fuel generalizing i offset with
  | zero => rfl
  | succ _ ih =>
    rw [buddyOffsetOn, buddyOffsetOn]
    by_cases hi : i ≥ limit
    · rw [if_pos hi, if_pos hi]
    have hlt : i < b.bitCnt := by
      rcases hstops with hle | ⟨e, h1, h2, _⟩ <;> omega
    rw [if_neg hi, if_neg hi, testInside, if_pos hlt, bitmapTest_ok hlt, ok_bind, ok_bind]
    cases hbit : b.bit i with
    | false => rfl
    | true =>
      rw [beq_self_eq_true, if_pos rfl, if_pos rfl, u32_of_lt (show i + 1 < 2 ^ 32 by omega)]
      apply ih
      rcases hstops with hle | ⟨e, h1, h2, hfree⟩
      · exact .inl hle
      · rcases Nat.eq_or_lt_of_le h1 with rfl | hlt'
        · rw [hbit] at hfree
          cases hfree
        · exact .inr ⟨e, hlt', h2, hfree⟩

lemma buddyStep_inside (hb : b.bitCnt < 2 ^ 32)
    (h : i < limit → i + max 1 (bound * 2) ≤ b.bitCnt ∧ b.Stops limit i) :
    buddyStepOn (testInside b) (containsInside b value) bound limit fuel i offset =
      buddyStepOn (bitmapTest b) (fun i n => bitmapContains b i n (!value)) bound limit fuel i
        offset := by
  rw [buddyStepOn, buddyStepOn]
  by_cases hi : i ≥ limit
  · rw [if_pos hi, if_pos hi]
  obtain ⟨_, hstops⟩ := h (by omega)
  have hlt : i < b.bitCnt := by omega
  have hblock : i + bound * 2 ≤ b.bitCnt := by omega
  rw [if_neg hi, if_neg hi, testInside, if_pos hlt, buddyOffset_inside hb hstops, containsInside,
    if_pos hblock]

/-- **A search whose rounds start inside stays inside**: `J` holds where a round starts. -/
theorem buddySearch_inside (hb : b.bitCnt < 2 ^ 32) (J : ℕ → Prop)
    (hin : ∀ i, J i → i < limit → i + max 1 (bound * 2) ≤ b.bitCnt ∧ b.Stops limit i)
    (hnext : ∀ {i offset i' offset'}, J i → offset ≤ 256 →
      BuddyOutcome b value bound i offset (.inr (i', offset')) → J i')
    (hi : J i) (hoff : offset ≤ 256) :
    buddySearchOn (testInside b) (containsInside b value) bound limit fuel i offset =
      buddySearchOn (bitmapTest b) (fun i n => bitmapContains b i n (!value)) bound limit fuel i
        offset := by
  induction fuel generalizing i offset with
  | zero => rfl
  | succ fuel ih =>
    rw [buddySearchOn, buddySearchOn, buddyStep_inside hb (hin i hi)]
    cases hstep : buddyStepOn (bitmapTest b) (fun i n => bitmapContains b i n (!value)) bound limit
        fuel i offset with
    | error e => rfl
    | ok o =>
      have hout := buddyStep_outcome hb (by omega) hstep
      cases o with
      | inl => rfl
      | inr next =>
        have hoff' : next.2 ≤ 256 := by
          obtain ⟨_, _⟩ := next
          cases hout with
          | skip _ _ hle => exact buddyRound_le hle
          | next => exact hoff
        exact ih (hnext hi hoff hout) hoff'

lemma buddyStep_dvd (hoff : offset ≤ 256) :
    buddyBlock cnt ∣ max (buddyRound offset) (buddyBlock cnt / 2 * 2) := by
  have hblock : buddyBlock cnt ∣ buddyBlock cnt / 2 * 2 := by
    rcases buddyBlock_half cnt with heq | ⟨hone, _⟩
    · rw [heq]
    · rw [hone]
      exact Nat.one_dvd _
  rcases Nat.le_total (buddyRound offset) (buddyBlock cnt / 2 * 2) with hle | hge
  · rwa [Nat.max_eq_right hle]
  rw [Nat.max_eq_left hge]
  rcases Nat.eq_zero_or_pos offset with rfl | hpos
  · exact Nat.dvd_zero _
  rw [buddyRound_eq hpos hoff] at hge ⊢
  -- Both are powers of two.
  have hle : buddyBlock cnt ≤ buddyBlock offset := by
    have hpow : 0 < buddyBlock offset := Nat.pow_pos (by decide)
    have hhalf := buddyBlock_half cnt
    omega
  exact Nat.pow_dvd_pow 2 ((Nat.pow_le_pow_iff_right (by decide)).1 hle)

lemma buddyBlock_dvd_u32 (hmax : cnt ≤ BUDDY_MAX) {n : ℕ} (h : buddyBlock cnt ∣ n) :
    buddyBlock cnt ∣ u32 n := by
  have hlog : Nat.clog 2 cnt ≤ 32 :=
    le_trans (Nat.clog_le_of_le_pow (show cnt ≤ 2 ^ 9 from hmax)) (by decide)
  exact (Nat.dvd_mod_iff (Nat.pow_dvd_pow 2 hlog)).2 h

end Inside

/-! ### Two ways to stay inside -/

def Bitmap.FreeFrom (b : Bitmap) (e : ℕ) : Prop := ∀ j, e ≤ j → j < b.bitCnt → b.bit j = false

/-- **When the search stays inside.**  It does not look at the map; or the map reaches to the end of
the block of the limit; or it gets, with room for a block, to where the map is free from there
on. -/
def Bitmap.BuddyInside (b : Bitmap) (limit cnt : ℕ) (value : Bool) : Prop :=
  cnt = 0 ∨ b.bitCnt < cnt ∨ BUDDY_MAX < cnt ∨
    (∃ k, limit ≤ k * buddyBlock cnt ∧ k * buddyBlock cnt ≤ b.bitCnt) ∨
    (value = false ∧ ∃ e, b.FreeFrom e ∧
      (if e = 0 then 0 else e - 1 + max 256 (buddyBlock cnt)) + buddyBlock cnt ≤ b.bitCnt)

section Calls

variable {b : Bitmap} {value : Bool} {cnt limit fuel : ℕ} {st : ScanStatics} {m : String}

lemma buddyBound_zero (fuel bound : ℕ) : buddyBound 0 fuel bound = PANIC "out of fuel" := by
  induction fuel generalizing bound with
  | zero => rfl
  | succ _ ih =>
    rw [buddyBound, if_neg (by omega)]
    exact ih _

lemma max_half_block (cnt : ℕ) : max 1 (buddyBlock cnt / 2 * 2) = buddyBlock cnt := by
  have hpos : 0 < buddyBlock cnt := Nat.pow_pos (by decide)
  have hhalf := buddyBlock_half cnt
  omega

lemma buddySearch_inside_blocks (hb : b.bitCnt < 2 ^ 32) (hmax : cnt ≤ BUDDY_MAX) {k : ℕ}
    (hlimit : limit ≤ k * buddyBlock cnt) (hk : k * buddyBlock cnt ≤ b.bitCnt) :
    buddySearchOn (testInside b) (containsInside b value) (buddyBlock cnt / 2) limit fuel 0 0 =
      buddySearchOn (bitmapTest b) (fun i n => bitmapContains b i n (!value)) (buddyBlock cnt / 2)
        limit fuel 0 0 := by
  refine buddySearch_inside hb (fun i => buddyBlock cnt ∣ i) ?_ ?_ (Nat.dvd_zero _) (Nat.zero_le _)
  · rintro i ⟨m, rfl⟩ hlt
    rw [max_half_block]
    refine ⟨?_, .inl (by omega)⟩
    -- A block that starts before the last one ends there at the latest.
    have hmk : m < k := by
      rw [Nat.mul_comm] at hlt
      exact Nat.lt_of_mul_lt_mul_right (lt_of_lt_of_le hlt hlimit)
    calc buddyBlock cnt * m + buddyBlock cnt
      _ = (m + 1) * buddyBlock cnt := by rw [Nat.add_mul, Nat.one_mul, Nat.mul_comm]
      _ ≤ k * buddyBlock cnt := Nat.mul_le_mul_right _ hmk
      _ ≤ b.bitCnt := hk
  · intro i _ _ _ hi _ hout
    cases hout with
    | skip _ _ hle => exact buddyBlock_dvd_u32 hmax (Nat.dvd_add hi (buddyStep_dvd hle))
    | next _ _ hne =>
      refine buddyBlock_dvd_u32 hmax (Nat.dvd_add hi ?_)
      rcases buddyBlock_half cnt with heq | ⟨_, hzero⟩
      · rw [heq]
      · exact absurd hzero hne

lemma buddySearch_inside_free (hb : b.bitCnt < 2 ^ 32) {e : ℕ} (hfree : b.FreeFrom e)
    (he : (if e = 0 then 0 else e - 1 + max 256 (buddyBlock cnt)) + buddyBlock cnt ≤ b.bitCnt) :
    buddySearchOn (testInside b) (containsInside b false) (buddyBlock cnt / 2) limit fuel 0 0 =
      buddySearchOn (bitmapTest b) (fun i n => bitmapContains b i n (!false)) (buddyBlock cnt / 2)
        limit fuel 0 0 := by
  have hpos : 0 < buddyBlock cnt := Nat.pow_pos (by decide)
  have hhalf : buddyBlock cnt / 2 * 2 ≤ buddyBlock cnt := Nat.div_mul_le_self _ _
  refine buddySearch_inside hb
    (fun i => i ≤ if e = 0 then 0 else e - 1 + max 256 (buddyBlock cnt)) ?_ ?_ (Nat.zero_le _)
    (Nat.zero_le _)
  · intro i _ _
    rw [max_half_block]
    refine ⟨by omega, .inr ?_⟩
    by_cases hie : i < e
    · refine ⟨e, hie.le, ?_, hfree e le_rfl ?_⟩ <;> rw [if_neg (by omega)] at he <;> omega
    · exact ⟨i, le_rfl, by omega, hfree i (by omega) (by omega)⟩
  · intro i offset _ _ _ _ hout
    have hle := Nat.le_max_left 256 (buddyBlock cnt)
    have hle' := Nat.le_max_right 256 (buddyBlock cnt)
    cases hout with
    | @skip n hn hbit hle =>
      -- The bit is in use, so the place has not been reached.
      have hin := hn.inside
      have hie : i < e := by
        by_contra hge
        rw [hfree i (by omega) (by omega)] at hbit
        cases hbit
      have hround := buddyRound_le hle
      have hmod := Nat.mod_le (i + max (buddyRound (u32 (offset + n))) (buddyBlock cnt / 2 * 2))
        (2 ^ 32)
      rw [if_neg (by omega)]
      unfold u32
      unfold u32 at hround hmod
      omega
    | next _ _ _ hblock =>
      have hie : i < e := by
        by_contra hge
        refine hblock (by omega) fun j h1 h2 => hfree j (by omega) (by omega)
      have hmod := Nat.mod_le (i + buddyBlock cnt / 2 * 2) (2 ^ 32)
      rw [if_neg (by omega)]
      unfold u32
      omega

lemma bitmapScanInside_eq (hb : b.bitCnt < 2 ^ 32)
    (hin : b.BuddyInside (u32 (BUDDY_MAX + (st.counted cnt).checkSize)) cnt value) (start : ℕ) :
    bitmapScanInside fuel st b start cnt value =
      bitmapScanWith .BUDDY_SYSTEM fuel st b start cnt value := by
  have hsystem : cnt ≤ b.bitCnt → buddySystemInside fuel b (st.counted cnt).checkSize cnt value =
      buddySystem fuel b (st.counted cnt).checkSize cnt value := by
    intro _
    rw [buddySystemInside, buddySystem]
    by_cases hbig : cnt > BUDDY_MAX
    · rw [if_pos hbig, if_pos hbig]
    rw [if_neg hbig, if_neg hbig]
    rcases Nat.eq_zero_or_pos cnt with rfl | hpos
    · rw [buddyBound_zero, panic_bind, panic_bind]
    rw [show buddyBound cnt fuel BUDDY_MAX = _ from
      buddyBound_spec (k := 9) hpos (show cnt ≤ 512 by unfold BUDDY_MAX at hbig; omega)]
    by_cases hfuel : 9 < fuel + Nat.clog 2 cnt
    · rw [if_pos hfuel, ok_bind, ok_bind, buddySearch_eq_on]
      rcases hin with h | h | h | ⟨k, hlimit, hk⟩ | ⟨rfl, e, hfree, he⟩
      · omega
      · omega
      · exact absurd h hbig
      · exact buddySearch_inside_blocks hb (by omega) hlimit hk
      · exact buddySearch_inside_free hb hfree he
    · rw [if_neg hfuel, panic_bind, panic_bind]
  rw [bitmapScanInside, bitmapScanWith]
  refine congrArg _ (funext fun _ => ?_)
  show (if cnt ≤ b.bitCnt then _ else _) = if cnt ≤ b.bitCnt then _ else _
  by_cases hcnt : cnt ≤ b.bitCnt
  · rw [if_pos hcnt, if_pos hcnt, hsystem hcnt]
    rfl
  · rw [if_neg hcnt, if_neg hcnt]
    rfl

lemma buddySearchOn_avoids {test : ℕ → Kernel Bool} {contains : ℕ → ℕ → Kernel Bool}
    (htest : ∀ i, Avoids m (test i)) (hcontains : ∀ i n, Avoids m (contains i n))
    (hm : "out of fuel" ≠ m) (bound limit fuel i offset : ℕ) :
    Avoids m (buddySearchOn test contains bound limit fuel i offset) := by
  have hrun : ∀ fuel j offset, Avoids m (buddyOffsetOn test limit fuel j offset) := by
    intro fuel
    induction fuel with
    | zero => exact fun _ _ => .panic hm
    | succ _ ih =>
      intro j _
      rw [buddyOffsetOn]
      refine .ite (fun _ => .pure _) fun _ => (htest j).bind fun r _ => ?_
      exact .ite (fun _ => ih _ _) fun _ => .pure _
  have hstep : ∀ fuel i offset, Avoids m (buddyStepOn test contains bound limit fuel i offset) := by
    intro fuel i offset
    rw [buddyStepOn]
    refine .ite (fun _ => .pure _) fun _ => (htest i).bind fun r _ => ?_
    refine .ite (fun _ => (hrun fuel i offset).bind fun o _ => ?_) fun _ => ?_
    · cases o with
      | none => exact .pure _
      | some => exact .ite (fun _ => .pure _) fun _ => .pure _
    · refine .ite (fun _ => (hcontains i _).bind fun r _ => ?_) fun _ =>
        (htest i).bind fun r _ => ?_
      · exact .ite (fun _ => .pure _) fun _ => .pure _
      · exact .ite (fun _ => .pure _) fun _ => .pure _
  induction fuel generalizing i offset with
  | zero => exact .panic hm
  | succ fuel ih =>
    rw [buddySearchOn]
    refine (hstep fuel i offset).bind fun o _ => ?_
    cases o with
    | inl => exact .pure _
    | inr => exact ih _ _

lemma buddyBound_avoids (hm : "out of fuel" ≠ m) (cnt fuel bound : ℕ) :
    Avoids m (buddyBound cnt fuel bound) := by
  induction fuel generalizing bound with
  | zero => exact .panic hm
  | succ _ ih =>
    rw [buddyBound]
    exact .ite (fun _ => .pure _) fun _ => ih _

lemma bitmapScanInside_avoids (hb : b.bitCnt < 2 ^ 32) (hstart : start ≤ b.bitCnt) :
    Avoids "assertion failed." (bitmapScanInside fuel st b start cnt value) := by
  have htest : ∀ i, Avoids "assertion failed." (testInside b i) := by
    intro i
    refine .ite (fun hi => ?_) fun _ => .panic (by decide)
    exact .of_eq_ok (bitmapTest_ok hi)
  have hcontains : ∀ i n, Avoids "assertion failed." (containsInside b value i n) := by
    intro i n
    refine .ite (fun hin => ?_) fun _ => .panic (by decide)
    obtain ⟨r, hr, _⟩ := bitmapContains_spec i n (!value) hb hin
    exact .of_eq_ok hr
  rw [bitmapScanInside, ASSERT_of hstart, ok_bind]
  refine .ite (fun _ => .bind (.ite (fun _ => .pure _) fun _ => ?_) fun _ _ => .pure _)
    fun _ => .pure _
  exact (buddyBound_avoids (by decide) _ _ _).bind fun bound _ =>
    buddySearchOn_avoids htest hcontains (by decide) _ _ _ _ _

lemma bitmapScanWith_buddy_avoids (start : ℕ) :
    Avoids "outside the map" (bitmapScanWith .BUDDY_SYSTEM fuel st b start cnt value) := by
  have htest : ∀ i, Avoids "outside the map" (bitmapTest b i) := fun i =>
    (Avoids.assert (by decide)).bind fun _ _ => .pure _
  have hcontains : ∀ i n, Avoids "outside the map" (bitmapContains b i n (!value)) := fun i n =>
    (Avoids.assert (by decide)).bind fun _ _ => (Avoids.assert (by decide)).bind fun _ _ =>
      .anyLoop (fun k => (htest _).bind fun _ _ => .pure _) n
  rw [bitmapScanWith]
  refine (Avoids.assert (by decide)).bind fun _ _ => ?_
  refine .ite (fun _ => .bind (.ite (fun _ => .pure _) fun _ => ?_) fun _ _ => .pure _)
    fun _ => .pure _
  refine (buddyBound_avoids (by decide) _ _ _).bind fun bound _ => ?_
  rw [buddySearch_eq_on]
  exact buddySearchOn_avoids htest hcontains (by decide) _ _ _ _ _

end Calls

/-! ### Histories -/

structure BuddyState where
  map : Bitmap
  statics : ScanStatics

inductive BuddyCall where
  | bitmapScanAndFlip (start cnt : ℕ) (value : Bool)
  | bitmapSetMultiple (start cnt : ℕ) (value : Bool)

inductive BuddyStep : BuddyState → BuddyCall → BuddyState → Prop
  | scanAndFlip {s : BuddyState} {start cnt fuel r : ℕ} {value : Bool} {b : Bitmap}
      {st : ScanStatics} :
      bitmapScanAndFlipWith .BUDDY_SYSTEM fuel s.statics s.map start cnt value = .ok (r, b, st) →
      BuddyStep s (.bitmapScanAndFlip start cnt value) ⟨b, st⟩
  | setMultiple {s : BuddyState} {start cnt : ℕ} {value : Bool} {b : Bitmap} :
      Pintos.bitmapSetMultiple s.map start cnt value = .ok b →
      BuddyStep s (.bitmapSetMultiple start cnt value) { s with map := b }

def BuddyState.init (n : ℕ) : BuddyState := ⟨⟨n, fun _ => 0#32⟩, ⟨0, 0, 0⟩⟩

section Histories

variable {n : ℕ} {s s' : BuddyState}

lemma bitmapSetMultiple_bitCnt {b b' : Bitmap} {v : Bool}
    (h : bitmapSetMultiple b start cnt v = .ok b') : b'.bitCnt = b.bitCnt := by
  rw [bitmapSetMultiple, bind_eq_ok] at h
  obtain ⟨_, _, h⟩ := h
  rw [bind_eq_ok] at h
  obtain ⟨_, _, h⟩ := h
  refine forLoop_invariant (fun b' : Bitmap => b'.bitCnt = b.bitCnt) (fun {i b1 b2} _ h1 h2 => ?_)
    rfl h
  rw [bitmapSet, bind_eq_ok] at h2
  obtain ⟨_, _, h2⟩ := h2
  cases h2
  rw [← h1]
  split_ifs <;> rfl

lemma BuddyStep.bitCnt {c : BuddyCall} (h : BuddyStep s c s') : s'.map.bitCnt = s.map.bitCnt := by
  cases h with
  | scanAndFlip h =>
    obtain ⟨_, rfl | hset⟩ := bitmapScanAndFlipWith_eq_ok h
    · rfl
    · exact bitmapSetMultiple_bitCnt hset
  | setMultiple h => exact bitmapSetMultiple_bitCnt h

def BuddyState.Inside (s : BuddyState) (cnt : ℕ) (value : Bool) : Prop :=
  s.map.BuddyInside (u32 (BUDDY_MAX + (s.statics.counted cnt).checkSize)) cnt value

/-- **The buddy search over any history** of searches that meet the condition stays inside the
map. -/
theorem buddy_inside (hn : n < 2 ^ 32) (hrun : Reaches BuddyStep Always (.init n) s)
    {cnt : ℕ} {value : Bool} (hin : s.Inside cnt value) (start fuel : ℕ) :
    bitmapScanInside fuel s.statics s.map start cnt value =
        bitmapScanWith .BUDDY_SYSTEM fuel s.statics s.map start cnt value ∧
      Avoids "outside the map" (bitmapScanInside fuel s.statics s.map start cnt value) ∧
      (start ≤ s.map.bitCnt → Avoids "assertion failed."
        (bitmapScanWith .BUDDY_SYSTEM fuel s.statics s.map start cnt value)) := by
  have hsize : s.map.bitCnt = n :=
    hrun.invariant (fun s => s.map.bitCnt = n) (fun h hs _ => hs.bitCnt.trans h) rfl
  have heq : bitmapScanInside fuel s.statics s.map start cnt value = _ :=
    bitmapScanInside_eq (by omega) hin start
  refine ⟨heq, ?_, fun hstart => ?_⟩
  · rw [heq]
    exact bitmapScanWith_buddy_avoids start
  · rw [← heq]
    exact bitmapScanInside_avoids (by omega) hstart

theorem buddy_inside_five : ∃ s, Reaches BuddyStep Always (.init 300) s ∧ s.map.bit 4 = true ∧
      bitmapScanInside 20 s.statics s.map 0 3 false =
        bitmapScanWith .BUDDY_SYSTEM 20 s.statics s.map 0 3 false := by
  obtain ⟨b, hset, hcnt, hbit⟩ := bitmapSetMultiple_spec (b := (BuddyState.init 300).map) 0 5 true
    (by decide) (by decide)
  have hrun : Reaches BuddyStep Always (.init 300) ⟨b, ⟨0, 0, 0⟩⟩ :=
    Reaches.refl.step (e := .bitmapSetMultiple 0 5 true) (.setMultiple hset) trivial
  have hfree : b.FreeFrom 5 := by
    intro j _ _
    rw [hbit, if_neg (by omega)]
    exact BitVec.getLsbD_zero
  have hblock : buddyBlock 3 = 4 := buddyBlock_eq (k := 1) (by decide) (by decide)
  have hin : BuddyState.Inside ⟨b, ⟨0, 0, 0⟩⟩ 3 false := by
    refine .inr (.inr (.inr (.inr ⟨rfl, 5, hfree, ?_⟩)))
    rw [hblock, hcnt]
    decide
  refine ⟨_, hrun, ?_, (buddy_inside (by decide) hrun hin 0 20).1⟩
  rw [hbit]
  rfl

end Histories

/-- **The search leaves a small map**: six free bits, where the block for five is eight. -/
theorem buddy_leaves_map :
    bitmapScanInside 20 (BuddyState.init 6).statics (BuddyState.init 6).map 0 5 false =
        PANIC "outside the map" ∧
      bitmapScanWith .BUDDY_SYSTEM 20 (BuddyState.init 6).statics (BuddyState.init 6).map 0 5
        false = PANIC "assertion failed." := by
  constructor <;> rfl

end Pintos
