/-
# The real-time clock

`rtc_get_time` of `devices/rtc.c`.  The clock shows the time in BCD; the loop reads its registers
until the seconds are the same before and after.

`days_per_month` is added up for the months `1` to `mon`, the current one included: every result is
about a month ahead.  Years since 1970 count as leap years when divisible by four, two years off,
and `(year - 1) / 4` counts leap days as if 1971 had been the first year after one.
-/

import Pintos.Base.Word

namespace Pintos.Devices.Rtc

open Base

def bcdToBin (x : BitVec 8) : ℤ := (x &&& 0x0f).toNat + (x >>> 4).toNat * 10

structure Components where
  sec : ℤ
  min : ℤ
  hour : ℤ
  mday : ℤ
  mon : ℤ
  year : ℤ

/-- The loop that reads them; `cmos k i` is register `i` at the `k`th read. -/
def readComponents (cmos : ℕ → ℕ → BitVec 8) : ℕ → ℕ → Option Components
  | 0, _ => none
  | fuel + 1, k =>
    let read n i := bcdToBin (cmos (k + n) i)
    let c : Components := ⟨read 0 0, read 1 2, read 2 4, read 3 7, read 4 8, read 5 9⟩
    if c.sec ≠ read 6 0 then readComponents cmos fuel (k + 7) else some c

def daysPerMonth : List ℤ := [31, 28, 31, 30, 31, 30, 31, 31, 30, 31, 30, 31]

def monthTime (year mon : ℤ) : ℤ :=
  let year := (if year < 70 then year + 100 else year) - 70
  let time := (year * 365 + (year - 1).tdiv 4) * 24 * 60 * 60
  let time := (List.range mon.toNat).foldl
    (fun time i => time + daysPerMonth.getD i 0 * 24 * 60 * 60) time
  if mon > 2 ∧ year.tmod 4 = 0 then time + 24 * 60 * 60 else time

def seconds (c : Components) : ℕ :=
  wordOf (monthTime c.year c.mon + (c.mday - 1) * 24 * 60 * 60 + c.hour * 60 * 60 + c.min * 60 +
    c.sec)

def rtcGetTime (cmos : ℕ → ℕ → BitVec 8) (fuel : ℕ) : Option ℕ :=
  (readComponents cmos fuel 0).map seconds

/-! ### The calendar -/

def monthDays (year mon : ℕ) : ℕ :=
  if mon = 2 ∧ (year % 4 = 0 ∧ year % 100 ≠ 0 ∨ year % 400 = 0) then 29
  else (daysPerMonth.getD (mon - 1) 0).toNat

def monthsDays (year n : ℕ) : ℕ := ((List.range n).map fun i => monthDays year (i + 1)).sum

structure DateTime where
  year : ℕ
  mon : ℕ
  mday : ℕ
  hour : ℕ
  min : ℕ
  sec : ℕ

structure DateTime.Valid (t : DateTime) : Prop where
  year : 1970 ≤ t.year ∧ t.year < 2038
  mon : 1 ≤ t.mon ∧ t.mon ≤ 12
  mday : 1 ≤ t.mday ∧ t.mday ≤ monthDays t.year t.mon
  hour : t.hour < 24
  min : t.min < 60
  sec : t.sec < 60

def daysBefore (year mon : ℕ) : ℕ :=
  ((List.range (year - 1970)).map fun i => monthsDays (1970 + i) 12).sum + monthsDays year (mon - 1)

def DateTime.sinceEpoch (t : DateTime) : ℕ :=
  (daysBefore t.year t.mon + (t.mday - 1)) * 86400 + t.hour * 3600 + t.min * 60 + t.sec

def bcd (n : ℕ) : BitVec 8 := .ofNat 8 (n / 10 * 16 + n % 10)

def DateTime.shown (t : DateTime) : ℕ → ℕ → BitVec 8 := fun _ i =>
  bcd ([t.sec, 0, t.min, 0, t.hour, 0, 0, t.mday, t.mon, t.year % 100].getD i 0)

lemma bcdToBin_bcd : ∀ n < 100, bcdToBin (bcd n) = n := by decide

lemma monthTime_bounds : ∀ y < 68, ∀ m < 12,
    let time := monthTime ((1970 + y) % 100 : ℕ) (m + 1 : ℕ)
    0 ≤ time ∧ time < 2 ^ 32 - 31 * 86400 ∧ time ≠ daysBefore (1970 + y) (m + 1) * 86400 ∧
      monthDays (1970 + y) (m + 1) ≤ 31 := by
  decide +kernel

/-- **The clock is never right**: no valid date gives the seconds since the epoch. -/
theorem rtc_never_right {t : DateTime} (h : t.Valid) (fuel : ℕ) :
    ∃ r, rtcGetTime t.shown (fuel + 1) = some r ∧ r ≠ t.sinceEpoch := by
  obtain ⟨⟨_, _⟩, ⟨_, _⟩, ⟨_, _⟩, _, _, _⟩ := h
  obtain ⟨y, hy⟩ := Nat.exists_eq_add_of_le ‹1970 ≤ t.year›
  obtain ⟨m, hm⟩ := Nat.exists_eq_add_of_le' ‹1 ≤ t.mon›
  obtain ⟨h0, hlt, hne, h31⟩ := monthTime_bounds y (by omega) m (by omega)
  rw [← hy, ← hm] at h0 hlt hne h31
  have hread : readComponents t.shown (fuel + 1) 0 =
      some ⟨t.sec, t.min, t.hour, t.mday, t.mon, (t.year % 100 : ℕ)⟩ := by
    simp [readComponents, DateTime.shown, bcdToBin_bcd _ (by omega : t.sec < 100),
      bcdToBin_bcd _ (by omega : t.min < 100), bcdToBin_bcd _ (by omega : t.hour < 100),
      bcdToBin_bcd _ (by omega : t.mday < 100), bcdToBin_bcd _ (by omega : t.mon < 100),
      bcdToBin_bcd _ (by omega : t.year % 100 < 100)]
  refine ⟨_, congrArg (Option.map seconds) hread, ?_⟩
  simp only [seconds, wordOf, DateTime.sinceEpoch]
  omega

theorem rtc_never_right_leap_day : ∃ r, rtcGetTime (DateTime.mk 2000 2 29 23 59 59).shown 1 =
    some r ∧ r ≠ (DateTime.mk 2000 2 29 23 59 59).sinceEpoch :=
  rtc_never_right (by constructor <;> decide) 0

/-- **The clock starts 31 days late and jumps back** when a shorter month begins. -/
theorem rtc_jumps_back : rtcGetTime (DateTime.mk 1970 1 1 0 0 0).shown 1 = some (31 * 86400) ∧
    rtcGetTime (DateTime.mk 2001 1 31 23 59 59).shown 1 = some 983577599 ∧
    rtcGetTime (DateTime.mk 2001 2 1 0 0 0).shown 1 = some 983318400 := by
  decide

end Pintos.Devices.Rtc
