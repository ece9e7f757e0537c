/-
# 64-bit division

`lib/arithmetic.c`.  The 32-bit target divides by DIVL, which divides 64 bits by 32 and traps unless
the quotient fits in 32 bits.  For a larger divisor the quotient is estimated from its upper 32
significant bits, which divide half of the dividend; the estimate is the quotient or one more
(`estimate_le`).

The remainders are computed in 64 bits and returned through `uint32_t` and `int32_t`.
-/

import Mathlib.Tactic.Linarith
import Mathlib.Tactic.Ring
import Pintos.Base.Kernel
import Pintos.Base.Word

namespace Pintos.Lib

open Base Kernel

def u64 (n : ℕ) : ℕ := n % 2 ^ 64

def word64 (z : ℤ) : ℕ := (z % 2 ^ 64).toNat

def s64 (n : ℕ) : ℤ := if n < 2 ^ 63 then n else (n : ℤ) - 2 ^ 64

def divl (n d : ℕ) : Kernel ℕ :=
  if d = 0 ∨ 2 ^ 32 ≤ n / d then PANIC "#DE Divide Error Exception" else pure (n / d)

def nlzStep (bound k : ℕ) (p : ℕ × ℕ) : ℕ × ℕ :=
  if p.2 ≤ bound then (p.1 + k, u32 (p.2 * 2 ^ k)) else p

/-- Leading zero bits of a nonzero `x`.  Nothing reads the last shift, which the source leaves
out. -/
def nlz (x : ℕ) : ℕ :=
  (nlzStep 0x7FFFFFFF 1 <| nlzStep 0x3FFFFFFF 2 <| nlzStep 0x0FFFFFFF 4 <| nlzStep 0x00FFFFFF 8 <|
    nlzStep 0x0000FFFF 16 (0, x)).1

def udiv64 (n d : ℕ) : Kernel ℕ :=
  if d / 2 ^ 32 = 0 then do
    let b := 2 ^ 32
    let n1 := n / 2 ^ 32
    let q ← divl (u64 (b * (n1 % d) + u32 n)) d
    return u64 (q + b * (n1 / d))
  else if n < d then
    pure 0
  else do
    let s := nlz (d / 2 ^ 32)
    let q ← divl (n / 2) (u64 (d * 2 ^ s) / 2 ^ 32)
    let q := q / 2 ^ (31 - s)
    let q1 := u64 (q + 2 ^ 64 - 1)
    return if u64 (n + 2 ^ 64 - u64 (q1 * d)) < d then q1 else q

def umod64 (n d : ℕ) : Kernel ℕ := do
  return u32 (u64 (n + 2 ^ 64 - u64 (d * (← udiv64 n d))))

def abs64 (n : ℤ) : ℕ := if 0 ≤ n then word64 n else u64 (2 ^ 64 - word64 n)

def sdiv64 (n d : ℤ) : Kernel ℤ := do
  let q ← udiv64 (abs64 n) (abs64 d)
  return if n < 0 ↔ d < 0 then s64 q else s64 (word64 (-s64 q))

def smod64 (n d : ℤ) : Kernel ℤ := do
  return s32 (u32 (word64 (n - d * (← sdiv64 n d))))

def udivdi3 (n d : ℕ) : Kernel ℕ := udiv64 n d

def umoddi3 (n d : ℕ) : Kernel ℕ := umod64 n d

def divdi3 (n d : ℤ) : Kernel ℤ := sdiv64 n d

def moddi3 (n d : ℤ) : Kernel ℤ := smod64 n d

lemma divl_eq {n d : ℕ} (hd : 0 < d) (h : n < 2 ^ 32 * d) : divl n d = .ok (n / d) := by
  rw [divl, if_neg, pure_eq_ok]
  rw [not_or, not_le, Nat.div_lt_iff_lt_mul hd]
  exact ⟨hd.ne', h⟩

/-! ### Leading zeros -/

/-- The numbers `x` and `n` in `nlz`, with at most `k` zeros left. -/
structure Shifted (x k : ℕ) (p : ℕ × ℕ) : Prop where
  eq : p.2 = x * 2 ^ p.1
  lower : 2 ^ (32 - k) ≤ p.2
  upper : p.2 < 2 ^ 32

lemma Shifted.step {x k : ℕ} {p : ℕ × ℕ} (h : Shifted x (2 * k) p) (hk : 2 * k ≤ 32) :
    Shifted x k (nlzStep (2 ^ (32 - k) - 1) k p) := by
  have hpos : 0 < 2 ^ (32 - k) := by positivity
  have hsplit : 2 ^ (32 - k) = 2 ^ (32 - 2 * k) * 2 ^ k := by rw [← Nat.pow_add]; congr 1; omega
  have htop : 2 ^ 32 = 2 ^ (32 - k) * 2 ^ k := by rw [← Nat.pow_add]; congr 1; omega
  rw [nlzStep]
  split_ifs with hle
  · have hlt : p.2 * 2 ^ k < 2 ^ 32 := htop ▸ Nat.mul_lt_mul_of_pos_right (by omega) (by positivity)
    rw [u32_of_lt hlt]
    refine ⟨by rw [h.eq, Nat.mul_assoc, ← Nat.pow_add], ?_, hlt⟩
    rw [hsplit]
    exact Nat.mul_le_mul_right _ h.lower
  · exact ⟨h.eq, by omega, h.upper⟩

lemma nlz_spec {x : ℕ} (h0 : 0 < x) (h : x < 2 ^ 32) :
    2 ^ 31 ≤ x * 2 ^ nlz x ∧ x * 2 ^ nlz x < 2 ^ 32 := by
  have h32 : Shifted x 32 (0, x) := ⟨(Nat.mul_one x).symm, h0, h⟩
  have h1 := ((((h32.step (k := 16) (by decide)).step (k := 8) (by decide)).step (k := 4)
    (by decide)).step (k := 2) (by decide)).step (k := 1) (by decide)
  have heq := h1.eq
  exact ⟨heq ▸ h1.lower, heq ▸ h1.upper⟩

/-! ### The estimate -/

/-- **The estimate is at most one too large.**  The divisor is `v` at its upper bits and `e` below
them. -/
theorem estimate_le {n d v k e : ℕ} (hd : d = v * 2 ^ k + e) (he : e < 2 ^ k) (hv : 2 ^ 31 ≤ v)
    (hk : 1 ≤ k) (hk' : k ≤ 32) (hn : n < 2 ^ 64) :
    n / d ≤ n / (v * 2 ^ k) ∧ n / (v * 2 ^ k) ≤ n / d + 1 := by
  have hpos : 0 < v * 2 ^ k := by positivity
  refine ⟨Nat.div_le_div_left (by omega) hpos, ?_⟩
  have hQ : n / d < 2 ^ (33 - k) := by
    rw [Nat.div_lt_iff_lt_mul (by omega)]
    calc n < 2 ^ (33 - k) * (2 ^ 31 * 2 ^ k) := by
          rw [← Nat.pow_add, ← Nat.pow_add]
          exact hn.trans_le (Nat.pow_le_pow_right (by decide) (by omega))
      _ ≤ 2 ^ (33 - k) * d := Nat.mul_le_mul_left _ (by nlinarith [Nat.mul_le_mul_right (2 ^ k) hv])
  -- What the lower bits add is at most the upper ones.
  have hrest : (n / d + 1) * e ≤ v * 2 ^ k := by
    have hmul : (n / d + 1) * e ≤ 2 ^ (33 - k) * (2 ^ k - 1) := Nat.mul_le_mul hQ (by omega)
    have htwo : 2 ^ (33 - k) * 2 ^ k = 2 ^ 33 := by rw [← Nat.pow_add]; congr 1; omega
    have hlow := Nat.mul_le_mul_right (2 ^ k) hv
    rw [Nat.mul_sub, htwo, Nat.mul_one] at hmul
    rcases Nat.lt_or_ge k 2 with h | h
    · obtain rfl : k = 1 := by omega
      omega
    · have h4 : 2 ^ 2 ≤ 2 ^ k := Nat.pow_le_pow_right (by decide) h
      exact (hmul.trans (Nat.sub_le ..)).trans (by omega)
  have hlt : n < (v * 2 ^ k + e) * (n / d + 1) :=
    (Nat.lt_mul_div_succ n (by omega)).trans_eq (congrArg (· * (n / d + 1)) hd)
  rw [Nat.add_mul, Nat.mul_comm e] at hlt
  rw [Nat.div_le_iff_le_mul_add_pred hpos]
  omega

/-- **The correction.**  The product of the smaller candidate tells which one it is. -/
theorem corrected_eq {n d q : ℕ} (hn : n < 2 ^ 64) (hd : 0 < d) (hle : d ≤ n) (h1 : n / d ≤ q)
    (h2 : q ≤ n / d + 1) :
    (if u64 (n + 2 ^ 64 - u64 (u64 (q + 2 ^ 64 - 1) * d)) < d then u64 (q + 2 ^ 64 - 1) else q) =
      n / d := by
  have hpos : 0 < n / d := Nat.div_pos hle hd
  have hself := Nat.div_le_self n d
  have hmod := Nat.mod_lt n hd
  have hdiv := Nat.div_add_mod' n d
  have hq : u64 (q + 2 ^ 64 - 1) = q - 1 := by
    rw [u64]
    omega
  have hmul : (q - 1) * d ≤ n / d * d := Nat.mul_le_mul_right d (by omega)
  rw [hq, u64, u64, Nat.mod_eq_of_lt (by omega : (q - 1) * d < 2 ^ 64),
    show (n + 2 ^ 64 - (q - 1) * d) % 2 ^ 64 = n - (q - 1) * d by omega]
  obtain rfl | rfl : q = n / d ∨ q = n / d + 1 := by omega
  · have hsub : (n / d - 1) * d = n / d * d - d := by rw [Nat.sub_mul, Nat.one_mul]
    have hone : d ≤ n / d * d := Nat.le_mul_of_pos_left d hpos
    rw [if_neg (by omega)]
  · rw [Nat.add_sub_cancel, if_pos (by omega)]

/-- **The divisor is normalised**: its top bit is at the top of the upper word. -/
theorem normalised {d : ℕ} (hd : d < 2 ^ 64) (hbig : d / 2 ^ 32 ≠ 0) :
    ∃ s k, nlz (d / 2 ^ 32) = s ∧ s + k = 32 ∧ 1 ≤ k ∧ u64 (d * 2 ^ s) / 2 ^ 32 = d / 2 ^ k ∧
      2 ^ 31 ≤ d / 2 ^ k := by
  obtain ⟨hlo, hhi⟩ := nlz_spec (x := d / 2 ^ 32) (by omega) (by omega)
  generalize nlz (d / 2 ^ 32) = s at hlo hhi
  have hs : s < 32 := by
    by_contra h
    have hpow : 2 ^ 32 ≤ 2 ^ s := Nat.pow_le_pow_right (by decide) (by omega)
    have hmul := Nat.le_mul_of_pos_left (2 ^ s) (Nat.pos_of_ne_zero hbig)
    omega
  obtain ⟨k, hk⟩ : ∃ k, s + k = 32 := ⟨32 - s, by omega⟩
  have hpow : 2 ^ 32 = 2 ^ s * 2 ^ k := by rw [← Nat.pow_add, hk]
  have hspos : 0 < 2 ^ s := by positivity
  have hv : d * 2 ^ s / 2 ^ 32 = d / 2 ^ k := by
    rw [hpow, Nat.mul_comm d, Nat.mul_div_mul_left _ _ hspos]
  have hd1 : d / 2 ^ 32 < 2 ^ k := by
    rw [Nat.mul_comm] at hhi
    exact Nat.lt_of_mul_lt_mul_left (hhi.trans_eq hpow)
  have hwide : d * 2 ^ s < 2 ^ 64 := by
    rw [Nat.div_lt_iff_lt_mul (by decide)] at hd1
    calc d * 2 ^ s < 2 ^ k * 2 ^ 32 * 2 ^ s := Nat.mul_lt_mul_of_pos_right hd1 hspos
      _ = 2 ^ 64 := by rw [← Nat.pow_add, ← Nat.pow_add]; congr 1; omega
  refine ⟨s, k, rfl, hk, by omega, by rw [u64, Nat.mod_eq_of_lt hwide, hv], ?_⟩
  rw [← hv, Nat.le_div_iff_mul_le (by decide)]
  calc 2 ^ 31 * 2 ^ 32 ≤ d / 2 ^ 32 * 2 ^ s * 2 ^ 32 := Nat.mul_le_mul_right _ hlo
    _ = d / 2 ^ 32 * 2 ^ 32 * 2 ^ s := Nat.mul_right_comm ..
    _ ≤ d * 2 ^ s := Nat.mul_le_mul_right _ (Nat.div_mul_le_self ..)

lemma udiv64_eq {n d : ℕ} (hn : n < 2 ^ 64) (hd : d < 2 ^ 64) (h0 : d ≠ 0) :
    udiv64 n d = .ok (n / d) := by
  have hpos : 0 < d := by omega
  by_cases hbig : d / 2 ^ 32 = 0
  · have hmod := Nat.mod_lt (n / 2 ^ 32) hpos
    have hsum : 2 ^ 32 * (n / 2 ^ 32 % d) + u32 n < 2 ^ 32 * d := by
      have := u32_lt n
      omega
    have hlt : 2 ^ 32 * d ≤ 2 ^ 64 := by omega
    have hn' : 2 ^ 32 * (n / 2 ^ 32 % d) + u32 n + d * (2 ^ 32 * (n / 2 ^ 32 / d)) = n := by
      have := Nat.mod_add_div (n / 2 ^ 32) d
      have := Nat.mod_add_div n (2 ^ 32)
      rw [u32]
      nlinarith
    have hq : (2 ^ 32 * (n / 2 ^ 32 % d) + u32 n) / d + 2 ^ 32 * (n / 2 ^ 32 / d) = n / d := by
      rw [← Nat.add_mul_div_left _ _ hpos, hn']
    rw [udiv64, if_pos hbig]
    dsimp only
    rw [u64, Nat.mod_eq_of_lt (by omega), divl_eq hpos hsum, ok_bind, hq, u64,
      Nat.mod_eq_of_lt ((Nat.div_le_self n d).trans_lt hn)]
    rfl
  · rw [udiv64, if_neg hbig]
    split_ifs with hlt
    · rw [Nat.div_eq_of_lt hlt]
      rfl
    · obtain ⟨s, k, hs, hk, hk1, hv, hv31⟩ := normalised hd hbig
      have hest := estimate_le (Nat.div_add_mod' d (2 ^ k)).symm (Nat.mod_lt _ (by positivity)) hv31
        hk1 (by omega) hn
      have hk2 : 2 ^ k = 2 * 2 ^ (31 - s) := by rw [← Nat.pow_succ']; congr 1; omega
      have hq : n / 2 / (d / 2 ^ k) / 2 ^ (31 - s) = n / (d / 2 ^ k * 2 ^ k) := by
        rw [Nat.div_div_eq_div_mul, Nat.div_div_eq_div_mul]
        generalize d / 2 ^ k = v
        rw [hk2, Nat.mul_left_comm v]
      dsimp only
      rw [hs, hv, divl_eq (by omega) (by omega), ok_bind, hq]
      exact congrArg Except.ok (corrected_eq hn hpos (by omega) hest.1 hest.2)

lemma umod64_eq {n d : ℕ} (hn : n < 2 ^ 64) (hd : d < 2 ^ 64) (h0 : d ≠ 0) :
    umod64 n d = .ok (u32 (n % d)) := by
  have hmul := Nat.mul_div_le n d
  have hmod := Nat.div_add_mod n d
  rw [umod64, udiv64_eq hn hd h0, ok_bind, pure_eq_ok, u64, u64,
    Nat.mod_eq_of_lt (hmul.trans_lt hn),
    show (n + 2 ^ 64 - d * (n / d)) % 2 ^ 64 = n % d by omega]

/-! ### Signed numbers -/

abbrev IsInt64 (z : ℤ) : Prop := -2 ^ 63 ≤ z ∧ z < 2 ^ 63

lemma abs64_eq {n : ℤ} (h : IsInt64 n) : abs64 n = n.natAbs := by
  obtain ⟨_, _⟩ := h
  rw [abs64, u64, word64]
  split_ifs <;> omega

lemma s64_word64 (z : ℤ) : ∃ t, s64 (word64 z) = z + 2 ^ 64 * t := by
  refine ⟨(s64 (word64 z) - z) / 2 ^ 64, ?_⟩
  rw [s64, word64]
  split_ifs <;> omega

lemma word64_congr (z t : ℤ) : word64 (z + 2 ^ 64 * t) = word64 z := by
  rw [word64, Int.add_mul_emod_self_left, word64]

lemma tdiv_eq : ∀ n d : ℤ, n.tdiv d =
    if n < 0 ↔ d < 0 then ((n.natAbs / d.natAbs : ℕ) : ℤ) else -(n.natAbs / d.natAbs : ℕ)
  | .ofNat a, .ofNat b => (if_pos (iff_of_false (Int.natCast_nonneg a).not_gt
      (Int.natCast_nonneg b).not_gt)).symm
  | .ofNat a, .negSucc b => (if_neg fun h =>
      (Int.natCast_nonneg a).not_gt (h.2 (Int.negSucc_lt_zero b))).symm
  | .negSucc a, .ofNat b => (if_neg fun h =>
      (Int.natCast_nonneg b).not_gt (h.1 (Int.negSucc_lt_zero a))).symm
  | .negSucc a, .negSucc b => (if_pos (iff_of_true (Int.negSucc_lt_zero a)
      (Int.negSucc_lt_zero b))).symm

lemma sdiv64_eq {n d : ℤ} (hn : IsInt64 n) (hd : IsInt64 d) (h0 : d ≠ 0) :
    sdiv64 n d = .ok (s64 (word64 (n.tdiv d))) := by
  obtain ⟨⟨_, _⟩, _, _⟩ := And.intro hn hd
  rw [sdiv64, abs64_eq hn, abs64_eq hd, udiv64_eq (by omega) (by omega) (by omega), ok_bind,
    pure_eq_ok, tdiv_eq]
  have hq := Nat.div_le_self n.natAbs d.natAbs
  generalize n.natAbs / d.natAbs = q at hq
  have hword : word64 q = q := by
    rw [word64]
    omega
  split_ifs
  · rw [hword]
  · obtain ⟨t, ht⟩ := s64_word64 q
    rw [hword] at ht
    rw [ht, show -((q : ℤ) + 2 ^ 64 * t) = -q + 2 ^ 64 * -t by ring, word64_congr]

lemma smod64_eq {n d : ℤ} (hn : IsInt64 n) (hd : IsInt64 d) (h0 : d ≠ 0) :
    smod64 n d = .ok (s32 (u32 (word64 (n.tmod d)))) := by
  obtain ⟨t, ht⟩ := s64_word64 (n.tdiv d)
  have hmod := Int.tmod_def n d
  rw [smod64, sdiv64_eq hn hd h0, ok_bind, pure_eq_ok, ht,
    show n - d * (n.tdiv d + 2 ^ 64 * t) = n.tmod d + 2 ^ 64 * -(d * t) by rw [hmod]; ring,
    word64_congr]

/-- **The quotients are right**, and DIVL does not trap. -/
theorem division_quotients :
    (∀ n d, n < 2 ^ 64 → d < 2 ^ 64 → d ≠ 0 → udivdi3 n d = .ok (n / d)) ∧
      ∀ n d, IsInt64 n → IsInt64 d → d ≠ 0 → divdi3 n d = .ok (s64 (word64 (n.tdiv d))) :=
  ⟨fun _ _ hn hd h0 => udiv64_eq hn hd h0, fun _ _ hn hd h0 => sdiv64_eq hn hd h0⟩

theorem division_quotients_wide : udivdi3 (2 ^ 64 - 1) (2 ^ 32 + 1) = .ok 4294967295 ∧
    divdi3 (-7) 2 = .ok (-3) :=
  ⟨division_quotients.1 _ _ (by decide) (by decide) (by decide),
    division_quotients.2 _ _ (by decide) (by decide) (by decide)⟩

/-- **The remainders are right exactly if they fit in 32 bits**; then they agree with the
quotients. -/
theorem division_remainders {n d : ℕ} {z e : ℤ} (hn : n < 2 ^ 64) (hd : d < 2 ^ 64) (hd0 : d ≠ 0)
    (hz : IsInt64 z) (he : IsInt64 e) (he0 : e ≠ 0) :
    (∃ q r, udivdi3 n d = .ok q ∧ umoddi3 n d = .ok r ∧
        (r = n - d * (n / d) ∧ n = d * q + r ↔ n % d < 2 ^ 32)) ∧
      ∃ q r, divdi3 z e = .ok q ∧ moddi3 z e = .ok r ∧
        (r = z - e * z.tdiv e ∧ word64 z = word64 (e * q + r) ↔
          -2 ^ 31 ≤ z.tmod e ∧ z.tmod e < 2 ^ 31) := by
  constructor
  · refine ⟨_, _, udiv64_eq hn hd hd0, umod64_eq hn hd hd0, ?_⟩
    rw [← Nat.mod_eq_sub]
    refine ⟨fun h => h.1 ▸ u32_lt _, fun hr => ?_⟩
    rw [u32_of_lt hr]
    exact ⟨rfl, (Nat.div_add_mod n d).symm⟩
  · refine ⟨_, _, sdiv64_eq hz he he0, smod64_eq hz he he0, ?_⟩
    rw [← Int.tmod_def]
    constructor
    · rintro ⟨h, _⟩
      rw [s32, u32, word64] at h
      split_ifs at h <;> omega
    · intro hr
      have hfit : s32 (u32 (word64 (z.tmod e))) = z.tmod e := by
        rw [s32, u32, word64]
        split_ifs <;> omega
      obtain ⟨t, ht⟩ := s64_word64 (z.tdiv e)
      rw [hfit, ht, Int.tmod_def, show e * (z.tdiv e + 2 ^ 64 * t) + (z - e * z.tdiv e) =
        z + 2 ^ 64 * (e * t) by ring, word64_congr]
      exact ⟨rfl, rfl⟩

theorem division_remainders_wide : (∃ q r, udivdi3 (2 ^ 40) 1000 = .ok q ∧
    umoddi3 (2 ^ 40) 1000 = .ok r ∧ r = 2 ^ 40 - 1000 * (2 ^ 40 / 1000)) ∧
    ∃ q r, divdi3 (-7) 2 = .ok q ∧ moddi3 (-7) 2 = .ok r ∧ r = -7 - 2 * (-7 : ℤ).tdiv 2 := by
  obtain ⟨⟨q, r, hq, hr, h⟩, q', r', hq', hr', h'⟩ := @division_remainders (2 ^ 40) 1000 (-7) 2
    (by decide) (by decide) (by decide) (by decide) (by decide) (by decide)
  exact ⟨⟨q, r, hq, hr, (h.2 (by decide)).1⟩, q', r', hq', hr', (h'.2 (by decide)).1⟩

/-- **The upper half of a remainder is lost.** -/
theorem remainder_lost :
    umoddi3 (2 ^ 32) (2 ^ 33) = .ok 0 ∧ moddi3 (2 ^ 31) (2 ^ 32) = .ok (-2 ^ 31) := by
  decide

end Pintos.Lib
