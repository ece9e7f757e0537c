/-
# The user pool, a page at a time

`palloc_get_page` and `palloc_free_page` on the user pool, as the frame table uses them.
`Palloc.Used` says that an address is a page of the pool that is taken; taking a page makes one more
address used, freeing it one less.
-/

import Pintos.Threads.PallocSafety

namespace Pintos

open Base

def Palloc.Laid (s : Palloc) : Prop :=
  ∃ kstart kpages ustart upages, (s.pool false).Layout kstart kpages ∧
    (s.pool true).Layout ustart upages ∧ kstart + kpages * PGSIZE ≤ ustart ∧ PHYS_BASE ≤ ustart

def Palloc.Used (s : Palloc) (k : ℕ) : Prop :=
  ∃ i < (s.pool true).usedMap.bitCnt, k = (s.pool true).base + PGSIZE * i ∧
    (s.pool true).usedMap.bit i = true

def pageArea (k : ℕ) : Set ℕ := {x | k ≤ x ∧ x < k + PGSIZE}

namespace Palloc

variable {s s' : Palloc} {k k' : ℕ}

lemma Laid.congr (h : s.Laid) (hpool : ∀ u, s'.pool u = s.pool u) : s'.Laid := by
  obtain ⟨ks, kp, us, up, hk, hu, hku, hbase⟩ := h
  exact ⟨ks, kp, us, up, by rw [hpool]; exact hk, by rw [hpool]; exact hu, hku, hbase⟩

lemma Used.congr (h : s.Used k) (hpool : ∀ u, s'.pool u = s.pool u) : s'.Used k := by
  unfold Used at h ⊢
  rw [hpool]
  exact h

lemma Used.bounds (hl : s.Laid) (h : s.Used k) :
    PHYS_BASE ≤ k ∧ k + PGSIZE ≤ 2 ^ 32 ∧ pgOfs k = 0 := by
  obtain ⟨_, _, _, _, _, hu, _, _⟩ := hl
  obtain ⟨i, hi, rfl, _⟩ := h
  obtain ⟨_, _, _⟩ := hu.page hi
  have hmapped := hu.mapped
  simp only [pgOfs, PGSIZE] at *
  omega

lemma Used.disjoint (h : s.Used k) (h' : s.Used k') (hne : k ≠ k') :
    Disjoint (pageArea k) (pageArea k') := by
  obtain ⟨i, _, rfl, _⟩ := h
  obtain ⟨j, _, rfl, _⟩ := h'
  have hij : i ≠ j := fun hij => hne (by rw [hij])
  rw [Set.disjoint_left]
  rintro x ⟨_, _⟩ ⟨_, _⟩
  simp only [PGSIZE] at *
  omega

end Palloc

variable {s s' : Palloc} {k : ℕ} {flags : PallocFlags}

/-- What taking or freeing the page at `k` changes. -/
structure Palloc.Turns (s s' : Palloc) (k : ℕ) (used : Bool) : Prop where
  laid : s'.Laid
  used : ∀ k', s'.Used k' ↔ if k' = k then used = true else s.Used k'
  mem : ∀ x ∉ pageArea k, s'.mem x = s.mem x

lemma Palloc.Flips.turns {i : ℕ} {v : Bool} (hl : s.Laid)
    (hi : i < (s.pool true).usedMap.bitCnt) (h : s.Flips s' true i 1 v) :
    s.Turns s' ((s.pool true).base + PGSIZE * i) v := by
  obtain ⟨ks, kp, us, up, hk, hu, hku, hbase⟩ := hl
  refine ⟨⟨ks, kp, us, up, h.layout hk, h.layout hu, hku, hbase⟩, fun k' => ?_, fun x hx => ?_⟩
  · unfold Palloc.Used
    rw [h.base, h.bitCnt]
    simp only [h.bit]
    split_ifs with hk'
    · subst hk'
      constructor
      · rintro ⟨j, _, hj, hbit⟩
        obtain rfl : j = i := by simp only [PGSIZE] at hj; omega
        rwa [if_pos ⟨le_rfl, by omega⟩] at hbit
      · intro hv
        exact ⟨i, hi, rfl, by rw [if_pos ⟨le_rfl, by omega⟩]; exact hv⟩
    · refine exists_congr fun j => and_congr_right fun _ => and_congr_right fun hj => ?_
      have hji : ¬ (i ≤ j ∧ j < i + 1) := by
        rintro ⟨_, _⟩
        obtain rfl : j = i := by omega
        exact hk' hj
      rw [if_neg hji]
  · exact h.mem x fun hx' => hx ⟨hx'.1, by omega⟩

/-- **Taking a page** of the user pool finds one that was not taken. -/
theorem pallocGetPage_eq_some (hl : s.Laid)
    (h : pallocGetPage s { flags with PAL_USER := true } = .ok (some k, s')) :
    ¬ s.Used k ∧ s.Turns s' k true := by
  have hl' := hl
  obtain ⟨_, _, _, _, _, hu, _, _⟩ := hl'
  have hspec := pallocGetMultiple_spec { flags with PAL_USER := true } Nat.one_pos hu
  rcases hspec with ⟨i, a, hget, hi, hfree, hf⟩ | ⟨_, hfail⟩
  · rw [pallocGetPage, hget] at h
    obtain ⟨rfl, rfl⟩ : (s.pool true).base + PGSIZE * i = k ∧ a = s' := by simpa using h
    refine ⟨?_, hf.turns hl (Nat.lt_of_succ_le hi)⟩
    rintro ⟨j, _, hj, hbit⟩
    obtain rfl : i = j := by simp only [PGSIZE] at hj; omega
    rw [hfree i le_rfl (by omega)] at hbit
    exact Bool.noConfusion hbit
  · rw [pallocGetPage, hfail] at h
    split_ifs at h
    · cases h
    · cases h

lemma pallocGetPage_eq_none (hl : s.Laid)
    (h : pallocGetPage s { flags with PAL_USER := true } = .ok (none, s')) : s' = s := by
  obtain ⟨_, _, _, _, _, hu, _, _⟩ := hl
  have hspec := pallocGetMultiple_spec { flags with PAL_USER := true } Nat.one_pos hu
  rcases hspec with ⟨i, a, hget, _⟩ | ⟨_, hfail⟩
  · rw [pallocGetPage, hget] at h
    cases h
  · rw [pallocGetPage, hfail] at h
    split_ifs at h
    · cases h
    · cases h
      rfl

def Palloc.Full (s : Palloc) : Prop :=
  ∀ i < (s.pool true).usedMap.bitCnt, (s.pool true).usedMap.bit i = true

instance (s : Palloc) : Decidable s.Full :=
  inferInstanceAs (Decidable (∀ i < (s.pool true).usedMap.bitCnt, _))

theorem pallocGetPage_spec (hl : s.Laid) (flags : PallocFlags) :
    (¬ s.Full ∧ ∃ k s', pallocGetPage s { flags with PAL_USER := true } = .ok (some k, s')) ∨
      (s.Full ∧ pallocGetPage s { flags with PAL_USER := true } =
        if flags.PAL_ASSERT then PANIC "palloc_get: out of pages" else .ok (none, s)) := by
  obtain ⟨_, _, _, _, _, hu, _, _⟩ := hl
  have hspec := pallocGetMultiple_spec { flags with PAL_USER := true } Nat.one_pos hu
  rcases hspec with ⟨i, s', hget, hi, hfree, _⟩ | ⟨hnone, hfail⟩
  · refine .inl ⟨fun hfull => ?_, _, s', hget⟩
    have hbit := hfree i le_rfl (by omega)
    rw [hfull i (Nat.lt_of_succ_le hi)] at hbit
    exact Bool.noConfusion hbit
  · refine .inr ⟨fun i hi => ?_, hfail⟩
    by_contra hbit
    refine hnone i (Nat.succ_le_of_lt hi) fun j hj1 hj2 => ?_
    obtain rfl : j = i := by omega
    exact Bool.not_eq_true _ ▸ hbit

/-- **Freeing a page** that is taken returns, and there is room then. -/
theorem pallocFreePage_spec (hl : s.Laid) (hk : s.Used k) :
    ∃ s', pallocFreePage s k = .ok s' ∧ s.Turns s' k false ∧ ¬ s'.Full := by
  have hl' := hl
  obtain ⟨_, _, _, _, hlk, hlu, hku, _⟩ := hl'
  obtain ⟨i, hi, rfl, hbit⟩ := hk
  have hall : (s.pool true).usedMap.AllBits i 1 true := by
    intro j _ _
    obtain rfl : j = i := by omega
    exact hbit
  obtain ⟨a, hfree, hf⟩ := pallocFreeMultiple_spec hlk hlu hku (by decide) (by omega) hall
  refine ⟨a, hfree, hf.turns hl hi, fun hfull => ?_⟩
  have hbit' := hfull i (by rw [hf.bitCnt]; exact hi)
  rw [hf.bit, if_pos ⟨le_rfl, Nat.lt_succ_self i⟩] at hbit'
  exact Bool.noConfusion hbit'

lemma pallocFreePage_eq_ok (hl : s.Laid) (hk : s.Used k)
    (h : pallocFreePage s k = .ok s') : s.Turns s' k false := by
  obtain ⟨a, hfree, hturn, _⟩ := pallocFreePage_spec hl hk
  rw [hfree] at h
  cases h
  exact hturn

end Pintos
