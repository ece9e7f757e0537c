/-
# What the page allocator hands out

Every state a client can bring the allocator to, by requests and frees of what it holds, satisfies
`Palloc.Safe`: its allocations are disjoint, lie in the data area of their pool, and are exactly the
set bits of the two maps; a request fails only when its pool has no room.

RAM has to be mapped without wrapping: from 1 MB, where free memory starts, to 1 GB, where `ptov`
runs out of addresses.  `threads/start.S` stores between 256 and 16384 pages.
-/

import Mathlib.Order.CompletePartialOrder
import Mathlib.Data.List.Perm.Basic
import Pintos.Threads.Palloc

namespace Pintos

open Base Kernel Set

/-! ### The layout of a pool -/

/-- A pool of `pages` pages from `start`: those of its bitmap, then one for each bit. -/
structure Pool.Layout (p : Pool) (start pages : ℕ) : Prop where
  mapAddr : p.mapAddr = start
  data : ∃ bm, p.base = u32 (start + bm * PGSIZE) ∧ bm + p.usedMap.bitCnt = pages ∧
    bitmapBufSize p.usedMap.bitCnt ≤ bm * PGSIZE
  aligned : start % PGSIZE = 0
  pos : 0 < start
  mapped : start + pages * PGSIZE ≤ 2 ^ 32

variable {pages start i n ram j base : ℕ} {p : Pool} {buf : ℕ → BitVec 32} {name : String}
  {user v : Bool} {s : Palloc} {a b : Allocation}

lemma Pool.Layout.congr {q : Pool} (h : p.Layout start pages) (hbase : q.base = p.base)
    (hmap : q.mapAddr = p.mapAddr) (hcnt : q.usedMap.bitCnt = p.usedMap.bitCnt) :
    q.Layout start pages := by
  obtain ⟨bm, hb, hc, _⟩ := h.data
  exact ⟨hmap.trans h.mapAddr, ⟨bm, hbase.trans hb, by rw [hcnt, hc], by rwa [hcnt]⟩, h.aligned,
    h.pos, h.mapped⟩

def Pool.dataArea (p : Pool) : Set ℕ :=
  {x | p.base ≤ x ∧ x < p.base + PGSIZE * p.usedMap.bitCnt}

/-- The addresses from the bitmap to the data, a distance modulo `2^32`. -/
def Pool.mapArea (p : Pool) : Set ℕ :=
  {x | p.mapAddr ≤ x ∧ x < p.mapAddr + u32 (p.base + 2 ^ 32 - p.mapAddr)}

def Pool.mapBytes (p : Pool) : Set ℕ :=
  {x | p.mapAddr ≤ x ∧ x < p.mapAddr + bitmapBufSize p.usedMap.bitCnt}

section

variable (h : p.Layout start pages)
include h

lemma Pool.Layout.bitCnt_lt : p.usedMap.bitCnt < 2 ^ 20 := by
  obtain ⟨_, _, _, _⟩ := h.data
  have := h.mapped
  have := h.pos
  simp only [PGSIZE] at *
  omega

lemma Pool.Layout.mapArea_eq :
    ∃ bm, bm + p.usedMap.bitCnt = pages ∧ bitmapBufSize p.usedMap.bitCnt ≤ bm * PGSIZE ∧
      p.mapArea = {x | start ≤ x ∧ x < start + bm * PGSIZE} ∧
      (0 < p.usedMap.bitCnt → p.base = start + bm * PGSIZE) := by
  obtain ⟨bm, hbase, hcnt, hbuf⟩ := h.data
  have hmapped := h.mapped
  have hpos := h.pos
  refine ⟨bm, hcnt, hbuf, ?_, fun hc => ?_⟩
  · have hdist : u32 (p.base + 2 ^ 32 - start) = bm * PGSIZE := by
      rw [hbase]
      simp only [u32, PGSIZE] at *
      omega
    rw [Pool.mapArea, h.mapAddr, hdist]
  · rw [hbase, u32_of_lt]
    simp only [PGSIZE] at *
    omega

lemma Pool.Layout.page (hi : i < p.usedMap.bitCnt) :
    start ≤ p.base ∧ p.base + PGSIZE * p.usedMap.bitCnt = start + pages * PGSIZE ∧
      p.base % PGSIZE = 0 := by
  obtain ⟨_, _, _, _, hbase⟩ := h.mapArea_eq
  have := hbase (by omega)
  have := h.aligned
  simp only [PGSIZE] at *
  omega

lemma Pool.Layout.pageFromPool_iff {x : ℕ} : pageFromPool p x = true ↔ x ∈ p.dataArea := by
  have hlt := h.bitCnt_lt
  rw [pageFromPool, decide_eq_true_iff, Pool.dataArea, mem_ofPred_eq]
  by_cases hc : 0 < p.usedMap.bitCnt
  · obtain ⟨_, _, _⟩ := h.page (i := 0) hc
    have hmapped := h.mapped
    simp only [pgNo, u32, PGSIZE] at *
    omega
  · simp only [pgNo, u32, PGSIZE] at *
    omega

lemma Pool.Layout.mapBytes_subset : p.mapBytes ⊆ p.mapArea := by
  obtain ⟨_, _, _, harea, _⟩ := h.mapArea_eq
  rw [harea]
  rintro x ⟨_, _⟩
  have := h.mapAddr
  exact ⟨by omega, by omega⟩

end

/-- **`init_pool` succeeds** when the pages of the bitmap fit; all others are free. -/
theorem initPool_spec (start pages bm : ℕ) (name : String) (buf : ℕ → BitVec 32)
    (hpos : start ≠ 0) (hpages : pages < 2 ^ 20) (hbm : bm = (bitmapBufSize pages + 4095) / 4096)
    (hle : bm ≤ pages) :
    ∃ p, initPool start pages name buf = .ok p ∧ p.mapAddr = start ∧
      p.base = u32 (start + bm * PGSIZE) ∧ bm + p.usedMap.bitCnt = pages ∧
      bitmapBufSize p.usedMap.bitCnt ≤ bm * PGSIZE ∧
      ∀ j < p.usedMap.bitCnt, p.usedMap.bit j = false := by
  have hbuf : bitmapBufSize pages = 8 + 4 * ((pages + 31) / 32) := bitmapBufSize_eq (by omega)
  have hround : DIV_ROUND_UP (bitmapBufSize pages) PGSIZE = bm := by
    rw [DIV_ROUND_UP_of_lt _ _ (by simp only [PGSIZE]; omega), hbm]
    rfl
  have hsub : bitmapBufSize (pages - bm) = 8 + 4 * ((pages - bm + 31) / 32) :=
    bitmapBufSize_eq (by omega)
  have hfits : bitmapBufSize (pages - bm) ≤ bm * PGSIZE := by simp only [PGSIZE]; omega
  have hsize : u32 (bm * PGSIZE) = bm * PGSIZE := u32_of_lt (by simp only [PGSIZE]; omega)
  obtain ⟨map, hmapeq, hcnt, hbit⟩ := bitmapCreateInBuf_spec buf
    (show pages - bm < 2 ^ 32 by omega) (hsize.symm ▸ hfits) hpos
  refine ⟨⟨map, start, u32 (start + bm * PGSIZE)⟩, ?_, rfl, rfl, ?_, ?_, ?_⟩
  · rw [initPool]
    simp only [hround, if_neg (show ¬ bm > pages by omega)]
    rw [hmapeq, ok_bind, hsize, pure_eq_ok]
  · simp only [hcnt]
    omega
  · simp only [hcnt]
    exact hfits
  · simp only [hcnt]
    exact hbit

lemma initPool_fits (hpages : pages < 2 ^ 20) (h : initPool start pages name buf = .ok p) :
    (bitmapBufSize pages + 4095) / 4096 ≤ pages := by
  have hbuf : bitmapBufSize pages = 8 + 4 * ((pages + 31) / 32) := bitmapBufSize_eq (by omega)
  have hround : DIV_ROUND_UP (bitmapBufSize pages) PGSIZE = (bitmapBufSize pages + 4095) / 4096 :=
    DIV_ROUND_UP_of_lt _ 4096 (by omega)
  by_contra hgt
  rw [initPool] at h
  simp only [hround] at h
  rw [if_pos (by omega)] at h
  exact PANIC_ne_ok _ _ h

/-- **`init_pool` lays the pool out**: whole pages become a pool of free pages, if it does not
panic. -/
theorem initPool_layout (hpos : 0 < start) (hal : start % PGSIZE = 0)
    (hmap : start + pages * PGSIZE ≤ 2 ^ 32) (h : initPool start pages name buf = .ok p) :
    p.Layout start pages ∧ ∀ j < p.usedMap.bitCnt, p.usedMap.bit j = false := by
  have hpages : pages < 2 ^ 20 := by simp only [PGSIZE] at *; omega
  obtain ⟨_, hp', hmapAddr, hbase, hcnt, hfits, hbit⟩ :=
    initPool_spec start pages _ name buf hpos.ne' hpages rfl (initPool_fits hpages h)
  obtain rfl := Except.ok.inj (h.symm.trans hp')
  exact ⟨⟨hmapAddr, ⟨_, hbase, hcnt, hfits⟩, hal, hpos, hmap⟩, hbit⟩

/-! ### What a call changes -/

/-- Only the `n` pages from page `i` change hands: their bits become `v`. -/
structure Palloc.Flips (s s' : Palloc) (user : Bool) (i n : ℕ) (v : Bool) : Prop where
  other : s'.pool (!user) = s.pool (!user)
  base : (s'.pool user).base = (s.pool user).base
  mapAddr : (s'.pool user).mapAddr = (s.pool user).mapAddr
  bitCnt : (s'.pool user).usedMap.bitCnt = (s.pool user).usedMap.bitCnt
  bit : ∀ j, (s'.pool user).usedMap.bit j =
    if i ≤ j ∧ j < i + n then v else (s.pool user).usedMap.bit j
  mem : ∀ x, ¬ ((s.pool user).base + PGSIZE * i ≤ x ∧
    x < (s.pool user).base + PGSIZE * i + PGSIZE * n) → s'.mem x = s.mem x

lemma Palloc.Flips.layout {s' : Palloc} {w : Bool} (h : s.Flips s' user i n v)
    (hl : (s.pool w).Layout start pages) : (s'.pool w).Layout start pages := by
  by_cases hw : w = user
  · subst hw
    exact hl.congr h.base h.mapAddr h.bitCnt
  · rw [show w = !user by cases w <;> cases user <;> simp_all] at hl ⊢
    rw [h.other]
    exact hl

lemma pallocGetMultiple_of_scan (s : Palloc) (flags : PallocFlags) {idx : ℕ} {map : Bitmap}
    (hn : n ≠ 0)
    (hscan : bitmapScanAndFlip (s.pool flags.PAL_USER).usedMap 0 n false = .ok (idx, map))
    (hne : idx ≠ BITMAP_ERROR)
    (hpages : u32 ((s.pool flags.PAL_USER).base + u32 (PGSIZE * idx)) = pages) :
    pallocGetMultiple s flags n =
      if pages ≠ 0 then
        .ok (some pages, { s.setMap flags.PAL_USER map with
          mem := if flags.PAL_ZERO then memset s.mem pages 0#8 (u32 (PGSIZE * n)) else s.mem })
      else if flags.PAL_ASSERT then PANIC "palloc_get: out of pages"
      else .ok (none, s.setMap flags.PAL_USER map) := by
  rw [pallocGetMultiple, if_neg hn]
  simp only [hscan, ok_bind, if_pos hne, hpages, Palloc.mem_setMap, pure_eq_ok]

/-- **A request takes the first free group**, or there is none and nothing changes. -/
theorem pallocGetMultiple_spec (flags : PallocFlags) (hn : 0 < n)
    (hl : (s.pool flags.PAL_USER).Layout start pages) :
    (∃ i s', pallocGetMultiple s flags n =
          .ok (some ((s.pool flags.PAL_USER).base + PGSIZE * i), s') ∧
        i + n ≤ (s.pool flags.PAL_USER).usedMap.bitCnt ∧
        (s.pool flags.PAL_USER).usedMap.AllBits i n false ∧
        s.Flips s' flags.PAL_USER i n true) ∨
      ((∀ i, i + n ≤ (s.pool flags.PAL_USER).usedMap.bitCnt →
          ¬ (s.pool flags.PAL_USER).usedMap.AllBits i n false) ∧
        pallocGetMultiple s flags n =
          if flags.PAL_ASSERT then PANIC "palloc_get: out of pages" else .ok (none, s)) := by
  have hlt := hl.bitCnt_lt
  obtain ⟨r, map, hscan, hcnt, ⟨hne, _, hr, hall, _, hbit⟩ | ⟨rfl, rfl, hno⟩⟩ :=
    bitmapScanAndFlip_spec (b := (s.pool flags.PAL_USER).usedMap) 0 n false (by omega)
      (Nat.zero_le _) (.inl hn)
  · obtain ⟨_, _, _⟩ := hl.page (i := r) (by omega)
    have hpos := hl.pos
    have hmapped := hl.mapped
    have haddr : u32 ((s.pool flags.PAL_USER).base + u32 (PGSIZE * r)) =
        (s.pool flags.PAL_USER).base + PGSIZE * r := by
      simp only [u32, PGSIZE] at *
      omega
    have hsize : u32 (PGSIZE * n) = PGSIZE * n := by
      simp only [u32, PGSIZE] at *
      omega
    left
    refine ⟨r, { s.setMap flags.PAL_USER map with
      mem := if flags.PAL_ZERO then
        memset s.mem ((s.pool flags.PAL_USER).base + PGSIZE * r) 0#8 (PGSIZE * n) else s.mem },
      ?_, hr, hall, ?_⟩
    · rw [pallocGetMultiple_of_scan s flags hn.ne' hscan hne haddr, if_pos (by omega), hsize]
    · refine ⟨by simp, by simp, by simp, by simp [hcnt], fun j => ?_, fun x hx => ?_⟩
      · simpa using hbit j
      · split_ifs
        · simp only [memset, if_neg hx]
        · rfl
  · right
    refine ⟨fun i hi => hno i (Nat.zero_le _) hi, ?_⟩
    have hs : s.setMap flags.PAL_USER (s.pool flags.PAL_USER).usedMap = s :=
      Palloc.ext_pool (fun u => by
        rw [Palloc.pool_setMap]
        split_ifs with hu
        · subst hu; rfl
        · rfl) (by simp)
    simp only [pallocGetMultiple, if_neg hn.ne', hscan, ok_bind, hs]
    rfl

section

variable {kstart kpages ustart upages : ℕ} (hk : (s.pool false).Layout kstart kpages)
  (hu : (s.pool true).Layout ustart upages) (hku : kstart + kpages * PGSIZE ≤ ustart)
include hk hu hku

lemma poolOfPage_eq (hi : i < (s.pool user).usedMap.bitCnt) :
    poolOfPage s ((s.pool user).base + PGSIZE * i) = .ok user ∧
      u32 (pgNo ((s.pool user).base + PGSIZE * i) + 2 ^ 32 - pgNo (s.pool user).base) = i ∧
      pgOfs ((s.pool user).base + PGSIZE * i) = 0 ∧ (s.pool user).base + PGSIZE * i ≠ 0 := by
  obtain ⟨start, pages, hl⟩ : ∃ start pages, (s.pool user).Layout start pages := by
    cases user
    · exact ⟨_, _, hk⟩
    · exact ⟨_, _, hu⟩
  have hlt := hl.bitCnt_lt
  obtain ⟨_, _, _⟩ := hl.page hi
  have hpos := hl.pos
  have hmapped := hl.mapped
  refine ⟨?_, ?_, ?_, by omega⟩
  · have hown : pageFromPool (s.pool user) ((s.pool user).base + PGSIZE * i) = true :=
      hl.pageFromPool_iff.2 ⟨by omega, by simp only [PGSIZE] at *; omega⟩
    cases user with
    | false => exact if_pos hown
    | true =>
      -- the kernel pool ends where the user pool starts
      have hnk : ¬ pageFromPool (s.pool false) ((s.pool true).base + PGSIZE * i) = true := by
        intro hc
        obtain ⟨_, _⟩ := hk.pageFromPool_iff.1 hc
        obtain ⟨_, _, _⟩ := hk.page (i := 0) (by simp only [PGSIZE] at *; omega)
        obtain ⟨_, _, _⟩ := hu.page (i := i) (by omega)
        omega
      exact (if_neg hnk).trans (if_pos hown)
  · simp only [pgNo, u32, PGSIZE] at *
    omega
  · simp only [pgOfs, PGSIZE] at *
    omega

/-- **A free returns the group**: just the bits of its pages are cleared. -/
theorem pallocFreeMultiple_spec (hn : 0 < n) (hi : i + n ≤ (s.pool user).usedMap.bitCnt)
    (hall : (s.pool user).usedMap.AllBits i n true) :
    ∃ s', pallocFreeMultiple s ((s.pool user).base + PGSIZE * i) n = .ok s' ∧
      s.Flips s' user i n false := by
  obtain ⟨start, pages, hl⟩ : ∃ start pages, (s.pool user).Layout start pages := by
    cases user
    · exact ⟨_, _, hk⟩
    · exact ⟨_, _, hu⟩
  have hlt := hl.bitCnt_lt
  obtain ⟨_, _, _⟩ := hl.page (i := i) (by omega)
  have hpos := hl.pos
  have hmapped := hl.mapped
  obtain ⟨hfrom, hidx, hofs, _⟩ := poolOfPage_eq hk hu hku (show i <
    (s.pool user).usedMap.bitCnt by omega)
  have hsize : u32 (PGSIZE * n) = PGSIZE * n := by
    simp only [u32, PGSIZE] at *
    omega
  obtain ⟨a, ha, haiff⟩ := bitmapAll_spec (b := (s.pool user).usedMap) i n (by omega) hi
  obtain ⟨map, hmap, hcnt, hbit⟩ :=
    bitmapSetMultiple_spec (b := (s.pool user).usedMap) i n false (by omega) hi
  refine ⟨{ s.setMap user map with
    mem := memset s.mem ((s.pool user).base + PGSIZE * i) 0xcc#8 (PGSIZE * n) }, ?_, ?_⟩
  · have hne : ¬ ((s.pool user).base + PGSIZE * i = 0 ∨ n = 0) := by omega
    rw [pallocFreeMultiple, ASSERT_of hofs, ok_bind, if_neg hne, hfrom, ok_bind]
    simp only [hidx, ha, ok_bind, hsize]
    rw [ASSERT_of (haiff.2 hall), ok_bind, hmap, ok_bind, pure_eq_ok]
  · refine ⟨by simp, by simp, by simp, by simp [hcnt], fun j => ?_, fun x hx => ?_⟩
    · simpa using hbit j
    · simp only [memset, if_neg hx]

end

/-! ### Clients -/

structure Allocation where
  pages : ℕ
  pageCnt : ℕ
  user : Bool
deriving DecidableEq, Repr

def Allocation.area (a : Allocation) : Set ℕ :=
  {x | a.pages ≤ x ∧ x < a.pages + PGSIZE * a.pageCnt}

structure PallocClient where
  alloc : Palloc
  live : List Allocation

/-- A request with any flags and count, or the free of a live allocation. -/
inductive PallocClient.Step : PallocClient → PallocClient → Prop
  | get {s : PallocClient} {flags : PallocFlags} {n : ℕ} {r : Option ℕ} {alloc' : Palloc} :
      pallocGetMultiple s.alloc flags n = .ok (r, alloc') →
      Step s ⟨alloc', (r.map fun pages => ⟨pages, n, flags.PAL_USER⟩).toList ++ s.live⟩
  | free {s : PallocClient} {a : Allocation} {alloc' : Palloc} : a ∈ s.live →
      pallocFreeMultiple s.alloc a.pages a.pageCnt = .ok alloc' →
      Step s ⟨alloc', s.live.erase a⟩

def PallocClient.Reaches : PallocClient → PallocClient → Prop := Relation.ReflTransGen Step

/-- **Page allocator safety** on a machine with `ram` pages. -/
structure PallocClient.Safe (ram : ℕ) (s : PallocClient) : Prop where
  /-- Live allocations do not overlap. -/
  disjoint : s.live.Pairwise fun a b => Disjoint a.area b.area
  /-- They lie in the data area of the pool they were requested from. -/
  inside : ∀ a ∈ s.live, a.area ⊆ (s.alloc.pool a.user).dataArea
  /-- They lie over neither bitmap's pages, not in the other pool, and in RAM above 1 MB. -/
  apart : ∀ a ∈ s.live, Disjoint a.area (s.alloc.pool false).mapArea ∧
    Disjoint a.area (s.alloc.pool true).mapArea ∧
    Disjoint a.area (s.alloc.pool (!a.user)).dataArea ∧
    a.area ⊆ {x | PHYS_BASE + 1024 * 1024 ≤ x ∧ x < PHYS_BASE + ram * PGSIZE}
  /-- Each bitmap is stored in its own pages. -/
  maps : ∀ u, (s.alloc.pool u).mapBytes ⊆ (s.alloc.pool u).mapArea
  /-- A bit is set exactly when its page belongs to a live allocation of the pool. -/
  bit : ∀ u i, i < (s.alloc.pool u).usedMap.bitCnt →
    ((s.alloc.pool u).usedMap.bit i = true ↔
      ∃ a ∈ s.live, a.user = u ∧ (s.alloc.pool u).base + PGSIZE * i ∈ a.area)
  /-- A request fails only when there is no room, and then changes neither map. -/
  null : ∀ flags n alloc', pallocGetMultiple s.alloc flags n = .ok (none, alloc') →
    (n = 0 ∨ ∀ i, i + n ≤ (s.alloc.pool flags.PAL_USER).usedMap.bitCnt →
      ¬ (s.alloc.pool flags.PAL_USER).usedMap.AllBits i n false) ∧
    ∀ u, (alloc'.pool u).usedMap = (s.alloc.pool u).usedMap
  /-- A request without `PAL_ASSERT` and the free of a live allocation return. -/
  total : (∀ flags n, flags.PAL_ASSERT = false → ∃ r, pallocGetMultiple s.alloc flags n = .ok r) ∧
    ∀ a ∈ s.live, ∃ alloc', pallocFreeMultiple s.alloc a.pages a.pageCnt = .ok alloc'

/-! ### The invariant -/

/-- What every call preserves. -/
structure PallocClient.Inv (ram : ℕ) (s : PallocClient) : Prop where
  layout : ∃ kpages upages, 256 + kpages + upages = ram ∧
    (s.alloc.pool false).Layout (PHYS_BASE + 1024 * 1024) kpages ∧
    (s.alloc.pool true).Layout (PHYS_BASE + 1024 * 1024 + kpages * PGSIZE) upages
  placed : ∀ a ∈ s.live, 0 < a.pageCnt ∧ ∃ i, a.pages = (s.alloc.pool a.user).base + PGSIZE * i ∧
    i + a.pageCnt ≤ (s.alloc.pool a.user).usedMap.bitCnt
  disjoint : s.live.Pairwise fun a b => Disjoint a.area b.area
  bit : ∀ u i, i < (s.alloc.pool u).usedMap.bitCnt →
    ((s.alloc.pool u).usedMap.bit i = true ↔
      ∃ a ∈ s.live, a.user = u ∧ (s.alloc.pool u).base + PGSIZE * i ∈ a.area)

lemma Allocation.page_mem_area (ha : a.pages = base + PGSIZE * i) :
    base + PGSIZE * j ∈ a.area ↔ i ≤ j ∧ j < i + a.pageCnt := by
  rw [Allocation.area, ha, mem_ofPred_eq]
  simp only [PGSIZE]
  omega

lemma Allocation.exists_page (ha : a.pages = base + PGSIZE * i) (hb : b.pages = base + PGSIZE * j)
    (h : ¬ Disjoint a.area b.area) :
    ∃ k, base + PGSIZE * k ∈ a.area ∧ base + PGSIZE * k ∈ b.area := by
  obtain ⟨x, ⟨_, _⟩, _, _⟩ := not_disjoint_iff.1 h
  refine ⟨(x - base) / PGSIZE, (page_mem_area ha).2 ⟨?_, ?_⟩, (page_mem_area hb).2 ⟨?_, ?_⟩⟩ <;>
    simp only [PGSIZE] at * <;> omega

namespace PallocClient

variable {ram : ℕ} {s s' : PallocClient} {alloc' : Palloc}

section

variable (h : s.Inv ram)
include h

lemma Inv.inside (ha : a ∈ s.live) : a.area ⊆ (s.alloc.pool a.user).dataArea := by
  obtain ⟨_, i, _, _⟩ := h.placed a ha
  rintro x ⟨_, _⟩
  refine ⟨by omega, ?_⟩
  simp only [PGSIZE] at *
  omega

lemma Inv.dataArea_apart (u : Bool) :
    (∀ v, Disjoint (s.alloc.pool u).dataArea (s.alloc.pool v).mapArea) ∧
      Disjoint (s.alloc.pool u).dataArea (s.alloc.pool (!u)).dataArea ∧
      (s.alloc.pool u).dataArea ⊆
        {x | PHYS_BASE + 1024 * 1024 ≤ x ∧ x < PHYS_BASE + ram * PGSIZE} := by
  obtain ⟨kpages, _, _, hk, hu⟩ := h.layout
  obtain ⟨kbm, _, _, hkmap, hkbase⟩ := hk.mapArea_eq
  obtain ⟨ubm, _, _, humap, hubase⟩ := hu.mapArea_eq
  -- an address of a pool's data lies past the pool's bitmap and before its end
  have hkdata : ∀ x ∈ (s.alloc.pool false).dataArea, PHYS_BASE + 1024 * 1024 + kbm * PGSIZE ≤ x ∧
        x < PHYS_BASE + 1024 * 1024 + kpages * PGSIZE := by
    rintro x ⟨_, _⟩
    have := hkbase (by simp only [PGSIZE] at *; omega)
    simp only [PGSIZE] at *
    omega
  have hudata : ∀ x ∈ (s.alloc.pool true).dataArea,
      PHYS_BASE + 1024 * 1024 + kpages * PGSIZE + ubm * PGSIZE ≤ x ∧
        x < PHYS_BASE + ram * PGSIZE := by
    rintro x ⟨_, _⟩
    have := hubase (by simp only [PGSIZE] at *; omega)
    simp only [PGSIZE] at *
    omega
  have hmaps : ∀ v, (s.alloc.pool v).mapArea = if v then
      {x | PHYS_BASE + 1024 * 1024 + kpages * PGSIZE ≤ x ∧
        x < PHYS_BASE + 1024 * 1024 + kpages * PGSIZE + ubm * PGSIZE}
      else {x | PHYS_BASE + 1024 * 1024 ≤ x ∧ x < PHYS_BASE + 1024 * 1024 + kbm * PGSIZE} := by
    intro v
    cases v
    · exact hkmap
    · exact humap
  refine ⟨fun v => ?_, ?_, fun x hx => ?_⟩
  · rw [disjoint_left]
    intro x hx hx'
    rw [hmaps] at hx'
    cases u <;> cases v
    · have := hkdata x hx
      simp only [Bool.false_eq_true, if_false, mem_ofPred_eq] at hx'
      omega
    · have := hkdata x hx
      simp only [if_true, mem_ofPred_eq] at hx'
      omega
    · have := hudata x hx
      have hkbm : kbm * PGSIZE ≤ kpages * PGSIZE := by simp only [PGSIZE]; omega
      simp only [Bool.false_eq_true, if_false, mem_ofPred_eq] at hx'
      omega
    · have := hudata x hx
      simp only [if_true, mem_ofPred_eq] at hx'
      omega
  · rw [disjoint_left]
    intro x hx hx'
    cases u
    · have := hkdata x hx
      have := hudata x hx'
      omega
    · have := hudata x hx
      have := hkdata x hx'
      omega
  · have hle : 1024 * 1024 + kpages * PGSIZE ≤ ram * PGSIZE := by simp only [PGSIZE]; omega
    cases u
    · have := hkdata x hx
      exact ⟨by omega, by omega⟩
    · have := hudata x hx
      exact ⟨by omega, by omega⟩

lemma Inv.pool_layout (u : Bool) : ∃ start pages, (s.alloc.pool u).Layout start pages := by
  obtain ⟨_, _, _, hk, hu⟩ := h.layout
  cases u
  · exact ⟨_, _, hk⟩
  · exact ⟨_, _, hu⟩

lemma Inv.allBits (ha : a ∈ s.live) (hi : a.pages = (s.alloc.pool a.user).base + PGSIZE * i)
    (hcnt : i + a.pageCnt ≤ (s.alloc.pool a.user).usedMap.bitCnt) :
    (s.alloc.pool a.user).usedMap.AllBits i a.pageCnt true := by
  intro j hj hjn
  exact (h.bit a.user j (by omega)).2 ⟨a, ha, rfl, (Allocation.page_mem_area hi).2 ⟨hj, hjn⟩⟩

lemma Inv.safe : s.Safe ram := by
  refine ⟨h.disjoint, fun a ha => h.inside ha, fun a ha => ?_, fun u => ?_, h.bit, ?_, ?_, ?_⟩
  · obtain ⟨hmaps, hother, hram⟩ := h.dataArea_apart a.user
    have hin := h.inside ha
    exact ⟨(hmaps false).mono_left hin, (hmaps true).mono_left hin, hother.mono_left hin,
      hin.trans hram⟩
  · obtain ⟨_, _, hl⟩ := h.pool_layout u
    exact hl.mapBytes_subset
  · intro flags n alloc' hget
    obtain ⟨_, _, hl⟩ := h.pool_layout flags.PAL_USER
    rcases Nat.eq_zero_or_pos n with rfl | hn
    · obtain rfl : s.alloc = alloc' := by simpa [pallocGetMultiple, pure_eq_ok] using hget
      exact ⟨Or.inl rfl, fun _ => rfl⟩
    · obtain ⟨i, _, hok, _⟩ | ⟨hno, hfail⟩ := pallocGetMultiple_spec flags hn hl
      · rw [hok] at hget
        exact absurd (congrArg Prod.fst (Except.ok.inj hget)) (by simp)
      · rw [hfail] at hget
        split_ifs at hget
        · cases hget
        · obtain rfl : s.alloc = alloc' := congrArg Prod.snd (Except.ok.inj hget)
          exact ⟨Or.inr hno, fun _ => rfl⟩
  · intro flags n hflag
    obtain ⟨_, _, hl⟩ := h.pool_layout flags.PAL_USER
    rcases Nat.eq_zero_or_pos n with rfl | hn
    · exact ⟨(none, s.alloc), rfl⟩
    · obtain ⟨i, _, hok, _⟩ | ⟨_, hfail⟩ := pallocGetMultiple_spec flags hn hl
      · exact ⟨_, hok⟩
      · rw [hfail, hflag]
        exact ⟨_, rfl⟩
  · intro a ha
    obtain ⟨_, _, _, hk, hu⟩ := h.layout
    obtain ⟨hpos, i, hpages, hi⟩ := h.placed a ha
    rw [hpages]
    obtain ⟨s', hs', _⟩ := pallocFreeMultiple_spec hk hu le_rfl hpos hi (h.allBits ha hpages hi)
    exact ⟨s', hs'⟩

lemma Inv.disjoint_of_free (hb : b ∈ s.live)
    (ha : a.pages = (s.alloc.pool a.user).base + PGSIZE * i)
    (hcnt : i + a.pageCnt ≤ (s.alloc.pool a.user).usedMap.bitCnt)
    (hfree : (s.alloc.pool a.user).usedMap.AllBits i a.pageCnt false) : Disjoint a.area b.area := by
  by_cases hu : b.user = a.user
  · obtain ⟨_, j, hbpages, _⟩ := h.placed b hb
    rw [hu] at hbpages
    by_contra hd
    obtain ⟨k, hka, hkb⟩ := Allocation.exists_page ha hbpages hd
    obtain ⟨hk1, hk2⟩ := (Allocation.page_mem_area ha).1 hka
    have hset := (h.bit a.user k (by omega)).2 ⟨b, hb, hu, hkb⟩
    rw [hfree k hk1 hk2] at hset
    exact Bool.noConfusion hset
  · have hin : a.area ⊆ (s.alloc.pool a.user).dataArea := by
      rintro x ⟨_, _⟩
      exact ⟨by omega, by simp only [PGSIZE] at *; omega⟩
    have hother := (h.dataArea_apart a.user).2.1
    rw [show (!a.user) = b.user by cases hb' : b.user <;> cases ha' : a.user <;> simp_all] at hother
    exact hother.mono hin (h.inside hb)

lemma Inv.layout_of_flips (hf : s.alloc.Flips alloc' user i n v) :
    ∃ kpages upages, 256 + kpages + upages = ram ∧
      (alloc'.pool false).Layout (PHYS_BASE + 1024 * 1024) kpages ∧
      (alloc'.pool true).Layout (PHYS_BASE + 1024 * 1024 + kpages * PGSIZE) upages := by
  obtain ⟨kpages, upages, hram, hk, hu⟩ := h.layout
  exact ⟨kpages, upages, hram, hf.layout hk, hf.layout hu⟩

end

lemma pool_of_ne {s1 s2 : Palloc} {w : Bool} (hf : s1.Flips s2 user i n v) (hw : w ≠ user) :
    s2.pool w = s1.pool w := by
  rw [show w = !user by cases w <;> cases user <;> simp_all, hf.other]

lemma base_of_flips {s1 s2 : Palloc} (hf : s1.Flips s2 user i n v) (w : Bool) :
    (s2.pool w).base = (s1.pool w).base ∧
      (s2.pool w).usedMap.bitCnt = (s1.pool w).usedMap.bitCnt := by
  by_cases hw : w = user
  · subst hw
    exact ⟨hf.base, hf.bitCnt⟩
  · rw [pool_of_ne hf hw]
    exact ⟨rfl, rfl⟩

lemma Inv.get (h : s.Inv ram) (hpos : 0 < a.pageCnt)
    (ha : a.pages = (s.alloc.pool a.user).base + PGSIZE * i)
    (hcnt : i + a.pageCnt ≤ (s.alloc.pool a.user).usedMap.bitCnt)
    (hfree : (s.alloc.pool a.user).usedMap.AllBits i a.pageCnt false)
    (hf : s.alloc.Flips alloc' a.user i a.pageCnt true) : Inv ram ⟨alloc', a :: s.live⟩ := by
  refine ⟨h.layout_of_flips hf, fun b hb => ?_, ?_, fun u j hj => ?_⟩
  · rw [(base_of_flips hf b.user).1, (base_of_flips hf b.user).2]
    rcases List.mem_cons.1 hb with rfl | hb
    · exact ⟨hpos, i, ha, hcnt⟩
    · exact h.placed b hb
  · exact List.pairwise_cons.2 ⟨fun b hb => h.disjoint_of_free hb ha hcnt hfree, h.disjoint⟩
  · obtain ⟨hbase, hcnt'⟩ := base_of_flips hf u
    rw [hcnt'] at hj
    simp only [hbase, List.mem_cons, exists_eq_or_imp]
    by_cases hu : u = a.user
    · subst hu
      rw [hf.bit, ← h.bit _ j hj, Allocation.page_mem_area ha]
      split_ifs with hin
      · simp [hin]
      · simp [hin]
    · rw [pool_of_ne hf hu, h.bit u j hj]
      simp [Ne.symm hu]

lemma Inv.free (h : s.Inv ram) (ha : a ∈ s.live)
    (hpages : a.pages = (s.alloc.pool a.user).base + PGSIZE * i)
    (hf : s.alloc.Flips alloc' a.user i a.pageCnt false) : Inv ram ⟨alloc', s.live.erase a⟩ := by
  have hperm := List.perm_cons_erase ha
  have hpair : (a :: s.live.erase a).Pairwise fun a b => Disjoint a.area b.area :=
    (hperm.pairwise_iff fun hd => hd.symm).1 h.disjoint
  obtain ⟨hdis, hrest⟩ := List.pairwise_cons.1 hpair
  refine ⟨h.layout_of_flips hf, fun b hb => ?_, hrest, fun u j hj => ?_⟩
  · rw [(base_of_flips hf b.user).1, (base_of_flips hf b.user).2]
    exact h.placed b (List.mem_of_mem_erase hb)
  · obtain ⟨hbase, hcnt'⟩ := base_of_flips hf u
    rw [hcnt'] at hj
    have hold : (∃ b ∈ s.live, b.user = u ∧ (s.alloc.pool u).base + PGSIZE * j ∈ b.area) ↔
        (a.user = u ∧ (s.alloc.pool u).base + PGSIZE * j ∈ a.area) ∨
          ∃ b ∈ s.live.erase a, b.user = u ∧ (s.alloc.pool u).base + PGSIZE * j ∈ b.area := by
      simp only [hperm.mem_iff, List.mem_cons, exists_eq_or_imp]
    simp only [hbase]
    by_cases hu : u = a.user
    · subst hu
      rw [hf.bit]
      split_ifs with hin
      · -- a page of `a` belongs to no other allocation
        have hina : (s.alloc.pool a.user).base + PGSIZE * j ∈ a.area :=
          (Allocation.page_mem_area hpages).2 hin
        simp only [false_iff, not_exists, not_and]
        exact fun b hb _ hjb => disjoint_left.1 (hdis b hb) hina hjb
      · rw [h.bit _ j hj, hold, Allocation.page_mem_area hpages]
        simp [hin]
    · rw [pool_of_ne hf hu, h.bit u j hj, hold]
      simp [Ne.symm hu]

lemma Inv.step (h : s.Inv ram) (hs : Step s s') : s'.Inv ram := by
  cases hs with
  | @get flags n r alloc' hget =>
    rcases Nat.eq_zero_or_pos n with rfl | hn
    · obtain ⟨rfl, rfl⟩ : none = r ∧ s.alloc = alloc' := by
        simpa [pallocGetMultiple, pure_eq_ok] using hget
      exact h
    · obtain ⟨_, _, hl⟩ := h.pool_layout flags.PAL_USER
      obtain ⟨i, _, hok, hi, hall, hf⟩ | ⟨_, hfail⟩ := pallocGetMultiple_spec flags hn hl
      · rw [hok] at hget
        cases hget
        exact h.get (a := ⟨_, n, flags.PAL_USER⟩) hn rfl hi hall hf
      · rw [hfail] at hget
        split_ifs at hget
        · cases hget
        · cases hget
          exact h
  | @free a alloc' ha hfree =>
    obtain ⟨_, _, _, hk, hu⟩ := h.layout
    obtain ⟨hpos, i, hpages, hi⟩ := h.placed a ha
    obtain ⟨_, hs', hf⟩ := pallocFreeMultiple_spec hk hu le_rfl hpos hi (h.allBits ha hpages hi)
    rw [hpages, hs'] at hfree
    cases hfree
    exact h.free ha hpages hf

lemma Inv.reaches (h : s.Inv ram) (hr : s.Reaches s') : s'.Inv ram := by
  induction hr with
  | refl => exact h
  | tail _ hs ih => exact ih.step hs

end PallocClient

/-! ### From `palloc_init` on -/

lemma freePages_eq (h1 : 256 ≤ ram) (h2 : ram ≤ 2 ^ 18) :
    wordOf ((ptrDiff (u32 (ram * PGSIZE + PHYS_BASE)) (u32 (1024 * 1024 + PHYS_BASE))).tdiv
      PGSIZE) = ram - 256 := by
  have hword : u32 (u32 (ram * PGSIZE + PHYS_BASE) + 2 ^ 32 - u32 (1024 * 1024 + PHYS_BASE)) =
      (ram - 256) * 4096 := by
    simp only [u32, PGSIZE, PHYS_BASE]
    omega
  have hdiff : ptrDiff (u32 (ram * PGSIZE + PHYS_BASE)) (u32 (1024 * 1024 + PHYS_BASE)) =
      ((ram - 256 : ℕ) : ℤ) * 4096 := by
    rw [ptrDiff, hword, s32, if_pos (by omega)]
    push_cast
    rfl
  rw [hdiff, show ((PGSIZE : ℕ) : ℤ) = 4096 from rfl, Int.mul_tdiv_cancel _ (by norm_num), wordOf]
  omega

/-- **`palloc_init` establishes the invariant**, with nothing allocated. -/
theorem pallocInit_inv {limit : ℕ} {mem : Memory} {kbuf ubuf : ℕ → BitVec 32} {p : Palloc}
    (h1 : 256 ≤ ram) (h2 : ram ≤ 2 ^ 18) (h : pallocInit ram limit mem kbuf ubuf = .ok p) :
    PallocClient.Inv ram ⟨p, []⟩ := by
  have hram : u32 (ram * PGSIZE) = ram * PGSIZE := u32_of_lt (by simp only [PGSIZE]; omega)
  have hstart : u32 (1024 * 1024 + PHYS_BASE) = PHYS_BASE + 1024 * 1024 := by decide
  rw [pallocInit, ptov, ASSERT_of (by decide), ok_bind, pure_eq_ok, ok_bind,
    ptov, hram, ASSERT_of (by simp only [PGSIZE, PHYS_BASE]; omega), ok_bind,
    pure_eq_ok, ok_bind] at h
  simp only [freePages_eq h1 h2] at h
  generalize hu : (if (ram - 256) / 2 > limit then limit else (ram - 256) / 2) = upages at h
  have hule : upages ≤ (ram - 256) / 2 := by split_ifs at hu <;> omega
  obtain ⟨kp, hkp, h⟩ := bind_eq_ok.1 h
  obtain ⟨up, hup, h⟩ := bind_eq_ok.1 h
  cases h
  have hufits := initPool_fits (by omega) hup
  have hupos : 0 < upages := by
    have := bitmapBufSize_eq (n := upages) (by omega)
    omega
  have hustart : u32 (u32 (1024 * 1024 + PHYS_BASE) + u32 ((ram - 256 - upages) * PGSIZE)) =
      PHYS_BASE + 1024 * 1024 + (ram - 256 - upages) * PGSIZE := by
    simp only [u32, PGSIZE, PHYS_BASE]
    omega
  rw [hustart] at hup
  rw [hstart] at hkp
  obtain ⟨hkl, hkbit⟩ := initPool_layout (by decide) (by decide)
    (by simp only [PGSIZE, PHYS_BASE]; omega) hkp
  obtain ⟨hul, hubit⟩ := initPool_layout (by omega) (by simp only [PGSIZE, PHYS_BASE]; omega)
    (by simp only [PGSIZE, PHYS_BASE]; omega) hup
  refine ⟨⟨ram - 256 - upages, upages, by omega, hkl, hul⟩, by simp, by simp, fun u i hi => ?_⟩
  have hfalse : (Palloc.pool ⟨kp, up, mem⟩ u).usedMap.bit i = false := by
    cases u
    · exact hkbit i hi
    · exact hubit i hi
  simp [hfalse]

/-- **The page allocator is safe**, with 1 MB to 1 GB of RAM, after any requests and frees. -/
theorem palloc_safe {ram limit : ℕ} {mem : Memory} {kbuf ubuf : ℕ → BitVec 32} {p : Palloc}
    {s : PallocClient} (h₁ : 256 ≤ ram) (h₂ : ram ≤ 2 ^ 18)
    (h : pallocInit ram limit mem kbuf ubuf = .ok p) (hr : PallocClient.Reaches ⟨p, []⟩ s) :
    s.Safe ram :=
  ((pallocInit_inv h₁ h₂ h).reaches hr).safe

theorem palloc_safe_264 : ∃ p s, pallocInit 264 4 (fun _ => 0) (fun _ => 0) (fun _ => 0) = .ok p ∧
    PallocClient.Reaches ⟨p, []⟩ s ∧ s.live = [⟨0xc0105000, 1, true⟩] ∧ s.Safe 264 := by
  obtain ⟨p, alloc', hp, hget⟩ : ∃ p alloc',
      pallocInit 264 4 (fun _ => 0) (fun _ => 0) (fun _ => 0) = .ok p ∧
        pallocGetMultiple p ⟨false, false, true⟩ 1 = .ok (some 0xc0105000, alloc') :=
    ⟨_, _, rfl, rfl⟩
  have hstep : PallocClient.Step ⟨p, []⟩ _ := .get hget
  exact ⟨p, _, hp, .single hstep, rfl, palloc_safe (by decide) (by decide) hp (.single hstep)⟩

/-- **Past 1 GB the allocator is not safe**: a page of the kernel pool has address `0`. -/
theorem pallocInit_past_one_gigabyte : ∃ p s,
    pallocInit 262146 1 (fun _ => 0) (fun _ => 0) (fun _ => 0) = .ok p ∧
      PallocClient.Reaches ⟨p, []⟩ s ∧ ¬ s.Safe 262146 := by
  obtain ⟨kp, hkp, _, hkbase, _, _, hkbit⟩ := initPool_spec 0xc0100000 261889 8 "kernel pool"
    (fun _ => 0) (by decide) (by decide) (by decide) (by decide)
  obtain ⟨up, hup, _⟩ := initPool_spec 0x1000 1 1 "user pool" (fun _ => 0) (by decide) (by decide)
    (by decide) (by decide)
  have hbase : kp.base = 0xc0108000 := hkbase
  have hcnt : kp.usedMap.bitCnt = 261881 := by omega
  have hinit : pallocInit 262146 1 (fun _ => 0) (fun _ => 0) (fun _ => 0) =
      .ok ⟨kp, up, fun _ => 0⟩ := by
    rw [pallocInit, ptov, ASSERT_of (by decide), ok_bind, pure_eq_ok, ok_bind,
      ptov, ASSERT_of (by decide), ok_bind, pure_eq_ok, ok_bind]
    exact bind_eq_ok.2 ⟨kp, hkp, bind_eq_ok.2 ⟨up, hup, rfl⟩⟩
  -- all pages but the last are handed out from index 0
  obtain ⟨r, map, hscan, _, ⟨hne, _, _, _, hleast, hbit⟩ | ⟨_, _, hno⟩⟩ :=
    bitmapScanAndFlip_spec (b := kp.usedMap) 0 261880 false (by omega) (by omega) (by omega)
  swap
  · exact absurd (fun j _ hj => hkbit j (by omega)) (hno 0 le_rfl (by omega))
  obtain rfl : r = 0 := by
    by_contra hr0
    exact hleast 0 le_rfl (by omega) fun j _ hj => hkbit j (by omega)
  have hget := pallocGetMultiple_of_scan ⟨kp, up, fun _ => 0⟩ {} (by decide) hscan hne
    (show u32 (kp.base + u32 (PGSIZE * 0)) = 0xc0108000 by rw [hbase]; rfl)
  rw [if_pos (by decide)] at hget
  have hstep : PallocClient.Step ⟨⟨kp, up, fun _ => 0⟩, []⟩ _ := .get hget
  refine ⟨_, _, hinit, .single hstep, fun hsafe => ?_⟩
  -- the one free page left is the one at address 0
  obtain ⟨r, _, hscan', _, ⟨hne', _, _, hfree, _, _⟩ | ⟨_, _, hno⟩⟩ :=
    bitmapScanAndFlip_spec (b := map) 0 1 false (by omega) (by omega) (by omega)
  swap
  · refine absurd (fun j hj1 hj2 => ?_) (hno 261880 (by omega) (by omega))
    rw [hbit, if_neg (by omega), hkbit j (by omega)]
  obtain rfl : r = 261880 := by
    have := hfree r le_rfl (by omega)
    rw [hbit] at this
    by_contra hne
    rw [if_pos (by omega)] at this
    exact Bool.noConfusion this
  have hnull := pallocGetMultiple_of_scan ⟨{ kp with usedMap := map }, up, fun _ => 0⟩ {}
    (by decide) hscan' hne'
    (show u32 (kp.base + u32 (PGSIZE * 261880)) = 0 by rw [hbase]; rfl)
  rcases (hsafe.null _ _ _ hnull).1 with h0 | hno
  · exact absurd h0 (by decide)
  · exact hno 261880 (show 261880 + 1 ≤ map.bitCnt by omega) hfree

end Pintos
