/-
# The heap invariant

`Heap.Core` is what every part of `malloc` and `free` keeps: headers are intact, a free list holds
the blocks of the arenas of its descriptor that are not live, each once, and `free_cnt` counts those
of its arena.  Between calls every arena has a live block (`Heap.Held`): `malloc` takes a block of
an arena that it creates, and `free` returns an arena with its last block.
-/

import Mathlib.Data.List.Nodup
import Pintos.Base.Run
import Pintos.Threads.Malloc

namespace Pintos

open Base Function Kernel
open List hiding Disjoint

/-! ### The blocks of an arena -/

structure Desc.Fits (d : Desc) : Prop where
  pos : 0 < d.blockSize
  nonempty : 0 < d.blocksPerArena
  room : ARENA_SIZE + d.blocksPerArena * d.blockSize ≤ PGSIZE

namespace Desc

def block (d : Desc) (a j : ℕ) : ℕ := a + ARENA_SIZE + j * d.blockSize

def blocks (d : Desc) (a : ℕ) : List ℕ := (List.range d.blocksPerArena).map (d.block a)

variable {d : Desc} {a j k : ℕ}

lemma mem_blocks {b : ℕ} : b ∈ d.blocks a ↔ ∃ j < d.blocksPerArena, b = d.block a j := by
  rw [blocks, mem_map]
  constructor
  · rintro ⟨j, hj, rfl⟩
    exact ⟨j, mem_range.1 hj, rfl⟩
  · rintro ⟨j, hj, rfl⟩
    exact ⟨j, mem_range.2 hj, rfl⟩

lemma length_blocks : (d.blocks a).length = d.blocksPerArena := by
  rw [blocks, length_map, length_range]

lemma Fits.block_le (hd : d.Fits) (hj : j < d.blocksPerArena) :
    d.block a j + d.blockSize ≤ a + PGSIZE := by
  have hmul : (j + 1) * d.blockSize ≤ d.blocksPerArena * d.blockSize := Nat.mul_le_mul_right _ hj
  have hroom := hd.room
  rw [Nat.succ_mul] at hmul
  unfold block
  omega

lemma Fits.pgOfs_block (hd : d.Fits) (ha : pgOfs a = 0) (hj : j < d.blocksPerArena) :
    pgOfs (d.block a j) = ARENA_SIZE + j * d.blockSize := by
  have hle := hd.block_le (a := a) hj
  have hpos := hd.pos
  unfold pgOfs block PGSIZE at *
  omega

lemma Fits.pgRoundDown_block (hd : d.Fits) (ha : pgOfs a = 0) (hj : j < d.blocksPerArena) :
    pgRoundDown (d.block a j) = a := by
  rw [pgRoundDown, hd.pgOfs_block ha hj]
  unfold block
  omega

lemma Fits.block_inj (hd : d.Fits) (h : d.block a j = d.block a k) : j = k := by
  have hmul : j * d.blockSize = k * d.blockSize := by
    unfold block at h
    omega
  exact Nat.eq_of_mul_eq_mul_right hd.pos hmul

lemma Fits.nodup_blocks (hd : d.Fits) : (d.blocks a).Nodup :=
  List.Nodup.map (fun _ _ h => hd.block_inj h) nodup_range

lemma disjoint_blocks (hne : j ≠ k) : Disjoint (Set.Ico (d.block a j) (d.block a j + d.blockSize))
      (Set.Ico (d.block a k) (d.block a k + d.blockSize)) := by
  have hlt : ∀ {j k : ℕ}, j < k → d.block a j + d.blockSize ≤ d.block a k := by
    intro j k hjk
    have hmul : (j + 1) * d.blockSize ≤ k * d.blockSize := Nat.mul_le_mul_right _ hjk
    rw [Nat.succ_mul] at hmul
    unfold block
    omega
  rw [Set.disjoint_left]
  rintro x ⟨_, _⟩ ⟨_, _⟩
  rcases Nat.lt_or_gt_of_ne hne with h | h
  · have := hlt h
    omega
  · have := hlt h
    omega

end Desc

/-! ### Pages -/

structure Paged (pages : List Allocation) : Prop where
  aligned : ∀ a ∈ pages, pgOfs a.pages = 0
  pos : ∀ a ∈ pages, 0 < a.pages ∧ 0 < a.pageCnt
  bound : ∀ a ∈ pages, a.pages + PGSIZE * a.pageCnt ≤ 2 ^ 32
  disjoint : pages.Pairwise fun a b => Disjoint a.area b.area

variable {others : List Allocation} {p : ℕ × ℕ} {descs : List Desc}

namespace Paged

variable {pages : List Allocation} {a b : Allocation} {x : ℕ}

lemma of_holds {A : PageAllocator} {s : A.State} (h : A.Holds s pages) : Paged pages where
  aligned a ha := (A.placed h a ha).1
  pos a ha := ⟨(A.placed h a ha).2.1, (A.placed h a ha).2.2.1⟩
  bound a ha := (A.placed h a ha).2.2.2
  disjoint := A.disjoint h

lemma of_append (h : Paged (pages ++ others)) : Paged pages where
  aligned a ha := h.aligned a (mem_append_left _ ha)
  pos a ha := h.pos a (mem_append_left _ ha)
  bound a ha := h.bound a (mem_append_left _ ha)
  disjoint := (pairwise_append.1 h.disjoint).1

lemma eq_of_mem (h : Paged pages) (ha : a ∈ pages) (hb : b ∈ pages) (hxa : x ∈ a.area)
    (hxb : x ∈ b.area) : a = b := by
  by_contra hne
  have : Std.Symm fun a b : Allocation => Disjoint a.area b.area := ⟨fun _ _ h => h.symm⟩
  have hdis := h.disjoint.forall ha hb hne
  exact Set.disjoint_left.1 hdis hxa hxb

lemma mem_area (h : Paged pages) (ha : a ∈ pages) (hx : x < PGSIZE) : a.pages + x ∈ a.area := by
  have hpos := (h.pos a ha).2
  unfold PGSIZE at hx
  refine ⟨by omega, ?_⟩
  unfold PGSIZE
  omega

lemma eq_of_pages (h : Paged pages) (ha : a ∈ pages) (hb : b ∈ pages) (heq : a.pages = b.pages) :
    a = b :=
  h.eq_of_mem ha hb (h.mem_area (x := 0) ha (by decide)) (heq ▸ h.mem_area (x := 0) hb (by decide))

lemma nodup (h : Paged pages) : pages.Nodup := by
  refine h.disjoint.imp_of_mem fun {a b} ha _ hdis heq => ?_
  have hmem := h.mem_area (x := 0) ha (by decide)
  exact Set.disjoint_left.1 hdis hmem (heq ▸ hmem)

lemma ne_of_cons (h : Paged (a :: pages)) (hb : b ∈ pages) : b.pages ≠ a.pages := by
  intro heq
  obtain rfl := h.eq_of_pages (mem_cons_of_mem _ hb) mem_cons_self heq
  exact (nodup_cons.1 h.nodup).1 hb

lemma erase (h : Paged pages) (a : Allocation) : Paged (pages.erase a) where
  aligned b hb := h.aligned b (mem_of_mem_erase hb)
  pos b hb := h.pos b (mem_of_mem_erase hb)
  bound b hb := h.bound b (mem_of_mem_erase hb)
  disjoint := h.disjoint.sublist erase_sublist

lemma mem_erase (h : Paged pages) : b ∈ pages.erase a ↔ b ≠ a ∧ b ∈ pages := h.nodup.mem_erase_iff

end Paged

namespace Heap

variable {A : PageAllocator} {l : List ℕ} {c : Allocation}

def IsBlock (h : Heap A) (i : ℕ) (d : Desc) (b : ℕ) : Prop :=
  ∃ a ∈ h.pages, (h.arena a.pages).desc = some i ∧ ∃ j < d.blocksPerArena, b = d.block a.pages j

inductive IsLive (h : Heap A) (p : ℕ × ℕ) : Prop
  | big (a : Allocation) (mem : a ∈ h.pages) (desc : (h.arena a.pages).desc = none)
      (addr : p.1 = a.pages + ARENA_SIZE) (size : p.2 + ARENA_SIZE ≤ PGSIZE * a.pageCnt)
  | small (a : Allocation) (i : ℕ) (d : Desc) (j : ℕ) (mem : a ∈ h.pages)
      (desc : (h.arena a.pages).desc = some i) (get : h.descs[i]? = some d)
      (idx : j < d.blocksPerArena) (addr : p.1 = d.block a.pages j) (size : p.2 ≤ d.blockSize)

/-- **The heap invariant**, for the live blocks and the sizes that were asked for. -/
structure Core (h : Heap A) (live : List (ℕ × ℕ)) : Prop where
  paged : Paged h.pages
  kernel : ∀ a ∈ h.pages, a.user = false
  fits : ∀ d ∈ h.descs, d.Fits
  magic : ∀ a ∈ h.pages, (h.arena a.pages).magic = ARENA_MAGIC
  big : ∀ a ∈ h.pages, (h.arena a.pages).desc = none → (h.arena a.pages).freeCnt = a.pageCnt
  small : ∀ a ∈ h.pages, ∀ i, (h.arena a.pages).desc = some i → a.pageCnt = 1 ∧
    ∃ d, h.descs[i]? = some d ∧
      (h.arena a.pages).freeCnt = d.freeList.countP (pgRoundDown · = a.pages)
  nodup : ∀ (i : ℕ) (d : Desc), h.descs[i]? = some d → d.freeList.Nodup
  free : ∀ (i : ℕ) (d : Desc), h.descs[i]? = some d → ∀ b, b ∈ d.freeList ↔
    h.IsBlock i d b ∧ b ∉ live.map Prod.fst
  alive : ∀ p ∈ live, h.IsLive p
  distinct : (live.map Prod.fst).Nodup

def Held (h : Heap A) (live : List (ℕ × ℕ)) : Prop :=
  ∀ a ∈ h.pages, ∃ p ∈ live, pgRoundDown p.1 = a.pages

namespace Core

variable {h h' : Heap A} {live : List (ℕ × ℕ)} {a : Allocation} {d e : Desc} {i j size k : ℕ}
  {P : Allocation → Arena → Prop}

lemma getDesc (hd : h.descs[i]? = some d) : h.getDesc i = .ok d := by
  unfold Heap.getDesc
  rw [hd]
  rfl

lemma fits_of_get (hs : h.Core live) (hd : h.descs[i]? = some d) : d.Fits :=
  hs.fits d (mem_of_getElem? hd)

/-! ### Headers and blocks -/

lemma blockToArena_eq {a : ℕ} (hd : d.Fits) (hal : pgOfs a = 0) (hpos : 0 < a)
    (hmagic : (h.arena a).magic = ARENA_MAGIC) (hdesc : (h.arena a).desc = some i)
    (hget : h.descs[i]? = some e) (hsize : e.blockSize = d.blockSize) (hj : j < d.blocksPerArena) :
    h.blockToArena (d.block a j) = .ok a := by
  have hofs : u32 (pgOfs (d.block a j) + 2 ^ 32 - ARENA_SIZE) = j * d.blockSize := by
    have hle := hd.block_le (a := a) hj
    rw [hd.pgOfs_block hal hj]
    unfold Desc.block PGSIZE at hle
    unfold u32
    omega
  simp only [blockToArena, hd.pgRoundDown_block hal hj, hdesc, getDesc hget, ok_bind, hofs, hsize]
  rw [ASSERT_of hpos.ne', ok_bind, ASSERT_of hmagic, ok_bind,
    ASSERT_of (Nat.mul_mod_left ..), ok_bind]
  rfl

lemma blockToArena_block (hs : h.Core live) (ha : a ∈ h.pages)
    (hdesc : (h.arena a.pages).desc = some i) (hd : h.descs[i]? = some d)
    (hj : j < d.blocksPerArena) : h.blockToArena (d.block a.pages j) = .ok a.pages :=
  blockToArena_eq (hs.fits_of_get hd) (hs.paged.aligned a ha) (hs.paged.pos a ha).1 (hs.magic a ha)
    hdesc hd rfl hj

lemma pgRoundDown_big (hs : h.Core live) (ha : a ∈ h.pages) :
    pgRoundDown (a.pages + ARENA_SIZE) = a.pages ∧ pgOfs (a.pages + ARENA_SIZE) = ARENA_SIZE := by
  have hal := hs.paged.aligned a ha
  unfold pgRoundDown pgOfs PGSIZE ARENA_SIZE at *
  omega

lemma blockToArena_big (hs : h.Core live) (ha : a ∈ h.pages)
    (hdesc : (h.arena a.pages).desc = none) :
    h.blockToArena (a.pages + ARENA_SIZE) = .ok a.pages := by
  obtain ⟨hround, hofs⟩ := hs.pgRoundDown_big ha
  simp only [blockToArena, hround, hdesc]
  rw [ASSERT_of (hs.paged.pos a ha).1.ne', ok_bind, ASSERT_of (hs.magic a ha),
    ok_bind, ASSERT_of hofs, ok_bind]
  rfl

lemma arenaToBlock_eq {a : ℕ} (hd : d.Fits) (ha : 0 < a) (hbound : a + PGSIZE ≤ 2 ^ 32)
    (hmagic : (h.arena a).magic = ARENA_MAGIC) (hdesc : (h.arena a).desc = some i)
    (hget : h.getDesc i = .ok d) (hj : j < d.blocksPerArena) :
    h.arenaToBlock a j = .ok (d.block a j) := by
  have hle := hd.block_le (a := a) hj
  have hpos := hd.pos
  have haddr : u32 (a + ARENA_SIZE + u32 (j * d.blockSize)) = d.block a j := by
    unfold Desc.block at *
    rw [u32_of_lt (n := j * d.blockSize) (by omega), u32_of_lt (by omega)]
  simp only [arenaToBlock, hdesc, hget, ok_bind]
  rw [ASSERT_of ha.ne', ok_bind, ASSERT_of hmagic, ok_bind, ASSERT_of hj, ok_bind, haddr]
  rfl

lemma round_block (hs : h.Core live) (ha : a ∈ h.pages) (hd : h.descs[i]? = some d)
    (hj : j < d.blocksPerArena) : pgRoundDown (d.block a.pages j) = a.pages :=
  (hs.fits_of_get hd).pgRoundDown_block (hs.paged.aligned a ha) hj

lemma round_of_live (hs : h.Core live) (hp : p ∈ live) :
    ∃ a ∈ h.pages, pgRoundDown p.1 = a.pages := by
  cases hs.alive p hp with
  | big a mem _ addr => exact ⟨a, mem, by rw [addr, (hs.pgRoundDown_big mem).1]⟩
  | small a i d j mem _ get idx addr =>
    exact ⟨a, mem, by rw [addr, hs.round_block mem get idx]⟩

lemma live_of_round (hs : h.Core live) (hp : p ∈ live) (ha : a ∈ h.pages)
    (hround : pgRoundDown p.1 = a.pages) :
    ((h.arena a.pages).desc = none ∧ p.1 = a.pages + ARENA_SIZE) ∨
      ∃ i d j, (h.arena a.pages).desc = some i ∧ h.descs[i]? = some d ∧ j < d.blocksPerArena ∧
        p.1 = d.block a.pages j := by
  cases hs.alive p hp with
  | big c mem desc addr =>
    rw [addr, (hs.pgRoundDown_big mem).1] at hround
    obtain rfl := hs.paged.eq_of_pages mem ha hround
    exact .inl ⟨desc, addr⟩
  | small c i d j mem desc get idx addr =>
    rw [addr, hs.round_block mem get idx] at hround
    obtain rfl := hs.paged.eq_of_pages mem ha hround
    exact .inr ⟨i, d, j, desc, get, idx, addr⟩

lemma round_of_isBlock (hs : h.Core live) (hd : h.descs[i]? = some d) {b : ℕ}
    (hb : h.IsBlock i d b) : ∃ a ∈ h.pages, (h.arena a.pages).desc = some i ∧
      pgRoundDown b = a.pages := by
  obtain ⟨a, ha, hdesc, j, hj, rfl⟩ := hb
  exact ⟨a, ha, hdesc, hs.round_block ha hd hj⟩

lemma freeCnt_eq (hs : h.Core live) (ha : a ∈ h.pages) (hdesc : (h.arena a.pages).desc = some i)
    (hd : h.descs[i]? = some d) :
    (h.arena a.pages).freeCnt = d.freeList.countP (pgRoundDown · = a.pages) := by
  obtain ⟨_, e, he, hfreeCnt⟩ := hs.small a ha i hdesc
  obtain rfl := Option.mem_unique hd he
  exact hfreeCnt

/-! ### Changes -/

lemma isLive_keep (hs : h.Core live) (hp : h.IsLive p)
    (hkeep : ∀ c ∈ h.pages, pgRoundDown p.1 = c.pages →
      c ∈ h'.pages ∧ (h'.arena c.pages).desc = (h.arena c.pages).desc)
    (hdescs : ∀ (k : ℕ) (e : Desc), h.descs[k]? = some e → ∃ e', h'.descs[k]? = some e' ∧
      e'.blockSize = e.blockSize ∧ e'.blocksPerArena = e.blocksPerArena) : h'.IsLive p := by
  cases hp with
  | big c mem desc addr size =>
    obtain ⟨hc, hdesc⟩ := hkeep c mem (addr ▸ (hs.pgRoundDown_big mem).1)
    exact .big c hc (hdesc.trans desc) addr size
  | small c k e j mem desc get idx addr size =>
    obtain ⟨hc, hdesc⟩ := hkeep c mem (addr ▸ hs.round_block mem get idx)
    obtain ⟨e', hget, hsize, hcnt⟩ := hdescs k e get
    refine .small c k e' j hc (hdesc.trans desc) hget (hcnt ▸ idx) ?_ (hsize ▸ size)
    rw [addr, Desc.block, Desc.block, hsize]

lemma congr (hs : h.Core live) (hpages : h'.pages = h.pages) (hdescs : h'.descs = h.descs)
    (harena : ∀ a ∈ h.pages, h'.arena a.pages = h.arena a.pages) : h'.Core live where
  paged := by rw [hpages]; exact hs.paged
  kernel := by rw [hpages]; exact hs.kernel
  fits := by rw [hdescs]; exact hs.fits
  magic a ha := by
    rw [hpages] at ha
    rw [harena a ha]
    exact hs.magic a ha
  big a ha := by
    rw [hpages] at ha
    rw [harena a ha]
    exact hs.big a ha
  small a ha := by
    rw [hpages] at ha
    rw [harena a ha, hdescs]
    exact hs.small a ha
  nodup := by rw [hdescs]; exact hs.nodup
  free i d hd b := by
    rw [hdescs] at hd
    rw [hs.free i d hd b]
    refine and_congr_left fun _ => ?_
    unfold IsBlock
    rw [hpages]
    refine exists_congr fun a => and_congr_right fun ha => ?_
    rw [harena a ha]
  alive p hp := hs.isLive_keep (hs.alive p hp) (fun c hc _ => ⟨hpages ▸ hc, by rw [harena c hc]⟩)
    fun _ e he => ⟨e, hdescs ▸ he, rfl, rfl⟩
  distinct := hs.distinct

section Add

variable {d' : Desc}

lemma isBlock_cons (hpages : h'.pages = a :: h.pages)
    (harena : ∀ b ∈ h.pages, h'.arena b.pages = h.arena b.pages) {b : ℕ} :
    h'.IsBlock i d b ↔ ((h'.arena a.pages).desc = some i ∧
      ∃ j < d.blocksPerArena, b = d.block a.pages j) ∨ h.IsBlock i d b := by
  unfold IsBlock
  rw [hpages]
  simp only [mem_cons, exists_eq_or_imp]
  refine or_congr_right (exists_congr fun a => and_congr_right fun ha => ?_)
  rw [harena a ha]

lemma headers_cons (hpages : h'.pages = a :: h.pages)
    (harena : ∀ b ∈ h.pages, h'.arena b.pages = h.arena b.pages) (hnew : P a (h'.arena a.pages))
    (hold : ∀ b ∈ h.pages, P b (h.arena b.pages)) : ∀ b ∈ h'.pages, P b (h'.arena b.pages) := by
  intro b hb
  rw [hpages] at hb
  rcases mem_cons.1 hb with rfl | hb
  · exact hnew
  · rw [harena b hb]
    exact hold b hb

lemma addBig (hs : h.Core live) (hpaged : Paged (a :: h.pages)) (huser : a.user = false)
    (hpages : h'.pages = a :: h.pages) (hdescs : h'.descs = h.descs)
    (harena : ∀ b ∈ h.pages, h'.arena b.pages = h.arena b.pages)
    (hnew : h'.arena a.pages = ⟨ARENA_MAGIC, none, a.pageCnt⟩)
    (hsize : size + ARENA_SIZE ≤ PGSIZE * a.pageCnt) :
    h'.Core ((a.pages + ARENA_SIZE, size) :: live) := by
  have hround : pgRoundDown (a.pages + ARENA_SIZE) = a.pages := by
    have hal := hpaged.aligned a mem_cons_self
    unfold pgRoundDown pgOfs PGSIZE ARENA_SIZE at *
    omega
  have hmem : ∀ b, b ∈ h'.pages ↔ b = a ∨ b ∈ h.pages := fun b => by rw [hpages, mem_cons]
  refine ⟨hpages ▸ hpaged,
    headers_cons (P := fun b _ => b.user = false) hpages harena huser hs.kernel,
    hdescs ▸ hs.fits,
    headers_cons (P := fun _ x => x.magic = ARENA_MAGIC) hpages harena (by rw [hnew]) hs.magic,
    headers_cons (P := fun b x => x.desc = none → x.freeCnt = b.pageCnt) hpages harena
      (by rw [hnew]; exact fun _ => rfl) hs.big,
    fun b hb i hdesc => ?_, hdescs ▸ hs.nodup, fun i d hd b => ?_, fun p hp => ?_, ?_⟩
  · rcases (hmem b).1 hb with rfl | hb
    · rw [hnew] at hdesc
      cases hdesc
    · rw [harena b hb] at hdesc ⊢
      rw [hdescs]
      exact hs.small b hb i hdesc
  · rw [hdescs] at hd
    rw [hs.free i d hd b, isBlock_cons hpages harena, hnew]
    constructor
    · rintro ⟨hb, hnot⟩
      refine ⟨.inr hb, fun hmem => ?_⟩
      rcases mem_cons.1 hmem with heq | hmem
      · obtain ⟨c, hc, _, hcr⟩ := hs.round_of_isBlock hd hb
        rw [heq, hround] at hcr
        exact hpaged.ne_of_cons hc hcr.symm
      · exact hnot hmem
    · rintro ⟨⟨hdesc, _⟩ | hb, hnot⟩
      · cases hdesc
      · exact ⟨hb, fun hmem => hnot (mem_cons_of_mem _ hmem)⟩
  · rcases mem_cons.1 hp with rfl | hp
    · exact .big a ((hmem a).2 (.inl rfl)) (by rw [hnew]) rfl hsize
    · exact hs.isLive_keep (hs.alive p hp)
        (fun c hc _ => ⟨(hmem c).2 (.inr hc), by rw [harena c hc]⟩)
        fun _ d hd => ⟨d, hdescs ▸ hd, rfl, rfl⟩
  · refine nodup_cons.2 ⟨fun hmem => ?_, hs.distinct⟩
    obtain ⟨p, hp, heq⟩ := mem_map.1 hmem
    obtain ⟨c, hc, hcr⟩ := hs.round_of_live hp
    rw [heq] at hcr
    exact hpaged.ne_of_cons hc (hcr.symm.trans hround)

lemma get_modify : (descs.modify i fun d => { d with freeList := l })[k]? = some d' ↔
      ∃ d, descs[k]? = some d ∧ d' = if i = k then { d with freeList := l } else d := by
  rw [getElem?_modify]
  constructor
  · intro h
    obtain ⟨d, hd, rfl⟩ := Option.map_eq_some_iff.1 h
    exact ⟨d, hd, rfl⟩
  · rintro ⟨d, hd, rfl⟩
    exact Option.map_eq_some_iff.2 ⟨d, hd, rfl⟩

lemma cut_modify (k : ℕ) (e : Desc) (he : descs[k]? = some e) :
    ∃ e', (descs.modify i fun d => { d with freeList := l })[k]? = some e' ∧
      e'.blockSize = e.blockSize ∧ e'.blocksPerArena = e.blocksPerArena := by
  refine ⟨_, get_modify.2 ⟨e, he, rfl⟩, ?_⟩
  split_ifs
  · exact ⟨rfl, rfl⟩
  · exact ⟨rfl, rfl⟩

lemma fits_modify (hs : h.Core live) :
    ∀ d ∈ h.descs.modify i fun d => { d with freeList := l }, d.Fits := by
  intro _ hd'
  obtain ⟨k, hk⟩ := mem_iff_getElem?.1 hd'
  obtain ⟨d, hd, rfl⟩ := get_modify.1 hk
  have hfits := hs.fits_of_get hd
  split_ifs
  · exact { hfits with }
  · exact hfits

lemma round_ne_of_free (hs : h.Core live) (hpaged : Paged (a :: h.pages))
    (hd : h.descs[k]? = some d') {b : ℕ} (hb : b ∈ d'.freeList) : pgRoundDown b ≠ a.pages := by
  obtain ⟨c, hc, _, hcr⟩ := hs.round_of_isBlock hd ((hs.free k d' hd b).1 hb).1
  rw [hcr]
  exact hpaged.ne_of_cons hc

theorem addArena (hs : h.Core live) (hd : h.descs[i]? = some d) (hpaged : Paged (a :: h.pages))
    (huser : a.user = false) (hone : a.pageCnt = 1) (hpages : h'.pages = a :: h.pages)
    (hdescs : h'.descs = h.descs.modify i fun e =>
      { e with freeList := d.freeList ++ d.blocks a.pages })
    (harena : ∀ b ∈ h.pages, h'.arena b.pages = h.arena b.pages)
    (hnew : h'.arena a.pages = ⟨ARENA_MAGIC, some i, d.blocksPerArena⟩) : h'.Core live := by
  have hfits := hs.fits_of_get hd
  have hal := hpaged.aligned a mem_cons_self
  have hround : ∀ b ∈ d.blocks a.pages, pgRoundDown b = a.pages := by
    intro b hb
    obtain ⟨j, hj, rfl⟩ := Desc.mem_blocks.1 hb
    exact hfits.pgRoundDown_block hal hj
  have hold : ∀ b ∈ d.freeList, pgRoundDown b ≠ a.pages := fun b => hs.round_ne_of_free hpaged hd
  have hmem : ∀ b, b ∈ h'.pages ↔ b = a ∨ b ∈ h.pages := fun b => by rw [hpages, mem_cons]
  refine ⟨hpages ▸ hpaged,
    headers_cons (P := fun b _ => b.user = false) hpages harena huser hs.kernel,
    hdescs ▸ hs.fits_modify,
    headers_cons (P := fun _ x => x.magic = ARENA_MAGIC) hpages harena (by rw [hnew]) hs.magic,
    headers_cons (P := fun b x => x.desc = none → x.freeCnt = b.pageCnt) hpages harena
      (by rw [hnew]; exact nofun) hs.big,
    fun b hb k hdesc => ?_, fun k d' hd' => ?_, fun k d' hd' b => ?_, fun p hp => ?_, hs.distinct⟩
  · rcases (hmem b).1 hb with rfl | hb
    · rw [hnew] at hdesc ⊢
      cases hdesc
      refine ⟨hone, _, hdescs ▸ get_modify.2 ⟨d, hd, rfl⟩, ?_⟩
      rw [if_pos rfl]
      show d.blocksPerArena = (d.freeList ++ d.blocks b.pages).countP _
      rw [countP_append, countP_eq_zero.2 fun x hx => by simpa using hold x hx,
        countP_eq_length.2 fun x hx => by simpa using hround x hx, Desc.length_blocks, zero_add]
    · rw [harena b hb] at hdesc ⊢
      obtain ⟨hcnt, e, he, hfree⟩ := hs.small b hb k hdesc
      refine ⟨hcnt, _, hdescs ▸ get_modify.2 ⟨e, he, rfl⟩, hfree.trans ?_⟩
      split_ifs with hik
      · subst hik
        obtain rfl := Option.mem_unique hd he
        show _ = (d.freeList ++ d.blocks a.pages).countP _
        rw [countP_append, Nat.left_eq_add, countP_eq_zero]
        intro x hx
        have hne := hpaged.ne_of_cons hb
        simpa [hround x hx] using hne.symm
      · rfl
  · obtain ⟨e, he, rfl⟩ := get_modify.1 (hdescs ▸ hd')
    split_ifs with hik
    · subst hik
      show (d.freeList ++ d.blocks a.pages).Nodup
      refine nodup_append.2 ⟨hs.nodup i d hd, hfits.nodup_blocks, fun x hx y hy hxy => ?_⟩
      exact hold x hx (hxy ▸ hround y hy)
    · exact hs.nodup k e he
  · obtain ⟨e, he, rfl⟩ := get_modify.1 (hdescs ▸ hd')
    rw [isBlock_cons hpages harena, hnew]
    split_ifs with hik
    · subst hik
      obtain rfl := Option.mem_unique hd he
      show b ∈ d.freeList ++ d.blocks a.pages ↔ _
      rw [mem_append, hs.free i d hd, Desc.mem_blocks]
      constructor
      · rintro (⟨hb, hnot⟩ | hb)
        · exact ⟨.inr hb, hnot⟩
        · refine ⟨.inl ⟨rfl, hb⟩, fun hlive => ?_⟩
          obtain ⟨p, hp, rfl⟩ := mem_map.1 hlive
          obtain ⟨c, hc, hcr⟩ := hs.round_of_live hp
          exact hpaged.ne_of_cons hc (hcr.symm.trans (hround _ (Desc.mem_blocks.2 hb)))
      · rintro ⟨⟨_, hb⟩ | hb, hnot⟩
        · exact .inr hb
        · exact .inl ⟨hb, hnot⟩
    · rw [hs.free k e he]
      refine and_congr_left fun _ => ?_
      constructor
      · exact .inr
      · rintro (⟨hc, _⟩ | hb)
        · exact absurd (Option.some.inj hc) hik
        · exact hb
  · exact hs.isLive_keep (hs.alive p hp)
      (fun c hc _ => ⟨(hmem c).2 (.inr hc), by rw [harena c hc]⟩) (hdescs ▸ cut_modify)

end Add

lemma mem_erase_fst (hs : h.Core live) (hp : p ∈ live) {b : ℕ} :
    b ∈ (live.erase p).map Prod.fst ↔ b ≠ p.1 ∧ b ∈ live.map Prod.fst := by
  have hperm := (perm_cons_erase hp).map Prod.fst
  have hnodup := hperm.nodup_iff.1 hs.distinct
  rw [hperm.mem_iff, map_cons, mem_cons]
  constructor
  · intro hb
    exact ⟨fun heq => (nodup_cons.1 hnodup).1 (heq ▸ hb), .inr hb⟩
  · rintro ⟨hne, hb⟩
    exact hb.resolve_left hne

lemma nodup_erase_fst (hs : h.Core live) (p : ℕ × ℕ) : ((live.erase p).map Prod.fst).Nodup :=
  hs.distinct.sublist (erase_sublist.map _)

section Change

lemma isBlock_congr (hpages : h'.pages = h.pages)
    (hdesc : ∀ c ∈ h.pages, (h'.arena c.pages).desc = (h.arena c.pages).desc) {b : ℕ} :
    h'.IsBlock i d b ↔ h.IsBlock i d b := by
  unfold IsBlock
  rw [hpages]
  refine exists_congr fun c => and_congr_right fun hc => ?_
  rw [hdesc c hc]

lemma ne_of_isBlock (hs : h.Core live) (hd : h.descs[i]? = some d) (he : h.descs[k]? = some e)
    (hik : i ≠ k) {b c : ℕ} (hb : h.IsBlock i d b) (hc : h.IsBlock k e c) : b ≠ c := by
  rintro rfl
  obtain ⟨a, ha, hdesc, hra⟩ := hs.round_of_isBlock hd hb
  obtain ⟨_, ha', hdesc', hra'⟩ := hs.round_of_isBlock he hc
  obtain rfl := hs.paged.eq_of_pages ha ha' (hra.symm.trans hra')
  exact hik (Option.mem_unique hdesc hdesc')

variable (hs : h.Core live) (ha : a ∈ h.pages) (hdesc : (h.arena a.pages).desc = some i)
  (hd : h.descs[i]? = some d) (hj : j < d.blocksPerArena)

include hs ha hdesc hd hj

lemma turn {live' : List (ℕ × ℕ)} (hpages : h'.pages = h.pages)
    (hdescs : h'.descs = h.descs.modify i fun e => { e with freeList := l })
    (harena : ∀ c ∈ h.pages, c ≠ a → h'.arena c.pages = h.arena c.pages) (hself : h'.arena a.pages =
      { h.arena a.pages with freeCnt := l.countP (pgRoundDown · = a.pages) })
    (hcount : ∀ c ∈ h.pages, c ≠ a → l.countP (pgRoundDown · = c.pages) =
      d.freeList.countP (pgRoundDown · = c.pages)) (hnodup : l.Nodup)
    (hfree : ∀ b, b ∈ l ↔ h.IsBlock i d b ∧ b ∉ live'.map Prod.fst)
    (hother : ∀ b, b ≠ d.block a.pages j → (b ∈ live'.map Prod.fst ↔ b ∈ live.map Prod.fst))
    (halive : ∀ p ∈ live', h.IsLive p) (hdistinct : (live'.map Prod.fst).Nodup) :
    h'.Core live' := by
  have hkeep : ∀ c ∈ h.pages, (h'.arena c.pages).magic = (h.arena c.pages).magic ∧
      (h'.arena c.pages).desc = (h.arena c.pages).desc := by
    intro c hc
    by_cases hca : c = a
    · rw [hca, hself]
      exact ⟨rfl, rfl⟩
    · rw [harena c hc hca]
      exact ⟨rfl, rfl⟩
  have hblock : h.IsBlock i d (d.block a.pages j) := ⟨a, ha, hdesc, j, hj, rfl⟩
  refine ⟨hpages ▸ hs.paged, hpages ▸ hs.kernel, hdescs ▸ hs.fits_modify, fun c hc => ?_,
    fun c hc hnone => ?_, fun c hc k hk => ?_, fun k e' he' => ?_, fun k e' he' b => ?_,
    fun p hp => hs.isLive_keep (halive p hp) (fun c hc _ => ⟨hpages ▸ hc, (hkeep c hc).2⟩)
      (hdescs ▸ cut_modify), hdistinct⟩
  · rw [hpages] at hc
    rw [(hkeep c hc).1]
    exact hs.magic c hc
  · rw [hpages] at hc
    rw [(hkeep c hc).2] at hnone
    have hca : c ≠ a := by
      rintro rfl
      rw [hdesc] at hnone
      cases hnone
    rw [harena c hc hca]
    exact hs.big c hc hnone
  · rw [hpages] at hc
    rw [(hkeep c hc).2] at hk
    obtain ⟨hcnt, e, he, hfreeCnt⟩ := hs.small c hc k hk
    refine ⟨hcnt, _, hdescs ▸ get_modify.2 ⟨e, he, rfl⟩, ?_⟩
    by_cases hca : c = a
    · subst hca
      obtain rfl := Option.mem_unique hdesc hk
      rw [hself, if_pos rfl]
    · rw [harena c hc hca, hfreeCnt]
      split_ifs with hik
      · subst hik
        obtain rfl := Option.mem_unique hd he
        exact (hcount c hc hca).symm
      · rfl
  · obtain ⟨e, he, rfl⟩ := get_modify.1 (hdescs ▸ he')
    split_ifs
    · exact hnodup
    · exact hs.nodup k e he
  · obtain ⟨e, he, rfl⟩ := get_modify.1 (hdescs ▸ he')
    rw [isBlock_congr hpages fun c hc => (hkeep c hc).2]
    split_ifs with hik
    · subst hik
      obtain rfl := Option.mem_unique hd he
      exact hfree b
    · rw [hs.free k e he]
      refine and_congr_right fun hb => not_congr (hother b fun hbe => ?_).symm
      exact hs.ne_of_isBlock hd he hik hblock hb hbe.symm

theorem take {rest : List ℕ} (hlist : d.freeList = d.block a.pages j :: rest)
    (hsize : size ≤ d.blockSize) (hpages : h'.pages = h.pages)
    (hdescs : h'.descs = h.descs.modify i fun e => { e with freeList := rest })
    (harena : ∀ c ∈ h.pages, c ≠ a → h'.arena c.pages = h.arena c.pages) (hself : h'.arena a.pages =
      { h.arena a.pages with freeCnt := (h.arena a.pages).freeCnt - 1 }) :
    h'.Core ((d.block a.pages j, size) :: live) := by
  have hnodup := hs.nodup i d hd
  rw [hlist] at hnodup
  obtain ⟨hnot, hrest⟩ := nodup_cons.1 hnodup
  have hround := hs.round_block ha hd hj
  have hfresh : d.block a.pages j ∉ live.map Prod.fst :=
    ((hs.free i d hd _).1 (hlist ▸ mem_cons_self)).2
  have hcnt : (h.arena a.pages).freeCnt = rest.countP (pgRoundDown · = a.pages) + 1 := by
    rw [hs.freeCnt_eq ha hdesc hd, hlist, countP_cons, if_pos (by simpa using hround)]
  refine hs.turn ha hdesc hd hj hpages hdescs harena (by rw [hself, hcnt]; rfl) (fun c hc hca => ?_)
    hrest (fun b => ?_) (fun b hb => ?_) (fun p hp => ?_) ?_
  · have hne : a.pages ≠ c.pages := fun heq => hca (hs.paged.eq_of_pages hc ha heq.symm)
    rw [hlist, countP_cons, if_neg (by simpa [hround] using hne), add_zero]
  · have hfree := hs.free i d hd b
    rw [hlist, mem_cons] at hfree
    rw [map_cons, mem_cons, not_or]
    constructor
    · intro hb
      obtain ⟨hblock, hdead⟩ := hfree.1 (.inr hb)
      exact ⟨hblock, fun heq : b = d.block a.pages j => hnot (heq ▸ hb), hdead⟩
    · rintro ⟨hblock, hne, hdead⟩
      exact (hfree.2 ⟨hblock, hdead⟩).resolve_left hne
  · rw [map_cons, mem_cons]
    exact or_iff_right hb
  · rcases mem_cons.1 hp with rfl | hp
    · exact .small a i d j ha hdesc hd hj rfl hsize
    · exact hs.alive p hp
  · exact nodup_cons.2 ⟨hfresh, hs.distinct⟩

theorem give (hp : (d.block a.pages j, size) ∈ live) (hpages : h'.pages = h.pages)
    (hdescs : h'.descs = h.descs.modify i fun e =>
      { e with freeList := d.block a.pages j :: d.freeList })
    (harena : ∀ c ∈ h.pages, c ≠ a → h'.arena c.pages = h.arena c.pages) (hself : h'.arena a.pages =
      { h.arena a.pages with freeCnt := (h.arena a.pages).freeCnt + 1 }) :
    h'.Core (live.erase (d.block a.pages j, size)) := by
  have hround := hs.round_block ha hd hj
  have hlive : d.block a.pages j ∈ live.map Prod.fst := mem_map.2 ⟨_, hp, rfl⟩
  have hnot : d.block a.pages j ∉ d.freeList := fun hb => ((hs.free i d hd _).1 hb).2 hlive
  refine hs.turn ha hdesc hd hj hpages hdescs harena ?_ (fun c hc hca => ?_)
    (nodup_cons.2 ⟨hnot, hs.nodup i d hd⟩) (fun b => ?_) (fun b hb => ?_)
    (fun p hp => hs.alive p (mem_of_mem_erase hp)) (hs.nodup_erase_fst _)
  · rw [hself, hs.freeCnt_eq ha hdesc hd, countP_cons, if_pos (by simpa using hround)]
  · have hne : a.pages ≠ c.pages := fun heq => hca (hs.paged.eq_of_pages hc ha heq.symm)
    rw [countP_cons, if_neg (by simpa [hround] using hne), add_zero]
  · rw [hs.mem_erase_fst hp, mem_cons, hs.free i d hd]
    constructor
    · rintro (rfl | ⟨hblock, hdead⟩)
      · exact ⟨⟨a, ha, hdesc, j, hj, rfl⟩, fun h => h.1 rfl⟩
      · exact ⟨hblock, fun h => hdead h.2⟩
    · rintro ⟨hblock, hdead⟩
      by_cases hb : b = d.block a.pages j
      · exact .inl hb
      · exact .inr ⟨hblock, fun h => hdead ⟨hb, h⟩⟩
  · rw [hs.mem_erase_fst hp]
    exact and_iff_right hb

end Change

section Drop

variable (hs : h.Core live) (ha : a ∈ h.pages) (hpages : h'.pages = h.pages.erase a)
  (harena : ∀ c ∈ h.pages, c ≠ a → h'.arena c.pages = h.arena c.pages)

include hs hpages harena

lemma isBlock_erase {b : ℕ} : h'.IsBlock i d b ↔ ∃ c ∈ h.pages, c ≠ a ∧
    (h.arena c.pages).desc = some i ∧ ∃ j < d.blocksPerArena, b = d.block c.pages j := by
  unfold IsBlock
  rw [hpages]
  constructor
  · rintro ⟨c, hc, hrest⟩
    obtain ⟨hca, hc⟩ := hs.paged.mem_erase.1 hc
    rw [harena c hc hca] at hrest
    exact ⟨c, hc, hca, hrest⟩
  · rintro ⟨c, hc, hca, hrest⟩
    refine ⟨c, hs.paged.mem_erase.2 ⟨hca, hc⟩, ?_⟩
    rw [harena c hc hca]
    exact hrest

lemma keep_erase (hne : pgRoundDown p.1 ≠ a.pages) : ∀ c ∈ h.pages, pgRoundDown p.1 = c.pages →
      c ∈ h'.pages ∧ (h'.arena c.pages).desc = (h.arena c.pages).desc := by
  intro c hc hround
  have hca : c ≠ a := by
    rintro rfl
    exact hne hround
  exact ⟨hpages ▸ hs.paged.mem_erase.2 ⟨hca, hc⟩, by rw [harena c hc hca]⟩

lemma headers_erase (hold : ∀ c ∈ h.pages, P c (h.arena c.pages)) :
    ∀ c ∈ h'.pages, P c (h'.arena c.pages) := by
  intro c hc
  rw [hpages] at hc
  obtain ⟨hca, hc⟩ := hs.paged.mem_erase.1 hc
  rw [harena c hc hca]
  exact hold c hc

include ha

/-- **An arena without live blocks is dropped**, and its blocks with it. -/
theorem drop (hdesc : (h.arena a.pages).desc = some i) (hd : h.descs[i]? = some d)
    (hdescs : h'.descs = h.descs.modify i fun e =>
      { e with freeList := d.freeList.filter fun b => pgRoundDown b ≠ a.pages })
    (hdead : ∀ p ∈ live, pgRoundDown p.1 ≠ a.pages) : h'.Core live := by
  have hmem : ∀ c, c ∈ h'.pages ↔ c ≠ a ∧ c ∈ h.pages := fun c => by
    rw [hpages]
    exact hs.paged.mem_erase
  refine ⟨hpages ▸ hs.paged.erase a, fun c hc => hs.kernel c ((hmem c).1 hc).2,
    hdescs ▸ hs.fits_modify,
    headers_erase (P := fun _ x => x.magic = ARENA_MAGIC) hs hpages harena hs.magic,
    headers_erase (P := fun c x => x.desc = none → x.freeCnt = c.pageCnt) hs hpages harena hs.big,
    fun c hc k hk => ?_, fun k e' he' => ?_, fun k e' he' b => ?_, fun p hp => ?_, hs.distinct⟩
  · obtain ⟨hca, hc⟩ := (hmem c).1 hc
    rw [harena c hc hca] at hk ⊢
    obtain ⟨hcnt, e, he, hfreeCnt⟩ := hs.small c hc k hk
    refine ⟨hcnt, _, hdescs ▸ get_modify.2 ⟨e, he, rfl⟩, hfreeCnt.trans ?_⟩
    split_ifs with hik
    · subst hik
      obtain rfl := Option.mem_unique hd he
      have hne : c.pages ≠ a.pages := fun heq => hca (hs.paged.eq_of_pages hc ha heq)
      show _ = (d.freeList.filter _).countP _
      rw [countP_filter]
      refine countP_congr fun b _ => ?_
      simp only [decide_eq_true_eq, Bool.and_eq_true]
      exact ⟨fun h => ⟨h, h ▸ hne⟩, fun h => h.1⟩
    · rfl
  · obtain ⟨e, he, rfl⟩ := get_modify.1 (hdescs ▸ he')
    split_ifs
    · exact (hs.nodup i d hd).filter _
    · exact hs.nodup k e he
  · obtain ⟨e, he, rfl⟩ := get_modify.1 (hdescs ▸ he')
    rw [isBlock_erase hs hpages harena]
    split_ifs with hik
    · subst hik
      obtain rfl := Option.mem_unique hd he
      show b ∈ d.freeList.filter _ ↔ _
      rw [mem_filter, hs.free i d hd, decide_eq_true_eq]
      constructor
      · rintro ⟨⟨⟨c, hc, hcd, j, hj, rfl⟩, hnot⟩, hne⟩
        refine ⟨⟨c, hc, fun hca => hne ?_, hcd, j, hj, rfl⟩, hnot⟩
        rw [hs.round_block hc hd hj, hca]
      · rintro ⟨⟨c, hc, hca, hcd, j, hj, rfl⟩, hnot⟩
        refine ⟨⟨⟨c, hc, hcd, j, hj, rfl⟩, hnot⟩, ?_⟩
        show pgRoundDown (d.block c.pages j) ≠ a.pages
        rw [hs.round_block hc hd hj]
        exact fun heq => hca (hs.paged.eq_of_pages hc ha heq)
    · rw [hs.free k e he]
      refine and_congr_left fun _ => ?_
      constructor
      · rintro ⟨c, hc, hcd, hb⟩
        refine ⟨c, hc, fun hca => ?_, hcd, hb⟩
        rw [hca, hdesc] at hcd
        exact hik (Option.some.inj hcd)
      · rintro ⟨c, hc, _, hcd, hb⟩
        exact ⟨c, hc, hcd, hb⟩
  · exact hs.isLive_keep (hs.alive p hp) (keep_erase hs hpages harena (hdead p hp))
      (hdescs ▸ cut_modify)

lemma dropBig (hdesc : (h.arena a.pages).desc = none) (hdescs : h'.descs = h.descs)
    (hp : (a.pages + ARENA_SIZE, size) ∈ live) :
    h'.Core (live.erase (a.pages + ARENA_SIZE, size)) := by
  refine ⟨hpages ▸ hs.paged.erase a,
    headers_erase (P := fun c _ => c.user = false) hs hpages harena hs.kernel, hdescs ▸ hs.fits,
    headers_erase (P := fun _ x => x.magic = ARENA_MAGIC) hs hpages harena hs.magic,
    headers_erase (P := fun c x => x.desc = none → x.freeCnt = c.pageCnt) hs hpages harena hs.big,
    headers_erase (P := fun c x => ∀ i, x.desc = some i → c.pageCnt = 1 ∧ ∃ d,
      h'.descs[i]? = some d ∧ x.freeCnt = d.freeList.countP (pgRoundDown · = c.pages)) hs hpages
      harena (hdescs ▸ hs.small),
    hdescs ▸ hs.nodup, fun k e he b => ?_, fun p hp' => ?_, hs.nodup_erase_fst _⟩
  · rw [hdescs] at he
    rw [hs.free k e he, isBlock_erase hs hpages harena, hs.mem_erase_fst hp]
    have hround := (hs.pgRoundDown_big ha).1
    constructor
    · rintro ⟨⟨c, hc, hcd, hb⟩, hnot⟩
      refine ⟨⟨c, hc, fun hca => ?_, hcd, hb⟩, fun h => hnot h.2⟩
      rw [hca, hdesc] at hcd
      cases hcd
    · rintro ⟨⟨c, hc, hca, hcd, j, hj, rfl⟩, hnot⟩
      refine ⟨⟨c, hc, hcd, j, hj, rfl⟩, fun hlive => hnot ⟨fun heq => hca ?_, hlive⟩⟩
      have hcr := hs.round_block hc he hj
      rw [heq] at hcr
      exact hs.paged.eq_of_pages hc ha (hcr.symm.trans hround)
  · have hp0 := mem_of_mem_erase hp'
    refine hs.isLive_keep (hs.alive p hp0) (keep_erase hs hpages harena fun heq => ?_)
      fun _ e he => ⟨e, hdescs ▸ he, rfl, rfl⟩
    -- the only live block in it is the one that was freed
    have hfst : p.1 ≠ a.pages + ARENA_SIZE := ((hs.mem_erase_fst hp).1 (mem_map.2 ⟨p, hp', rfl⟩)).1
    rcases hs.live_of_round hp0 ha heq with ⟨_, haddr⟩ | ⟨i, d, j, hsome, _⟩
    · exact hfst haddr
    · rw [hdesc] at hsome
      cases hsome

end Drop

/-! ### Free blocks of an arena -/

section Count

variable (hs : h.Core live) (ha : a ∈ h.pages) (hdesc : (h.arena a.pages).desc = some i)
  (hd : h.descs[i]? = some d)

include hs ha hd

lemma mem_blocks_of_round {b : ℕ} (hb : b ∈ d.freeList) (hround : pgRoundDown b = a.pages) :
    b ∈ d.blocks a.pages := by
  obtain ⟨c, hc, _, j, hj, rfl⟩ := ((hs.free i d hd b).1 hb).1
  rw [hs.round_block hc hd hj] at hround
  rw [hs.paged.eq_of_pages hc ha hround]
  exact Desc.mem_blocks.2 ⟨j, hj, rfl⟩

lemma subperm_blocks :
    (d.freeList.filter fun b => pgRoundDown b = a.pages).Subperm (d.blocks a.pages) := by
  refine subperm_of_subset ((hs.nodup i d hd).filter _) fun b hb => ?_
  obtain ⟨hb, hround⟩ := mem_filter.1 hb
  exact hs.mem_blocks_of_round ha hd hb (of_decide_eq_true hround)

lemma countP_le : d.freeList.countP (pgRoundDown · = a.pages) ≤ d.blocksPerArena := by
  rw [countP_eq_length_filter, ← Desc.length_blocks (a := a.pages)]
  exact (hs.subperm_blocks ha hd).length_le

lemma mem_of_countP (hcount : d.blocksPerArena ≤ d.freeList.countP (pgRoundDown · = a.pages))
    {b : ℕ} (hb : b ∈ d.blocks a.pages) : b ∈ d.freeList := by
  rw [countP_eq_length_filter, ← Desc.length_blocks (a := a.pages)] at hcount
  have hperm := (hs.subperm_blocks ha hd).perm_of_length_le hcount
  exact (mem_filter.1 (hperm.mem_iff.2 hb)).1

include hdesc

lemma round_ne_of_countP (hcount : d.blocksPerArena ≤ d.freeList.countP (pgRoundDown · = a.pages))
    (hp : p ∈ live) : pgRoundDown p.1 ≠ a.pages := by
  intro hround
  rcases hs.live_of_round hp ha hround with ⟨hnone, _⟩ | ⟨k, e, j, hsome, get, idx, addr⟩
  · rw [hdesc] at hnone
    cases hnone
  · obtain rfl := Option.mem_unique hdesc hsome
    obtain rfl := Option.mem_unique hd get
    have hfree := hs.mem_of_countP ha hd hcount (Desc.mem_blocks.2 ⟨j, idx, addr⟩)
    exact ((hs.free i d hd p.1).1 hfree).2 (mem_map.2 ⟨p, hp, rfl⟩)

lemma exists_live (hcount : d.freeList.countP (pgRoundDown · = a.pages) < d.blocksPerArena) :
    ∃ p ∈ live, pgRoundDown p.1 = a.pages := by
  by_contra hnone
  have hround : ∀ b ∈ d.blocks a.pages, pgRoundDown b = a.pages := by
    intro b hb
    obtain ⟨j, hj, rfl⟩ := Desc.mem_blocks.1 hb
    exact hs.round_block ha hd hj
  have hall : ∀ b ∈ d.blocks a.pages, b ∈ d.freeList.filter fun b => pgRoundDown b = a.pages := by
    intro b hb
    refine mem_filter.2 ⟨(hs.free i d hd b).2 ⟨?_, fun hlive => ?_⟩, decide_eq_true (hround b hb)⟩
    · obtain ⟨j, hj, rfl⟩ := Desc.mem_blocks.1 hb
      exact ⟨a, ha, hdesc, j, hj, rfl⟩
    · obtain ⟨p, hp, rfl⟩ := mem_map.1 hlive
      exact hnone ⟨p, hp, hround _ hb⟩
  have hle := (subperm_of_subset (hs.fits_of_get hd).nodup_blocks hall).length_le
  rw [Desc.length_blocks, ← countP_eq_length_filter] at hle
  omega

end Count

/-! ### Memory that is cleared -/

lemma clear_block (hs : h.Core live) (ha : a ∈ h.pages) (hd : d.Fits)
    (hj : j < d.blocksPerArena) :
    ∀ c ∈ h.pages, (h.clear (d.block a.pages j) d.blockSize).arena c.pages = h.arena c.pages := by
  intro c hc
  refine if_neg fun hov => ?_
  have hle := hd.block_le (a := a.pages) hj
  have hala := hs.paged.aligned a ha
  have halc := hs.paged.aligned c hc
  unfold Desc.block at *
  unfold pgOfs PGSIZE ARENA_SIZE at *
  omega

lemma clear_pages (hs : h.Core live) (ha : a ∈ h.pages) (hc : c ∈ h.pages) (hca : c ≠ a) :
    (h.clear a.pages (PGSIZE * a.pageCnt)).arena c.pages = h.arena c.pages := by
  refine if_neg fun hov => hca ?_
  have hala := hs.paged.aligned a ha
  have halc := hs.paged.aligned c hc
  obtain ⟨h1, _⟩ := hov
  refine hs.paged.eq_of_mem hc ha (x := c.pages)
    (hs.paged.mem_area (x := 0) hc (by decide)) ⟨?_, h1⟩
  unfold pgOfs PGSIZE ARENA_SIZE at *
  omega

end Core

/-! ### The loops -/

variable {h : Heap A} {d : Desc} {a i : ℕ}

lemma pushLoop (l : List ℕ) (hblock : ∀ j < d.blocksPerArena, h.arenaToBlock a j =
    .ok (d.block a j)) :
    forLoop d.blocksPerArena (fun freeList idx => do
      let b ← h.arenaToBlock a idx
      return freeList ++ [b]) l = .ok (l ++ d.blocks a) := by
  obtain ⟨l', hl', hP⟩ := forLoop_ok (n := d.blocksPerArena) (b := l) (f := fun freeList idx => do
      let b ← h.arenaToBlock a idx
      return freeList ++ [b])
    (fun k l' => l' = l ++ (List.range k).map (d.block a)) (by simp) fun k l' hk hl' => by
      refine ⟨l' ++ [d.block a k], by rw [hblock k hk]; rfl, ?_⟩
      rw [hl', range_succ, map_append, append_assoc]
      rfl
  rw [hl', hP]
  rfl

lemma removeLoop (hd : d.Fits) (hnodup : l.Nodup)
    (hblock : ∀ j < d.blocksPerArena, h.arenaToBlock a j = .ok (d.block a j))
    (hmem : ∀ b ∈ d.blocks a, b ∈ l) :
    forLoop d.blocksPerArena (fun freeList idx => do
      let b ← h.arenaToBlock a idx
      listRemove freeList b) l = .ok (l.filter fun b => b ∉ d.blocks a) := by
  obtain ⟨l', hl', hP⟩ := forLoop_ok (n := d.blocksPerArena) (b := l) (f := fun freeList idx => do
      let b ← h.arenaToBlock a idx
      listRemove freeList b)
    (fun k l' => l' = l.filter fun b => b ∉ (List.range k).map (d.block a)) (by simp)
    fun k l' hk hl' => by
      have hnew : d.block a k ∈ l' := by
        rw [hl', mem_filter, decide_eq_true_eq]
        refine ⟨hmem _ (Desc.mem_blocks.2 ⟨k, hk, rfl⟩), fun hold => ?_⟩
        obtain ⟨j, hj, heq⟩ := mem_map.1 hold
        have hjk := hd.block_inj heq
        rw [mem_range] at hj
        omega
      refine ⟨l'.erase (d.block a k), ?_, ?_⟩
      · rw [hblock k hk, ok_bind, listRemove, ASSERT_of hnew, ok_bind]
        rfl
      · rw [hl', (hnodup.filter _).erase_eq_filter, filter_filter]
        refine filter_congr fun b _ => ?_
        rw [Bool.eq_iff_iff, range_succ, map_append]
        simp only [Bool.and_eq_true, bne_iff_ne, decide_eq_true_eq, mem_append, not_or,
          map_cons, map_nil, mem_singleton]
        exact and_comm
  rw [hl', hP]
  rfl

/-! ### `malloc` -/

structure Good (h : Heap A) (live : List (ℕ × ℕ)) (others : List Allocation) : Prop where
  core : h.Core live
  held : h.Held live
  holds : A.Holds h.palloc (h.pages ++ others)

section Malloc

variable {live : List (ℕ × ℕ)} {others : List Allocation} {n size : ℕ}

lemma getPages_spec (hA : A.Holds h.palloc (h.pages ++ others)) (hn : 0 < n) :
    ∃ r palloc, h.getPages n = .ok (r, { h with
        palloc := palloc
        pages := (r.map fun pages => ⟨pages, n, false⟩).toList ++ h.pages }) ∧
      A.Holds palloc ((r.map fun pages => ⟨pages, n, false⟩).toList ++ h.pages ++ others) := by
  obtain ⟨r, palloc, hget, _⟩ := A.get_spec hA hn
  refine ⟨r, palloc, ?_, by rwa [append_assoc]⟩
  rw [getPages, hget]
  rfl

lemma Good.congr {palloc : A.State} {others' : List Allocation} (hs : h.Good live others)
    (hA : A.Holds palloc (h.pages ++ others')) : { h with palloc := palloc }.Good live others' :=
  ⟨hs.core.congr rfl rfl fun _ _ => rfl, hs.held, hA⟩

lemma malloc_big (hs : h.Good live others) (hsize : size + ARENA_SIZE + PGSIZE ≤ 2 ^ 32)
    (hne : size ≠ 0) (hfind : h.descs.findIdx? (fun d => size ≤ d.blockSize) = none) :
    ∃ r h', h.malloc size = .ok (r, h') ∧
      h'.Good ((r.map fun p => (p, size)).toList ++ live) others := by
  have hcnt : DIV_ROUND_UP (u32 (size + ARENA_SIZE)) PGSIZE =
      (size + ARENA_SIZE + PGSIZE - 1) / PGSIZE := by
    have hpos : 0 < PGSIZE := by decide
    rw [u32_of_lt (by omega), DIV_ROUND_UP_of_lt _ _ (by omega)]
  obtain ⟨n, hn⟩ : ∃ n, (size + ARENA_SIZE + PGSIZE - 1) / PGSIZE = n := ⟨_, rfl⟩
  have hroom : size + ARENA_SIZE ≤ PGSIZE * n := by
    unfold PGSIZE at *
    omega
  have hpos : 0 < n := by
    unfold PGSIZE ARENA_SIZE at *
    omega
  obtain ⟨r, palloc, hget, hA⟩ := getPages_spec hs.holds hpos
  simp only [malloc, if_neg hne, hfind, hcnt, hn, hget, ok_bind]
  cases r with
  | none => exact ⟨none, _, rfl, hs.congr hA⟩
  | some a =>
    have hpaged := (Paged.of_holds hA).of_append
    have hbound := hpaged.bound ⟨a, n, false⟩ mem_cons_self
    have haddr : u32 (a + ARENA_SIZE) = a + ARENA_SIZE := by
      refine u32_of_lt ?_
      unfold PGSIZE ARENA_SIZE at *
      simp only at hbound
      omega
    refine ⟨some (a + ARENA_SIZE), ({ h with
      palloc := palloc
      pages := ⟨a, n, false⟩ :: h.pages } : Heap A).setArena a ⟨ARENA_MAGIC, none, n⟩,
      by simp only [haddr]; rfl, ?_, ?_, hA⟩
    · refine hs.core.addBig (a := ⟨a, n, false⟩) hpaged rfl rfl rfl (fun b hb => ?_) ?_ hroom
      · exact update_of_ne (hpaged.ne_of_cons hb) ..
      · exact update_self ..
    · intro b hb
      rcases mem_cons.1 hb with rfl | hb
      · have hal := hpaged.aligned _ mem_cons_self
        refine ⟨(a + ARENA_SIZE, size), mem_cons_self, ?_⟩
        unfold pgRoundDown pgOfs PGSIZE ARENA_SIZE at *
        simp only at hal ⊢
        omega
      · obtain ⟨p, hp, hround⟩ := hs.held b hb
        exact ⟨p, mem_cons_of_mem _ hp, hround⟩

lemma takeBlock_spec (hs : h.Core live) (hd : h.descs[i]? = some d) (hne : d.freeList ≠ [])
    (hsize : size ≤ d.blockSize) : ∃ b h', h.takeBlock i = .ok (some b, h') ∧
      h'.Core ((b, size) :: live) ∧ h'.pages = h.pages ∧ h'.palloc = h.palloc ∧ b ∈ d.freeList := by
  obtain ⟨b, rest, hlist⟩ := exists_cons_of_ne_nil hne
  have hmem : b ∈ d.freeList := hlist ▸ mem_cons_self
  obtain ⟨a, ha, hdesc, j, hj, rfl⟩ := ((hs.free i d hd b).1 hmem).1
  have hget : (h.setFreeList i rest).descs[i]? = some { d with freeList := rest } :=
    Core.get_modify.2 ⟨d, hd, by rw [if_pos rfl]⟩
  have hpos := hs.paged.pos a ha
  have hcnt : 0 < (h.arena a.pages).freeCnt ∧ (h.arena a.pages).freeCnt < 2 ^ 32 := by
    have hfreeCnt := hs.freeCnt_eq ha hdesc hd
    have hle := hs.countP_le ha hd
    have hroom := (hs.fits_of_get hd).room
    have hmul := Nat.le_mul_of_pos_right d.blocksPerArena (hs.fits_of_get hd).pos
    have hpos : 0 < d.freeList.countP (pgRoundDown · = a.pages) :=
      countP_pos_iff.2 ⟨_, hmem, decide_eq_true (hs.round_block ha hd hj)⟩
    unfold PGSIZE at hroom
    omega
  refine ⟨d.block a.pages j, (h.setFreeList i rest).setArena a.pages { h.arena a.pages with
    freeCnt := (h.arena a.pages).freeCnt - 1 }, ?_, hs.take ha hdesc hd hj hlist hsize rfl rfl
      (fun c hc hca => ?_) ?_, rfl, rfl, hmem⟩
  · have hdec : u32 ((h.arena a.pages).freeCnt + 2 ^ 32 - 1) = (h.arena a.pages).freeCnt - 1 := by
      unfold u32
      omega
    simp only [takeBlock, Core.getDesc hd, ok_bind, hlist]
    rw [Core.blockToArena_eq (h := h.setFreeList i rest) (hs.fits_of_get hd)
      (hs.paged.aligned a ha) hpos.1 (hs.magic a ha) hdesc hget rfl hj, ok_bind]
    exact congrArg (fun n => Except.ok (some (d.block a.pages j),
      (h.setFreeList i rest).setArena a.pages { h.arena a.pages with freeCnt := n })) hdec
  · exact update_of_ne (fun heq => hca (hs.paged.eq_of_pages hc ha heq)) ..
  · exact update_self ..

theorem newArena_spec (hs : h.Good live others) (hd : h.descs[i]? = some d) :
    (∃ palloc, h.newArena i = .ok (false, { h with palloc := palloc }) ∧
      A.Holds palloc (h.pages ++ others)) ∨
    ∃ a h', h.newArena i = .ok (true, h') ∧ h'.Core live ∧ h'.pages = a :: h.pages ∧
      A.Holds h'.palloc (h'.pages ++ others) ∧
        h'.descs[i]? = some { d with freeList := d.freeList ++ d.blocks a.pages } := by
  obtain ⟨r, palloc, hget, hA⟩ := getPages_spec hs.holds one_pos
  have hdesc : ∀ palloc arena pages, (⟨palloc, h.descs, arena, pages⟩ : Heap A).getDesc i = .ok d :=
    fun _ _ _ => Core.getDesc hd
  cases r with
  | none =>
    left
    refine ⟨palloc, ?_, hA⟩
    rw [newArena, hget]
    rfl
  | some a =>
    right
    have hpaged := (Paged.of_holds hA).of_append
    have hfits := hs.core.fits_of_get hd
    have hpos := (hpaged.pos ⟨a, 1, false⟩ mem_cons_self).1
    have hbound := hpaged.bound ⟨a, 1, false⟩ mem_cons_self
    rw [mul_one] at hbound
    obtain ⟨h1, hh1⟩ : ∃ h1 : Heap A, h1 = ({ h with
      palloc := palloc
      pages := ⟨a, 1, false⟩ :: h.pages } : Heap A).setArena a
        ⟨ARENA_MAGIC, some i, d.blocksPerArena⟩ := ⟨_, rfl⟩
    have harena : h1.arena a = ⟨ARENA_MAGIC, some i, d.blocksPerArena⟩ := by
      rw [hh1]
      exact update_self ..
    have hblock : ∀ j < d.blocksPerArena, h1.arenaToBlock a j = .ok (d.block a j) := fun j hj =>
      Core.arenaToBlock_eq hfits hpos hbound (by rw [harena]) (by rw [harena])
        (by rw [hh1]; exact hdesc ..) hj
    refine ⟨⟨a, 1, false⟩, h1.setFreeList i (d.freeList ++ d.blocks a), ?_, ?_, ?_, ?_, ?_⟩
    · simp only [newArena, hget, ok_bind, hdesc]
      have hloop := pushLoop d.freeList hblock
      rw [hh1] at hloop ⊢
      exact bind_eq_ok.2 ⟨_, hloop, rfl⟩
    · refine hs.core.addArena hd hpaged rfl rfl (by rw [hh1]; rfl) (by rw [hh1]; rfl)
        (fun b hb => ?_) harena
      rw [hh1]
      exact update_of_ne (hpaged.ne_of_cons hb) ..
    · rw [hh1]
      rfl
    · rw [hh1]
      exact hA
    · rw [hh1]
      exact Core.get_modify.2 ⟨d, hd, by rw [if_pos rfl]⟩

theorem malloc_spec (hs : h.Good live others) (hsize : size + ARENA_SIZE + PGSIZE ≤ 2 ^ 32) :
    ∃ r h', h.malloc size = .ok (r, h') ∧
      h'.Good ((r.map fun p => (p, size)).toList ++ live) others := by
  by_cases hne : size = 0
  · exact ⟨none, h, by rw [malloc, if_pos hne]; rfl, hs⟩
  cases hfind : h.descs.findIdx? (fun d => size ≤ d.blockSize) with
  | none => exact malloc_big hs hsize hne hfind
  | some i =>
    obtain ⟨hlt, hle, _⟩ := findIdx?_eq_some_iff_getElem.1 hfind
    have hd : h.descs[i]? = some h.descs[i] := getElem?_eq_getElem hlt
    have hle : size ≤ h.descs[i].blockSize := of_decide_eq_true hle
    generalize h.descs[i] = d at hd hle
    simp only [malloc, if_neg hne, hfind, Core.getDesc hd, ok_bind]
    by_cases hnil : d.freeList = []
    · rw [if_pos hnil]
      rcases newArena_spec hs hd with ⟨_, hnew, hA⟩ | ⟨a, _, hnew, hcore, hpages, hA, hd1⟩
      · exact ⟨none, _, by rw [hnew]; rfl, hs.congr hA⟩
      · rw [hnil, nil_append] at hd1
        have hblocks : d.blocks a.pages ≠ [] := by
          intro hempty
          have hpos := (hs.core.fits_of_get hd).nonempty
          rw [← Desc.length_blocks (a := a.pages), hempty] at hpos
          exact absurd hpos (lt_irrefl 0)
        obtain ⟨b, h2, htake, hcore2, hpages2, hpalloc2, hb⟩ := takeBlock_spec hcore hd1 hblocks hle
        refine ⟨some b, h2, by rw [hnew, ok_bind, if_pos rfl, htake], hcore2,
          fun c hc => ?_, by rw [hpages2, hpalloc2]; exact hA⟩
        rw [hpages2, hpages] at hc
        rcases mem_cons.1 hc with rfl | hc
        · -- the block is one of the new arena
          obtain ⟨j, hj, rfl⟩ := Desc.mem_blocks.1 hb
          have hal := hcore.paged.aligned c (hpages ▸ mem_cons_self)
          exact ⟨_, mem_cons_self, (hs.core.fits_of_get hd).pgRoundDown_block hal hj⟩
        · obtain ⟨p, hp, hround⟩ := hs.held c hc
          exact ⟨p, mem_cons_of_mem _ hp, hround⟩
    · rw [if_neg hnil]
      obtain ⟨b, h2, htake, hcore2, hpages2, hpalloc2, _⟩ := takeBlock_spec hs.core hd hnil hle
      refine ⟨some b, h2, by rw [pure_eq_ok, ok_bind, if_pos rfl, htake], hcore2,
        fun c hc => ?_, by rw [hpages2, hpalloc2]; exact hs.holds⟩
      rw [hpages2] at hc
      obtain ⟨p, hp, hround⟩ := hs.held c hc
      exact ⟨p, mem_cons_of_mem _ hp, hround⟩

end Malloc

/-! ### `free` -/

section Free

variable {live : List (ℕ × ℕ)} {others : List Allocation} {a : Allocation} {p : ℕ × ℕ} {j : ℕ}

lemma freePages_spec (hA : A.Holds h.palloc (h.pages ++ others)) (ha : a ∈ h.pages)
    (huser : a.user = false) : ∃ palloc, h.freePages a.pages a.pageCnt = .ok (({ h with
        palloc := palloc
        pages := h.pages.erase a } : Heap A).clear a.pages (PGSIZE * a.pageCnt)) ∧
      A.Holds palloc (h.pages.erase a ++ others) := by
  obtain ⟨palloc, hfree, hA'⟩ := A.free_spec hA (mem_append_left _ ha)
  have hself : (⟨a.pages, a.pageCnt, false⟩ : Allocation) = a := by rw [← huser]
  refine ⟨palloc, ?_, by rwa [erase_append_left _ ha] at hA'⟩
  rw [freePages, hfree, hself]
  rfl

lemma Held.erase (hheld : h.Held live) (hc : c ∈ h.pages) (hne : pgRoundDown p.1 ≠ c.pages) :
    ∃ q ∈ live.erase p, pgRoundDown q.1 = c.pages := by
  obtain ⟨q, hq, hround⟩ := hheld c hc
  refine ⟨q, (mem_erase_of_ne fun heq => hne ?_).2 hq, hround⟩
  rw [← heq]
  exact hround

lemma free_big (hs : h.Good live others) (hp : p ∈ live) (ha : a ∈ h.pages)
    (hdesc : (h.arena a.pages).desc = none) (haddr : p.1 = a.pages + ARENA_SIZE) :
    ∃ h', h.free p.1 = .ok h' ∧ h'.Good (live.erase p) others := by
  obtain ⟨_, hfree, hA⟩ := freePages_spec hs.holds ha (hs.core.kernel a ha)
  obtain ⟨hround, _⟩ := hs.core.pgRoundDown_big ha
  have hp' : p = (a.pages + ARENA_SIZE, p.2) := Prod.ext haddr rfl
  have heq : h.free p.1 = h.freePages a.pages a.pageCnt := by
    have hne : p.1 ≠ 0 := by
      have := (hs.core.paged.pos a ha).1
      omega
    rw [free, if_neg hne, haddr, hs.core.blockToArena_big ha hdesc, ok_bind, hdesc,
      hs.core.big a ha hdesc]
  rw [heq]
  refine ⟨_, hfree, ?_, ?_, hA⟩
  · rw [hp'] at hp ⊢
    refine hs.core.dropBig ha rfl (fun c hc hca => ?_) hdesc rfl hp
    exact hs.core.clear_pages ha hc hca
  · intro c hc
    obtain ⟨hca, hc⟩ := hs.core.paged.mem_erase.1 hc
    refine hs.held.erase hc fun heq => hca (hs.core.paged.eq_of_pages hc ha ?_)
    rw [← heq, haddr, hround]

def putBack (h : Heap A) (a i : ℕ) (d : Desc) (b : ℕ) : Heap A :=
  ((h.clear b d.blockSize).setFreeList i (b :: d.freeList)).setArena a
    { h.arena a with freeCnt := (h.arena a).freeCnt + 1 }

section Small

variable (hs : h.Good live others) (hp : p ∈ live) (ha : a ∈ h.pages)
  (hdesc : (h.arena a.pages).desc = some i) (hd : h.descs[i]? = some d)
  (hj : j < d.blocksPerArena) (haddr : p.1 = d.block a.pages j)

include hs ha hd hj haddr

lemma putBack_arena (hc : c ∈ h.pages) (hca : c ≠ a) :
    (h.putBack a.pages i d p.1).arena c.pages = h.arena c.pages := by
  rw [haddr]
  have hne : c.pages ≠ a.pages := fun heq => hca (hs.core.paged.eq_of_pages hc ha heq)
  refine (update_of_ne hne ..).trans ?_
  exact hs.core.clear_block ha (hs.core.fits_of_get hd) hj c hc

include hp hdesc

lemma putBack_core : (h.putBack a.pages i d p.1).Core (live.erase p) := by
  have hp' : p = (d.block a.pages j, p.2) := Prod.ext haddr rfl
  have harena := fun c hc hca => putBack_arena hs ha hd hj haddr (c := c) hc hca
  rw [haddr] at harena ⊢
  rw [hp'] at hp ⊢
  exact hs.core.give ha hdesc hd hj hp rfl rfl harena (update_self ..)

lemma free_small : ∃ h', h.free p.1 = .ok h' ∧ h'.Good (live.erase p) others := by
  have hfits := hs.core.fits_of_get hd
  have hal := hs.core.paged.aligned a ha
  have hpos := hs.core.paged.pos a ha
  have hcore := putBack_core hs hp ha hdesc hd hj haddr
  have hround : pgRoundDown p.1 = a.pages := by rw [haddr, hfits.pgRoundDown_block hal hj]
  obtain ⟨h1, hh1⟩ : ∃ h1, h1 = h.putBack a.pages i d p.1 := ⟨_, rfl⟩
  rw [← hh1] at hcore
  have hpages : h1.pages = h.pages := by rw [hh1]; rfl
  have ha1 : a ∈ h1.pages := hpages ▸ ha
  have harena : h1.arena a.pages =
      { h.arena a.pages with freeCnt := (h.arena a.pages).freeCnt + 1 } := by
    rw [hh1]
    exact update_self ..
  have hdesc1 : (h1.arena a.pages).desc = some i := by rw [harena]; exact hdesc
  have hd1 : h1.descs[i]? = some { d with freeList := p.1 :: d.freeList } := by
    rw [hh1]
    exact Core.get_modify.2 ⟨d, hd, by rw [if_pos rfl]⟩
  have hcnt1 : (h1.arena a.pages).freeCnt =
      (p.1 :: d.freeList).countP (pgRoundDown · = a.pages) := hcore.freeCnt_eq ha1 hdesc1 hd1
  have hle : (h1.arena a.pages).freeCnt ≤ d.blocksPerArena := hcnt1 ▸ hcore.countP_le ha1 hd1
  have hcnt : (h1.arena a.pages).freeCnt = (h.arena a.pages).freeCnt + 1 := by rw [harena]
  have hsmall : d.blocksPerArena < 2 ^ 32 := by
    have hroom := hfits.room
    have hmul := Nat.le_mul_of_pos_right d.blocksPerArena hfits.pos
    unfold PGSIZE at hroom
    omega
  -- the other arenas
  have hothers : ∀ c ∈ h.pages, c ≠ a → ∃ q ∈ live.erase p, pgRoundDown q.1 = c.pages := by
    refine fun c hc hca => hs.held.erase hc fun heq => hca ?_
    exact hs.core.paged.eq_of_pages hc ha (heq.symm.trans hround)
  have hfree : h.free p.1 = if (h1.arena a.pages).freeCnt ≥ d.blocksPerArena then do
      ASSERT ((h1.arena a.pages).freeCnt = d.blocksPerArena)
      let freeList ← forLoop d.blocksPerArena (fun freeList idx => do
        let b ← h1.arenaToBlock a.pages idx
        listRemove freeList b) (p.1 :: d.freeList)
      (h1.setFreeList i freeList).freePages a.pages 1
    else return h1 := by
    have hne : p.1 ≠ 0 := by
      rw [haddr, Desc.block]
      omega
    have hclear := hs.core.clear_block ha hfits hj a ha
    rw [← haddr] at hclear
    have hinc : u32 ((((h.clear p.1 d.blockSize).setFreeList i
        (p.1 :: d.freeList)).arena a.pages).freeCnt + 1) = (h.arena a.pages).freeCnt + 1 := by
      show u32 (((h.clear p.1 d.blockSize).arena a.pages).freeCnt + 1) = _
      rw [hclear]
      exact u32_of_lt (by omega)
    have hput : ((h.clear p.1 d.blockSize).setFreeList i (p.1 :: d.freeList)).setArena a.pages
        { ((h.clear p.1 d.blockSize).setFreeList i (p.1 :: d.freeList)).arena a.pages with
          freeCnt := (h.arena a.pages).freeCnt + 1 } = h1 := by
      rw [hh1, putBack, ← hclear]
      rfl
    rw [free, if_neg hne]
    have hto := hs.core.blockToArena_block ha hdesc hd hj
    rw [← haddr] at hto
    rw [hto, ok_bind, hdesc]
    simp only [Core.getDesc hd, ok_bind, hinc, hput, hcnt]
  rw [hfree]
  by_cases hall : (h1.arena a.pages).freeCnt ≥ d.blocksPerArena
  · -- the arena has no live block left
    rw [if_pos hall, ASSERT_of (le_antisymm hle hall), ok_bind]
    have hall' : d.blocksPerArena ≤ (p.1 :: d.freeList).countP (pgRoundDown · = a.pages) :=
      hcnt1 ▸ hall
    have hone : a.pageCnt = 1 := (hs.core.small a ha i hdesc).1
    have hbound := hs.core.paged.bound a ha
    rw [hone, mul_one] at hbound
    have hblock : ∀ k < d.blocksPerArena, h1.arenaToBlock a.pages k = .ok (d.block a.pages k) := by
      intro k hk
      have hfits1 := hcore.fits_of_get hd1
      exact Core.arenaToBlock_eq (d := { d with freeList := p.1 :: d.freeList }) hfits1
        hpos.1 hbound
        (hcore.magic a ha1) hdesc1 (Core.getDesc hd1) hk
    rw [removeLoop hfits (hcore.nodup i _ hd1) hblock fun b hb => hcore.mem_of_countP ha1 hd1
      hall' hb,
      ok_bind]
    have hfilter : (p.1 :: d.freeList).filter (fun b => b ∉ d.blocks a.pages) =
        (p.1 :: d.freeList).filter fun b => pgRoundDown b ≠ a.pages := by
      refine filter_congr fun b hb => ?_
      rw [Bool.eq_iff_iff, decide_eq_true_eq, decide_eq_true_eq]
      refine not_congr ⟨fun hmem => ?_, fun h => hcore.mem_blocks_of_round ha1 hd1 hb h⟩
      obtain ⟨k, hk, rfl⟩ := Desc.mem_blocks.1 hmem
      exact hfits.pgRoundDown_block hal hk
    obtain ⟨h2, hh2⟩ : ∃ h2, h2 = h1.setFreeList i ((p.1 :: d.freeList).filter fun b =>
      b ∉ d.blocks a.pages) := ⟨_, rfl⟩
    have hpages2 : h2.pages = h.pages := by rw [hh2]; exact hpages
    have hA2 : A.Holds h2.palloc (h2.pages ++ others) := by
      rw [hpages2, hh2, hh1]
      exact hs.holds
    obtain ⟨_, hdrop, hA⟩ := freePages_spec hA2 (hpages2 ▸ ha) (hs.core.kernel a ha)
    rw [← hh2]
    rw [hone] at hdrop
    refine ⟨_, hdrop, ?_, fun c hc => ?_, hA⟩
    · refine hcore.drop ha1 ?_ (fun c hc hca => ?_) hdesc1 hd1 ?_
        fun q hq => hcore.round_ne_of_countP ha1 hdesc1 hd1 hall' hq
      · rw [hh2]
        rfl
      · have hclear := hcore.clear_pages ha1 hc hca
        rw [hone] at hclear
        rw [hh2]
        exact hclear
      · rw [hh2, hfilter]
        rfl
    · have hc : c ∈ h2.pages.erase a := hc
      rw [hpages2] at hc
      obtain ⟨hca, hc⟩ := hs.core.paged.mem_erase.1 hc
      exact hothers c hc hca
  · rw [if_neg hall]
    refine ⟨h1, rfl, hcore, fun c hc => ?_, ?_⟩
    · by_cases hca : c = a
      · rw [hca]
        exact hcore.exists_live ha1 hdesc1 hd1 (hcnt1 ▸ Nat.lt_of_not_ge hall)
      · exact hothers c (hpages ▸ hc) hca
    · rw [hpages, hh1]
      exact hs.holds

end Small

/-- **`free` of a live block returns** and keeps the heap in order. -/
theorem free_spec (hs : h.Good live others) (hp : p ∈ live) :
    ∃ h', h.free p.1 = .ok h' ∧ h'.Good (live.erase p) others := by
  cases hs.core.alive p hp with
  | big a mem desc addr => exact free_big hs hp mem desc addr
  | small a i d j mem desc get idx addr => exact free_small hs hp mem desc get idx addr

end Free

end Heap

/-! ### Runs -/

/-- The allocator, the live blocks with their sizes, and what others have allocated. -/
structure HeapClient (A : PageAllocator) where
  heap : Heap A
  live : List (ℕ × ℕ)
  others : List Allocation

inductive HeapEvent (A : PageAllocator)
  | malloc (size : ℕ)
  | free (p : ℕ)
  /-- Other clients call the page allocator. -/
  | other (palloc : A.State) (others : List Allocation)
  /-- Anyone writes to memory. -/
  | write (arena : ℕ → Arena)

namespace HeapClient

variable {A : PageAllocator} {s s' : HeapClient A} {e : HeapEvent A} {a : Allocation}

def Step (s : HeapClient A) (e : HeapEvent A) (s' : HeapClient A) : Prop :=
  match e with
  | .malloc size => ∃ r, s.heap.malloc size = .ok (r, s'.heap) ∧
    s'.live = (r.map fun p => (p, size)).toList ++ s.live ∧ s'.others = s.others
  | .free p => ∃ size, (p, size) ∈ s.live ∧ s.heap.free p = .ok s'.heap ∧
    s'.live = s.live.erase (p, size) ∧ s'.others = s.others
  | .other palloc others => A.Holds palloc (s.heap.pages ++ others) ∧
    s' = ⟨{ s.heap with palloc := palloc }, s.live, others⟩
  | .write arena => (∀ a ∈ s.heap.pages, arena a.pages = s.heap.arena a.pages) ∧
    s' = { s with heap := { s.heap with arena := arena } }

def Meets (_ : HeapClient A) : HeapEvent A → Prop
  | .malloc size => size + ARENA_SIZE + PGSIZE ≤ 2 ^ 32
  | _ => True

/-- **The heap is safe.** -/
structure Safe (s : HeapClient A) : Prop where
  /-- A live block has the size that was asked for, after the header of an allocation. -/
  inside : ∀ p size, (p, size) ∈ s.live → ∃ n, s.heap.blockSize p = .ok n ∧ size ≤ n ∧
    ∃ a ∈ s.heap.pages, a.pages + ARENA_SIZE ≤ p ∧ p + n ≤ a.pages + PGSIZE * a.pageCnt
  disjoint : s.live.Pairwise fun b c => ∀ n m, s.heap.blockSize b.1 = .ok n →
    s.heap.blockSize c.1 = .ok m → Disjoint (Set.Ico b.1 (b.1 + n)) (Set.Ico c.1 (c.1 + m))
  /-- A free list holds the blocks of its arenas that are not live, once. -/
  freeList : ∀ (i : ℕ) (d : Desc), s.heap.descs[i]? = some d → d.freeList.Nodup ∧
    ∀ b, b ∈ d.freeList ↔ (∃ a ∈ s.heap.pages, (s.heap.arena a.pages).desc = some i ∧
      ∃ j < d.blocksPerArena, b = a.pages + ARENA_SIZE + j * d.blockSize) ∧
        ∀ size, (b, size) ∉ s.live
  freeCnt : ∀ a ∈ s.heap.pages, ∀ (i : ℕ) (d : Desc), (s.heap.arena a.pages).desc = some i →
    s.heap.descs[i]? = some d →
      (s.heap.arena a.pages).freeCnt = d.freeList.countP (pgRoundDown · = a.pages)
  /-- Pages are held as long as they have a live block, and no longer. -/
  held : ∀ a ∈ s.heap.pages, ∃ p size, (p, size) ∈ s.live ∧ p ∈ a.area
  /-- No assertion fails. -/
  malloc : ∀ size, size + ARENA_SIZE + PGSIZE ≤ 2 ^ 32 → ∃ r, s.heap.malloc size = .ok r
  free : ∀ p size, (p, size) ∈ s.live → ∃ h, s.heap.free p = .ok h

lemma step (hs : s.heap.Good s.live s.others) (h : Step s e s') (hm : s.Meets e) :
    s'.heap.Good s'.live s'.others := by
  cases e with
  | malloc =>
    obtain ⟨r, hr, hlive, hothers⟩ := h
    obtain ⟨_, _, heq, hgood⟩ := Heap.malloc_spec hs hm
    obtain ⟨rfl, rfl⟩ := Prod.mk.inj (Except.ok.inj (hr.symm.trans heq))
    rw [hlive, hothers]
    exact hgood
  | free =>
    obtain ⟨_, hp, hr, hlive, hothers⟩ := h
    obtain ⟨_, heq, hgood⟩ := Heap.free_spec hs hp
    obtain rfl := Except.ok.inj (hr.symm.trans heq)
    rw [hlive, hothers]
    exact hgood
  | other =>
    obtain ⟨hA, rfl⟩ := h
    exact hs.congr hA
  | write =>
    obtain ⟨harena, rfl⟩ := h
    exact ⟨hs.core.congr rfl rfl harena, hs.held, hs.holds⟩

/-! ### The bytes of a live block -/

lemma blockSize_big (hs : s.heap.Core s.live) (ha : a ∈ s.heap.pages)
    (hdesc : (s.heap.arena a.pages).desc = none) :
    s.heap.blockSize (a.pages + ARENA_SIZE) = .ok (PGSIZE * a.pageCnt - ARENA_SIZE) := by
  obtain ⟨_, hofs⟩ := hs.pgRoundDown_big ha
  obtain ⟨_, _⟩ := hs.paged.pos a ha
  have hbound := hs.paged.bound a ha
  have hword : u32 (u32 (PGSIZE * a.pageCnt) + 2 ^ 32 - ARENA_SIZE) =
      PGSIZE * a.pageCnt - ARENA_SIZE := by
    unfold u32 PGSIZE ARENA_SIZE at *
    omega
  simp only [Heap.blockSize, hs.blockToArena_big ha hdesc, ok_bind, hdesc, hofs,
    hs.big a ha hdesc, hword]
  rfl

lemma blockSize_small (hs : s.heap.Core s.live) {i j : ℕ} {d : Desc} (ha : a ∈ s.heap.pages)
    (hdesc : (s.heap.arena a.pages).desc = some i) (hd : s.heap.descs[i]? = some d)
    (hj : j < d.blocksPerArena) : s.heap.blockSize (d.block a.pages j) = .ok d.blockSize := by
  simp only [Heap.blockSize, hs.blockToArena_block ha hdesc hd hj, ok_bind, hdesc,
    Heap.Core.getDesc hd]
  rfl

lemma inside_of_live (hs : s.heap.Core s.live) (hp : p ∈ s.live) :
    ∃ n, s.heap.blockSize p.1 = .ok n ∧ p.2 ≤ n ∧ ∃ a ∈ s.heap.pages,
      pgRoundDown p.1 = a.pages ∧ a.pages + ARENA_SIZE ≤ p.1 ∧ 0 < n ∧
        p.1 + n ≤ a.pages + PGSIZE * a.pageCnt := by
  cases hs.alive p hp with
  | big a mem desc addr =>
    obtain ⟨_, hcnt⟩ := hs.paged.pos a mem
    have hpage : PGSIZE ≤ PGSIZE * a.pageCnt := Nat.le_mul_of_pos_right _ hcnt
    have hsize : ARENA_SIZE < PGSIZE := by decide
    refine ⟨_, addr ▸ blockSize_big hs mem desc, by omega, a, mem, ?_, addr.ge, by omega, by omega⟩
    rw [addr, (hs.pgRoundDown_big mem).1]
  | small a i d j mem desc get idx addr size =>
    have hfits := hs.fits_of_get get
    have hle := hfits.block_le (a := a.pages) idx
    have hone := (hs.small a mem i desc).1
    refine ⟨_, addr ▸ blockSize_small hs mem desc get idx, size, a, mem, ?_, ?_, hfits.pos, ?_⟩
    · rw [addr, hs.round_block mem get idx]
    · rw [addr, Desc.block]
      omega
    · rw [addr, hone, mul_one]
      exact hle

lemma disjoint_of_live (hs : s.heap.Core s.live) {q : ℕ × ℕ} (hp : p ∈ s.live) (hq : q ∈ s.live)
    (hne : p.1 ≠ q.1) {n m : ℕ} (hn : s.heap.blockSize p.1 = .ok n)
    (hm : s.heap.blockSize q.1 = .ok m) :
    Disjoint (Set.Ico p.1 (p.1 + n)) (Set.Ico q.1 (q.1 + m)) := by
  obtain ⟨_, hn', _, a, ha, hra, _, _, _⟩ := inside_of_live hs hp
  obtain ⟨_, hm', _, b, hb, hrb, _, _, _⟩ := inside_of_live hs hq
  obtain rfl := Except.ok.inj (hn.symm.trans hn')
  obtain rfl := Except.ok.inj (hm.symm.trans hm')
  by_cases hab : a = b
  · -- two blocks of one arena
    subst hab
    rcases hs.live_of_round hp ha hra with ⟨desc, addr⟩ | ⟨i, d, j, desc, get, idx, addr⟩
    · rcases hs.live_of_round hq ha hrb with ⟨_, addr'⟩ | ⟨_, _, _, desc', _⟩
      · exact absurd (addr.trans addr'.symm) hne
      · rw [desc] at desc'
        cases desc'
    · rcases hs.live_of_round hq ha hrb with ⟨desc', _⟩ | ⟨_, _, _, desc', get', idx', addr'⟩
      · rw [desc] at desc'
        cases desc'
      · obtain rfl := Option.mem_unique desc desc'
        obtain rfl := Option.mem_unique get get'
        rw [addr, blockSize_small hs ha desc get idx] at hn
        rw [addr', blockSize_small hs ha desc get idx'] at hm
        cases hn
        cases hm
        rw [addr, addr']
        refine Desc.disjoint_blocks fun hjj => hne ?_
        rw [addr, addr', hjj]
  · -- in two allocations
    refine Set.disjoint_left.2 fun x hx hx' => hab ?_
    obtain ⟨_, _⟩ := hx
    obtain ⟨_, _⟩ := hx'
    exact hs.paged.eq_of_mem ha hb (x := x) ⟨by omega, by omega⟩ ⟨by omega, by omega⟩

lemma Safe.of_good (hs : s.heap.Good s.live s.others) : s.Safe where
  inside p size hp := by
    obtain ⟨n, hn, hle, a, ha, _, hpa, _, hpb⟩ := inside_of_live hs.core hp
    exact ⟨n, hn, hle, a, ha, hpa, hpb⟩
  disjoint := by
    have hpair : s.live.Pairwise fun b c => b.1 ≠ c.1 := pairwise_map.1 hs.core.distinct
    exact hpair.imp_of_mem fun hb hc hne n m hn hm => disjoint_of_live hs.core hb hc hne hn hm
  freeList i d hd := by
    refine ⟨hs.core.nodup i d hd, fun b => (hs.core.free i d hd b).trans
      (and_congr_right fun _ => ?_)⟩
    simp
  freeCnt _ ha _ _ hdesc hd := hs.core.freeCnt_eq ha hdesc hd
  held a ha := by
    obtain ⟨p, hp, hround⟩ := hs.held a ha
    obtain ⟨n, _, _, b, hb, hrb, _, _, _⟩ := inside_of_live hs.core hp
    obtain rfl := hs.core.paged.eq_of_pages ha hb (hround.symm.trans hrb)
    exact ⟨p.1, p.2, hp, by omega, by omega⟩
  malloc size hsize := by
    obtain ⟨r, h', heq, _⟩ := Heap.malloc_spec hs hsize
    exact ⟨(r, h'), heq⟩
  free p size hp := by
    obtain ⟨h', heq, _⟩ := Heap.free_spec hs hp
    exact ⟨h', heq⟩

/-- The state after `malloc_init`: nothing is allocated, and memory holds anything. -/
def start (A : PageAllocator) (palloc : A.State) (others : List Allocation) (descs : List Desc)
    (arena : ℕ → Arena) : HeapClient A :=
  ⟨⟨palloc, descs, arena, []⟩, [], others⟩

lemma mallocInit_fits (h : mallocInit = .ok descs) : ∀ d ∈ descs, d.Fits ∧ d.freeList = [] := by
  obtain rfl := Except.ok.inj (h.symm.trans (show mallocInit = .ok [⟨16, 255, []⟩, ⟨32, 127, []⟩,
    ⟨64, 63, []⟩, ⟨128, 31, []⟩, ⟨256, 15, []⟩, ⟨512, 7, []⟩, ⟨1024, 3, []⟩] by decide +kernel))
  intro d hd
  simp only [mem_cons, not_mem_nil, or_false] at hd
  rcases hd with rfl | rfl | rfl | rfl | rfl | rfl | rfl <;>
    exact ⟨⟨by decide, by decide, by decide⟩, rfl⟩

lemma start_good {palloc : A.State} {arena : ℕ → Arena} (hA : A.Holds palloc others)
    (hinit : mallocInit = .ok descs) : (start A palloc others descs arena).heap.Good [] others := by
  have hfits := mallocInit_fits hinit
  have hget : ∀ (i : ℕ) (d : Desc), descs[i]? = some d → d.freeList = [] := fun i d hd =>
    (hfits d (mem_of_getElem? hd)).2
  refine ⟨?_, nofun, hA⟩
  exact {
    paged := ⟨nofun, nofun, nofun, List.Pairwise.nil⟩
    kernel := nofun
    fits := fun d hd => (hfits d hd).1
    magic := nofun
    big := nofun
    small := nofun
    nodup := fun i d hd => by rw [hget i d hd]; exact nodup_nil
    free := fun i d hd b => by
      rw [hget i d hd]
      exact iff_of_false not_mem_nil fun ⟨⟨_, h, _⟩, _⟩ => not_mem_nil h
    alive := nofun
    distinct := nodup_nil }

/-- **The heap is safe** in every run of `malloc` and of `free` on live blocks, with any page
allocator that keeps the contract. -/
theorem heap_safe (A : PageAllocator) {palloc : A.State} {others : List Allocation}
    {descs : List Desc} (arena : ℕ → Arena) (hA : A.Holds palloc others)
    (hinit : mallocInit = .ok descs) {s : HeapClient A}
    (hr : Reaches Step Meets (start A palloc others descs arena) s) : s.Safe :=
  .of_good (hr.invariant (fun s => s.heap.Good s.live s.others) step (start_good hA hinit))

def call (s : HeapClient A) : HeapEvent A → Option (HeapClient A)
  | .malloc size =>
    if size + ARENA_SIZE + PGSIZE ≤ 2 ^ 32 then
      match s.heap.malloc size with
      | .ok (r, h) => some ⟨h, (r.map fun p => (p, size)).toList ++ s.live, s.others⟩
      | .error _ => none
    else none
  | .free p =>
    match s.live.find? (fun b => b.1 = p), s.heap.free p with
    | some b, .ok h => some ⟨h, s.live.erase b, s.others⟩
    | _, _ => none
  | _ => none

lemma call_step (h : s.call e = some s') : Step s e s' ∧ s.Meets e := by
  cases e with
  | malloc =>
    simp only [call] at h
    split_ifs at h with hsize
    split at h
    · rename_i r heap hok
      cases h
      exact ⟨⟨r, hok, rfl, rfl⟩, hsize⟩
    · cases h
  | free p =>
    simp only [call] at h
    split at h
    · rename_i b heap hfind hok
      cases h
      obtain ⟨q, size⟩ := b
      have hq := find?_some hfind
      obtain rfl : q = p := of_decide_eq_true hq
      exact ⟨⟨size, mem_of_find?_eq_some hfind, hok, rfl, rfl⟩, trivial⟩
    · cases h
  | other => cases h
  | write => cases h

theorem heap_safe_returned : ∃ (p : Palloc) (descs : List Desc)
    (s : HeapClient (pallocAllocator 272 (by decide))),
    pallocInit 272 4 (fun _ => 0) (fun _ => 0) (fun _ => 0) = .ok p ∧ mallocInit = .ok descs ∧
      Reaches Step Meets (start (pallocAllocator 272 (by decide)) p [] descs fun _ => .cleared) s ∧
      s.live = [(0xc010200c, 5000)] ∧ s.heap.pages = [⟨0xc0102000, 2, false⟩] ∧ s.Safe := by
  obtain ⟨p, descs, hp, hdescs, hrun⟩ : ∃ p descs,
      pallocInit 272 4 (fun _ => 0) (fun _ => 0) (fun _ => 0) = .ok p ∧ mallocInit = .ok descs ∧
        (runThrough call [.malloc 1000, .malloc 5000, .malloc 1000, .free 0xc010100c,
          .free 0xc010140c] (start (pallocAllocator 272 (by decide)) p [] descs fun _ =>
            .cleared)).any (fun s : HeapClient (pallocAllocator 272 (by decide)) =>
              s.live == [(0xc010200c, 5000)] &&
              s.heap.pages == [⟨0xc0102000, 2, false⟩]) = true :=
    ⟨_, _, rfl, rfl, by decide +kernel⟩
  have hA : PallocClient.Inv 272 ⟨p, []⟩ := pallocInit_inv (by decide) (by decide) hp
  obtain ⟨s, hr, hs⟩ := exists_runThrough call_step _ _ _ hrun
  simp only [Bool.and_eq_true, beq_iff_eq] at hs
  exact ⟨p, descs, s, hp, hdescs, hr, hs.1, hs.2,
    heap_safe (pallocAllocator 272 (by decide)) (fun _ => .cleared) hA hdescs hr⟩

/-- **The heap gives every page back.**  When every block is freed and nobody else has pages, one
request may have all of a pool. -/
theorem freed_heap_gives_back {ram limit : ℕ} {mem : Memory} {kbuf ubuf : ℕ → BitVec 32}
    {palloc : Palloc} (arena : ℕ → Arena) (h₁ : 256 ≤ ram) (h₂ : ram ≤ 2 ^ 18)
    (hinit : pallocInit ram limit mem kbuf ubuf = .ok palloc) (hdescs : mallocInit = .ok descs)
    {s : HeapClient (pallocAllocator ram h₂)}
    (hr : Reaches Step Meets (start (pallocAllocator ram h₂) palloc [] descs arena) s)
    (hlive : s.live = []) (hothers : s.others = []) (user : Bool) {n : ℕ} (hpos : 0 < n)
    (hn : n ≤ (Palloc.pool s.heap.palloc user).usedMap.bitCnt) :
    ∃ pages palloc', pallocGetMultiple s.heap.palloc { PAL_USER := user } n =
      .ok (some pages, palloc') := by
  have hgood := hr.invariant (fun s => s.heap.Good s.live s.others) step
    (start_good (pallocInit_inv h₁ h₂ hinit) hdescs)
  have hpages : s.heap.pages = [] := by
    refine eq_nil_iff_forall_not_mem.2 fun a ha => ?_
    obtain ⟨p, hp, _⟩ := hgood.held a ha
    rw [hlive] at hp
    cases hp
  have hinv : PallocClient.Inv ram ⟨s.heap.palloc, s.heap.pages ++ s.others⟩ := hgood.holds
  rw [hpages, hothers] at hinv
  obtain ⟨⟨r, palloc'⟩, hget⟩ := hinv.safe.total.1 { PAL_USER := user } n rfl
  cases r with
  | some pages => exact ⟨pages, palloc', hget⟩
  | none =>
    rcases (hinv.safe.null _ n palloc' hget).1 with hzero | hno
    · omega
    · refine absurd (fun j _ hj => ?_) (hno 0 ((Nat.zero_add n).trans_le hn))
      rw [← Bool.not_eq_true, hinv.bit user j ((Nat.zero_add n ▸ hj).trans_le hn)]
      rintro ⟨_, ha, _⟩
      cases ha

theorem freed_heap_gives_back_once : ∃ (palloc : Palloc) (s : HeapClient (pallocAllocator 272
    (by decide))), pallocInit 272 4 (fun _ => 0) (fun _ => 0) (fun _ => 0) = .ok palloc ∧
      s.live = [] ∧ ∃ pages palloc', pallocGetMultiple s.heap.palloc { PAL_USER := false } 11 =
        .ok (some pages, palloc') := by
  obtain ⟨palloc, descs, hinit, hdescs, hrun⟩ : ∃ palloc descs,
      pallocInit 272 4 (fun _ => 0) (fun _ => 0) (fun _ => 0) = .ok palloc ∧
        mallocInit = .ok descs ∧ (runThrough call [.malloc 1000, .free 0xc010100c]
          (start (pallocAllocator 272 (by decide)) palloc [] descs fun _ => .cleared)).any
            (fun s => s.live == [] && s.others == [] &&
              decide (11 ≤ (Palloc.pool s.heap.palloc false).usedMap.bitCnt)) = true :=
    ⟨_, _, rfl, rfl, by decide +kernel⟩
  obtain ⟨s, hr, hs⟩ := exists_runThrough call_step _ _ _ hrun
  simp only [Bool.and_eq_true, beq_iff_eq, decide_eq_true_eq] at hs
  exact ⟨palloc, s, hinit, hs.1.1, freed_heap_gives_back (fun _ => .cleared) (by decide) (by decide)
    hinit hdescs hr hs.1.1 hs.1.2 false (by decide) hs.2⟩

end HeapClient
end Pintos
