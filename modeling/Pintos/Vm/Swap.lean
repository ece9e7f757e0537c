/-
# The swap table

`vm/swap.c`.  The swap device is divided into slots of eight sectors, one page each;
`swap_available` has a true bit for each free slot.  `virtualmemory_swap_out` chooses a slot, writes
it and marks it, in that order.  When none is free the scan returns `SIZE_MAX`, and the sector
numbers wrap to the last eight below `2^32`.

`swapOut` returns the state it leaves along with its outcome: sectors written before a panic stay
written.
-/

import Mathlib.Order.CompletePartialOrder
import Pintos.Devices.Block
import Pintos.Lib.Bitmap
import Pintos.Threads.Vaddr

namespace Pintos.Virtualmemory

open Base Function Kernel Set

def SECTORS_PER_PAGE : ℕ := PGSIZE / BLOCK_SECTOR_SIZE

structure Swap where
  swapBlock : Block
  swapAvailable : Bitmap
  swapSize : ℕ

/-- `virtualmemory_swap_init`; `hdr` and `elems` are the allocations of `bitmap_create`. -/
def swapInit (role : Option Block) (hdr : Bool) (elems : Option (ℕ → BitVec 32)) :
    Kernel Swap := do
  ASSERT (0 < SECTORS_PER_PAGE)
  match role with
  | none => PANIC "스왑 블럭을 초기화할 수 없다."
  | some block =>
    let swapSize := block.size / SECTORS_PER_PAGE
    match ← bitmapCreate swapSize hdr elems with
    | none => PANIC "assertion failed."
    | some map =>
      let map ← bitmapSetAll map true
      return { swapBlock := block, swapAvailable := map, swapSize := swapSize }

/-- The first `n` rounds of the loop, and whether all returned. -/
def swapWriteLoop (block : Block) (mem : Memory) (swapIndex page : ℕ) : ℕ → Block × Kernel Unit
  | 0 => (block, .ok ())
  | n + 1 =>
    match swapWriteLoop block mem swapIndex page n with
    | (block', .error e) => (block', .error e)
    | (block', .ok ()) =>
      match blockWrite block' (u32 (swapIndex * SECTORS_PER_PAGE + n)) mem
          (page + BLOCK_SECTOR_SIZE * n) with
      | .error e => (block', .error e)
      | .ok block'' => (block'', .ok ())

def swapOut (s : Swap) (mem : Memory) (page : ℕ) : Swap × Kernel ℕ :=
  match (do ASSERT (PHYS_BASE ≤ page); bitmapScan s.swapAvailable 0 1 true : Kernel ℕ) with
  | .error e => (s, .error e)
  | .ok swapIndex =>
    match swapWriteLoop s.swapBlock mem swapIndex page SECTORS_PER_PAGE with
    | (block, .error e) => ({ s with swapBlock := block }, .error e)
    | (block, .ok ()) =>
      match bitmapSet s.swapAvailable swapIndex false with
      | .error e => ({ s with swapBlock := block }, .error e)
      | .ok map => ({ s with swapBlock := block, swapAvailable := map }, .ok swapIndex)

def swapIn (s : Swap) (mem : Memory) (swapIndex page : ℕ) : Kernel (Memory × Swap) := do
  ASSERT (PHYS_BASE ≤ page)
  ASSERT (swapIndex < s.swapSize)
  if (← bitmapTest s.swapAvailable swapIndex) = true then
    PANIC "허용되지 않는 접근입니다"
  else
    let mem ← forLoop SECTORS_PER_PAGE (fun mem i =>
      blockRead s.swapBlock (u32 (swapIndex * SECTORS_PER_PAGE + i)) mem
        (page + BLOCK_SECTOR_SIZE * i)) mem
    let map ← bitmapSet s.swapAvailable swapIndex true
    return (mem, { s with swapAvailable := map })

def swapFree (s : Swap) (swapIndex : ℕ) : Kernel Swap := do
  ASSERT (swapIndex < s.swapSize)
  if (← bitmapTest s.swapAvailable swapIndex) = true then
    PANIC "할당되지않은 스왑 블럭에 접근하려고 했습니다"
  else
    let map ← bitmapSet s.swapAvailable swapIndex true
    return { s with swapAvailable := map }

/-! ### The write loop -/

lemma swapWriteLoop_frame (block : Block) (mem : Memory) (swapIndex page n : ℕ) :
    (swapWriteLoop block mem swapIndex page n).1.size = block.size ∧
      (swapWriteLoop block mem swapIndex page n).1.type = block.type ∧
      ∀ k, (∀ i < n, k ≠ u32 (swapIndex * SECTORS_PER_PAGE + i)) →
        (swapWriteLoop block mem swapIndex page n).1.sectors k = block.sectors k := by
  induction n with
  | zero => exact ⟨rfl, rfl, fun _ _ => rfl⟩
  | succ n ih =>
    obtain ⟨hsize, htype, hsec⟩ := ih
    rw [swapWriteLoop]
    split
    · rename_i block' e hloop
      rw [hloop] at hsize htype hsec
      exact ⟨hsize, htype, fun k hk => hsec k fun i hi => hk i (by omega)⟩
    · rename_i block' hloop
      rw [hloop] at hsize htype hsec
      split
      · exact ⟨hsize, htype, fun k hk => hsec k fun i hi => hk i (by omega)⟩
      · rename_i block'' hw
        obtain ⟨_, _, rfl⟩ := blockWrite_eq_ok.1 hw
        refine ⟨hsize, htype, fun k hk => ?_⟩
        exact (update_of_ne (hk n (by omega)) _ _).trans (hsec k fun i hi => hk i (by omega))

variable {block : Block} {page n i j r swapIndex : ℕ}

lemma swapWriteLoop_inside {mem : Memory}
    (h : (swapWriteLoop block mem swapIndex page n).2 = .ok ()) :
    ∀ i < n, u32 (swapIndex * SECTORS_PER_PAGE + i) < block.size ∧ block.type ≠ .BLOCK_FOREIGN := by
  induction n with
  | zero => intro i hi; omega
  | succ n ih =>
    rw [swapWriteLoop] at h
    split at h
    · cases h
    · rename_i block' hloop
      split at h
      · cases h
      · rename_i block'' hw
        obtain ⟨hlt, hforeign, _⟩ := blockWrite_eq_ok.1 hw
        obtain ⟨hsize, htype, _⟩ := swapWriteLoop_frame block mem swapIndex page n
        rw [hloop] at hsize htype
        intro i hi
        rcases Nat.lt_succ_iff_lt_or_eq.1 hi with hi | rfl
        · exact ih (by rw [hloop]) i hi
        · exact ⟨hsize ▸ hlt, htype ▸ hforeign⟩

/-- **The loop on a slot of the device** copies the page, sector by sector. -/
theorem swapWriteLoop_ok (mem : Memory) (page : ℕ) (htype : block.type ≠ .BLOCK_FOREIGN)
    (hn : n ≤ SECTORS_PER_PAGE)
    (hslot : swapIndex * SECTORS_PER_PAGE + SECTORS_PER_PAGE ≤ block.size) :
    (swapWriteLoop block mem swapIndex page n).2 = .ok () ∧
      ∀ i < n, ∀ o, (swapWriteLoop block mem swapIndex page n).1.sectors
        (swapIndex * SECTORS_PER_PAGE + i) o = mem (page + BLOCK_SECTOR_SIZE * i + o) := by
  have hsz := block.size_lt
  induction n with
  | zero => exact ⟨rfl, fun i hi => absurd hi (by omega)⟩
  | succ n ih =>
    obtain ⟨hret, hsec⟩ := ih (by omega)
    obtain ⟨hsize, htype', _⟩ := swapWriteLoop_frame block mem swapIndex page n
    rw [swapWriteLoop]
    split
    · rename_i hloop
      rw [hloop] at hret
      cases hret
    · rename_i block' hloop
      rw [hloop] at hsec hsize htype'
      dsimp only at hsize htype'
      have hu : u32 (swapIndex * SECTORS_PER_PAGE + n) = swapIndex * SECTORS_PER_PAGE + n :=
        u32_of_lt (by omega)
      have hlt : u32 (swapIndex * SECTORS_PER_PAGE + n) < block'.size := by rw [hu]; omega
      rw [blockWrite_eq_ok.2 ⟨hlt, htype'.symm ▸ htype, rfl⟩]
      refine ⟨rfl, fun i hi o => ?_⟩
      dsimp only
      rcases Nat.lt_succ_iff_lt_or_eq.1 hi with hi | rfl
      · rw [hu, update_of_ne (by omega)]
        exact hsec i hi o
      · rw [hu, update_self]

/-! ### Slots as pages -/

abbrev Page := Fin PGSIZE → BitVec 8

def pageAt (mem : Memory) (page : ℕ) : Page := fun o => mem (page + o)

def slotSectors (swapIndex : ℕ) : Set ℕ :=
  Set.Ico (swapIndex * SECTORS_PER_PAGE) ((swapIndex + 1) * SECTORS_PER_PAGE)

def Swap.slot (s : Swap) (swapIndex : ℕ) : Page := fun o =>
  s.swapBlock.sectors (swapIndex * SECTORS_PER_PAGE + o / BLOCK_SECTOR_SIZE)
    ⟨o % BLOCK_SECTOR_SIZE, Nat.mod_lt _ (by decide)⟩

def Swap.free (s : Swap) (swapIndex : ℕ) : Bool := s.swapAvailable.bit swapIndex

/-- A bit for each whole slot of the device; every operation keeps it. -/
structure Swap.Wf (s : Swap) : Prop where
  bitCnt : s.swapAvailable.bitCnt = s.swapSize
  swapSize : s.swapSize = s.swapBlock.size / SECTORS_PER_PAGE

lemma slotSectors_disjoint (h : i ≠ j) : Disjoint (slotSectors i) (slotSectors j) := by
  rw [disjoint_left]
  intro k hi hj
  simp only [slotSectors, SECTORS_PER_PAGE, PGSIZE, BLOCK_SECTOR_SIZE, mem_Ico] at hi hj
  omega

variable {s : Swap}

lemma Swap.Wf.inside (h : s.Wf) (hi : i < s.swapSize) :
    i * SECTORS_PER_PAGE + SECTORS_PER_PAGE ≤ s.swapBlock.size := by
  have := h.swapSize
  simp only [SECTORS_PER_PAGE, PGSIZE, BLOCK_SECTOR_SIZE] at this ⊢
  omega

lemma Swap.Wf.swapSize_lt (h : s.Wf) : s.swapSize < 2 ^ 32 := by
  rw [h.swapSize]
  exact lt_of_le_of_lt (Nat.div_le_self _ _) s.swapBlock.size_lt

lemma Swap.Wf.slotSectors_inside (h : s.Wf) (hi : i < s.swapSize) :
    slotSectors i ⊆ Set.Iio s.swapBlock.size := by
  intro k hk
  have hin := h.inside hi
  have hk' := (mem_Ico.1 hk).2
  rw [Nat.add_mul, one_mul] at hk'
  exact mem_Iio.2 (by omega)

lemma Swap.slot_congr {s s' : Swap}
    (h : ∀ k ∈ slotSectors i, s'.swapBlock.sectors k = s.swapBlock.sectors k) :
    s'.slot i = s.slot i := by
  funext o
  have ho : (o : ℕ) / BLOCK_SECTOR_SIZE < SECTORS_PER_PAGE := Nat.div_lt_of_lt_mul o.isLt
  have hlt : i * SECTORS_PER_PAGE + o / BLOCK_SECTOR_SIZE < (i + 1) * SECTORS_PER_PAGE := by
    rw [Nat.add_mul, one_mul]
    exact Nat.add_lt_add_left ho _
  exact congrFun (h _ (mem_Ico.2 ⟨Nat.le_add_right _ _, hlt⟩)) _

/-! ### The operations -/

structure Swap.Out (s s' : Swap) (bytes : Page) (swapIndex : ℕ) : Prop where
  wf : s'.Wf
  size : s'.swapBlock.size = s.swapBlock.size
  lt : swapIndex < s.swapSize
  was_free : s.free swapIndex = true
  free : ∀ j, s'.free j = if j = swapIndex then false else s.free j
  slot : s'.slot swapIndex = bytes
  frame : ∀ j, j ≠ swapIndex → s'.slot j = s.slot j

structure Swap.Released (s s' : Swap) (swapIndex : ℕ) : Prop where
  wf : s'.Wf
  block : s'.swapBlock = s.swapBlock
  free : ∀ j, s'.free j = if j = swapIndex then true else s.free j

variable {s' : Swap} {mem mem' : Memory} {page swapIndex : ℕ}

lemma Swap.Wf.of_eq (hs : s.Wf) (hbit : s'.swapAvailable.bitCnt = s.swapAvailable.bitCnt)
    (hsize : s'.swapSize = s.swapSize) (hblock : s'.swapBlock.size = s.swapBlock.size) :
    s'.Wf :=
  ⟨by rw [hbit, hsize, hs.bitCnt], by rw [hsize, hblock, hs.swapSize]⟩

lemma Swap.Wf.scan (hs : s.Wf) : ∃ r, bitmapScan s.swapAvailable 0 1 true = .ok r ∧
      ((r < s.swapSize ∧ s.free r = true) ∨
        (r = BITMAP_ERROR ∧ ∀ j < s.swapSize, s.free j = false)) := by
  have hb : s.swapAvailable.bitCnt < 2 ^ 32 := by rw [hs.bitCnt]; exact hs.swapSize_lt
  obtain ⟨r, hr, ⟨_, hin, hall, _⟩ | ⟨rfl, hnone⟩⟩ := bitmapScan_spec 1 true hb (Nat.zero_le _)
  · rw [hs.bitCnt] at hin
    exact ⟨r, hr, .inl ⟨by omega, hall r (by omega) (by omega)⟩⟩
  · refine ⟨_, hr, .inr ⟨rfl, fun j hj => ?_⟩⟩
    have hj' := hnone j (Nat.zero_le _) (by rw [hs.bitCnt]; omega)
    by_contra hfree
    refine hj' fun k hk hk' => ?_
    obtain rfl : k = j := by omega
    exact (Bool.not_eq_false _).mp hfree

lemma swapOut_eq (hp : PHYS_BASE ≤ page) (hr : bitmapScan s.swapAvailable 0 1 true = .ok r) :
    swapOut s mem page =
      match swapWriteLoop s.swapBlock mem r page SECTORS_PER_PAGE with
      | (block, .error e) => ({ s with swapBlock := block }, .error e)
      | (block, .ok ()) =>
        match bitmapSet s.swapAvailable r false with
        | .error e => ({ s with swapBlock := block }, .error e)
        | .ok map => ({ s with swapBlock := block, swapAvailable := map }, .ok r) := by
  rw [swapOut, ASSERT_of hp, ok_bind, hr]

lemma Swap.Wf.u32_sector (hs : s.Wf) (hr : r < s.swapSize) (hi : i < SECTORS_PER_PAGE) :
    u32 (r * SECTORS_PER_PAGE + i) = r * SECTORS_PER_PAGE + i := by
  have hin := hs.inside hr
  have hlt := s.swapBlock.size_lt
  exact u32_of_lt (by omega)

lemma swapOut_type (s : Swap) (mem : Memory) (page : ℕ) :
    (swapOut s mem page).1.swapBlock.type = s.swapBlock.type := by
  unfold swapOut
  split
  · rfl
  · rename_i r _
    have htype := (swapWriteLoop_frame s.swapBlock mem r page SECTORS_PER_PAGE).2.1
    split
    · rename_i hloop
      rwa [hloop] at htype
    · rename_i hloop
      rw [hloop] at htype
      split
      · exact htype
      · exact htype

/-- **Swapping out with a free slot** on a writable device writes the page to one. -/
theorem swapOut_spec (hs : s.Wf) (mem : Memory) (hp : PHYS_BASE ≤ page)
    (htype : s.swapBlock.type ≠ .BLOCK_FOREIGN) (hj : j < s.swapSize) (hfree : s.free j = true) :
    ∃ s' swapIndex, swapOut s mem page = (s', .ok swapIndex) ∧
      s.Out s' (pageAt mem page) swapIndex := by
  obtain ⟨r, hscan, ⟨hr, hrfree⟩ | ⟨_, hnone⟩⟩ := hs.scan
  swap
  · exact absurd hfree (by rw [hnone j hj]; decide)
  obtain ⟨hret, hcopy⟩ := swapWriteLoop_ok mem page htype le_rfl (hs.inside hr)
  obtain ⟨hsize, _, hframe⟩ := swapWriteLoop_frame s.swapBlock mem r page SECTORS_PER_PAGE
  obtain ⟨_, hmap, hcnt, hbit⟩ := bitmapSet_spec (b := s.swapAvailable) (i := r) false
    (by rw [hs.bitCnt]; exact hr)
  rw [swapOut_eq hp hscan]
  generalize swapWriteLoop s.swapBlock mem r page SECTORS_PER_PAGE = w at hret hcopy hsize hframe
  obtain ⟨_, _⟩ := w
  dsimp only at hret hcopy hsize hframe
  subst hret
  rw [hmap]
  refine ⟨_, r, rfl, ⟨hs.of_eq hcnt rfl hsize, hsize, hr, hrfree, hbit, ?_, fun j hjr => ?_⟩⟩
  · funext o
    have ho : (o : ℕ) / BLOCK_SECTOR_SIZE < SECTORS_PER_PAGE := Nat.div_lt_of_lt_mul o.isLt
    have hsplit := Nat.div_add_mod (o : ℕ) BLOCK_SECTOR_SIZE
    refine (hcopy _ ho _).trans (congrArg mem ?_)
    dsimp only
    omega
  · refine Swap.slot_congr fun k hk => hframe k fun i hi heq => ?_
    rw [hs.u32_sector hr hi] at heq
    refine disjoint_left.1 (slotSectors_disjoint hjr) hk (mem_Ico.2 ⟨by omega, ?_⟩)
    rw [Nat.add_mul, one_mul]
    omega

lemma swapOut_eq_ok (hs : s.Wf) (h : swapOut s mem page = (s', .ok swapIndex)) :
    PHYS_BASE ≤ page ∧ s.Out s' (pageAt mem page) swapIndex := by
  by_cases hp : PHYS_BASE ≤ page
  swap
  · rw [swapOut, ASSERT, if_neg hp, panic_bind] at h
    cases h
  obtain ⟨r, hscan, hr⟩ := hs.scan
  have hret : (swapWriteLoop s.swapBlock mem r page SECTORS_PER_PAGE).2 = .ok () := by
    rw [swapOut_eq hp hscan] at h
    split at h
    · cases h
    · rename_i hloop
      rw [hloop]
  have hin := swapWriteLoop_inside hret 7 (by decide)
  rcases hr with ⟨hr, hrfree⟩ | ⟨rfl, _⟩
  · obtain ⟨_, _, h1, hout⟩ := swapOut_spec hs mem hp hin.2 hr hrfree
    rw [h] at h1
    cases h1
    exact ⟨hp, hout⟩
  · -- The sector numbers of slot `SIZE_MAX` end with the last 32-bit number.
    have hlast : u32 (BITMAP_ERROR * SECTORS_PER_PAGE + 7) = 2 ^ 32 - 1 := by decide
    have hlt := s.swapBlock.size_lt
    rw [hlast] at hin
    omega

/-- **Swapping out with no free slot** does not return, and changes no slot and no
bit. -/
theorem swapOut_full (hs : s.Wf) (mem : Memory) (page : ℕ)
    (hfull : ∀ j < s.swapSize, s.free j = false) :
    (∃ e, (swapOut s mem page).2 = .error e) ∧
      (swapOut s mem page).1.swapAvailable = s.swapAvailable ∧
      ∀ j < s.swapSize, ∀ k ∈ slotSectors j,
        (swapOut s mem page).1.swapBlock.sectors k = s.swapBlock.sectors k := by
  have herr : ∃ e, (swapOut s mem page).2 = .error e := by
    rcases hout : swapOut s mem page with ⟨_, e | i⟩
    · exact ⟨e, rfl⟩
    · obtain ⟨_, ho⟩ := swapOut_eq_ok hs hout
      exact absurd ho.was_free (by rw [hfull i ho.lt]; decide)
  refine ⟨herr, ?_⟩
  by_cases hp : PHYS_BASE ≤ page
  swap
  · rw [swapOut, ASSERT, if_neg hp, panic_bind]
    exact ⟨rfl, fun _ _ _ _ => rfl⟩
  obtain ⟨r, hscan, ⟨hr, hrfree⟩ | ⟨rfl, _⟩⟩ := hs.scan
  · exact absurd hrfree (by rw [hfull r hr]; decide)
  obtain ⟨_, _, hframe⟩ := swapWriteLoop_frame s.swapBlock mem BITMAP_ERROR page SECTORS_PER_PAGE
  -- Slots end below the sectors the wrapped numbers name.
  have hslots : ∀ j < s.swapSize, ∀ k ∈ slotSectors j,
      (swapWriteLoop s.swapBlock mem BITMAP_ERROR page SECTORS_PER_PAGE).1.sectors k =
        s.swapBlock.sectors k := by
    intro j _ k hk
    refine hframe k fun i hi heq => ?_
    have hk' := (mem_Ico.1 hk).2
    have hsize := hs.swapSize
    have hlt := s.swapBlock.size_lt
    simp only [SECTORS_PER_PAGE, PGSIZE, BLOCK_SECTOR_SIZE, BITMAP_ERROR, SIZE_MAX, u32]
      at hi hk' hsize heq
    omega
  obtain ⟨e, he⟩ := herr
  rw [swapOut_eq hp hscan] at he ⊢
  split at he
  · rename_i hloop
    rw [hloop] at hslots
    exact ⟨rfl, hslots⟩
  · rename_i hloop
    rw [hloop] at hslots
    split at he
    · exact ⟨rfl, hslots⟩
    · cases he

section

variable (hs : s.Wf) (hi : swapIndex < s.swapSize)
include hs hi

lemma swapIn_loop (mem : Memory) (page : ℕ) : ∃ mem', forLoop SECTORS_PER_PAGE (fun mem i =>
        blockRead s.swapBlock (u32 (swapIndex * SECTORS_PER_PAGE + i)) mem
          (page + BLOCK_SECTOR_SIZE * i)) mem = .ok mem' ∧
      pageAt mem' page = s.slot swapIndex ∧
      ∀ x, ¬ (page ≤ x ∧ x < page + PGSIZE) → mem' x = mem x := by
  -- Before round `i` the first `i` sectors are in place and the rest is as it was.
  obtain ⟨mem', hloop, hin, hout⟩ := forLoop_ok (b := mem) (n := SECTORS_PER_PAGE)
    (f := fun mem i => blockRead s.swapBlock (u32 (swapIndex * SECTORS_PER_PAGE + i)) mem
      (page + BLOCK_SECTOR_SIZE * i))
    (fun i m => (∀ k < i, ∀ o : Fin BLOCK_SECTOR_SIZE, m (page + BLOCK_SECTOR_SIZE * k + o) =
          s.swapBlock.sectors (swapIndex * SECTORS_PER_PAGE + k) o) ∧
      ∀ x, ¬ (page ≤ x ∧ x < page + BLOCK_SECTOR_SIZE * i) → m x = mem x)
    ⟨fun k hk => absurd hk (by omega), fun _ _ => rfl⟩
    (by
      rintro i m hlt ⟨hdone, hrest⟩
      have hsize := hs.inside hi
      have hin : swapIndex * SECTORS_PER_PAGE + i < s.swapBlock.size := by omega
      obtain ⟨m', hm', hnew, hold⟩ := blockRead_spec m (page + BLOCK_SECTOR_SIZE * i) hin
      refine ⟨m', by rw [hs.u32_sector hi hlt, hm'], fun k hk o => ?_, fun x hx => ?_⟩
      · rcases Nat.lt_succ_iff_lt_or_eq.1 hk with hk | rfl
        · have ho := o.isLt
          rw [hold _ (by simp only [BLOCK_SECTOR_SIZE] at ho ⊢; omega), hdone k hk o]
        · exact hnew o
      · rw [hold x (by simp only [BLOCK_SECTOR_SIZE] at hx ⊢; omega),
          hrest x (by simp only [BLOCK_SECTOR_SIZE] at hx ⊢; omega)])
  refine ⟨mem', hloop, funext fun o => ?_, hout⟩
  have ho : (o : ℕ) / BLOCK_SECTOR_SIZE < SECTORS_PER_PAGE := Nat.div_lt_of_lt_mul o.isLt
  have hsplit := Nat.div_add_mod (o : ℕ) BLOCK_SECTOR_SIZE
  have hbyte := hin _ ho ⟨o % BLOCK_SECTOR_SIZE, Nat.mod_lt _ (by decide)⟩
  rw [Swap.slot, ← hbyte, pageAt]
  dsimp only
  rw [Nat.add_assoc, hsplit]

lemma Swap.Wf.release : ∃ map, bitmapSet s.swapAvailable swapIndex true = .ok map ∧
      s.Released { s with swapAvailable := map } swapIndex := by
  obtain ⟨map, hmap, hcnt, hbit⟩ := bitmapSet_spec (b := s.swapAvailable) (i := swapIndex) true
    (by rw [hs.bitCnt]; exact hi)
  exact ⟨map, hmap, ⟨hs.of_eq hcnt rfl rfl, rfl, hbit⟩⟩

lemma Swap.Wf.test (hout : s.free swapIndex = false) :
    bitmapTest s.swapAvailable swapIndex = .ok false := by
  rw [bitmapTest_ok (by rw [hs.bitCnt]; exact hi)]
  exact congrArg _ hout

/-- **Swapping in a slot that is out** copies and releases it. -/
theorem swapIn_spec (hout : s.free swapIndex = false) (mem : Memory) (hp : PHYS_BASE ≤ page) :
    ∃ mem' s', swapIn s mem swapIndex page = .ok (mem', s') ∧ s.Released s' swapIndex ∧
      pageAt mem' page = s.slot swapIndex ∧
      ∀ x, ¬ (page ≤ x ∧ x < page + PGSIZE) → mem' x = mem x := by
  obtain ⟨mem', hloop, hpage, hframe⟩ := swapIn_loop hs hi mem page
  obtain ⟨_, hmap, hrel⟩ := hs.release hi
  refine ⟨mem', _, ?_, hrel, hpage, hframe⟩
  rw [swapIn, ASSERT_of hp, ok_bind, ASSERT_of hi, ok_bind, hs.test hi hout, ok_bind,
    if_neg (by decide), hloop, ok_bind, hmap]
  rfl

lemma swapFree_spec (hout : s.free swapIndex = false) :
    ∃ s', swapFree s swapIndex = .ok s' ∧ s.Released s' swapIndex := by
  obtain ⟨_, hmap, hrel⟩ := hs.release hi
  refine ⟨_, ?_, hrel⟩
  rw [swapFree, ASSERT_of hi, ok_bind, hs.test hi hout, ok_bind, if_neg (by decide), hmap]
  rfl

end

end Pintos.Virtualmemory
