/-
# Writing back a page that is unmapped

What `virtualmemory_table_mm_unmap` of `vm/page.c` does to the file.  A resident page
writes `bytes` bytes; a page on swap is read into a temporary page, of which `PGSIZE` bytes
are written.
-/

import Pintos.Filesys.Steps
import Pintos.Vm.Exit

namespace Pintos.Virtualmemory

open Base Filesys Kernel Vm

def Page.byte (page : Page) (o : ℕ) : BitVec 8 := if h : o < PGSIZE then page ⟨o, h⟩ else 0

/-- `file_write_at` as `virtualmemory_table_mm_unmap` calls it, if it does. -/
def FileWrite.run (file : ℕ) (s : FileSys) : Option FileWrite → Kernel FileSys
  | none => return s
  | some w => do return (← fileWriteAt file w.page.byte w.size w.offset s).2

/-- The bytes of a page that is on a frame or on swap. -/
def Vm.contents (vm : Vm) (e : PageTableEntry) : Page :=
  if e.status = .ON_FRAME then pageAt vm.palloc.mem e.kpage else vm.swap.slot e.swapIndex

def Vm.pageDirty (vm : Vm) (p u : ℕ) (e : PageTableEntry) : Bool :=
  e.dirty || vm.isDirty p u || (e.status = .ON_FRAME && vm.isDirty p e.kpage)

/-- How many bytes `file_write_at` is asked to write. -/
def PageTableEntry.writeSize (e : PageTableEntry) (bytes : ℕ) : ℕ :=
  if e.status = .ON_SWAP then PGSIZE else bytes

/-- What is written if the page is dirty. -/
def Vm.write (vm : Vm) (p u : ℕ) (e : PageTableEntry) (size offset : ℕ) : Option FileWrite :=
  if vm.pageDirty p u e then some ⟨vm.contents e, size, offset⟩ else none

/-- The frame or the slot of the page is free. -/
def Vm.Freed (vm : Vm) (e : PageTableEntry) : Prop :=
  if e.status = .ON_FRAME then ¬ vm.palloc.Used e.kpage ∧ ∀ f ∈ vm.frames, f.kpage ≠ e.kpage
  else vm.swap.free e.swapIndex = true

/-! ### How much `inode_write_at` writes -/

section Written

variable {d : InodeDisk} {size offset : ℤ} {fuel written k : ℕ} {b b' : Block}
  {buffer : ℕ → BitVec 8}

/-- Without a bounce buffer only the whole sectors at the start are written. -/
def wholeSectors (d : InodeDisk) (size offset : ℤ) : ℕ :=
  if offset % 512 = 0 then d.avail size offset - d.avail size offset % 512 else 0

lemma wholeSectors_eq_zero (h : d.avail size offset < 512 ∨ offset % 512 ≠ 0) :
    wholeSectors d size offset = 0 := by
  unfold wholeSectors
  split_ifs <;> omega

lemma writeLoop_whole (ho : 0 ≤ offset) (hfuel : size.toNat ≤ fuel)
    (h : writeLoop d false buffer fuel b size offset written = .ok (b', k)) :
    k = written + wholeSectors d size offset := by
  induction fuel generalizing b size offset written with
  | zero =>
    cases h
    rw [wholeSectors_eq_zero (.inl (by unfold InodeDisk.avail; omega))]
    rfl
  | succ fuel ih =>
    rw [writeLoop] at h
    by_cases hsize : 0 < size
    swap
    · rw [if_neg hsize] at h
      cases h
      rw [wholeSectors_eq_zero (.inl (by unfold InodeDisk.avail; omega))]
      rfl
    rw [if_pos hsize] at h
    by_cases hc : chunkSize d size offset ≤ 0
    · rw [if_pos hc] at h
      cases h
      rw [wholeSectors_eq_zero (.inl (by rw [avail_of_chunkSize_le ho hc]; decide))]
      rfl
    rw [if_neg hc] at h
    obtain ⟨o, rfl⟩ := Int.eq_ofNat_of_zero_le ho
    have hmod : sectorOfs o = ((o % 512 : ℕ) : ℤ) := rfl
    have hchunk : chunkSize d size o = min size (min (d.length - o) (512 - (o % 512 : ℕ))) := by
      simp only [chunkSize, sectorLeft, hmod, BLOCK_SECTOR_SIZE]
      split_ifs <;> omega
    by_cases hfull : sectorOfs o = 0 ∧ chunkSize d size o = BLOCK_SECTOR_SIZE
    · rw [if_pos hfull, bind_eq_ok] at h
      obtain ⟨_, _, h⟩ := h
      rw [hfull.2] at h hchunk
      rw [hmod] at hfull
      simp only [BLOCK_SECTOR_SIZE] at h hchunk
      rw [ih (by omega) (by omega) h]
      unfold wholeSectors InodeDisk.avail
      split_ifs <;> omega
    · rw [if_neg hfull, if_neg Bool.false_ne_true] at h
      cases h
      rw [hmod, hchunk] at hfull
      simp only [BLOCK_SECTOR_SIZE] at hfull
      rw [wholeSectors_eq_zero (by unfold InodeDisk.avail; omega)]
      rfl

end Written

/-- The number of bytes `inode_write_at` writes. -/
def writtenTo (i : Inode) (malloc : Bool) (size offset : ℤ) : ℕ :=
  if i.denyWriteCnt ≠ 0 then 0 else if malloc then i.data.avail size offset
  else wholeSectors i.data size offset

variable {vm : Vm} {p u offset bytes file : ℕ} {tmp : Option ℕ} {e : PageTableEntry}
  {s : FileSys} {f : File} {i : Inode}

lemma inodeWriteAt_written (hd : s.OnDisk p i) (buffer : ℕ → BitVec 8) (size offset : ℕ) :
    ∃ s', inodeWriteAt p buffer size offset s = .ok (writtenTo i (s.mallocs 0) size offset, s') ∧
      s'.fsDevice.byte = overwrite s.fsDevice.byte (512 * i.data.start + offset)
        (writtenTo i (s.mallocs 0) size offset) buffer := by
  by_cases hdeny : i.denyWriteCnt = 0
  · obtain ⟨b, m, hwrite, _, hbyte, _, hall⟩ :=
      inodeWriteAt_spec hd hdeny buffer size (Int.natCast_nonneg offset)
    have hm : m = writtenTo i (s.mallocs 0) size offset := by
      rw [writtenTo, if_neg (not_not.2 hdeny)]
      cases hmalloc : s.mallocs 0 with
      | true => exact hall hmalloc
      | false =>
        rw [inodeWriteAt, deref_some hd.get, ok_bind, if_neg (not_not.2 hdeny)] at hwrite
        obtain ⟨⟨b', k⟩, hloop, hret⟩ := bind_eq_ok.1 hwrite
        rw [hmalloc] at hloop
        cases hret
        simpa using writeLoop_whole (Int.natCast_nonneg offset) le_rfl hloop
    rw [← hm]
    exact ⟨_, hwrite, hbyte⟩
  · rw [writtenTo, if_pos hdeny, inodeWriteAt, deref_some hd.get, ok_bind, if_pos hdeny]
    exact ⟨s, rfl, (overwrite_zero ..).symm⟩

lemma FileWrite.run_write (hf : s.files file = some f) (hd : s.OnDisk f.inode i) (size : ℕ) :
    ∃ s', FileWrite.run file s (vm.write p u e size offset) = .ok s' ∧
      s'.fsDevice.byte = if vm.pageDirty p u e then
        overwrite s.fsDevice.byte (512 * i.data.start + offset)
          (writtenTo i (s.mallocs 0) size offset) (vm.contents e).byte else s.fsDevice.byte := by
  unfold Vm.write
  split_ifs
  · obtain ⟨s', hwrite, hbyte⟩ := inodeWriteAt_written hd (vm.contents e).byte size offset
    refine ⟨s', ?_, hbyte⟩
    rw [run, fileWriteAt, deref, hf]
    simp only [ok_bind, hwrite]
    rfl
  · exact ⟨s, rfl, rfl⟩

/-- Windows of two lengths are overwritten alike if what is in one only is there already. -/
lemma overwrite_eq_iff {f buffer : ℕ → BitVec 8} {x m n : ℕ} :
    overwrite f x n buffer = overwrite f x m buffer ↔
      ∀ k, (k < n ↔ ¬ k < m) → f (x + k) = buffer k := by
  constructor
  · intro h k hk
    have hx := congrFun h (x + k)
    unfold overwrite at hx
    rw [Nat.add_sub_cancel_left] at hx
    by_cases hn : k < n
    · rw [if_pos (by omega), if_neg (by omega)] at hx
      exact hx.symm
    · rwa [if_neg (by omega), if_pos (by omega)] at hx
  · intro h
    funext y
    unfold overwrite
    by_cases hy : x ≤ y ∧ (y < x + n ↔ ¬ y < x + m)
    · have := h (y - x) (by omega)
      rw [Nat.add_sub_cancel' hy.1] at this
      rw [this]
      split_ifs <;> rfl
    · by_cases hn : x ≤ y ∧ y < x + n
      · rw [if_pos hn, if_pos (by omega)]
      · rw [if_neg hn, if_neg (by omega)]

lemma framePin_ok {g : FrameTableEntry} (hg : g ∈ vm.frames) :
    ∃ frames, framePin vm g.kpage = .ok { vm with frames := frames } ∧
      ∃ f ∈ frames, f.kpage = g.kpage := by
  unfold framePin frameSetPinned
  cases hfind : vm.frames.find? (fun f => f.kpage = g.kpage) with
  | none => exact absurd (decide_eq_true rfl) (List.find?_eq_none.1 hfind g hg)
  | some => exact ⟨_, rfl, _, List.mem_map.2 ⟨g, hg, if_pos rfl⟩, rfl⟩

lemma writeBack_eq (hst : e.status = .ON_FRAME) {w : Bool}
    (hmap : vm.maps p u = some (e.kpage, w)) :
    writeBack vm p u offset bytes (e.dirty || vm.isDirty p u || vm.isDirty p e.kpage) =
      .ok (vm.write p u e bytes offset) := by
  rw [writeBack, hmap, Vm.write, Vm.pageDirty, Vm.contents, if_pos hst, hst, decide_eq_true rfl,
    Bool.true_and]
  split_ifs
  · rfl
  · rfl

lemma tableMmUnmap_resident (hcore : vm.Core) (hofs : pgOfs u = 0) (huser : u < PHYS_BASE)
    (he : vm.spte p u = some e) (hst : e.status = .ON_FRAME) :
    ∃ vm', tableMmUnmap vm p u offset bytes tmp = .ok (vm.write p u e bytes offset, vm') ∧
      vm'.Freed e := by
  obtain ⟨w, hmap⟩ := hcore.resident p u e he hst
  obtain ⟨g, hg, _, _, _, hk⟩ := hcore.mapped p u _ w hmap
  obtain ⟨frames, hpin, f, hf, hfk⟩ := framePin_ok hg
  rw [hk] at hpin hfk
  have hused : vm.palloc.Used e.kpage := hk ▸ hcore.used g hg
  have hne : e.kpage ≠ 0 := (Nat.lt_of_lt_of_le (by decide) (hused.bounds hcore.laid).1).ne'
  have hlaid : ({ vm with frames := frames } : Vm).palloc.Laid := hcore.laid
  obtain ⟨_, hfree⟩ := frameDoFree_ok hlaid hf (hfk ▸ hused) true
  obtain ⟨_, _, rfl, hpalloc⟩ := frameDoFree_eq_ok hfree
  rw [hfk] at hfree hpalloc
  obtain ⟨pd, hclear⟩ := pagedirClearPage_ok (vm.procs p).pagedir hofs huser
  have hwrite : writeBack { vm with frames := frames } p u offset bytes _ = _ :=
    writeBack_eq hst hmap
  have hturn := pallocFreePage_eq_ok hcore.laid hused hpalloc
  rw [tableMmUnmap, he]
  simp only [hst]
  rw [ASSERT_of hne, ok_bind, hpin, ok_bind, hwrite, ok_bind, frameFree, hfree, ok_bind, hclear]
  refine ⟨_, rfl, ?_⟩
  rw [Vm.Freed, if_pos hst]
  refine ⟨fun hused' => ?_, fun f hf => ?_⟩
  · have := (hturn.used e.kpage).1 hused'
    rw [if_pos rfl] at this
    cases this
  · simpa using (List.mem_filter.1 hf).2

lemma tableMmUnmap_swapped (hwf : vm.swap.Wf) (he : vm.spte p u = some e)
    (hst : e.status = .ON_SWAP) (hi : e.swapIndex < vm.swap.swapSize)
    (hout : vm.swap.free e.swapIndex = false) :
    (∃ vm', tableMmUnmap vm p u offset bytes tmp = .ok (vm.write p u e PGSIZE offset, vm') ∧
      vm'.Freed e) ∧ (vm.pageDirty p u e = true → ∃ page ∈ tmp, PHYS_BASE ≤ page) ∨
    (∀ r, tableMmUnmap vm p u offset bytes tmp ≠ .ok r) ∧
      ¬ (vm.pageDirty p u e = true → ∃ page ∈ tmp, PHYS_BASE ≤ page) := by
  have hne : e.status ≠ .ON_FRAME := by
    rw [hst]
    decide
  have hdirty : vm.pageDirty p u e = (e.dirty || vm.isDirty p u) := by
    rw [Vm.pageDirty, decide_eq_false hne, Bool.false_and, Bool.or_false]
  unfold Vm.Freed
  rw [tableMmUnmap, he, Vm.write, Vm.contents, if_neg hne]
  simp only [hst]
  rw [← hdirty]
  cases hd : vm.pageDirty p u e with
  | false =>
    obtain ⟨s', hfree, hrel⟩ := swapFree_spec hwf hi hout
    simp only [hfree, ok_bind]
    exact .inl ⟨⟨_, rfl, (hrel.free _).trans (if_pos rfl)⟩, by simp⟩
  | true =>
    by_cases hp : PHYS_BASE ≤ tmp.getD 0
    · obtain ⟨mem', s', hin, hrel, hslot, _⟩ := swapIn_spec hwf hi hout vm.palloc.mem hp
      simp only [hin, ok_bind, hslot]
      refine .inl ⟨⟨_, rfl, (hrel.free _).trans (if_pos rfl)⟩, fun _ => ?_⟩
      cases tmp with
      | none => exact absurd hp (by decide)
      | some page => exact ⟨page, rfl, hp⟩
    · have hpanic : swapIn vm.swap vm.palloc.mem e.swapIndex (tmp.getD 0) =
          PANIC "assertion failed." := by
        rw [swapIn, ASSERT, if_neg hp]
        rfl
      simp only [hpanic]
      refine .inr ⟨by simp [PANIC], fun h => hp ?_⟩
      obtain ⟨page, rfl, hpage⟩ := h trivial
      exact hpage

/-- **Unmapping writes a dirty page back** and frees what held it exactly if a page on swap has a
temporary page, and the file has already those of the mapped bytes that are not written and those
written that are not mapped. -/
theorem tableMmUnmap_writes_back (offset bytes : ℕ) (tmp : Option ℕ)
    (he : vm.spte p u = some e) (hofs : pgOfs u = 0) (huser : u < PHYS_BASE)
    (hst : e.status = .ON_FRAME ∧ vm.Core ∨ e.status = .ON_SWAP ∧ vm.swap.Wf ∧
      e.swapIndex < vm.swap.swapSize ∧ vm.swap.free e.swapIndex = false)
    (hf : s.files file = some f) (hd : s.OnDisk f.inode i) :
    (∃ w vm' s', tableMmUnmap vm p u offset bytes tmp = .ok (w, vm') ∧
      FileWrite.run file s w = .ok s' ∧
      s'.fsDevice.byte = (if vm.pageDirty p u e then
        overwrite s.fsDevice.byte (512 * i.data.start + offset) (i.data.avail bytes offset)
          (vm.contents e).byte else s.fsDevice.byte) ∧
      vm'.spte p u = none ∧ vm'.Freed e) ↔
    (vm.pageDirty p u e = true → (e.status = .ON_SWAP → ∃ page ∈ tmp, PHYS_BASE ≤ page) ∧
      ∀ k, (k < writtenTo i (s.mallocs 0) (e.writeSize bytes) offset ↔
          ¬ k < i.data.avail bytes offset) →
        s.fsDevice.byte (512 * i.data.start + offset + k) = (vm.contents e).byte k) := by
  obtain ⟨⟨vm', hunmap, hfreed⟩, htmp⟩ | ⟨hnone, htmp⟩ :
    (∃ vm', tableMmUnmap vm p u offset bytes tmp =
        .ok (vm.write p u e (e.writeSize bytes) offset, vm') ∧
        vm'.Freed e) ∧ (vm.pageDirty p u e = true → e.status = .ON_SWAP →
          ∃ page ∈ tmp, PHYS_BASE ≤ page) ∨
      (∀ r, tableMmUnmap vm p u offset bytes tmp ≠ .ok r) ∧ ¬ (vm.pageDirty p u e = true →
        e.status = .ON_SWAP → ∃ page ∈ tmp, PHYS_BASE ≤ page) := by
    rcases hst with ⟨hst, hcore⟩ | ⟨hst, hwf, hi, hout⟩
    · have hne : e.status ≠ .ON_SWAP := by
        rw [hst]
        decide
      rw [PageTableEntry.writeSize, if_neg hne]
      exact .inl ⟨tableMmUnmap_resident hcore hofs huser he hst, fun _ h => absurd h hne⟩
    · rw [PageTableEntry.writeSize, if_pos hst]
      simpa [hst] using @tableMmUnmap_swapped vm p u offset bytes tmp e hwf he hst hi hout
  · obtain ⟨_, _, hspte, _⟩ := tableMmUnmap_eq_ok hunmap
    obtain ⟨s', hrun, hbyte⟩ := @FileWrite.run_write vm p u offset file e s f i hf hd
      (e.writeSize bytes)
    have hiff : (if vm.pageDirty p u e then overwrite s.fsDevice.byte (512 * i.data.start + offset)
          (writtenTo i (s.mallocs 0) (e.writeSize bytes) offset)
          (vm.contents e).byte else s.fsDevice.byte) = (if vm.pageDirty p u e then
        overwrite s.fsDevice.byte (512 * i.data.start + offset) (i.data.avail bytes offset)
          (vm.contents e).byte else s.fsDevice.byte) ↔ (vm.pageDirty p u e = true → ∀ k,
        (k < writtenTo i (s.mallocs 0) (e.writeSize bytes) offset ↔
          ¬ k < i.data.avail bytes offset) →
        s.fsDevice.byte (512 * i.data.start + offset + k) = (vm.contents e).byte k) := by
      cases vm.pageDirty p u e with
      | false => exact iff_of_true rfl nofun
      | true =>
        rw [if_pos rfl, if_pos rfl, overwrite_eq_iff]
        exact ⟨fun h _ => h, fun h => h rfl⟩
    constructor
    · rintro ⟨w, vm'', s'', hunmap', hrun', hbyte', _⟩ hdirty
      obtain ⟨rfl, rfl⟩ := Prod.mk.inj (Except.ok.inj (hunmap.symm.trans hunmap'))
      cases hrun.symm.trans hrun'
      exact ⟨htmp hdirty, hiff.1 (hbyte.symm.trans hbyte') hdirty⟩
    · intro h
      exact ⟨_, vm', s', hunmap, hrun, hbyte.trans (hiff.2 fun hdirty => (h hdirty).2),
        (hspte p u).trans (if_pos ⟨rfl, rfl⟩), hfreed⟩
  · refine iff_of_false ?_ fun h => htmp fun hdirty => (h hdirty).1
    rintro ⟨w, vm', _, hunmap, _⟩
    exact hnone _ hunmap

def swappedPage (palloc : Palloc) : Vm :=
  (boot palloc (oneSlot false) Pagedir.empty 264).setSpte 1 0x8048000
    (some ⟨true, 0, .ON_SWAP, true, 0⟩)

/-- A file system whose file 0 has two bytes, in sector 1. -/
def twoByteFile : FileSys :=
  ⟨⟨.BLOCK_FILESYS, 9, fun _ _ => 1, nineSectors.size_lt⟩, ⟨9, fun _ => 0⟩, none, [],
    fun _ => some ⟨0, 1, false, 0, ⟨1, 2, 0⟩⟩, fun _ => some ⟨0, 0, false⟩, 0, fun _ => true,
    fun _ => 0⟩

theorem tableMmUnmap_writes_back_swapped : ∃ palloc w vm' s',
    tableMmUnmap (swappedPage palloc) 1 0x8048000 0 2 (some 0xc0100000) = .ok (w, vm') ∧
      FileWrite.run 0 twoByteFile w = .ok s' ∧ vm'.swap.free 0 = true := by
  obtain ⟨palloc, _⟩ := first_page ⟨false, 0, .ON_FRAME, false, 0⟩
  have hwf : (oneSlot false).Wf := ⟨rfl, rfl⟩
  have hout : (oneSlot false).free 0 = false := by decide
  have he : (swappedPage palloc).spte 1 0x8048000 = some ⟨true, 0, .ON_SWAP, true, 0⟩ := rfl
  obtain ⟨w, vm', s', hunmap, hwrite, _, _, hfree⟩ :=
    (tableMmUnmap_writes_back 0 2 (some 0xc0100000) he rfl (by decide)
      (.inr ⟨rfl, hwf, Nat.one_pos, hout⟩) (s := twoByteFile) rfl
      ⟨rfl, ⟨by decide, by decide, by decide⟩, by decide⟩).2
      fun _ => ⟨fun _ => ⟨0xc0100000, rfl, by decide⟩, fun k hk =>
        absurd (hk : k < 2 ↔ ¬ k < 2) iff_not_self⟩
  exact ⟨palloc, w, vm', s', hunmap, hwrite, hfree⟩

/-- **A page on swap is written past the mapping**: of two bytes, of which the page maps one, both
are. -/
theorem tableMmUnmap_writes_past : ∃ palloc w vm' s',
    pallocInit 264 4 (fun _ => 0) (fun _ => 0) (fun _ => 0) = .ok palloc ∧
      tableMmUnmap (swappedPage palloc) 1 0x8048000 0 1 (some 0xc0100000) = .ok (w, vm') ∧
      FileWrite.run 0 twoByteFile w = .ok s' ∧
      twoByteFile.fsDevice.byte (512 * 1 + 1) = 1 ∧ s'.fsDevice.byte (512 * 1 + 1) = 0 :=
  ⟨_, _, _, _, rfl, rfl, rfl, rfl, rfl⟩

end Pintos.Virtualmemory
