/-
# Formatting a device

`filesys_init` on a device, without a failure of `malloc`.

With `format`, `free_map_create` puts the free map file at the first free sectors, 2 and on, and
`dir_create` the root directory behind it.  The map is written with whatever its last word holds
beyond it; `free_map_open` reads it back and clears these bits with a mask.
-/

import Pintos.Filesys.Files

namespace Pintos.Filesys

open Base Function Kernel Prog FileSys List

/-! ### Reading the free map -/

lemma lastMask_getLsbD (map : Bitmap) {t : ℕ} (ht : t < 32) :
    (lastMask map).getLsbD t = decide (map.bitCnt % 32 = 0 ∨ t < map.bitCnt % 32) := by
  have hmask : ∀ r < 32, ∀ t < 32, ((1#32 <<< r) - 1#32).getLsbD t = decide (t < r) := by
    decide +kernel
  rw [lastMask, ELEM_BITS]
  by_cases hr : map.bitCnt % 32 = 0
  · rw [if_pos hr, BitVec.getLsbD_not]
    simp [hr, ht]
  · rw [if_neg hr, hmask _ (Nat.mod_lt _ (by decide)) t ht]
    simp [hr]

section Read

variable {s : FileSys} {f m : ℕ} {x : File} {i : Inode}

/-- **`bitmap_read`** of the free map file: the bits on the device, and none beyond. -/
theorem bitmapRead_run (hx : s.files f = some x) (hi : s.inodes x.inode = some i)
    (hd : i.data = mapInode m s.freeMap) (hin : i.data.Inside s.fsDevice.size)
    (hmap : s.freeMap.bitCnt + 31 < 2 ^ 32) (hpos : 0 < s.freeMap.bitCnt)
    (hm : s.mallocs 0 = true) :
    ∃ map, bitmapRead f s = .ok (true, s.tick.setMap map) ∧ map.bitCnt = s.freeMap.bitCnt ∧
      (∀ j < map.bitCnt, map.bit j = diskBit s.fsDevice m j) ∧
      ∀ j, map.bitCnt ≤ j → j < 32 * ((map.bitCnt + 31) / 32) → map.bit j = false := by
  have hsize := s32_bitmapFileSize hmap
  have hfile := bitmapFileSize_eq hmap
  obtain ⟨n, hread, _, hall⟩ := inodeReadAt_spec hi hin (s32 (bitmapFileSize s.freeMap)) (le_refl 0)
  have hn : n = bitmapFileSize s.freeMap := by
    rw [hall hm, hd, InodeDisk.avail, mapInode]
    dsimp only
    omega
  rw [hd, hn] at hread
  -- The words that were read, before the mask.
  let byte : ℕ → BitVec 8 := fun o =>
    (bytesAt s.fsDevice.byte (512 * m) (bitmapFileSize s.freeMap)).getD o (s.freeMap.byte o)
  let last := elemCnt s.freeMap.bitCnt - 1
  let bits := update (elemOfBytes byte) last (elemOfBytes byte last &&& lastMask s.freeMap)
  have hword : ∀ k < (s.freeMap.bitCnt + 31) / 32,
      elemOfBytes byte k = elemOfBytes (fun o => s.fsDevice.byte (512 * m + o)) k := by
    intro k _
    refine elemOfBytes_congr fun o ho => ?_
    have hlt : 4 * k + o < (bytesAt s.fsDevice.byte (512 * m)
      (bitmapFileSize s.freeMap)).length := by
      rw [length_bytesAt]
      omega
    exact (getD_eq_getElem _ _ hlt).trans (getElem_bytesAt ..)
  have hlast : last = (s.freeMap.bitCnt + 31) / 32 - 1 := congrArg (· - 1) (elemCnt_eq hmap)
  have hbit : ∀ j < 32 * ((s.freeMap.bitCnt + 31) / 32), (⟨s.freeMap.bitCnt, bits⟩ : Bitmap).bit j =
        (diskBit s.fsDevice m j && decide (j < s.freeMap.bitCnt)) := by
    intro j _
    change (update (elemOfBytes byte) last (elemOfBytes byte last &&& lastMask s.freeMap)
      (j / 32)).getLsbD (j % 32) = _
    by_cases hl : j / 32 = last
    · rw [hl, update_self, BitVec.getLsbD_and, lastMask_getLsbD _ (Nat.mod_lt _ (by decide)),
        ← hl, hword (j / 32) (by omega), diskBit]
      congr 1
      rw [decide_eq_decide]
      omega
    · rw [update_of_ne hl, hword (j / 32) (by omega), diskBit,
        decide_eq_true (show j < s.freeMap.bitCnt by omega), Bool.and_true]
  refine ⟨⟨s.freeMap.bitCnt, bits⟩, ?_, rfl, fun j hj => ?_, fun j hle hlt => ?_⟩
  · have hrest : bitmapRead f s = (do
        let size := s32 (bitmapFileSize s.freeMap)
        let r ← fileReadAt f size 0 s
        let map := r.2.freeMap
        let byte := fun o => r.1.getD o (map.byte o)
        let last := elemCnt map.bitCnt - 1
        let bits := update (elemOfBytes byte) last (elemOfBytes byte last &&& lastMask map)
        return (decide ((r.1.length : ℤ) = size), r.2.setMap { map with bits := bits })) := by
      rw [bitmapRead, if_pos hpos]
      rfl
    have hfileRead : fileReadAt f (s32 (bitmapFileSize s.freeMap)) 0 s =
        .ok (bytesAt s.fsDevice.byte (512 * m) (bitmapFileSize s.freeMap), s.tick) := by
      rw [fileReadAt, deref_some hx, ok_bind, hread]
      rfl
    rw [hrest]
    dsimp only
    rw [hfileRead, ok_bind]
    dsimp only
    rw [length_bytesAt, decide_eq_true (by omega)]
    rfl
  · have hj' : j < s.freeMap.bitCnt := hj
    rw [hbit j (by omega), decide_eq_true hj', Bool.and_true]
  · have hle' : s.freeMap.bitCnt ≤ j := hle
    rw [hbit j hlt, decide_eq_false (by omega), Bool.and_false]

end Read

/-! ### The state before a device is read -/

/-- Nothing is open and only the two sectors of the system are marked. -/
structure FileSys.Blank (b : Block) (s : FileSys) : Prop where
  fsDevice : s.fsDevice = b
  bitCnt : s.freeMap.bitCnt = b.size
  system : ∀ j < 2, s.freeMap.bit j = true
  free : ∀ j, 2 ≤ j → j < b.size → s.freeMap.bit j = false
  freeMapFile : s.freeMapFile = none
  openInodes : s.openInodes = []
  inodes : ∀ p, s.inodes p = none
  files : ∀ f, s.files f = none
  lucky : s.Lucky

variable {n : ℕ}

section Init

variable {b : Block} {mallocs : ℕ → Bool} (mem : ℕ → BitVec 32) (stack : ℕ → BitVec 8)

lemma bitmapCreate_ok (hn : n + 31 < 2 ^ 32) :
    ∃ map, bitmapCreate n true (if byteCnt n ≠ 0 then some mem else none) = .ok (some map) := by
  have hall : ∀ buf : ℕ → BitVec 32, ∃ map, (do return some (← bitmapSetAll ⟨n, buf⟩ false) :
      Kernel (Option Bitmap)) = .ok (some map) := by
    intro buf
    obtain ⟨map, hmap, _⟩ := bitmapSetMultiple_spec (b := ⟨n, buf⟩) 0 n false
      (show n < 2 ^ 32 by omega) (by simp)
    exact ⟨map, by rw [bitmapSetAll, hmap]; rfl⟩
  by_cases hz : n = 0
  · obtain ⟨map, hmap⟩ := hall fun _ => 0#32
    subst hz
    exact ⟨map, hmap⟩
  · have hbytes : byteCnt n ≠ 0 := by
      rw [byteCnt_eq hn]
      omega
    rw [if_pos hbytes]
    exact hall mem

lemma freeMapInit_spec (hm : ∀ n, mallocs n = true) :
    (b.size + 31 < 2 ^ 32 ∧ ∃ s, freeMapInit b mallocs mem stack = .ok s ∧ s.Blank b) ∨
      (2 ^ 32 ≤ b.size + 31 ∧ ∃ e, freeMapInit b mallocs mem stack = .error e) := by
  have hrun : freeMapInit b mallocs mem stack = (do
      let map ← bitmapCreate b.size true (if byteCnt b.size ≠ 0 then some mem else none)
      map.elim (PANIC "bitmap creation failed--file system device is too large") fun map =>
        return ⟨b, bitmapMark (bitmapMark map FREE_MAP_SECTOR) ROOT_DIR_SECTOR, none, [],
          fun _ => none, fun _ => none, 0, fun n => mallocs (n + 2), stack⟩) := by
    have helems : (if byteCnt b.size ≠ 0 ∧ mallocs 1 = true then some mem else none) =
        if byteCnt b.size ≠ 0 then some mem else none := by
      rw [hm 1]
      simp
    rewrite [freeMapInit, hm 0, helems]
    congr with map
    cases map <;> rfl
  by_cases hsize : b.size + 31 < 2 ^ 32
  · obtain ⟨_, hmap⟩ := bitmapCreate_ok mem hsize
    obtain ⟨hcnt, hclear⟩ := bitmapCreate_eq_some b.size_lt hmap
    refine .inl ⟨hsize, _, by rw [hrun, hmap]; rfl, rfl, hcnt, fun j hj => ?_,
      fun j hle hlt => ?_, rfl,
      rfl, fun _ => rfl, fun _ => rfl, fun n => hm _⟩
    · rw [bitmapMark_bit, bitmapMark_bit, FREE_MAP_SECTOR, ROOT_DIR_SECTOR]
      split_ifs
      · rfl
      · rfl
      · omega
    · rw [bitmapMark_bit, bitmapMark_bit, FREE_MAP_SECTOR, ROOT_DIR_SECTOR, if_neg (by omega),
        if_neg (by omega)]
      exact hclear j hlt
  · have hlt := b.size_lt
    have hbytes : byteCnt b.size = 0 := by
      simp only [byteCnt, elemCnt, DIV_ROUND_UP, u32, ELEM_BITS]
      omega
    have hnone : bitmapCreate b.size true none = .ok none := by
      rw [bitmapCreate, if_pos rfl]
      exact if_neg (show b.size ≠ 0 by omega)
    refine .inr ⟨by omega, ⟨"bitmap creation failed--file system device is too large"⟩, ?_⟩
    rw [hrun, hbytes, if_neg (not_not.2 rfl), hnone]
    rfl

lemma FileSys.Blank.core {s : FileSys} (hs : s.Blank b) (hb : b.type ≠ .BLOCK_FOREIGN)
    (hsize : b.size + 31 < 2 ^ 32) : s.Core (fun _ => none) [] := by
  obtain ⟨hdev, hcnt, -, -, -, hopen, hinodes, hfiles, -⟩ := hs
  obtain ⟨_, _, _, _, inodes, files, _, _, _⟩ := s
  obtain rfl : inodes = fun _ => none := funext hinodes
  obtain rfl : files = fun _ => none := funext hfiles
  have huses : ∀ {h x}, ¬ Owned.Uses (fun _ => none) h x := by
    rintro h x ⟨d, hd, _⟩
    cases hd
  refine ⟨⟨⟨nofun, nofun, fun hu => absurd hu huses⟩, ?_, ?_, nofun, nofun,
    fun hu => absurd hu huses⟩,
    ⟨⟨fun p => ?_, ?_, nofun, nofun, nofun, nofun, nofun, nofun, nofun⟩, nofun, nofun, nofun⟩, ?_⟩
  · rw [hdev]
    exact hb
  · rw [hdev]
    exact hcnt
  · rw [hopen]
    simp
  · rw [hopen]
    exact nodup_nil
  · rw [hcnt]
    exact hsize

end Init

/-! ### Opening and closing the free map file -/

section MapFile

variable {s : FileSys} {owned : Owned} {held : List ℕ} {f : ℕ} {d : InodeDisk}

lemma openFreeMapFile_run (hc : s.Core owned held) (ho : owned FREE_MAP_SECTOR = some d)
    (hl : s.Lucky) :
    ∃ f s', openFreeMapFile.run s = .ok (f, s') ∧ s'.Core owned held ∧ s'.freeMapFile = some f ∧
      s.handle f = none ∧ s'.handle = update s.handle f (some (FREE_MAP_SECTOR, 0)) ∧
      s'.fsDevice = s.fsDevice ∧ s'.freeMap = s.freeMap ∧ s'.Lucky := by
  rcases inodeOpen_spec hc ho with ⟨p, s1, hopen, hc1, ⟨i, hi, hsector⟩, hs1, _⟩ | ⟨_, hfail⟩
  swap
  · rw [hl 0] at hfail
    cases hfail
  have hl1 := hs1.lucky hl
  have hbrk : s1.handle s1.brk = none := by
    rw [handle, hc1.opened.toOpenTable.files_brk]
    rfl
  have hhandle : (s1.tick.addFile ⟨p, 0, false⟩).handle =
      update s1.handle s1.brk (some (i.sector, 0)) :=
    handle_addFile (s := s1.tick) hi
  rw [hs1.handle] at hbrk hhandle
  rw [hsector] at hhandle
  refine ⟨s1.brk, { s1.tick.addFile ⟨p, 0, false⟩ with freeMapFile := some s1.brk }, ?_,
    ⟨hc1.layout, hc1.opened.fileNew, hc1.map⟩, rfl, hbrk, hhandle, hs1.fsDevice, hs1.freeMap,
      hl1.tick⟩
  rw [openFreeMapFile, run_bind, run_atom, hopen, ok_bind, run_bind, fileOpen,
    run_bind, run_atom, fileCalloc_some (hl1 0)]
  rfl

theorem freeMapClose_run {pos : ℤ} (hc : s.Core owned held) (hf : s.freeMapFile = some f)
    (hh : s.handle f = some (FREE_MAP_SECTOR, pos)) :
    ∃ s', freeMapClose.run s = .ok ((), s') ∧ s'.Core owned held ∧ s'.fsDevice = s.fsDevice ∧
      s'.freeMap = s.freeMap ∧ s'.freeMapFile = s.freeMapFile ∧
      s'.handle = update s.handle f none ∧ (s.Lucky → s'.Lucky) := by
  obtain ⟨x, i, hx, hi, hv⟩ := handle_eq_some hh
  have hrem : i.removed = false := by
    rw [Bool.eq_false_iff]
    intro hr
    have hle := hc.opened.removed hi hr
    rw [← (Prod.mk.inj hv).1] at hle
    exact absurd hle (by decide)
  have hdrop : fileDrop f s = .ok (x.inode, s.delFile f) := by
    rw [fileDrop, deref_some hx, ok_bind, (hc.opened.quiet hx).1, if_neg Bool.false_ne_true]
    rfl
  have hc1 : (s.delFile f).Core owned (x.inode :: held) :=
    ⟨hc.layout, hc.opened.fileDrop hx, hc.map⟩
  have hi1 : (s.delFile f).inodes x.inode = some i := hi
  have hstart : freeMapClose.run s = (inodeClose (some x.inode)).run (s.delFile f) := by
    rw [freeMapClose, run_bind, run_atom, ok_bind, hf, fileClose, run_bind,
      run_atom, hdrop, ok_bind]
  rw [hstart, inodeClose, run_bind, run_atom]
  rcases inodeDrop_spec hc1 hi1 with ⟨s', hrun, hc', hs, _⟩ | ⟨s', hrun, hc', hs, _⟩
  · refine ⟨s', ?_, hc', hs.fsDevice, hs.freeMap, hs.freeMapFile, ?_, fun hl => hs.lucky hl⟩
    · rw [hrun, ok_bind]
      dsimp only
      rw [hrem]
      rfl
    · rw [hs.handle, handle_delFile]
  · refine ⟨s', ?_, hc', hs.fsDevice, hs.freeMap, hs.freeMapFile, ?_, fun hl => hs.lucky hl⟩
    · rw [hrun]
      rfl
    · rw [hs.handle, handle_delFile]

end MapFile

/-! ### The two inodes of the system -/

def mapSectors (n : ℕ) : ℕ := (4 * ((n + 31) / 32) + 511) / 512

def mapOnly (map : Bitmap) : Owned :=
  update (fun _ => none) FREE_MAP_SECTOR (some (mapInode 2 map))

section Format

variable {b : Block} {s : FileSys} {map map' : Bitmap} {x h f : ℕ} {mallocs : ℕ → Bool}

lemma bytesToSectors_map (h : map.bitCnt + 31 < 2 ^ 32) :
    bytesToSectors (bitmapFileSize map) = mapSectors map.bitCnt := by
  have hsize := bitmapFileSize_eq h
  rw [bytesToSectors_of_lt (by omega) (by omega), hsize, mapSectors]
  omega

lemma mapOnly_congr (h : map'.bitCnt = map.bitCnt) : mapOnly map' = mapOnly map := by
  rw [mapOnly, mapOnly, mapInode_congr 2 h]

lemma Grabs.first_free {cnt : ℕ} (hg : Grabs map x cnt map') (hcnt : 0 < cnt)
    (hbit : ∀ j < map.bitCnt, map.bit j = decide (j < n)) : x = n := by
  have hin := hg.inside
  have hle : n ≤ x := by
    by_contra hlt
    have hfree := hg.free x (le_refl _) (by omega)
    rw [hbit x (by omega), decide_eq_true (by omega)] at hfree
    cases hfree
  by_contra hne
  refine hg.first n (by omega) fun j hj hlt => ?_
  rw [hbit j (by omega)]
  exact decide_eq_false (by omega)

lemma inodeFill_error {d : InodeDisk}
    (hbad : s.fsDevice.size ≤ h ∨ s.fsDevice.type = .BLOCK_FOREIGN) :
    ∃ e, inodeFill h d n s = .error e := by
  have hput : ∃ e, blockPut s.fsDevice h d.encode = .error e := by
    by_cases hle : s.fsDevice.size ≤ h
    · rw [blockPut, checkSector_of_le hle]
      exact ⟨_, rfl⟩
    · have htype := hbad.resolve_left hle
      rw [blockPut, checkSector_of_lt (by omega), ok_bind, ASSERT, if_neg (not_not.2 htype)]
      exact ⟨_, rfl⟩
  obtain ⟨e, he⟩ := hput
  refine ⟨e, ?_⟩
  rw [inodeFill, he]
  rfl

lemma inodeCalloc_ok {length : ℤ} (h : 0 ≤ length) (hl : s.Lucky) :
    inodeCalloc length s = .ok (true, s.tick) := by
  rw [inodeCalloc, ASSERT_of h, ok_bind, malloc, hl 0]
  rfl

structure FileSys.MapMade (b : Block) (f : ℕ) (s : FileSys) : Prop where
  core : s.Core (mapOnly s.freeMap) []
  bitCnt : s.freeMap.bitCnt = b.size
  bits : ∀ j < b.size, s.freeMap.bit j = decide (j < 2 + mapSectors b.size)
  file : s.freeMapFile = some f
  handle : s.handle = update (fun _ => none) f (some (FREE_MAP_SECTOR, 0))
  synced : SyncedAt s.fsDevice 2 s.freeMap
  lucky : s.Lucky

lemma mapInode_unless (hs : s.Blank b) (hsize : b.size + 31 < 2 ^ 32) :
    (inodeCreate FREE_MAP_SECTOR (s32 (bitmapFileSize s.freeMap))).Unless
      (b.size < 4 ∨ b.type = .BLOCK_FOREIGN) s fun r s' => match r with
      | true => s'.Core (mapOnly s'.freeMap) [] ∧ s'.freeMap.bitCnt = b.size ∧
        (∀ j < b.size, s'.freeMap.bit j = decide (j < 2 + mapSectors b.size)) ∧
        (s'.handle = fun _ => none) ∧ s'.Lucky
      | false => b.size < 4 ∨ b.type = .BLOCK_FOREIGN := by
  have hcnt := hs.bitCnt
  have hmap : s.freeMap.bitCnt + 31 < 2 ^ 32 := by omega
  have hfile := bitmapFileSize_eq hmap
  have hlen : s32 (bitmapFileSize s.freeMap) = bitmapFileSize s.freeMap := by
    rw [s32_bitmapFileSize hmap, hfile]
  have hsectors := bytesToSectors_map hmap
  rw [hcnt] at hsectors
  have hbits : ∀ j < s.freeMap.bitCnt, s.freeMap.bit j = decide (j < 2) := by
    intro j _
    by_cases hlt : j < 2
    · rw [decide_eq_true hlt]
      exact hs.system j hlt
    · rw [decide_eq_false hlt]
      exact hs.free j (by omega) (by omega)
  rw [hlen]
  refine .atom_bind (inodeCalloc_ok (by omega) hs.lucky) ?_
  rw [if_pos rfl, hsectors]
  rcases freeMapAllocate_unsaved (s := s.tick) hmap hs.freeMapFile (mapSectors b.size) with
    ⟨x, map', hrun, hg⟩ | ⟨hrun, hno⟩
  swap
  · -- A device with four sectors has room for the file.
    refine .atom_bind hrun (.pure (.inl ?_))
    by_contra hlt
    refine hno 2 ?_ fun j hle hlt' => ?_
    · change 2 + mapSectors b.size ≤ s.freeMap.bitCnt
      rw [mapSectors]
      omega
    · refine hs.free j hle ?_
      rw [mapSectors] at hlt'
      omega
  refine .atom_bind hrun ?_
  dsimp only
  have hdev : (s.tick.setMap map').fsDevice = b := hs.fsDevice
  by_cases hbad : b.size = 0 ∨ b.type = .BLOCK_FOREIGN
  · obtain ⟨e, he⟩ := inodeFill_error (s := s.tick.setMap map') (h := FREE_MAP_SECTOR)
      (d := ⟨x, bitmapFileSize s.freeMap, INODE_MAGIC⟩) (n := mapSectors b.size)
      (by rw [hdev, FREE_MAP_SECTOR]; exact hbad.imp Nat.le_of_eq id)
    have hC : b.size < 4 ∨ b.type = .BLOCK_FOREIGN := hbad.imp (fun hz => by omega) id
    have hhalt : (atom (inodeFill FREE_MAP_SECTOR ⟨x, bitmapFileSize s.freeMap, INODE_MAGIC⟩
        (mapSectors b.size))).Unless (b.size < 4 ∨ b.type = .BLOCK_FOREIGN) (s.tick.setMap map')
        fun _ _ => False := .halts hC ((run_atom ..).trans he)
    exact hhalt.bind fun _ _ hfalse => hfalse.elim
  obtain ⟨_, htype⟩ := not_or.1 hbad
  have hpos : 0 < mapSectors b.size := by
    rw [mapSectors]
    omega
  obtain rfl : x = 2 := hg.first_free hpos hbits
  have hin : 2 + mapSectors b.size ≤ b.size := hcnt ▸ hg.inside
  have hc : (s.tick.setMap map').Core (fun _ => none) [] := (hs.core htype hsize).tick.grabbed hg
  obtain ⟨_, hfill, _, hc', _⟩ := hc.fill (d := mapInode 2 s.freeMap) (h := FREE_MAP_SECTOR)
    (Int.natCast_nonneg _) (show (bitmapFileSize s.freeMap : ℤ) < 2 ^ 31 by omega) rfl
    (by rw [hdev, FREE_MAP_SECTOR]; omega)
    (by
      change 2 + bytesToSectors (bitmapFileSize s.freeMap) ≤ (s.tick.setMap map').fsDevice.size
      rw [hdev, bytesToSectors_map hmap, hcnt]
      exact hin)
    (fun hholds => absurd hholds.1 (show ¬ 2 ≤ FREE_MAP_SECTOR by decide))
    (fun y hy => by
      change map'.bit y = true
      rcases hy with rfl | hy
      · exact hg.marked (hs.system _ (by decide))
      · have hle : 2 ≤ y := hy.1
        have hlt : y < 2 + bytesToSectors (bitmapFileSize s.freeMap) := hy.2
        rw [bytesToSectors_map hmap, hcnt] at hlt
        rw [hg.bit, if_pos ⟨hle, hlt⟩])
    (fun _ _ hu => by
      obtain ⟨_, hd, _⟩ := hu
      cases hd)
  have hsectors' : bytesToSectors (mapInode 2 s.freeMap).length = mapSectors b.size := hsectors
  rw [hsectors'] at hfill
  refine .atom_bind hfill (.pure ⟨?_, hg.bitCnt.trans hcnt, fun j hj => ?_, ?_, hs.lucky.tick⟩)
  · change FileSys.Core _ (mapOnly map') []
    rw [mapOnly_congr hg.bitCnt]
    exact hc'
  · exact hg.first_bits hbits j (hj.trans_eq hcnt.symm)
  · funext f
    change handle s f = none
    rw [handle, hs.files f]
    rfl

lemma panic_unless {α : Type} {C : Prop} {Q : α → FileSys → Prop} (message : String) (hC : C) :
    (panic message : FsProg α).Unless C s Q :=
  .halts hC (run_atom ..)

lemma freeMapCreate_unless (hs : s.Blank b) (hsize : b.size + 31 < 2 ^ 32) :
    freeMapCreate.Unless (b.size < 4 ∨ b.type = .BLOCK_FOREIGN) s fun _ s' =>
      ∃ f, s'.MapMade b f := by
  refine .atom_bind rfl (.bind (mapInode_unless hs hsize) fun r s1 hr => ?_)
  cases r with
  | false => exact panic_unless _ hr
  | true =>
    obtain ⟨hc, hcnt, hbits, hnone, hl⟩ := hr
    obtain ⟨f, s2, hopen, hc2, hfile, _, hhandle, _, hmap, hl2⟩ :=
      openFreeMapFile_run hc (update_self ..) hl
    have howned : mapOnly s1.freeMap FREE_MAP_SECTOR = some (mapInode 2 s2.freeMap) := by
      rw [hmap]
      exact update_self ..
    have hf : s2.handle f = some (FREE_MAP_SECTOR, 0) := by
      rw [hhandle]
      exact update_self ..
    obtain ⟨_, b', hwrite, ha, hsync, hok⟩ := bitmapWrite_spec hc2 hf howned
    obtain rfl := hok (hl2 0)
    rw [if_pos rfl]
    refine .run_bind hopen (.atom_bind hwrite (.pure ⟨f, ?_⟩))
    have hc3 : (s2.tick.setDevice b').Core (mapOnly s1.freeMap) [] :=
      hc2.tick.setDevice ha fun h d ho => hc2.layout.not_holds_header howned ho
    refine ⟨?_, ?_, ?_, hfile, ?_, hsync rfl, hl2.tick⟩
    · change FileSys.Core _ (mapOnly s2.freeMap) []
      rw [hmap]
      exact hc3
    · change s2.freeMap.bitCnt = b.size
      rw [hmap]
      exact hcnt
    · change ∀ j < b.size, s2.freeMap.bit j = _
      rw [hmap]
      exact hbits
    · change s2.handle = _
      rw [hhandle, hnone]

def systemPlaces (n : ℕ) : Places := ⟨2, 2 + mapSectors n⟩

def systemOnly (map : Bitmap) : Owned :=
  update (mapOnly map) ROOT_DIR_SECTOR (some (rootInode (systemPlaces map.bitCnt).root))

lemma systemOnly_congr (h : map'.bitCnt = map.bitCnt) : systemOnly map' = systemOnly map := by
  rw [systemOnly, systemOnly, mapOnly_congr h, h]

structure FileSys.RootMade (b : Block) (f : ℕ) (s : FileSys) : Prop where
  core : s.Core (systemOnly s.freeMap) []
  bitCnt : s.freeMap.bitCnt = b.size
  fits : 2 + mapSectors b.size < b.size
  bits : ∀ j < b.size, s.freeMap.bit j = decide (j < 3 + mapSectors b.size)
  file : s.freeMapFile = some f
  handle : s.handle = update (fun _ => none) f (some (FREE_MAP_SECTOR, 0))
  synced : SyncedAt s.fsDevice 2 s.freeMap
  empty : ∀ k < ROOT_ENTRIES, (s.slot (systemPlaces b.size) k).inUse = false
  lucky : s.Lucky

lemma slotAt_zero {root k : ℕ} (hzero : contents b (rootInode root) = replicate 320 0)
    (hk : k < ROOT_ENTRIES) : (slotAt b root k).inUse = false := by
  have hbytes : bytesAt b.byte (512 * root + DIR_ENTRY_SIZE * k) DIR_ENTRY_SIZE =
      replicate DIR_ENTRY_SIZE 0 := by
    have hinner : bytesAt b.byte (512 * root + DIR_ENTRY_SIZE * k) DIR_ENTRY_SIZE =
        ((contents b (rootInode root)).drop (DIR_ENTRY_SIZE * k)).take DIR_ENTRY_SIZE := by
      refine bytesAt_inner b.byte (512 * root) ?_
      simp only [rootInode, ROOT_ENTRIES, DIR_ENTRY_SIZE] at hk ⊢
      omega
    rw [hinner, hzero, drop_replicate, take_replicate]
    congr 1
    simp only [ROOT_ENTRIES, DIR_ENTRY_SIZE] at hk ⊢
    omega
  rw [slotAt, hbytes]
  decide

lemma dirCreate_unless (hs : s.MapMade b f) :
    (dirCreate ROOT_DIR_SECTOR 16).Unless (b.size < 4 ∨ b.type = .BLOCK_FOREIGN) s
      fun r s' => match r with
      | true => s'.RootMade b f
      | false => b.size < 4 ∨ b.type = .BLOCK_FOREIGN := by
  have hcnt := hs.bitCnt
  set root := 2 + mapSectors b.size with hroot
  have hlen : s32 (u32 (16 * DIR_ENTRY_SIZE)) = 320 := by decide
  have hsectors : bytesToSectors 320 = 1 := by
    rw [bytesToSectors_of_lt (by decide) (by decide)]
    rfl
  have hfile : s.handle f = some (FREE_MAP_SECTOR, 0) := by
    rw [hs.handle]
    exact update_self ..
  have howned : mapOnly s.freeMap FREE_MAP_SECTOR = some (mapInode 2 s.freeMap) := update_self ..
  rw [dirCreate, hlen]
  refine .atom_bind (inodeCalloc_ok (by decide) hs.lucky) ?_
  rw [if_pos rfl, hsectors]
  rcases freeMapAllocate_spec hs.core.tick ⟨⟨f, 0, hs.file, hfile⟩, howned⟩ 1 with
    ⟨y, map', b', hrun, hg, ha, hsync⟩ | ⟨_, _, _, _, _, _, hfail⟩ | ⟨hrun, hno⟩
  · have hbits : ∀ j < s.freeMap.bitCnt, s.freeMap.bit j = decide (j < root) := by
      rw [hcnt]
      exact hs.bits
    obtain rfl : y = root := hg.first_free one_pos hbits
    have hin : root + 1 ≤ b.size := hcnt ▸ hg.inside
    have hc : (s.tick.saved map' b').Core (mapOnly s.freeMap) [] :=
      hs.core.tick.saved hg.bitCnt (fun h x hu => hg.marked (hs.core.layout.marked hu)) ha
        fun h d ho => hs.core.layout.not_holds_header howned ho
    have hsize : (s.tick.saved map' b').fsDevice.size = b.size := by
      rw [← hc.layout.bitCnt, ← hcnt]
      exact hg.bitCnt
    have hheld : ∀ x, (rootInode root).Holds x ↔ x = root := by
      intro x
      change root ≤ x ∧ x < root + bytesToSectors 320 ↔ _
      rw [hsectors]
      omega
    have hapart : ∀ x, (mapInode 2 s.freeMap).Holds x →
        ¬ (x = ROOT_DIR_SECTOR ∨ (rootInode root).Holds x) := by
      intro x hx hor
      have h1 : 2 ≤ x := hx.1
      have h2 : x < 2 + bytesToSectors (bitmapFileSize s.freeMap) := hx.2
      rw [bytesToSectors_map hs.core.map, hcnt] at h2
      rw [hheld, ROOT_DIR_SECTOR] at hor
      omega
    obtain ⟨b'', hfill, ha', hc', hzero⟩ := hc.fill (d := rootInode root)
      (h := ROOT_DIR_SECTOR) (show (0 : ℤ) ≤ ROOT_ENTRIES * DIR_ENTRY_SIZE by decide)
      (show (ROOT_ENTRIES * DIR_ENTRY_SIZE : ℤ) < 2 ^ 31 by decide) rfl
      (by rw [hsize, ROOT_DIR_SECTOR]; omega)
      (by
        change root + bytesToSectors 320 ≤ _
        rw [hsize, hsectors]
        exact hin)
      (fun hx => by
        have := (hheld _).1 hx
        simp only [ROOT_DIR_SECTOR] at this
        omega)
      (fun x hx => by
        change map'.bit x = true
        rcases hx with rfl | hx
        · exact hg.marked ((hs.bits 1 (by omega)).trans (decide_eq_true (by omega)))
        · rw [(hheld x).1 hx, hg.bit, if_pos (by omega)])
      (fun h' x hu hx => by
        obtain ⟨d, hd, hd'⟩ := hu
        rcases update_some_cases hd with ⟨rfl, rfl⟩ | ⟨_, hd⟩
        swap
        · cases hd
        rcases hd' with rfl | hd'
        · rw [hheld] at hx
          simp only [FREE_MAP_SECTOR, ROOT_DIR_SECTOR] at hx
          omega
        · exact hapart x hd' hx)
    have hfill' : inodeFill ROOT_DIR_SECTOR ⟨root, 320, INODE_MAGIC⟩ 1
        (s.tick.saved map' b') = .ok ((), (s.tick.saved map' b').setDevice b'') := by
      rw [← hfill]
      change _ = inodeFill ROOT_DIR_SECTOR (rootInode root) (bytesToSectors 320) _
      rw [hsectors]
      rfl
    refine .atom_bind hrun (.atom_bind hfill' (.pure ?_))
    refine ⟨?_, hg.bitCnt.trans hcnt, by omega, fun j hj => ?_, hs.file, hs.handle, ?_,
      fun k hk => ?_,
      hs.lucky.tick.tick⟩
    · change FileSys.Core _ (systemOnly map') []
      rw [systemOnly_congr hg.bitCnt, systemOnly]
      change FileSys.Core _ (update (mapOnly s.freeMap) ROOT_DIR_SECTOR
        (some (rootInode (2 + mapSectors s.freeMap.bitCnt)))) []
      rw [hcnt]
      exact hc'
    · refine (hg.first_bits hbits j (hj.trans_eq hcnt.symm)).trans ?_
      rw [decide_eq_decide]
      omega
    · refine hsync.agree (by rw [hg.bitCnt]; exact hs.core.map) ha' fun x hx => ?_
      rw [mapInode_congr 2 hg.bitCnt] at hx
      exact hapart x hx
    · exact slotAt_zero hzero hk
  · rw [hs.lucky.tick 0] at hfail
    cases hfail
  · refine .atom_bind hrun (.pure (.inl ?_))
    by_contra hlt
    refine hno root ?_ fun j hle hlt' => ?_
    · change root + 1 ≤ s.freeMap.bitCnt
      rw [hroot, mapSectors]
      omega
    · change s.freeMap.bit j = false
      rw [hs.bits j (by rw [hroot, mapSectors] at hlt'; omega)]
      exact decide_eq_false (by omega)

/-! ### A formatted device -/

/-- **The file system on a device that was just formatted.** -/
structure FileSys.Fresh (s : FileSys) : Prop where
  inv : Inv (systemPlaces s.freeMap.bitCnt) s (systemOnly s.freeMap) []
  lucky : s.Lucky
  synced : s.Synced (systemPlaces s.freeMap.bitCnt)
  fits : (systemPlaces s.freeMap.bitCnt).root < s.freeMap.bitCnt
  bits : ∀ j < s.freeMap.bitCnt,
    s.freeMap.bit j = decide (j ≤ (systemPlaces s.freeMap.bitCnt).root)
  beyond : ∀ j, s.freeMap.bitCnt ≤ j → j < 32 * ((s.freeMap.bitCnt + 31) / 32) →
    s.freeMap.bit j = false
  empty : ∀ k < ROOT_ENTRIES, (s.slot (systemPlaces s.freeMap.bitCnt) k).inUse = false
  files : ∀ f, (s.handle f).isSome → s.freeMapFile = some f

lemma Layout.uses_lt {owned : Owned} (hl : Layout b map owned) (hu : owned.Uses h x) :
    x < b.size := by
  obtain ⟨d, hd, hx⟩ := hu
  obtain ⟨h1, _⟩ := hl.extent hd
  rcases hx with rfl | hx
  · exact h1
  · have := hx.2
    omega

lemma freeMapOpen_run (hs : s.RootMade b f) :
    ∃ s1 s', freeMapClose.run s = .ok ((), s1) ∧ freeMapOpen.run s1 = .ok ((), s') ∧ s'.Fresh ∧
      s'.freeMap.bitCnt = b.size := by
  have hfile : s.handle f = some (FREE_MAP_SECTOR, 0) := by
    rw [hs.handle]
    exact update_self ..
  obtain ⟨s1, hclose, hc1, hdev1, hmap1, _, hhandle1, hl1⟩ := freeMapClose_run hs.core hs.file hfile
  rw [hs.handle, update_idem, update_eq_self_iff.2 rfl] at hhandle1
  have howned : systemOnly s.freeMap FREE_MAP_SECTOR = some (mapInode 2 s.freeMap) :=
    (update_of_ne (by decide) ..).trans (update_self ..)
  obtain ⟨g, s2, hopen, hc2, hg, _, hhandle2, hdev2, hmap2, hl2⟩ :=
    openFreeMapFile_run hc1 howned (hl1 hs.lucky)
  rw [hhandle1] at hhandle2
  have hmap : s2.freeMap = s.freeMap := hmap2.trans hmap1
  have hdev : s2.fsDevice = s.fsDevice := hdev2.trans hdev1
  have hcnt : s2.freeMap.bitCnt = b.size := by
    rw [hmap]
    exact hs.bitCnt
  have hfits := hs.fits
  have hgfile : s2.handle g = some (FREE_MAP_SECTOR, 0) := by
    rw [hhandle2]
    exact update_self ..
  obtain ⟨x, i, hx, hi, hv⟩ := handle_eq_some hgfile
  have hdata : i.data = mapInode 2 s2.freeMap := by
    have hd := hc2.opened.data hi
    rw [← (Prod.mk.inj hv).1, howned] at hd
    rw [hmap]
    exact (Option.some.inj hd).symm
  obtain ⟨map, hread, hcnt', hbits, hbeyond⟩ := bitmapRead_run hx hi hdata (hc2.inside hi) hc2.map
    (by omega) (hl2 0)
  have hsame : ∀ j < b.size, map.bit j = s.freeMap.bit j := by
    intro j hj
    rw [hbits j (by omega), hdev]
    exact hs.synced j (by rw [hs.bitCnt]; exact hj)
  have hsize : map.bitCnt = b.size := hcnt'.trans hcnt
  have hempty : ∀ k < ROOT_ENTRIES,
      ((s2.tick.setMap map).slot (systemPlaces map.bitCnt) k).inUse = false := by
    intro k hk
    have hslot : (s2.tick.setMap map).slot (systemPlaces map.bitCnt) k =
        s.slot (systemPlaces b.size) k := by
      change slotAt s2.fsDevice _ k = _
      rw [hdev, hsize]
      rfl
    rw [hslot]
    exact hs.empty k hk
  have hc3 : (s2.tick.setMap map).Core (systemOnly map) [] := by
    have howned' : systemOnly map = systemOnly s.freeMap :=
      systemOnly_congr (by rw [hsize, hs.bitCnt])
    have hsize2 : s2.fsDevice.size = b.size := by
      rw [← hc2.layout.bitCnt]
      exact hcnt
    rw [howned']
    refine ⟨hc2.layout.remap hcnt' fun h y hu => ?_, hc2.opened, ?_⟩
    · change map.bit y = true
      rw [hsame y (hsize2 ▸ hc2.layout.uses_lt hu), ← hmap]
      exact hc2.layout.marked hu
    · change map.bitCnt + 31 < 2 ^ 32
      rw [hcnt']
      exact hc2.map
  refine ⟨s1, s2.tick.setMap map, hclose, ?_, ?_, hsize⟩
  · rw [freeMapOpen, run_bind, hopen, ok_bind, run_bind, run_atom, hread]
    rfl
  have hhandle : ∀ p, (s2.tick.setMap map).handle p =
      if p = g then some (FREE_MAP_SECTOR, 0) else none := by
    intro p
    change s2.handle p = _
    rw [hhandle2, update_apply]
  refine ⟨{ hc3 with mapFile := ⟨⟨g, 0, hg, ?_⟩, ?_⟩, root := update_self .., user := ?_,
                     named := ?_, distinct := ?_ }, hl2.tick, ?_, ?_, ?_, hbeyond, hempty, ?_⟩
  · rw [hhandle, if_pos rfl]
  · exact (update_of_ne (by decide) ..).trans (update_self ..)
  · intro p v hv hp
    have hpg : p ≠ g := by
      rintro rfl
      exact hp hg
    rw [hhandle, if_neg hpg] at hv
    cases hv
  · intro k hk huse
    exact absurd ((hempty k hk).symm.trans huse) Bool.false_ne_true
  · intro k hk _ _ huse
    exact absurd ((hempty k hk).symm.trans huse) Bool.false_ne_true
  · exact fun j hj => (hbits j hj).symm
  · change 2 + mapSectors map.bitCnt < map.bitCnt
    rw [hsize]
    exact hfits
  · intro j hj
    have hj' : j < b.size := hsize ▸ hj
    change map.bit j = decide (j ≤ 2 + mapSectors map.bitCnt)
    rw [hsame j hj', hs.bits j hj', hsize, decide_eq_decide]
    omega
  · intro p hp
    rw [hhandle] at hp
    by_cases hpg : p = g
    · rw [hpg]
      exact hg
    · rw [if_neg hpg] at hp
      cases hp

/-- **Formatting** succeeds unless the device is too small, too large, or may not be written. -/
theorem filesysInit_format (b : Block) (mem : ℕ → BitVec 32) (stack : ℕ → BitVec 8)
    (hm : ∀ n, mallocs n = true) :
    (∃ s, filesysInit true b mallocs mem stack = .ok s ∧ s.Fresh ∧ s.freeMap.bitCnt = b.size) ∨
      ((b.size < 4 ∨ b.type = .BLOCK_FOREIGN ∨ 2 ^ 32 ≤ b.size + 31) ∧
        ∃ e, filesysInit true b mallocs mem stack = .error e) := by
  rcases freeMapInit_spec (b := b) mem stack hm with ⟨hsize, s, hinit, hs⟩ | ⟨hsize, e, hinit⟩
  swap
  · refine .inr ⟨.inr (.inr hsize), e, ?_⟩
    rw [filesysInit, hinit]
    rfl
  have hrun : filesysInit true b mallocs mem stack = ((do
        doFormat
        freeMapOpen : FsProg Unit).run s >>= fun r => .ok r.2) := by
    rw [filesysInit, hinit]
    rfl
  have hall : (do
      doFormat
      freeMapOpen : FsProg Unit).Unless (b.size < 4 ∨ b.type = .BLOCK_FOREIGN) s fun _ s' =>
        s'.Fresh ∧ s'.freeMap.bitCnt = b.size := by
    have hformat : doFormat.Unless (b.size < 4 ∨ b.type = .BLOCK_FOREIGN) s fun _ s1 =>
        ∃ s', freeMapOpen.run s1 = .ok ((), s') ∧ s'.Fresh ∧ s'.freeMap.bitCnt = b.size := by
      refine .bind (freeMapCreate_unless hs hsize) fun _ s1 ⟨f, hs1⟩ => ?_
      refine .bind (dirCreate_unless hs1) fun r s2 hr => ?_
      cases r with
      | true =>
        obtain ⟨_, s', hclose, hopen, hfresh⟩ := freeMapOpen_run hr
        exact .of_run hclose ⟨s', hopen, hfresh⟩
      | false => exact panic_unless _ hr
    exact hformat.bind fun _ _ ⟨s', hopen, hfresh⟩ => .of_run hopen hfresh
  rcases hall with ⟨_, s', hok, hfresh⟩ | ⟨hC, e, herr⟩
  · exact .inl ⟨s', by rw [hrun, hok]; rfl, hfresh⟩
  · exact .inr ⟨hC.imp id .inl, e, by rw [hrun, herr]; rfl⟩

/-- Only the free map file is open; `d` is its inode. -/
structure FileSys.Started (b : Block) (d : InodeDisk) (s : FileSys) : Prop where
  fsDevice : s.fsDevice = b
  lucky : s.Lucky
  mapFile : ∃ f, s.freeMapFile = some f ∧
    s.handle = update (fun _ => none) f (some (FREE_MAP_SECTOR, 0))
  kept : ∀ h, ¬ s.Removed h
  opened : ∀ {owned : Owned}, b.type ≠ .BLOCK_FOREIGN → owned FREE_MAP_SECTOR = some d →
    Opened s.openInodes s.inodes s.files s.brk owned []

/-- **Starting from a formatted device**: the free map is the one on it. -/
theorem filesysInit_reads (b : Block) (mem : ℕ → BitVec 32) (stack : ℕ → BitVec 8)
    (hm : ∀ n, mallocs n = true) {m : ℕ}
    (hheader : InodeDisk.decode (b.sectors FREE_MAP_SECTOR) = mapInode m map)
    (hcnt : map.bitCnt = b.size) (hin : (mapInode m map).Inside b.size) (hpos : 0 < b.size)
    (hsize : b.size + 31 < 2 ^ 32) :
    ∃ s, filesysInit false b mallocs mem stack = .ok s ∧ s.Started b (mapInode m map) ∧
      s.freeMap.bitCnt = b.size ∧ (∀ j < b.size, s.freeMap.bit j = diskBit b m j) ∧
      ∀ j, b.size ≤ j → j < 32 * ((b.size + 31) / 32) → s.freeMap.bit j = false := by
  rcases freeMapInit_spec (b := b) mem stack hm with ⟨_, s, hinit, hs⟩ | ⟨_, _⟩
  swap
  · omega
  have hnew : ∀ {p i}, s.inodes p = some i → i.sector ≠ FREE_MAP_SECTOR := by
    intro p i hi
    rw [hs.inodes p] at hi
    cases hi
  have hget : blockGet s.fsDevice FREE_MAP_SECTOR = .ok (b.sectors FREE_MAP_SECTOR) := by
    rw [hs.fsDevice]
    exact blockGet_ok hpos
  -- The state in which the free map file is open.
  let i : Inode := ⟨FREE_MAP_SECTOR, 1, false, 0, mapInode m map⟩
  let s1 := (s.tick.addInode i).tick.addFile ⟨s.brk, 0, false⟩
  let s2 : FileSys := { s1 with freeMapFile := some (s.brk + 1) }
  have hopen : openFreeMapFile.run s = .ok (s.brk + 1, s2) := by
    have hinode : inodeOpen FREE_MAP_SECTOR s = .ok (some s.brk, s.tick.addInode i) := by
      rw [inodeOpen_new hnew, if_pos (hs.lucky 0), hget, ok_bind, hheader]
      rfl
    have hcalloc : fileCalloc (some s.brk) (s.tick.addInode i) = .ok (some (s.brk + 1), s1) :=
      fileCalloc_some (hs.lucky.tick 0)
    rw [openFreeMapFile, run_bind, run_atom, hinode, ok_bind, run_bind, fileOpen,
      run_bind, run_atom, hcalloc]
    rfl
  have hcnt2 : s2.freeMap.bitCnt = b.size := hs.bitCnt
  have hdev2 : s2.fsDevice = b := hs.fsDevice
  obtain ⟨map', hread, hcnt', hbits, hbeyond⟩ := bitmapRead_run (s := s2) (f := s.brk + 1) (m := m)
    (x := ⟨s.brk, 0, false⟩) (i := i) (update_self ..) (update_self ..)
    (mapInode_congr m (hcnt.trans hcnt2.symm)) (by rw [hdev2]; exact hin) (by omega) (by omega)
    (hs.lucky 2)
  rw [hcnt2] at hcnt'
  rw [hcnt'] at hbits hbeyond
  refine ⟨s2.tick.setMap map', ?_, ?_, hcnt', ?_, hbeyond⟩
  · have hrun : freeMapOpen.run s = .ok ((), s2.tick.setMap map') := by
      rw [freeMapOpen, run_bind, hopen, ok_bind, run_bind, run_atom, hread]
      rfl
    have hall : filesysInit false b mallocs mem stack =
      (freeMapOpen.run s >>= fun r => .ok r.2) := by
      rw [filesysInit, hinit]
      rfl
    rw [hall, hrun]
    rfl
  · have hclosed : (s.tick.addInode i).tick.handle = fun _ => none :=
      funext fun f => congrArg (· >>= _) (hs.files f)
    refine ⟨hdev2, hs.lucky.tick.tick.tick, ⟨s.brk + 1, rfl, ?_⟩, ?_, fun hb ho => ?_⟩
    · rw [← hclosed]
      exact handle_addFile (s := (s.tick.addInode i).tick) (update_self ..)
    · rintro h ⟨p, j, hj, _, hr⟩
      rcases update_some_cases hj with ⟨_, rfl⟩ | ⟨_, hj⟩
      · cases hr
      · cases (hs.inodes p).symm.trans hj
    · refine (((hs.core hb hsize).opened.reown ?_).openNew ho hnew).fileNew
      intro p j hj
      cases (hs.inodes p).symm.trans hj
  · intro j hj
    change map'.bit j = _
    rw [hbits j hj, hdev2]

end Format

end Pintos.Filesys
