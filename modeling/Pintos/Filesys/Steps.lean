/-
# The actions of the file system

Every action of a file system call, from a state in which the device, the free map and the tables
agree with a table of owners (`FileSys.Core`): it ends, in the state named here; `malloc` decides
between the cases.

`SyncedAt`: bit by bit, the words of the free map file are those of the free map in memory.
-/

import Pintos.Filesys.Layout

namespace Pintos.Filesys

open Base Function Kernel Option InodeDisk

namespace FileSys

def setDevice (s : FileSys) (b : Block) : FileSys := { s with fsDevice := b }

def setMap (s : FileSys) (map : Bitmap) : FileSys := { s with freeMap := map }

def saved (s : FileSys) (map : Bitmap) (b : Block) : FileSys :=
  { s with fsDevice := b, freeMap := map, mallocs := fun n => s.mallocs (n + 1) }

def Lucky (s : FileSys) : Prop := ∀ n, s.mallocs n = true

def handle (s : FileSys) (f : ℕ) : Option (ℕ × ℤ) := do
  let x ← s.files f
  let i ← s.inodes x.inode
  return (i.sector, x.pos)

def Removed (s : FileSys) (h : ℕ) : Prop :=
  ∃ p i, s.inodes p = some i ∧ i.sector = h ∧ i.removed = true

/-- An open inode whose data lies on a writable device. -/
structure OnDisk (s : FileSys) (p : ℕ) (i : Inode) : Prop where
  get : s.inodes p = some i
  inside : i.data.Inside s.fsDevice.size
  writable : s.fsDevice.type ≠ .BLOCK_FOREIGN

/-- Device, free map and tables agree; the size of the map does not wrap. -/
structure Core (s : FileSys) (owned : Owned) (held : List ℕ) : Prop where
  layout : Layout s.fsDevice s.freeMap owned
  opened : Opened s.openInodes s.inodes s.files s.brk owned held
  map : s.freeMap.bitCnt + 31 < 2 ^ 32

end FileSys

/-! ### Files in the tables -/

variable {S : ℕ → Prop} {map : Bitmap}

namespace FileSys

variable {s : FileSys} {owned : Owned} {held held' : List ℕ} {p f : ℕ} {i : Inode}
  {x : File} {b : Block}

lemma handle_of (hx : s.files f = some x) (hi : s.inodes x.inode = some i) :
    s.handle f = some (i.sector, x.pos) := by
  simp [handle, hx, hi]

lemma handle_eq_some {v : ℕ × ℤ} (h : s.handle f = some v) :
    ∃ x i, s.files f = some x ∧ s.inodes x.inode = some i ∧ v = (i.sector, x.pos) := by
  simp only [handle, bind_eq_bind, bind_eq_some_iff, pure_def, some.injEq] at h
  obtain ⟨x, hx, i, hi, rfl⟩ := h
  exact ⟨x, i, hx, hi, rfl⟩

lemma Lucky.tick (h : s.Lucky) : s.tick.Lucky := fun n => h (n + 1)

namespace Core

section

variable (hc : s.Core owned held)
include hc

lemma tick : s.tick.Core owned held := { hc with }

lemma setDevice (ha : s.fsDevice.Agree b S) (hS : ∀ h d, owned h = some d → ¬ S h) :
    (s.setDevice b).Core owned held :=
  ⟨hc.layout.agree ha hS, hc.opened, hc.map⟩

lemma saved (hcnt : map.bitCnt = s.freeMap.bitCnt)
    (hbit : ∀ h x, owned.Uses h x → map.bit x = true) (ha : s.fsDevice.Agree b S)
    (hS : ∀ h d, owned h = some d → ¬ S h) : (s.saved map b).Core owned held := by
  refine ⟨(hc.layout.remap hcnt hbit).agree ha hS, hc.opened, ?_⟩
  change map.bitCnt + 31 < 2 ^ 32
  rw [hcnt]
  exact hc.map

lemma perm (hp : held.Perm held') : s.Core owned held' := ⟨hc.layout, hc.opened.perm hp, hc.map⟩

lemma disown {h : ℕ} (hclosed : ∀ {p i}, s.inodes p = some i → i.sector ≠ h) :
    s.Core (update owned h none) held := by
  refine ⟨hc.layout.sub Owned.update_none_sub, hc.opened.reown fun hi => ?_, hc.map⟩
  rw [update_of_ne (hclosed hi)]
  exact hc.opened.data hi

lemma held_some (hp : p ∈ held) : ∃ i, s.inodes p = some i :=
  isSome_iff_exists.1 (hc.opened.held p hp)

lemma inside (hi : s.inodes p = some i) : i.data.Inside s.fsDevice.size :=
  hc.layout.inside (hc.opened.data hi)

lemma onDisk (hi : s.inodes p = some i) : s.OnDisk p i := ⟨hi, hc.inside hi, hc.layout.writable⟩

lemma not_header (hi : s.inodes p = some i) : ∀ h d, owned h = some d → ¬ i.data.Holds h :=
  fun _ _ ho => hc.layout.not_holds_header (hc.opened.data hi) ho

end

end Core

end FileSys

/-! ### Reading and writing -/

section Files

variable {s : FileSys} {p : ℕ} {i : Inode} {offset : ℤ}

theorem inodeReadAt_spec (hi : s.inodes p = some i) (hin : i.data.Inside s.fsDevice.size) (size : ℤ)
    (ho : 0 ≤ offset) :
    ∃ m, inodeReadAt p size offset s =
        .ok (bytesAt s.fsDevice.byte (512 * i.data.start + offset.toNat) m, s.tick) ∧
      m ≤ i.data.avail size offset ∧ (s.mallocs 0 = true → m = i.data.avail size offset) := by
  obtain ⟨m, hm, hle, hall⟩ : Reads s.fsDevice i.data (s.mallocs 0) size offset []
      (readLoop s.fsDevice i.data (s.mallocs 0) size.toNat size offset []) :=
    readLoop_spec [] hin ho (le_refl _)
  refine ⟨m, ?_, hle, hall⟩
  have hread : inodeReadAt p size offset s = (do
      let buffer ← readLoop s.fsDevice i.data (s.mallocs 0) size.toNat size offset []
      return (buffer, s.tick)) := by
    rw [inodeReadAt, deref_some hi]
    rfl
  rw [hread, hm]
  rfl

theorem inodeWriteAt_spec (hd : s.OnDisk p i) (hdeny : i.denyWriteCnt = 0)
    (buffer : ℕ → BitVec 8) (size : ℤ) (ho : 0 ≤ offset) :
    ∃ b m, inodeWriteAt p buffer size offset s = .ok (m, s.tick.setDevice b) ∧
      s.fsDevice.Agree b i.data.Holds ∧
      b.byte = overwrite s.fsDevice.byte (512 * i.data.start + offset.toNat) m buffer ∧
      m ≤ i.data.avail size offset ∧ (s.mallocs 0 = true → m = i.data.avail size offset) := by
  obtain ⟨b, m, hm, htype, hsize, hbyte, hle, hall⟩ :
      Writes s.fsDevice i.data (s.mallocs 0) buffer size offset 0
        (writeLoop i.data (s.mallocs 0) buffer size.toNat s.fsDevice size offset 0) :=
    writeLoop_spec buffer hd.writable hd.inside ho (le_refl _)
  simp only [Nat.zero_add] at hm hbyte
  obtain ⟨h1, h2, _⟩ := hd.inside
  refine ⟨b, m, ?_, ?_, hbyte, hle, hall⟩
  · have hwrite : inodeWriteAt p buffer size offset s = (do
        let r ← writeLoop i.data (s.mallocs 0) buffer size.toNat s.fsDevice size offset 0
        return (r.2, s.tick.setDevice r.1)) := by
      rw [inodeWriteAt, deref_some hd.get, ok_bind, if_neg (not_not.2 hdeny)]
      rfl
    rw [hwrite, hm]
    rfl
  · refine agree_of_overwrite h1 h2 htype hsize hbyte fun hpos => ?_
    unfold InodeDisk.avail at hle
    omega

/-- **Reading and writing**: `n` bytes from `offset` on are read, or replaced. -/
theorem inode_bytes (hd : s.OnDisk p i) (ho : 0 ≤ offset) (size : ℤ) (buffer : ℕ → BitVec 8) :
    (∃ n s', inodeReadAt p size offset s =
        .ok (bytesAt s.fsDevice.byte (512 * i.data.start + offset.toNat) n, s') ∧
      s'.fsDevice = s.fsDevice ∧ n ≤ i.data.avail size offset ∧
      (s.mallocs 0 = true → n = i.data.avail size offset)) ∧
    (i.denyWriteCnt = 0 → ∃ n s', inodeWriteAt p buffer size offset s = .ok (n, s') ∧
      s'.fsDevice.size = s.fsDevice.size ∧ s'.fsDevice.byte =
        overwrite s.fsDevice.byte (512 * i.data.start + offset.toNat) n buffer ∧
      n ≤ i.data.avail size offset ∧ (s.mallocs 0 = true → n = i.data.avail size offset)) := by
  refine ⟨?_, fun hdeny => ?_⟩
  · obtain ⟨n, hread, hle, hall⟩ := inodeReadAt_spec hd.get hd.inside size ho
    exact ⟨n, s.tick, hread, rfl, hle, hall⟩
  · obtain ⟨b, n, hwrite, ha, hbyte, hle, hall⟩ := inodeWriteAt_spec hd hdeny buffer size ho
    exact ⟨n, _, hwrite, ha.size, hbyte, hle, hall⟩

theorem inode_bytes_tail : ∃ s : FileSys, ∃ n s',
    inodeWriteAt 0 (fun _ => 7#8) 200 600 s = .ok (n, s') ∧
      s'.fsDevice.byte = overwrite s.fsDevice.byte (512 * 2 + 600) 100 fun _ => 7#8 := by
  obtain ⟨n, s', hwrite, _, hbyte, _, hall⟩ := (inode_bytes (i := ⟨1, 1, false, 0, ⟨2, 700, 0⟩⟩)
    (s := ⟨⟨.BLOCK_FILESYS, 4, fun _ _ => 0, by decide⟩, ⟨4, fun _ => 0⟩, none, [0],
      fun _ => some ⟨1, 1, false, 0, ⟨2, 700, 0⟩⟩, fun _ => none, 1, fun _ => true, fun _ => 0⟩)
    (p := 0) ⟨rfl, ⟨by decide, by decide, by decide⟩, nofun⟩ (show (0 : ℤ) ≤ 600 by decide) 200
    fun _ => 7#8).2 rfl
  obtain rfl := hall rfl
  exact ⟨_, _, s', hwrite, hbyte⟩

end Files

/-! ### The free map -/

def diskBit (b : Block) (m j : ℕ) : Bool :=
  (elemOfBytes (fun o => b.byte (512 * m + o)) (j / 32)).getLsbD (j % 32)

/-- The file whose data starts at sector `m` holds the map. -/
def SyncedAt (b : Block) (m : ℕ) (map : Bitmap) : Prop :=
  ∀ j < map.bitCnt, diskBit b m j = map.bit j

def mapInode (m : ℕ) (map : Bitmap) : InodeDisk := ⟨m, bitmapFileSize map, INODE_MAGIC⟩

lemma mapInode_congr {map' : Bitmap} (m : ℕ) (h : map'.bitCnt = map.bitCnt) :
    mapInode m map' = mapInode m map := by
  rw [mapInode, mapInode, bitmapFileSize, bitmapFileSize, h]

def FileSys.MapFile (s : FileSys) (m : ℕ) (owned : Owned) : Prop :=
  (∃ f pos, s.freeMapFile = some f ∧ s.handle f = some (FREE_MAP_SECTOR, pos)) ∧
    owned FREE_MAP_SECTOR = some (mapInode m s.freeMap)

section FreeMap

variable {s : FileSys} {owned : Owned} {held : List ℕ} {m f cnt x : ℕ} {pos : ℤ} {b b' : Block}
  {map map' : Bitmap}

lemma bitmapFileSize_eq (h : map.bitCnt + 31 < 2 ^ 32) :
    bitmapFileSize map = 4 * ((map.bitCnt + 31) / 32) :=
  byteCnt_eq h

lemma s32_bitmapFileSize (h : map.bitCnt + 31 < 2 ^ 32) :
    s32 (bitmapFileSize map) = (4 * ((map.bitCnt + 31) / 32) : ℕ) := by
  rw [bitmapFileSize_eq h, s32, if_pos (by omega)]

lemma syncedAt_of_bytes (h : map.bitCnt + 31 < 2 ^ 32)
    (hbyte : ∀ o < bitmapFileSize map, b.byte (512 * m + o) = map.byte o) : SyncedAt b m map := by
  intro j _
  rw [bitmapFileSize_eq h] at hbyte
  have helem : elemOfBytes (fun o => b.byte (512 * m + o)) (j / 32) = map.bits (j / 32) := by
    rw [← elemOfBytes_byte]
    exact elemOfBytes_congr fun o ho => hbyte _ (by omega)
  rw [diskBit, helem, Bitmap.bit]

lemma SyncedAt.agree (hs : SyncedAt b m map) (h : map.bitCnt + 31 < 2 ^ 32) (ha : b.Agree b' S)
    (hS : ∀ x, (mapInode m map).Holds x → ¬ S x) : SyncedAt b' m map := by
  intro j hj
  rw [← hs j hj, diskBit, diskBit]
  congr 1
  refine elemOfBytes_congr fun o ho => ha.byte (hS _ ?_)
  -- The byte is one of the bytes of the file.
  have hsize := bitmapFileSize_eq h
  refine holds_byte (d := mapInode m map) (Int.natCast_nonneg _) ?_ ?_
  · change (bitmapFileSize map : ℤ) < 2 ^ 31
    omega
  · change 4 * (j / 32) + o < (bitmapFileSize map : ℤ).toNat
    omega

lemma bitmapWrite_spec (hc : s.Core owned held) (hf : s.handle f = some (FREE_MAP_SECTOR, pos))
    (hm : owned FREE_MAP_SECTOR = some (mapInode m s.freeMap)) :
    ∃ ok b, bitmapWrite f s = .ok (ok, s.tick.setDevice b) ∧
      s.fsDevice.Agree b (mapInode m s.freeMap).Holds ∧
      (ok = true → SyncedAt b m s.freeMap) ∧ (s.mallocs 0 = true → ok = true) := by
  obtain ⟨x, i, hx, hi, heq⟩ := FileSys.handle_eq_some hf
  have hdata : i.data = mapInode m s.freeMap := by
    have := hc.opened.data hi
    rw [← (Prod.mk.inj heq).1, hm] at this
    exact (some.inj this).symm
  obtain ⟨b, n, hwrite, ha, hbyte, hle, hall⟩ :=
    inodeWriteAt_spec (hc.onDisk hi) (hc.opened.denyWriteCnt hi) s.freeMap.byte
      (s32 (bitmapFileSize s.freeMap)) (le_refl 0)
  have hsize := s32_bitmapFileSize hc.map
  have hfile := bitmapFileSize_eq hc.map
  have havail : i.data.avail (s32 (bitmapFileSize s.freeMap)) 0 = bitmapFileSize s.freeMap := by
    rw [hdata, avail, mapInode]
    dsimp only
    omega
  rw [hdata] at ha hbyte
  rw [havail] at hle hall
  refine ⟨decide ((n : ℤ) = s32 (bitmapFileSize s.freeMap)), b, ?_, ha, ?_, ?_⟩
  · rw [bitmapWrite, fileWriteAt, deref_some hx, ok_bind, hwrite]
    rfl
  · intro hok
    have hn : n = bitmapFileSize s.freeMap := by
      have := of_decide_eq_true hok
      omega
    refine syncedAt_of_bytes hc.map fun o ho => ?_
    rw [hbyte, mapInode, overwrite, if_pos (by constructor <;> (dsimp only; omega))]
    congr 1
    dsimp only
    omega
  · intro hlucky
    rw [hall hlucky]
    exact decide_eq_true (by omega)

/-- A run of `cnt` clear bits, the first that fits, is set. -/
structure Grabs (map : Bitmap) (x cnt : ℕ) (map' : Bitmap) : Prop where
  bitCnt : map'.bitCnt = map.bitCnt
  inside : x + cnt ≤ map.bitCnt
  free : map.AllBits x cnt false
  first : ∀ j < x, ¬ map.AllBits j cnt false
  bit : ∀ j, map'.bit j = if x ≤ j ∧ j < x + cnt then true else map.bit j

lemma Grabs.marked (hg : Grabs map x cnt map') {j : ℕ} (hj : map.bit j = true) :
    map'.bit j = true := by
  rw [hg.bit, hj, ite_self]

lemma Grabs.first_bits (hg : Grabs map x cnt map')
    (hbit : ∀ j < map.bitCnt, map.bit j = decide (j < x)) :
    ∀ j < map.bitCnt, map'.bit j = decide (j < x + cnt) := by
  intro j hj
  rw [hg.bit, hbit j hj]
  split_ifs with hnew
  · exact (decide_eq_true hnew.2).symm
  · rw [decide_eq_decide]
    omega

/-- A run of `cnt` set bits is cleared. -/
structure Drops (map : Bitmap) (x cnt : ℕ) (map' : Bitmap) : Prop where
  bitCnt : map'.bitCnt = map.bitCnt
  bit : ∀ j, map'.bit j = if x ≤ j ∧ j < x + cnt then false else map.bit j

lemma scan_free_spec (h : map.bitCnt + 31 < 2 ^ 32) (cnt : ℕ) :
    ∃ r map', bitmapScanAndFlip map 0 cnt false = .ok (r, map') ∧
      ((r ≠ BITMAP_ERROR ∧ Grabs map r cnt map') ∨ (r = BITMAP_ERROR ∧ map' = map ∧
        ∀ j, j + cnt ≤ map.bitCnt → ¬ map.AllBits j cnt false)) := by
  obtain ⟨r, map', hscan, hcnt, ⟨hne, _, hin, hfree, hfirst, hbit⟩ | ⟨hr, hmap, hno⟩⟩ :=
    bitmapScanAndFlip_spec (b := map) 0 cnt false (by omega) (Nat.zero_le _) (.inr (by decide))
  · exact ⟨r, map', hscan, .inl ⟨hne, hcnt, hin, hfree, fun j => hfirst j (Nat.zero_le _), hbit⟩⟩
  · exact ⟨r, map', hscan, .inr ⟨hr, hmap, fun j => hno j (Nat.zero_le _)⟩⟩

lemma freeMapAllocate_of_scan {r : ℕ}
    (hscan : bitmapScanAndFlip s.freeMap 0 cnt false = .ok (r, map')) :
    freeMapAllocate cnt s = (do
      let (sector, s) ← match (s.setMap map').freeMapFile with
        | some file =>
          if r ≠ BITMAP_ERROR then do
            let (ok, s) ← bitmapWrite file (s.setMap map')
            if ok then pure (r, s)
            else do
              let map ← bitmapSetMultiple s.freeMap r cnt false
              pure (BITMAP_ERROR, s.setMap map)
          else pure (r, s.setMap map')
        | none => pure (r, s.setMap map')
      return (if sector ≠ BITMAP_ERROR then some sector else none, s)) := by
  rw [freeMapAllocate, hscan]
  rfl

lemma freeMapAllocate_unsaved (hc : s.freeMap.bitCnt + 31 < 2 ^ 32) (hf : s.freeMapFile = none)
    (cnt : ℕ) :
    (∃ x map', freeMapAllocate cnt s = .ok (some x, s.setMap map') ∧ Grabs s.freeMap x cnt map') ∨
      (freeMapAllocate cnt s = .ok (none, s) ∧
        ∀ j, j + cnt ≤ s.freeMap.bitCnt → ¬ s.freeMap.AllBits j cnt false) := by
  obtain ⟨r, map', hscan, hr⟩ := scan_free_spec hc cnt
  have hfile : (s.setMap map').freeMapFile = none := hf
  rw [freeMapAllocate_of_scan hscan, hfile]
  rcases hr with ⟨hne, hg⟩ | ⟨rfl, rfl, hno⟩
  · refine .inl ⟨r, map', ?_, hg⟩
    simp only [pure_eq_ok, ok_bind, if_pos hne]
  · exact .inr ⟨rfl, hno⟩

lemma FileSys.Core.grabbed (hc : s.Core owned held) (hg : Grabs s.freeMap x cnt map) :
    (s.setMap map).Core owned held := by
  refine ⟨hc.layout.remap hg.bitCnt fun h y hu => hg.marked (hc.layout.marked hu), hc.opened, ?_⟩
  change map.bitCnt + 31 < 2 ^ 32
  rw [hg.bitCnt]
  exact hc.map

/-- **Allocation.**  The first run that fits is marked and the map saved, or it is free again, or
there is none. -/
theorem freeMapAllocate_spec (hc : s.Core owned held) (hm : s.MapFile m owned) (cnt : ℕ) :
    (∃ x map' b, freeMapAllocate cnt s = .ok (some x, s.saved map' b) ∧
        Grabs s.freeMap x cnt map' ∧ s.fsDevice.Agree b (mapInode m s.freeMap).Holds ∧
        SyncedAt b m map') ∨
      (∃ map' b, freeMapAllocate cnt s = .ok (none, s.saved map' b) ∧
        map'.bitCnt = s.freeMap.bitCnt ∧ (∀ j, map'.bit j = s.freeMap.bit j) ∧
        s.fsDevice.Agree b (mapInode m s.freeMap).Holds ∧ s.mallocs 0 = false) ∨
      (freeMapAllocate cnt s = .ok (none, s) ∧
        ∀ j, j + cnt ≤ s.freeMap.bitCnt → ¬ s.freeMap.AllBits j cnt false) := by
  obtain ⟨⟨f, _, hf, hh⟩, howned⟩ := hm
  obtain ⟨r, map', hscan, hr⟩ := scan_free_spec hc.map cnt
  have hfile : (s.setMap map').freeMapFile = some f := hf
  rw [freeMapAllocate_of_scan hscan, hfile]
  rcases hr with ⟨hne, hg⟩ | ⟨rfl, rfl, hno⟩
  swap
  · refine .inr (.inr ⟨?_, hno⟩)
    simp only [ne_eq, not_true, if_false]
    rfl
  obtain ⟨ok, b, hwrite, ha, hsync, hluck⟩ := bitmapWrite_spec
    (s := s.setMap map') (m := m) (hc.grabbed hg) hh
    (howned.trans (by rw [← mapInode_congr m hg.bitCnt]; rfl))
  change s.fsDevice.Agree b (mapInode m map').Holds at ha
  rw [mapInode_congr m hg.bitCnt] at ha
  dsimp only
  rw [if_pos hne, hwrite, ok_bind]
  cases ok with
  | true =>
    refine .inl ⟨r, map', b, ?_, hg, ha, hsync rfl⟩
    simp only [if_true, pure_eq_ok, ok_bind, if_pos hne]
    rfl
  | false =>
    have hlt := hc.map
    have hcnt' := hg.bitCnt
    have hin := hg.inside
    obtain ⟨map'', hset, hcnt, hbit⟩ := bitmapSetMultiple_spec (b := map') r cnt false (by omega)
      (by omega)
    refine .inr (.inl ⟨map'', b, ?_, hcnt.trans hg.bitCnt, fun j => ?_, ha, ?_⟩)
    · have hset' : bitmapSetMultiple ((s.setMap map').tick.setDevice b).freeMap r cnt false =
          .ok map'' := hset
      simp only [Bool.false_eq_true, if_false, hset', pure_eq_ok, ok_bind, ne_eq, not_true]
      rfl
    · rw [hbit, hg.bit]
      split_ifs with hj
      · exact (hg.free j hj.1 hj.2).symm
      · rfl
    · cases hlucky : s.mallocs 0 with
      | false => rfl
      | true => exact absurd (hluck hlucky) Bool.false_ne_true

lemma freeMapRelease_spec (hc : s.Core owned held) (hm : s.MapFile m owned)
    (hin : x + cnt ≤ s.freeMap.bitCnt) (hset : s.freeMap.AllBits x cnt true)
    (hfree : ∀ h y, owned.Uses h y → ¬ (x ≤ y ∧ y < x + cnt)) :
    ∃ map' b, freeMapRelease x cnt s = .ok ((), s.saved map' b) ∧ Drops s.freeMap x cnt map' ∧
      s.fsDevice.Agree b (mapInode m s.freeMap).Holds ∧ (s.saved map' b).Core owned held ∧
      (s.mallocs 0 = true → SyncedAt b m map') := by
  obtain ⟨⟨f, _, hf, hh⟩, howned⟩ := hm
  have hlt := hc.map
  obtain ⟨_, hall, hiff⟩ := bitmapAll_spec (b := s.freeMap) x cnt (by omega) hin
  obtain ⟨map', hclear, hcnt, hbit⟩ := bitmapSetMultiple_spec (b := s.freeMap) x cnt false
    (by omega) hin
  have hmarked : ∀ h y, owned.Uses h y → map'.bit y = true := by
    intro h y hu
    rw [hbit, if_neg (hfree h y hu)]
    exact hc.layout.marked hu
  have hc' : (s.setMap map').Core owned held := by
    refine ⟨hc.layout.remap hcnt hmarked, hc.opened, ?_⟩
    change map'.bitCnt + 31 < 2 ^ 32
    rw [hcnt]
    exact hlt
  obtain ⟨_, b, hwrite, ha, hsync, hluck⟩ := bitmapWrite_spec
    (s := s.setMap map') (m := m) hc' hh (howned.trans (by rw [← mapInode_congr m hcnt]; rfl))
  change s.fsDevice.Agree b (mapInode m map').Holds at ha
  rw [mapInode_congr m hcnt] at ha
  have hnot : ∀ h d, owned h = some d → ¬ (mapInode m s.freeMap).Holds h :=
    fun h d ho => hc.layout.not_holds_header howned ho
  refine ⟨map', b, ?_, ⟨hcnt, hbit⟩, ha, hc.saved hcnt hmarked ha hnot,
    fun hlucky => hsync (hluck hlucky)⟩
  have hrest : freeMapRelease x cnt s = (match (s.setMap map').freeMapFile with
      | some file => do
        let (_, s) ← bitmapWrite file (s.setMap map')
        return ((), s)
      | none => PANIC "null pointer") := by
    rw [freeMapRelease, hall, ok_bind, ASSERT_of (hiff.2 hset), ok_bind, hclear]
    rfl
  have hfile : (s.setMap map').freeMapFile = some f := hf
  rw [hrest, hfile]
  dsimp only
  rw [hwrite]
  rfl

end FreeMap

/-! ### New inodes -/

section Create

variable {s : FileSys} {owned : Owned} {held : List ℕ} {h n : ℕ} {d : InodeDisk} {b : Block}

/-- **The writes of `inode_create`**: the header, and zeros in the data sectors. -/
theorem inodeFill_spec (hb : s.fsDevice.type ≠ .BLOCK_FOREIGN) (hh : h < s.fsDevice.size)
    (hext : d.start + n ≤ s.fsDevice.size) (hapart : ¬ (d.start ≤ h ∧ h < d.start + n)) :
    ∃ b, inodeFill h d n s = .ok ((), s.setDevice b) ∧
      s.fsDevice.Agree b (fun x => x = h ∨ (d.start ≤ x ∧ x < d.start + n)) ∧
      b.sectors h = d.encode ∧ ∀ x, d.start ≤ x → x < d.start + n → b.sectors x = fun _ => 0 := by
  have hsize := s.fsDevice.size_lt
  -- After `k` rounds the header and the first `k` data sectors are written.
  obtain ⟨b, hloop, ha, hheader, hzero⟩ := forLoop_ok (n := n) (b := s.fsDevice.put h d.encode)
    (f := fun b k => blockPut b (u32 (d.start + k)) fun _ => 0)
    (fun k b => s.fsDevice.Agree b (fun x => x = h ∨ (d.start ≤ x ∧ x < d.start + k)) ∧
      b.sectors h = d.encode ∧ ∀ x, d.start ≤ x → x < d.start + k → b.sectors x = fun _ => 0)
    ⟨⟨rfl, rfl, fun {x} hx => update_of_ne (fun hxh => hx (.inl hxh)) ..⟩,
      update_self .., fun x h1 h2 => absurd h2 (by omega)⟩
    (by
      rintro k b hk ⟨ha, hheader, hzero⟩
      have hlt : d.start + k < b.size := by
        rw [ha.size]
        omega
      refine ⟨b.put (d.start + k) fun _ => 0, ?_, ⟨ha.type, ha.size, fun {x} hx => ?_⟩, ?_, ?_⟩
      · rw [u32_of_lt (by omega), blockPut_ok hlt (by rw [ha.type]; exact hb)]
      · have hne : x ≠ d.start + k := fun hx' => hx (.inr (by omega))
        have hout : ¬ (x = h ∨ (d.start ≤ x ∧ x < d.start + k)) := fun hin => hx (by omega)
        exact (update_of_ne hne ..).trans (ha.sectors hout)
      · exact (update_of_ne (by omega) ..).trans hheader
      · intro x h1 _
        by_cases hx : x = d.start + k
        · rw [hx]
          exact update_self ..
        · exact (update_of_ne hx ..).trans (hzero x h1 (by omega)))
  refine ⟨b, ?_, ha, hheader, hzero⟩
  rw [inodeFill, blockPut_ok hh hb, ok_bind, hloop]
  rfl

lemma contents_zero (h1 : 0 ≤ d.length) (h2 : d.length < 2 ^ 31)
    (hzero : ∀ x, d.Holds x → b.sectors x = fun _ => 0) :
    contents b d = List.replicate d.length.toNat 0 := by
  refine List.eq_replicate_iff.2 ⟨length_bytesAt .., fun y hy => ?_⟩
  obtain ⟨o, ho, rfl⟩ := List.mem_map.1 hy
  have hheld := holds_byte h1 h2 (List.mem_range.1 ho)
  rw [Block.byte, BLOCK_SECTOR_SIZE, hzero _ hheld, Sector.byte]
  split_ifs <;> rfl

theorem FileSys.Core.fill (hc : s.Core owned held) (h1 : 0 ≤ d.length) (h2 : d.length < 2 ^ 31)
    (hmagic : d.magic = INODE_MAGIC) (hh : h < s.fsDevice.size)
    (hext : d.start + bytesToSectors d.length ≤ s.fsDevice.size) (hapart : ¬ d.Holds h)
    (hmarked : ∀ x, x = h ∨ d.Holds x → s.freeMap.bit x = true)
    (hfree : ∀ h' x, owned.Uses h' x → ¬ (x = h ∨ d.Holds x)) :
    ∃ b, inodeFill h d (bytesToSectors d.length) s = .ok ((), s.setDevice b) ∧
      s.fsDevice.Agree b (fun x => x = h ∨ d.Holds x) ∧
      (s.setDevice b).Core (update owned h (some d)) held ∧
      contents b d = List.replicate d.length.toNat 0 := by
  obtain ⟨b, hfill, ha, hheader, hzero⟩ := inodeFill_spec hc.layout.writable hh hext hapart
  have hnone : owned h = none := by
    cases ho : owned h with
    | none => rfl
    | some => exact absurd (.inl rfl) (hfree h h (Owned.uses_header ho))
  have hl : Layout b s.freeMap owned :=
    hc.layout.agree ha fun h' d' ho => hfree h' h' (Owned.uses_header ho)
  have hdecode : decode (b.sectors h) = d := by
    have hsize := s.fsDevice.size_lt
    have hstart : d.start < 2 ^ 32 := by omega
    rw [hheader]
    refine decode_encode hstart h1 h2 ?_
    rw [hmagic]
    decide
  refine ⟨b, hfill, ha, ⟨?_, ?_, hc.map⟩, contents_zero h1 h2 fun x hx => hzero x hx.1 hx.2⟩
  · refine hl.own h1 h2 hdecode ?_ hapart hmarked hfree
    rw [ha.size]
    exact ⟨hh, hext⟩
  · exact hc.opened.reown fun hi => Owned.sub_update_some hnone _ _ (hc.opened.data hi)

end Create

/-! ### Opening and closing -/

/-- Only the tables changed; an open file refers to the same sector and position. -/
structure FileSys.Still (s s' : FileSys) : Prop where
  fsDevice : s'.fsDevice = s.fsDevice
  freeMap : s'.freeMap = s.freeMap
  freeMapFile : s'.freeMapFile = s.freeMapFile
  handle : s'.handle = s.handle
  removed : ∀ h, s'.Removed h → s.Removed h
  lucky : s.Lucky → s'.Lucky

def FileSys.At (s : FileSys) (p h : ℕ) : Prop := ∃ i, s.inodes p = some i ∧ i.sector = h

namespace FileSys

variable {s s' s'' : FileSys} {owned : Owned} {held : List ℕ} {p q h f : ℕ} {i i' : Inode}
  {d : InodeDisk} {x : File}

lemma Still.refl (s : FileSys) : s.Still s := ⟨rfl, rfl, rfl, rfl, fun _ => id, id⟩

lemma Still.trans (h1 : s.Still s') (h2 : s'.Still s'') : s.Still s'' where
  fsDevice := h2.fsDevice.trans h1.fsDevice
  freeMap := h2.freeMap.trans h1.freeMap
  freeMapFile := h2.freeMapFile.trans h1.freeMapFile
  handle := h2.handle.trans h1.handle
  removed := fun h hr => h1.removed h (h2.removed h hr)
  lucky := fun hl => h2.lucky (h1.lucky hl)

lemma still_tick (s : FileSys) : s.Still s.tick := ⟨rfl, rfl, rfl, rfl, fun _ => id, .tick⟩

lemma handle_congr (hfiles : s'.files = s.files) (hsector : ∀ f x, s.files f = some x →
    (s'.inodes x.inode).map Inode.sector = (s.inodes x.inode).map Inode.sector) :
    s'.handle = s.handle := by
  have heq : ∀ (t : FileSys) f, t.handle f = (t.files f).bind fun x =>
      ((t.inodes x.inode).map Inode.sector).map fun sector => (sector, x.pos) := by
    intro t f
    unfold handle
    cases t.files f with
    | none => rfl
    | some x => cases hi : t.inodes x.inode <;> simp [hi]
  funext f
  rw [heq, heq, hfiles]
  cases hx : s.files f with
  | none => rfl
  | some x => rw [bind_some, bind_some, hsector f x hx]

lemma still_setInode (hi : s.inodes p = some i) (hsector : i'.sector = i.sector)
    (hremoved : i'.removed = true → i.removed = true) : s.Still (s.setInode p i') := by
  refine ⟨rfl, rfl, rfl, handle_congr rfl fun f x _ => ?_, ?_, id⟩
  · change (update s.inodes p (some i') x.inode).map Inode.sector = _
    by_cases hp : x.inode = p
    · rw [hp, update_self, hi, map_some, map_some, hsector]
    · rw [update_of_ne hp]
  · rintro h ⟨q, j, hj, hs, hr⟩
    rcases update_some_cases hj with ⟨rfl, rfl⟩ | ⟨_, hj⟩
    · exact ⟨q, i, hi, hsector ▸ hs, hremoved hr⟩
    · exact ⟨q, j, hj, hs, hr⟩

lemma At.setInode (ha : s.At q h) (hi : s.inodes p = some i) (hsector : i'.sector = i.sector) :
    (s.setInode p i').At q h := by
  obtain ⟨j, hj, hs⟩ := ha
  by_cases hq : q = p
  · subst hq
    obtain rfl := mem_unique hi hj
    exact ⟨i', update_self .., hsector.trans hs⟩
  · exact ⟨j, (update_of_ne hq ..).trans hj, hs⟩

lemma At.data (ha : s.At p h) (hc : s.Core owned held) :
    ∃ i, s.inodes p = some i ∧ i.sector = h ∧ owned h = some i.data := by
  obtain ⟨i, hi, rfl⟩ := ha
  exact ⟨i, hi, rfl, hc.opened.data hi⟩

lemma inodeOpen_spec (hc : s.Core owned held) (ho : owned h = some d) :
    (∃ p s', inodeOpen h s = .ok (some p, s') ∧ s'.Core owned (p :: held) ∧ s'.At p h ∧
        s.Still s' ∧ ∀ q h', s.At q h' → s'.At q h') ∨
      (inodeOpen h s = .ok (none, s.tick) ∧ s.mallocs 0 = false) := by
  rcases sector_open_or s h with ⟨p, i, hi, hs⟩ | hnew
  · refine .inl ⟨p, _, inodeOpen_found hc.opened.toOpenTable hi hs, ?_, ?_, ?_, ?_⟩
    · exact ⟨hc.layout, hc.opened.reopen hi, hc.map⟩
    · exact ⟨_, update_self .., hs⟩
    · exact still_setInode hi rfl id
    · exact fun q h' ha => ha.setInode hi rfl
  · rw [inodeOpen_new hnew, blockGet_ok (hc.layout.extent ho).1]
    cases hm : s.mallocs 0 with
    | false => exact .inr ⟨rfl, rfl⟩
    | true =>
      have hnone := hc.opened.toOpenTable.inodes_brk
      have hother : ∀ {q j}, s.inodes q = some j → update s.inodes s.brk
          (some ⟨h, 1, false, 0, decode (s.fsDevice.sectors h)⟩) q = some j := by
        intro q j hj
        rw [update_of_ne, hj]
        rintro rfl
        rw [hnone] at hj
        cases hj
      refine .inl ⟨s.brk, _, rfl, ⟨hc.layout, ?_, hc.map⟩, ⟨_, update_self .., rfl⟩,
        ⟨rfl, rfl, rfl, handle_congr rfl fun f x hx => ?_, ?_, .tick⟩, ?_⟩
      · rw [hc.layout.header ho]
        exact hc.opened.openNew ho hnew
      · obtain ⟨j, hj⟩ := isSome_iff_exists.1 (hc.opened.file hx).2
        rw [hj]
        exact congrArg (Option.map Inode.sector) (hother hj)
      · rintro h' ⟨q, j, hj, hs, hr⟩
        rcases update_some_cases hj with ⟨rfl, rfl⟩ | ⟨_, hj⟩
        · cases hr
        · exact ⟨q, j, hj, hs, hr⟩
      · rintro q h' ⟨j, hj, hs⟩
        exact ⟨j, hother hj, hs⟩

/-- **Giving up an inode that is held.**  The last opener gets it back. -/
theorem inodeDrop_spec (hc : s.Core owned (p :: held)) (hi : s.inodes p = some i) :
    (∃ s', inodeDrop p s = .ok (some { i with openCnt := i.openCnt - 1 }, s') ∧
        s'.Core owned held ∧ s.Still s' ∧ (∀ q h', q ∈ held → s.At q h' → s'.At q h') ∧
        ∀ {q j}, s'.inodes q = some j → j.sector ≠ i.sector) ∨
      (∃ s', inodeDrop p s = .ok (none, s') ∧ s'.Core owned held ∧ s.Still s' ∧
        ∀ q h', s.At q h' → s'.At q h') := by
  by_cases hlast : i.openCnt - 1 = 0
  · obtain ⟨hnoFile, hnotHeld⟩ := hc.opened.toOpenTable.last hi hlast
    refine .inl ⟨_, inodeDrop_last hi hlast, ⟨hc.layout, hc.opened.dropLast hi hlast, hc.map⟩,
      ⟨rfl, rfl, rfl, handle_congr rfl fun f x hx => ?_, ?_, id⟩, ?_, ?_⟩
    · have hne : x.inode ≠ p := by
        have hzero := tally_eq_zero.1 hnoFile f (hc.opened.file hx).1 x hx
        simpa using hzero
      exact congrArg (Option.map Inode.sector) (update_of_ne hne ..)
    · rintro h ⟨q, j, hj, hs, hr⟩
      exact ⟨q, j, (update_none_cases hj).2, hs, hr⟩
    · rintro q h' hq ⟨j, hj, hs⟩
      refine ⟨j, (update_of_ne ?_ ..).trans hj, hs⟩
      rintro rfl
      exact hnotHeld hq
    · intro q j hj hs
      obtain ⟨hne, hj⟩ := update_none_cases hj
      exact hne (hc.opened.sector_inj hj hi hs)
  · exact .inr ⟨_, inodeDrop_more hi hlast, ⟨hc.layout, hc.opened.drop hi hlast, hc.map⟩,
      still_setInode hi rfl id, fun q h' ha => ha.setInode hi rfl⟩

end FileSys

end Pintos.Filesys
