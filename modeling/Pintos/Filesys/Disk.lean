/-
# Inodes on disk

The part of `filesys/inode.c` that knows where the bytes of a file are: `struct inode_disk` as laid
out in its sector, `bytes_to_sectors`, `byte_to_sector`, and the loops of `inode_read_at` and
`inode_write_at`, which take a file apart into chunks inside one sector.

A loop stops early when `malloc` has no room for the bounce buffer of a chunk that is not a whole
sector.  It reads into the list of the bytes stored so far, and writes from a byte for every
position.
-/

import Mathlib.Tactic.Linarith
import Pintos.Devices.Block

namespace Pintos.Filesys

open Base Kernel

def INODE_MAGIC : ℕ := 0x494e4f44

structure InodeDisk where
  start : ℕ
  length : ℤ
  magic : ℕ
deriving DecidableEq, Repr

/-- The sector `block_write` stores; what is not used was cleared by `calloc`. -/
def InodeDisk.encode (d : InodeDisk) : Sector := fun o =>
  (leBytes d.start ++ leBytes (wordOf d.length) ++ leBytes d.magic).getD o 0

def InodeDisk.decode (sector : Sector) : InodeDisk where
  start := leWord (bytesAt sector.byte 0 4)
  length := s32 (leWord (bytesAt sector.byte 4 4))
  magic := leWord (bytesAt sector.byte 8 4)

lemma InodeDisk.decode_encode {d : InodeDisk} (hs : d.start < 2 ^ 32) (h1 : 0 ≤ d.length)
    (h2 : d.length < 2 ^ 31) (hm : d.magic < 2 ^ 32) : decode d.encode = d := by
  have hstart : bytesAt (Sector.byte d.encode) 0 4 = leBytes d.start := rfl
  have hlength : bytesAt (Sector.byte d.encode) 4 4 = leBytes (wordOf d.length) := rfl
  have hmagic : bytesAt (Sector.byte d.encode) 8 4 = leBytes d.magic := rfl
  rw [decode, hstart, hlength, hmagic, leWord_leBytes hs, leWord_leBytes (wordOf_lt _),
    leWord_leBytes hm, s32_wordOf (by omega) h2]

/-- `DIV_ROUND_UP` on `int`, whose sum may wrap, stored in a `size_t`. -/
def bytesToSectors (size : ℤ) : ℕ :=
  wordOf ((s32 (wordOf (size + BLOCK_SECTOR_SIZE - 1))).tdiv BLOCK_SECTOR_SIZE)

variable {size : ℤ}

lemma bytesToSectors_of_lt (h1 : 0 ≤ size) (h2 : size + 511 < 2 ^ 31) :
    bytesToSectors size = (size.toNat + 511) / 512 := by
  have hsum : s32 (wordOf (size + BLOCK_SECTOR_SIZE - 1)) = size + 511 := by
    rw [s32_wordOf]
    all_goals simp only [BLOCK_SECTOR_SIZE]; omega
  rw [bytesToSectors, hsum, Int.tdiv_eq_ediv_of_nonneg (by omega), BLOCK_SECTOR_SIZE,
    wordOf_of_nonneg]
  all_goals omega

lemma le_bytesToSectors (h1 : 0 ≤ size) (h2 : size < 2 ^ 31) :
    size ≤ 512 * bytesToSectors size := by
  by_cases hwrap : size + 511 < 2 ^ 31
  · rw [bytesToSectors_of_lt h1 hwrap]
    omega
  · have hsum : s32 (wordOf (size + BLOCK_SECTOR_SIZE - 1)) = -(2 ^ 32 - (size + 511)) := by
      simp only [s32, wordOf, BLOCK_SECTOR_SIZE]
      split_ifs <;> omega
    rw [bytesToSectors, hsum, Int.neg_tdiv, Int.tdiv_eq_ediv_of_nonneg (by omega),
      BLOCK_SECTOR_SIZE, wordOf]
    omega

/-! ### Chunks -/

def byteToSector (d : InodeDisk) (pos : ℤ) : ℕ :=
  if pos < d.length then u32 (d.start + wordOf (pos.tdiv BLOCK_SECTOR_SIZE)) else 2 ^ 32 - 1

def sectorOfs (offset : ℤ) : ℤ := offset.tmod BLOCK_SECTOR_SIZE

def sectorLeft (offset : ℤ) : ℤ := BLOCK_SECTOR_SIZE - sectorOfs offset

/-- Bytes to copy: what is asked for, left in the inode or left in the sector. -/
def chunkSize (d : InodeDisk) (size offset : ℤ) : ℤ :=
  let inodeLeft := d.length - offset
  let minLeft := if inodeLeft < sectorLeft offset then inodeLeft else sectorLeft offset
  if size < minLeft then size else minLeft

/-- The loop of `inode_read_at`; `malloc` tells whether the bounce buffer can be had. -/
def readLoop (b : Block) (d : InodeDisk) (malloc : Bool) :
    ℕ → ℤ → ℤ → List (BitVec 8) → Kernel (List (BitVec 8))
  | 0, _, _, buffer => return buffer
  | fuel + 1, size, offset, buffer =>
    if 0 < size then
      let sectorIdx := byteToSector d offset
      let chunk := chunkSize d size offset
      if chunk ≤ 0 then return buffer
      else if sectorOfs offset = 0 ∧ chunk = BLOCK_SECTOR_SIZE then do
        -- Read full sector directly into caller's buffer.
        let sector ← blockGet b sectorIdx
        readLoop b d malloc fuel (size - chunk) (offset + chunk)
          (buffer ++ bytesAt sector.byte 0 BLOCK_SECTOR_SIZE)
      else if malloc then do
        let bounce ← blockGet b sectorIdx
        readLoop b d malloc fuel (size - chunk) (offset + chunk)
          (buffer ++ bytesAt bounce.byte (sectorOfs offset).toNat chunk.toNat)
      else return buffer
    else return buffer

def writeLoop (d : InodeDisk) (malloc : Bool) (buffer : ℕ → BitVec 8) :
    ℕ → Block → ℤ → ℤ → ℕ → Kernel (Block × ℕ)
  | 0, b, _, _, written => return (b, written)
  | fuel + 1, b, size, offset, written =>
    if 0 < size then
      let sectorIdx := byteToSector d offset
      let chunk := chunkSize d size offset
      if chunk ≤ 0 then return (b, written)
      else if sectorOfs offset = 0 ∧ chunk = BLOCK_SECTOR_SIZE then do
        -- Write full sector directly to disk.
        let b ← blockPut b sectorIdx fun o => buffer (written + o)
        writeLoop d malloc buffer fuel b (size - chunk) (offset + chunk) (written + chunk.toNat)
      else if malloc then do
        -- If the sector contains data before or after the chunk, it is read in first.
        let bounce ← if 0 < sectorOfs offset ∨ chunk < sectorLeft offset then blockGet b sectorIdx
          else pure fun _ => 0
        let b ← blockPut b sectorIdx fun o =>
          overwrite (Sector.byte bounce) (sectorOfs offset).toNat chunk.toNat
            (fun i => buffer (written + i)) o
        writeLoop d malloc buffer fuel b (size - chunk) (offset + chunk) (written + chunk.toNat)
      else return (b, written)
    else return (b, written)

/-! ### What the loops do -/

structure InodeDisk.Inside (d : InodeDisk) (size : ℕ) : Prop where
  length_nonneg : 0 ≤ d.length
  length_lt : d.length < 2 ^ 31
  inside : 512 * d.start + d.length.toNat ≤ 512 * size

def InodeDisk.avail (d : InodeDisk) (size offset : ℤ) : ℕ := (min size (d.length - offset)).toNat

section Loops

variable {b : Block} {d : InodeDisk} {size offset : ℤ} {malloc : Bool} {fuel : ℕ}

lemma avail_of_chunkSize_le (ho : 0 ≤ offset) (hc : chunkSize d size offset ≤ 0) :
    d.avail size offset = 0 := by
  obtain ⟨o, rfl⟩ := Int.eq_ofNat_of_zero_le ho
  have hmod : sectorOfs o = ((o % 512 : ℕ) : ℤ) := rfl
  simp only [chunkSize, sectorLeft, hmod, BLOCK_SECTOR_SIZE] at hc
  unfold InodeDisk.avail
  split_ifs at hc <;> omega

lemma chunkSize_pos (hd : d.Inside b.size) (ho : 0 ≤ offset) (hc : 0 < chunkSize d size offset) :
    byteToSector d offset = d.start + offset.toNat / 512 ∧
      d.start + offset.toNat / 512 < b.size ∧ sectorOfs offset = ((offset.toNat % 512 : ℕ) : ℤ) ∧
      chunkSize d size offset ≤ size ∧ offset + chunkSize d size offset ≤ d.length ∧
      offset.toNat % 512 + (chunkSize d size offset).toNat ≤ 512 := by
  obtain ⟨o, rfl⟩ := Int.eq_ofNat_of_zero_le ho
  have hmod : sectorOfs o = ((o % 512 : ℕ) : ℤ) := rfl
  have hdiv : (o : ℤ).tdiv BLOCK_SECTOR_SIZE = ((o / 512 : ℕ) : ℤ) := rfl
  have hsize := b.size_lt
  obtain ⟨_, _, _⟩ := hd
  simp only [chunkSize, sectorLeft, hmod, BLOCK_SECTOR_SIZE, Int.toNat_natCast] at hc ⊢
  have hlt : (o : ℤ) < d.length := by split_ifs at hc <;> omega
  refine ⟨?_, by omega, trivial, ?_, ?_, ?_⟩
  · rw [byteToSector, if_pos hlt, hdiv, wordOf_of_nonneg (by omega) (by omega),
      u32_of_lt (by omega)]
    omega
  · split_ifs <;> omega
  · split_ifs <;> omega
  · split_ifs <;> omega

lemma avail_chunk (ho : 0 ≤ offset) (hc : 0 < chunkSize d size offset)
    (h1 : chunkSize d size offset ≤ size) (h2 : offset + chunkSize d size offset ≤ d.length) :
    d.avail size offset = (chunkSize d size offset).toNat +
        d.avail (size - chunkSize d size offset) (offset + chunkSize d size offset) ∧
      512 * (d.start + offset.toNat / 512) + offset.toNat % 512 = 512 * d.start + offset.toNat ∧
      512 * d.start + (offset + chunkSize d size offset).toNat =
        512 * d.start + offset.toNat + (chunkSize d size offset).toNat ∧
      0 ≤ offset + chunkSize d size offset := by
  unfold InodeDisk.avail
  omega

lemma bytesAt_sector (b : Block) (x : ℕ) {o n : ℕ} (h : o + n ≤ 512) :
    bytesAt (b.sectors x).byte o n = bytesAt b.byte (512 * x + o) n := by
  refine bytesAt_congr _ _ _ _ _ fun i hi => ?_
  rw [Nat.add_assoc, Block.byte_add b x (by omega)]

lemma avail_of_stop (h : d.avail size offset = 0 ∨ malloc = false) :
    malloc = true → 0 = d.avail size offset := by
  intro hm
  rcases h with h | h
  · exact h.symm
  · rw [h] at hm
    cases hm

def Reads (b : Block) (d : InodeDisk) (malloc : Bool) (size offset : ℤ)
    (buffer : List (BitVec 8)) (r : Kernel (List (BitVec 8))) : Prop :=
  ∃ m, r = .ok (buffer ++ bytesAt b.byte (512 * d.start + offset.toNat) m) ∧
    m ≤ d.avail size offset ∧ (malloc = true → m = d.avail size offset)

lemma read_stop (buffer : List (BitVec 8)) (h : d.avail size offset = 0 ∨ malloc = false) :
    Reads b d malloc size offset buffer (.ok buffer) :=
  ⟨0, by simp, Nat.zero_le _, avail_of_stop h⟩

def Writes (b : Block) (d : InodeDisk) (malloc : Bool) (buffer : ℕ → BitVec 8) (size offset : ℤ)
    (written : ℕ) (r : Kernel (Block × ℕ)) : Prop :=
  ∃ b' m, r = .ok (b', written + m) ∧ b'.type = b.type ∧ b'.size = b.size ∧
    b'.byte = overwrite b.byte (512 * d.start + offset.toNat) m (fun i => buffer (written + i)) ∧
    m ≤ d.avail size offset ∧ (malloc = true → m = d.avail size offset)

lemma write_stop (buffer : ℕ → BitVec 8) (written : ℕ)
    (h : d.avail size offset = 0 ∨ malloc = false) :
    Writes b d malloc buffer size offset written (.ok (b, written)) :=
  ⟨b, 0, rfl, rfl, rfl, (overwrite_zero ..).symm, Nat.zero_le _, avail_of_stop h⟩

/-- **Reading** returns the bytes left and asked for, unless there is no bounce buffer. -/
theorem readLoop_spec (buffer : List (BitVec 8)) (hd : d.Inside b.size) (ho : 0 ≤ offset)
    (hfuel : size.toNat ≤ fuel) :
    Reads b d malloc size offset buffer (readLoop b d malloc fuel size offset buffer) := by
  induction fuel generalizing size offset buffer with
  | zero =>
    exact read_stop buffer (.inl (by unfold InodeDisk.avail; omega))
  | succ fuel ih =>
    rw [readLoop]
    by_cases hsize : 0 < size
    swap
    · rw [if_neg hsize]
      exact read_stop buffer (.inl (by unfold InodeDisk.avail; omega))
    rw [if_pos hsize]
    set n := chunkSize d size offset
    by_cases hc : n ≤ 0
    · rw [if_pos hc]
      exact read_stop buffer (.inl (avail_of_chunkSize_le ho hc))
    rw [if_neg hc]
    have hpos : 0 < n := by omega
    obtain ⟨hidx, hlt, hofs, hle, hlen, hend⟩ := chunkSize_pos hd ho hpos
    obtain ⟨havail, hfrom, hto, honward⟩ := avail_chunk ho hpos hle hlen
    have hrest : (size - n).toNat ≤ fuel := by omega
    -- Both ways to copy a chunk append the same window and go on.
    have hround : Reads b d malloc size offset buffer (readLoop b d malloc fuel
        (size - n) (offset + n)
        (buffer ++ bytesAt (b.sectors (d.start + offset.toNat / 512)).byte (offset.toNat % 512)
          n.toNat)) := by
      obtain ⟨m, hm, hmle, hall⟩ := ih (buffer ++ bytesAt (b.sectors
        (d.start + offset.toNat / 512)).byte (offset.toNat % 512) n.toNat)
        honward hrest
      refine ⟨n.toNat + m, ?_, ?_, fun h => by rw [hall h, havail]⟩
      swap
      · rw [havail]
        exact Nat.add_le_add_left hmle _
      rw [hm, bytesAt_sector b _ hend, List.append_assoc, bytesAt_add, hfrom, hto]
    rw [hidx, blockGet_ok hlt, ok_bind, ok_bind, hofs, Int.toNat_natCast]
    by_cases hfull : ((offset.toNat % 512 : ℕ) : ℤ) = 0 ∧ n = BLOCK_SECTOR_SIZE
    · rw [if_pos hfull]
      have h0 : offset.toNat % 512 = 0 := by omega
      have h1 : n.toNat = BLOCK_SECTOR_SIZE := by
        rw [hfull.2]
        rfl
      rw [h0, h1] at hround
      exact hround
    · rw [if_neg hfull]
      cases malloc with
      | false => exact read_stop buffer (.inr rfl)
      | true => exact hround

lemma byte_put_part (b : Block) (x : ℕ) {o n : ℕ} (contents : Sector) (buffer : ℕ → BitVec 8)
    (h : o + n ≤ 512)
    (hc : ∀ i < 512, contents.byte i = overwrite (b.sectors x).byte o n buffer i) :
    (b.put x contents).byte = overwrite b.byte (512 * x + o) n buffer := by
  funext y
  rw [Block.byte_put]
  simp only [overwrite]
  by_cases hy : 512 * x ≤ y ∧ y < 512 * x + 512
  · rw [if_pos hy, hc _ (by omega), overwrite]
    by_cases hw : 512 * x + o ≤ y ∧ y < 512 * x + o + n
    · rw [if_pos (by omega), if_pos hw, Nat.sub_sub]
    · rw [if_neg (by omega), if_neg hw, ← Block.byte_add b x (by omega)]
      congr 1
      omega
  · rw [if_neg hy, if_neg (by omega)]

lemma byte_overwrite (contents : ℕ → BitVec 8) {i : ℕ} (hi : i < 512) :
    Sector.byte (fun o => contents o) i = contents i :=
  dif_pos hi

/-- **Writing** overwrites the bytes left and asked for, unless there is no bounce buffer. -/
theorem writeLoop_spec {written : ℕ} (buffer : ℕ → BitVec 8) (hb : b.type ≠ .BLOCK_FOREIGN)
    (hd : d.Inside b.size) (ho : 0 ≤ offset) (hfuel : size.toNat ≤ fuel) :
    Writes b d malloc buffer size offset written
      (writeLoop d malloc buffer fuel b size offset written) := by
  induction fuel generalizing b size offset written with
  | zero =>
    exact write_stop buffer written (.inl (by unfold InodeDisk.avail; omega))
  | succ fuel ih =>
    rw [writeLoop]
    by_cases hsize : 0 < size
    swap
    · rw [if_neg hsize]
      exact write_stop buffer written (.inl (by unfold InodeDisk.avail; omega))
    rw [if_pos hsize]
    by_cases hc : chunkSize d size offset ≤ 0
    · rw [if_pos hc]
      exact write_stop buffer written (.inl (avail_of_chunkSize_le ho hc))
    rw [if_neg hc]
    have hpos : 0 < chunkSize d size offset := by omega
    obtain ⟨hidx, hlt, hofs, hle, hlen, hend⟩ := chunkSize_pos hd ho hpos
    obtain ⟨havail, hfrom, hto, honward⟩ := avail_chunk ho hpos hle hlen
    set n := chunkSize d size offset
    have hrest : (size - n).toNat ≤ fuel := by omega
    -- Both ways to write a chunk overwrite the same window and go on.
    have hround : ∀ contents : Sector, (∀ i < 512, contents.byte i =
          overwrite (b.sectors (d.start + offset.toNat / 512)).byte (offset.toNat % 512)
            n.toNat (fun i => buffer (written + i)) i) →
        Writes b d malloc buffer size offset written
          (writeLoop d malloc buffer fuel (b.put (d.start + offset.toNat / 512) contents)
            (size - n) (offset + n)
            (written + n.toNat)) := by
      intro contents hcontents
      have hbyte := byte_put_part b (d.start + offset.toNat / 512) contents
        (fun i => buffer (written + i)) hend hcontents
      obtain ⟨b', m, hm, htype, hsz, hb', hmle, hall⟩ := @ih
        (b.put (d.start + offset.toNat / 512) contents) (size - n)
        (offset + n) (written + n.toNat) hb hd
        honward hrest
      refine ⟨b', n.toNat + m, ?_, htype, hsz, ?_, ?_, fun h => by rw [hall h, havail]⟩
      · rw [hm, Nat.add_assoc]
      · rw [hb', hbyte, hto, hfrom, ← overwrite_overwrite]
        simp only [Nat.add_assoc]
      · rw [havail]
        exact Nat.add_le_add_left hmle _
    simp only [hidx, hofs, Int.toNat_natCast]
    by_cases hfull : ((offset.toNat % 512 : ℕ) : ℤ) = 0 ∧ n = BLOCK_SECTOR_SIZE
    · rw [if_pos hfull, blockPut_ok hlt hb, ok_bind]
      refine hround _ fun i hi => ?_
      have h1 : n.toNat = 512 := by rw [hfull.2]; rfl
      rw [byte_overwrite (fun o => buffer (written + o)) hi, overwrite, h1, if_pos (by omega)]
      congr 1
      omega
    · rw [if_neg hfull]
      cases malloc with
      | false => exact write_stop buffer written (.inr rfl)
      | true =>
        -- A chunk that is not the whole sector is copied into what the sector holds.
        have hpart : 0 < ((offset.toNat % 512 : ℕ) : ℤ) ∨ n < sectorLeft offset := by
          by_contra hnot
          refine hfull ⟨by omega, ?_⟩
          simp only [sectorLeft, hofs, BLOCK_SECTOR_SIZE] at hnot ⊢
          omega
        rw [if_pos rfl, if_pos hpart, blockGet_ok hlt, ok_bind, blockPut_ok hlt hb, ok_bind]
        refine hround _ fun i hi => ?_
        exact byte_overwrite (overwrite _ _ _ _) hi

end Loops

end Pintos.Filesys
