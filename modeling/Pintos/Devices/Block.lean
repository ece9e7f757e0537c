/-
# Block devices

`devices/block.c`.  A block device is a number of sectors and their contents; an access past the end
panics in `check_sector`.  The read and write counters are left out.
-/

import Pintos.Base.Bytes
import Pintos.Base.Kernel

namespace Pintos

open Base Function Kernel

def BLOCK_SECTOR_SIZE : ℕ := 512

inductive BlockType
  | BLOCK_KERNEL
  | BLOCK_FILESYS
  | BLOCK_SCRATCH
  | BLOCK_SWAP
  | BLOCK_RAW
  | BLOCK_FOREIGN
deriving DecidableEq, Repr

abbrev Sector := Fin BLOCK_SECTOR_SIZE → BitVec 8

/-- `struct block`, with the contents its driver keeps. -/
structure Block where
  type : BlockType
  size : ℕ
  sectors : ℕ → Sector
  /-- `block_sector_t` has 32 bits. -/
  size_lt : size < 2 ^ 32

def checkSector (b : Block) (sector : ℕ) : Kernel Unit :=
  if b.size ≤ sector then PANIC "Access past end of device" else pure ()

def blockRead (b : Block) (sector : ℕ) (mem : Memory) (buffer : ℕ) : Kernel Memory := do
  checkSector b sector
  return fun x =>
    if h : buffer ≤ x ∧ x < buffer + BLOCK_SECTOR_SIZE then
      b.sectors sector ⟨x - buffer, by omega⟩
    else mem x

def blockWrite (b : Block) (sector : ℕ) (mem : Memory) (buffer : ℕ) : Kernel Block := do
  checkSector b sector
  ASSERT (b.type ≠ .BLOCK_FOREIGN)
  return { b with sectors := update b.sectors sector fun o => mem (buffer + o) }

variable {sector : ℕ} {b : Block}

lemma checkSector_of_lt (h : sector < b.size) : checkSector b sector = .ok () := if_neg (by omega)

lemma checkSector_of_le (h : b.size ≤ sector) :
    checkSector b sector = PANIC "Access past end of device" :=
  if_pos h

lemma blockRead_spec (mem : Memory) (buffer : ℕ) (h : sector < b.size) :
    ∃ mem', blockRead b sector mem buffer = .ok mem' ∧
      (∀ o : Fin BLOCK_SECTOR_SIZE, mem' (buffer + o) = b.sectors sector o) ∧
      ∀ x, ¬ (buffer ≤ x ∧ x < buffer + BLOCK_SECTOR_SIZE) → mem' x = mem x := by
  refine ⟨_, by rw [blockRead, checkSector_of_lt h, ok_bind, pure_eq_ok],
    fun o => ?_, fun x hx => dif_neg hx⟩
  rw [dif_pos ⟨by omega, by omega⟩]
  congr 1
  ext
  simp

lemma blockWrite_eq_ok {b' : Block} {mem : Memory} {buffer : ℕ} :
    blockWrite b sector mem buffer = .ok b' ↔ sector < b.size ∧ b.type ≠ .BLOCK_FOREIGN ∧
      b' = { b with sectors := update b.sectors sector fun o => mem (buffer + o) } := by
  by_cases hs : sector < b.size
  · rw [blockWrite, checkSector_of_lt hs, ok_bind, bind_eq_ok]
    simp only [ASSERT_eq_ok, pure_eq_ok, Except.ok.injEq, hs, true_and]
    constructor
    · rintro ⟨_, ht, hb⟩
      exact ⟨ht, hb.symm⟩
    · rintro ⟨ht, hb⟩
      exact ⟨(), ht, hb.symm⟩
  · rw [blockWrite, checkSector_of_le (by omega), panic_bind]
    simp [hs]

/-! ### Sectors as values -/

def Sector.byte (sector : Sector) (o : ℕ) : BitVec 8 :=
  if h : o < BLOCK_SECTOR_SIZE then sector ⟨o, h⟩ else 0

def blockGet (b : Block) (sector : ℕ) : Kernel Sector := do
  checkSector b sector
  return b.sectors sector

def Block.put (b : Block) (sector : ℕ) (contents : Sector) : Block :=
  { b with sectors := update b.sectors sector contents }

def blockPut (b : Block) (sector : ℕ) (contents : Sector) : Kernel Block := do
  checkSector b sector
  ASSERT (b.type ≠ .BLOCK_FOREIGN)
  return b.put sector contents

lemma blockWrite_eq_blockPut (b : Block) (sector : ℕ) (mem : Memory) (buffer : ℕ) :
    blockWrite b sector mem buffer = blockPut b sector fun o => mem (buffer + o) :=
  rfl

lemma blockRead_eq_blockGet (b : Block) (sector : ℕ) (mem : Memory) (buffer : ℕ) :
    blockRead b sector mem buffer = (do
      let contents ← blockGet b sector
      return overwrite mem buffer BLOCK_SECTOR_SIZE (Sector.byte contents)) := by
  by_cases hs : sector < b.size
  · rw [blockRead, blockGet, checkSector_of_lt hs]
    simp only [ok_bind, pure_eq_ok]
    congr 1
    funext x
    simp only [overwrite, Sector.byte]
    split_ifs
    · rfl
    · omega
    · rfl
  · rw [blockRead, blockGet, checkSector_of_le (by omega)]
    rfl

lemma blockGet_ok (h : sector < b.size) : blockGet b sector = .ok (b.sectors sector) := by
  rw [blockGet, checkSector_of_lt h, ok_bind, pure_eq_ok]

lemma blockPut_ok {contents : Sector} (h : sector < b.size) (hb : b.type ≠ .BLOCK_FOREIGN) :
    blockPut b sector contents = .ok (b.put sector contents) := by
  rw [blockPut, checkSector_of_lt h, ok_bind, ASSERT_of hb, ok_bind, pure_eq_ok]

def Block.byte (b : Block) (x : ℕ) : BitVec 8 :=
  (b.sectors (x / BLOCK_SECTOR_SIZE)).byte (x % BLOCK_SECTOR_SIZE)

lemma Block.byte_add (b : Block) (x : ℕ) {o : ℕ} (ho : o < 512) :
    b.byte (512 * x + o) = (b.sectors x).byte o := by
  rw [Block.byte, BLOCK_SECTOR_SIZE, show (512 * x + o) / 512 = x by omega,
    show (512 * x + o) % 512 = o by omega]

lemma Block.byte_put (b : Block) (x : ℕ) (contents : Sector) (y : ℕ) :
    (b.put x contents).byte y = overwrite b.byte (512 * x) 512 contents.byte y := by
  simp only [Block.byte, Block.put, overwrite, BLOCK_SECTOR_SIZE]
  by_cases hx : y / 512 = x
  · rw [hx, update_self, if_pos ⟨by omega, by omega⟩, show y - 512 * x = y % 512 by omega]
  · rw [update_of_ne hx, if_neg (by omega)]

/-- Two devices that differ in the sectors `S` at most. -/
structure Block.Agree (b b' : Block) (S : ℕ → Prop) : Prop where
  type : b'.type = b.type
  size : b'.size = b.size
  sectors : ∀ {x}, ¬ S x → b'.sectors x = b.sectors x

section Agree

variable {b b' : Block} {S : ℕ → Prop} {x : ℕ}

lemma Block.sectors_eq (h : ∀ o < 512, b'.byte (512 * x + o) = b.byte (512 * x + o)) :
    b'.sectors x = b.sectors x := by
  funext o
  have hbyte := h o o.isLt
  rw [Block.byte_add b' x o.isLt, Block.byte_add b x o.isLt] at hbyte
  simpa [Sector.byte] using hbyte

lemma Block.Agree.byte (h : b.Agree b' S) (hx : ¬ S (x / 512)) : b'.byte x = b.byte x := by
  rw [Block.byte, Block.byte, BLOCK_SECTOR_SIZE, h.sectors hx]

end Agree

end Pintos
