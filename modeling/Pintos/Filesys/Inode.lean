/-
# Inodes, files and the free map

`filesys/inode.c`, `filesys/file.c` and `filesys/free-map.c`, which call each other: the last close
of a removed inode releases its sectors, and every change of the free map is written to its file.

`FileSys` is the memory and the device.  Open inodes and files live at addresses that `malloc` never
hands out twice, so an access through a pointer whose object is gone halts.  `mallocs` says which of
the allocations to come succeed.

Code that can be interrupted is a `Prog` whose actions are the reads and writes of an inode, the
steps on the free map, and the changes of the tables of open inodes and files.

`open_cnt` and `deny_write_cnt` are integers: each opener keeps a pointer to the inode, and memory
has room for fewer than 2^31 of these, so an `int` does not overflow.
-/

import Pintos.Base.Prog
import Pintos.Filesys.Disk
import Pintos.Lib.Bitmap

namespace Pintos.Filesys

open Base Function Prog

def FREE_MAP_SECTOR : ℕ := 0
def ROOT_DIR_SECTOR : ℕ := 1

structure Inode where
  sector : ℕ
  openCnt : ℤ
  removed : Bool
  /-- 0: writes ok, >0: deny writes. -/
  denyWriteCnt : ℤ
  data : InodeDisk

structure File where
  inode : ℕ
  pos : ℤ
  denyWrite : Bool

structure FileSys where
  fsDevice : Block
  freeMap : Bitmap
  freeMapFile : Option ℕ
  /-- List of open inodes, so that opening a single inode twice returns the same one. -/
  openInodes : List ℕ
  inodes : ℕ → Option Inode
  files : ℕ → Option File
  /-- The next address `malloc` hands out. -/
  brk : ℕ
  /-- Whether the allocations to come find room. -/
  mallocs : ℕ → Bool
  /-- What a local variable holds before it is assigned. -/
  stack : ℕ → BitVec 8

abbrev FsProg (α : Type) := Prog FileSys α

def deref {α : Type} (heap : ℕ → Option α) (p : ℕ) : Kernel α :=
  match heap p with
  | some x => .ok x
  | none => PANIC "access through a dangling pointer"

def FileSys.malloc (s : FileSys) : Bool × FileSys :=
  (s.mallocs 0, { s with mallocs := fun n => s.mallocs (n + 1) })

/-! ### Reading and writing -/

def inodeReadAt (inode : ℕ) (size offset : ℤ) (s : FileSys) :
    Kernel (List (BitVec 8) × FileSys) := do
  let i ← deref s.inodes inode
  let (ok, s) := s.malloc
  let buffer ← readLoop s.fsDevice i.data ok size.toNat size offset []
  return (buffer, s)

/-- Whole sectors are written directly, others through a bounce buffer; the file does not grow. -/
def inodeWriteAt (inode : ℕ) (buffer : ℕ → BitVec 8) (size offset : ℤ) (s : FileSys) :
    Kernel (ℕ × FileSys) := do
  let i ← deref s.inodes inode
  if i.denyWriteCnt ≠ 0 then return (0, s)
  else
    let (ok, s) := s.malloc
    let (b, bytesWritten) ← writeLoop i.data ok buffer size.toNat s.fsDevice size offset 0
    return (bytesWritten, { s with fsDevice := b })

def inodeLength (i : Inode) : ℤ := i.data.length

def fileReadAt (file : ℕ) (size fileOfs : ℤ) (s : FileSys) :
    Kernel (List (BitVec 8) × FileSys) := do
  let f ← deref s.files file
  inodeReadAt f.inode size fileOfs s

def fileWriteAt (file : ℕ) (buffer : ℕ → BitVec 8) (size fileOfs : ℤ) (s : FileSys) :
    Kernel (ℕ × FileSys) := do
  let f ← deref s.files file
  inodeWriteAt f.inode buffer size fileOfs s

/-! ### The free map -/

def bitmapWrite (file : ℕ) (s : FileSys) : Kernel (Bool × FileSys) := do
  let size := s32 (bitmapFileSize s.freeMap)
  let (n, s) ← fileWriteAt file s.freeMap.byte size 0 s
  return (decide ((n : ℤ) = size), s)

def bitmapRead (file : ℕ) (s : FileSys) : Kernel (Bool × FileSys) := do
  if 0 < s.freeMap.bitCnt then
    let size := s32 (bitmapFileSize s.freeMap)
    let (buffer, s) ← fileReadAt file size 0 s
    let byte := fun i => buffer.getD i (s.freeMap.byte i)
    let last := elemCnt s.freeMap.bitCnt - 1
    let bits := update (elemOfBytes byte) last (elemOfBytes byte last &&& lastMask s.freeMap)
    return (decide ((buffer.length : ℤ) = size),
      { s with freeMap := { s.freeMap with bits := bits } })
  else return (true, s)

def freeMapAllocate (cnt : ℕ) (s : FileSys) : Kernel (Option ℕ × FileSys) := do
  let (sector, map) ← bitmapScanAndFlip s.freeMap 0 cnt false
  let s := { s with freeMap := map }
  let (sector, s) ← match s.freeMapFile with
    | some file =>
      if sector ≠ BITMAP_ERROR then do
        let (ok, s) ← bitmapWrite file s
        if ok then pure (sector, s)
        else do
          let map ← bitmapSetMultiple s.freeMap sector cnt false
          pure (BITMAP_ERROR, { s with freeMap := map })
      else pure (sector, s)
    | none => pure (sector, s)
  return (if sector ≠ BITMAP_ERROR then some sector else none, s)

def freeMapRelease (sector cnt : ℕ) (s : FileSys) : Kernel (Unit × FileSys) := do
  let all ← bitmapAll s.freeMap sector cnt
  ASSERT (all = true)
  let map ← bitmapSetMultiple s.freeMap sector cnt false
  let s := { s with freeMap := map }
  match s.freeMapFile with
  | some file => do
    let (_, s) ← bitmapWrite file s
    return ((), s)
  | none => PANIC "null pointer"

/-! ### Creating, opening and closing inodes -/

def inodeCalloc (length : ℤ) (s : FileSys) : Kernel (Bool × FileSys) := do
  ASSERT (0 ≤ length)
  return s.malloc

/-- The writes of `inode_create`: the inode, and zeros in its data sectors. -/
def inodeFill (sector : ℕ) (diskInode : InodeDisk) (sectors : ℕ) (s : FileSys) :
    Kernel (Unit × FileSys) := do
  let b ← blockPut s.fsDevice sector diskInode.encode
  let b ← forLoop sectors (fun b i => blockPut b (u32 (diskInode.start + i)) fun _ => 0) b
  return ((), { s with fsDevice := b })

def inodeCreate (sector : ℕ) (length : ℤ) : FsProg Bool := do
  if ← atom (inodeCalloc length) then
    let sectors := bytesToSectors length
    match ← atom (freeMapAllocate sectors) with
    | some start =>
      atom (inodeFill sector ⟨start, length, INODE_MAGIC⟩ sectors)
      return true
    | none => return false
  else return false

def inodeOpen (sector : ℕ) (s : FileSys) : Kernel (Option ℕ × FileSys) := do
  match s.openInodes.find? fun p => (s.inodes p).any fun i => i.sector == sector with
  | some p => do
    let i ← deref s.inodes p
    return (some p, { s with
      inodes := update s.inodes p (some { i with openCnt := i.openCnt + 1 }) })
  | none =>
    let (ok, s) := s.malloc
    if ok then do
      let data ← blockGet s.fsDevice sector
      return (some s.brk, { s with
        openInodes := s.brk :: s.openInodes
        inodes := update s.inodes s.brk (some ⟨sector, 1, false, 0, InodeDisk.decode data⟩)
        brk := s.brk + 1 })
    else return (none, s)

def inodeDrop (inode : ℕ) (s : FileSys) : Kernel (Option Inode × FileSys) := do
  let i ← deref s.inodes inode
  let i := { i with openCnt := i.openCnt - 1 }
  if i.openCnt = 0 then
    return (some i, { s with
      openInodes := s.openInodes.erase inode
      inodes := update s.inodes inode none })
  else return (none, { s with inodes := update s.inodes inode (some i) })

def inodeClose : Option ℕ → FsProg Unit
  | none => return ()
  | some inode => do
    match ← atom (inodeDrop inode) with
    | some i =>
      if i.removed then
        atom (freeMapRelease i.sector 1)
        atom (freeMapRelease i.data.start (bytesToSectors i.data.length))
      else return ()
    | none => return ()

def inodeReopen : Option ℕ → FileSys → Kernel (Option ℕ × FileSys)
  | none, s => return (none, s)
  | some inode, s => do
    let i ← deref s.inodes inode
    return (some inode, { s with
      inodes := update s.inodes inode (some { i with openCnt := i.openCnt + 1 }) })

def inodeRemove (inode : ℕ) (s : FileSys) : Kernel (Unit × FileSys) := do
  let i ← deref s.inodes inode
  return ((), { s with inodes := update s.inodes inode (some { i with removed := true }) })

def inodeDenyWrite (inode : ℕ) (s : FileSys) : Kernel (Unit × FileSys) := do
  let i ← deref s.inodes inode
  let i := { i with denyWriteCnt := i.denyWriteCnt + 1 }
  ASSERT (i.denyWriteCnt ≤ i.openCnt)
  return ((), { s with inodes := update s.inodes inode (some i) })

def inodeAllowWrite (inode : ℕ) (s : FileSys) : Kernel (Unit × FileSys) := do
  let i ← deref s.inodes inode
  ASSERT (0 < i.denyWriteCnt)
  ASSERT (i.denyWriteCnt ≤ i.openCnt)
  return ((), { s with
    inodes := update s.inodes inode (some { i with denyWriteCnt := i.denyWriteCnt - 1 }) })

/-! ### Files -/

def fileCalloc (inode : Option ℕ) (s : FileSys) : Kernel (Option ℕ × FileSys) :=
  let (ok, s) := s.malloc
  match inode, ok with
  | some p, true =>
    return (some s.brk, { s with
      files := update s.files s.brk (some ⟨p, 0, false⟩)
      brk := s.brk + 1 })
  | _, _ => return (none, s)

def fileOpen (inode : Option ℕ) : FsProg (Option ℕ) := do
  match ← atom (fileCalloc inode) with
  | some file => return some file
  | none =>
    inodeClose inode
    return none

def fileReopen (file : ℕ) : FsProg (Option ℕ) := do
  let inode ← atom fun s => do
    let f ← deref s.files file
    inodeReopen (some f.inode) s
  fileOpen inode

def fileDenyWrite (file : ℕ) (s : FileSys) : Kernel (Unit × FileSys) := do
  let f ← deref s.files file
  if f.denyWrite then return ((), s)
  else inodeDenyWrite f.inode { s with
    files := update s.files file (some { f with denyWrite := true }) }

def fileAllowWrite (file : ℕ) (s : FileSys) : Kernel (Unit × FileSys) := do
  let f ← deref s.files file
  if f.denyWrite then inodeAllowWrite f.inode { s with
    files := update s.files file (some { f with denyWrite := false }) }
  else return ((), s)

def fileDrop (file : ℕ) (s : FileSys) : Kernel (ℕ × FileSys) := do
  let f ← deref s.files file
  let ((), s) ← if f.denyWrite then inodeAllowWrite f.inode s else pure ((), s)
  return (f.inode, { s with files := update s.files file none })

def fileClose : Option ℕ → FsProg Unit
  | none => return ()
  | some file => do
    let inode ← atom (fileDrop file)
    inodeClose (some inode)

def FileSys.setPos (s : FileSys) (file : ℕ) (f : File) (pos : ℤ) : FileSys :=
  { s with files := update s.files file (some { f with pos := pos }) }

def fileRead (file : ℕ) (size : ℤ) (s : FileSys) : Kernel (List (BitVec 8) × FileSys) := do
  let f ← deref s.files file
  let (buffer, s) ← inodeReadAt f.inode size f.pos s
  return (buffer, s.setPos file f (f.pos + buffer.length))

def fileWrite (file : ℕ) (buffer : ℕ → BitVec 8) (size : ℤ) (s : FileSys) :
    Kernel (ℕ × FileSys) := do
  let f ← deref s.files file
  let (bytesWritten, s) ← inodeWriteAt f.inode buffer size f.pos s
  return (bytesWritten, s.setPos file f (f.pos + bytesWritten))

def fileLength (file : ℕ) (s : FileSys) : Kernel (ℤ × FileSys) := do
  let f ← deref s.files file
  let i ← deref s.inodes f.inode
  return (inodeLength i, s)

def fileSeek (file : ℕ) (newPos : ℤ) (s : FileSys) : Kernel (Unit × FileSys) := do
  ASSERT (0 ≤ newPos)
  let f ← deref s.files file
  return ((), s.setPos file f newPos)

def fileTell (file : ℕ) (s : FileSys) : Kernel (ℤ × FileSys) := do
  let f ← deref s.files file
  return (f.pos, s)

end Pintos.Filesys
