/-
# Directories and the file system

`filesys/directory.c` and `filesys/filesys.c`.  There is one directory, the root, a file of entries
of 20 bytes:

| bytes | field |
| --- | --- |
| 0–3 | `inode_sector`, little-endian |
| 4–18 | `name`, null terminated |
| 19 | `in_use` |

`lookup` and `dir_add` read it entry by entry until a read comes back short, at its end or when
`malloc` has no room.  A `struct dir` is its inode; only `dir_readdir`, which no user program
reaches, uses `pos`.
-/

import Pintos.Filesys.Inode

namespace Pintos.Filesys

open Base Prog

def NAME_MAX : ℕ := 14

def DIR_ENTRY_SIZE : ℕ := 20

structure CString where
  bytes : List (BitVec 8)
  zero_notMem : 0 ∉ bytes
deriving DecidableEq

structure DirEntry where
  inodeSector : ℕ
  name : List (BitVec 8)
  inUse : Bool
deriving DecidableEq

namespace DirEntry

def decode (bytes : List (BitVec 8)) : DirEntry where
  inodeSector := leWord (bytes.take 4)
  name := (bytes.drop 4).take (NAME_MAX + 1)
  inUse := bytes.getD 19 0 != 0

def encode (e : DirEntry) : List (BitVec 8) :=
  leBytes e.inodeSector ++ e.name ++ [if e.inUse then 1 else 0]

/-- `!strcmp (name, e.name)`: the array starts with the name and its terminator. -/
def hasName (e : DirEntry) (name : CString) : Bool := (name.bytes ++ [0]).isPrefixOf e.name

end DirEntry

/-- `strlcpy (dst, src, sizeof dst)` for a name: bytes after the terminator stay. -/
def strlcpy (dst : List (BitVec 8)) (src : CString) : List (BitVec 8) :=
  src.bytes.take NAME_MAX ++ [0] ++ dst.drop ((src.bytes.take NAME_MAX).length + 1)

def DIR_ROUNDS : ℕ := 2 ^ 31 / DIR_ENTRY_SIZE + 1

def dirOpen (inode : Option ℕ) : FsProg (Option ℕ) := do
  let ok ← atom fun s => .ok s.malloc
  match inode, ok with
  | some p, true => return some p
  | _, _ =>
    inodeClose inode
    return none

def dirOpenRoot : FsProg (Option ℕ) := do
  let inode ← atom (inodeOpen ROOT_DIR_SECTOR)
  dirOpen inode

def dirClose (dir : Option ℕ) : FsProg Unit := inodeClose dir

def lookupRound (dir : ℕ) (name : CString) (ofs : ℕ) :
    FsProg (Option (DirEntry × ℕ) ⊕ ℕ) := do
  let buffer ← atom (inodeReadAt dir DIR_ENTRY_SIZE (s32 ofs))
  if buffer.length = DIR_ENTRY_SIZE then
    let e := DirEntry.decode buffer
    if e.inUse && e.hasName name then return .inl (some (e, ofs))
    else return .inr (ofs + DIR_ENTRY_SIZE)
  else return .inl none

/-- Searches for a file with the given name: its entry and the entry's offset. -/
def lookup (dir : ℕ) (name : CString) : FsProg (Option (DirEntry × ℕ)) :=
  loop (lookupRound dir name) (fun _ => none) DIR_ROUNDS 0

def dirLookup (dir : ℕ) (name : CString) : FsProg (Option ℕ) := do
  match ← lookup dir name with
  | some (e, _) => atom (inodeOpen e.inodeSector)
  | none => return none

/-- One round of the search for a free slot in `dir_add`; `e` is read over in place. -/
def slotRound (dir : ℕ) (v : ℕ × List (BitVec 8)) :
    FsProg ((ℕ × List (BitVec 8)) ⊕ (ℕ × List (BitVec 8))) := do
  let (ofs, e) := v
  let buffer ← atom (inodeReadAt dir DIR_ENTRY_SIZE (s32 ofs))
  let e := buffer ++ e.drop buffer.length
  if buffer.length = DIR_ENTRY_SIZE then
    if (DirEntry.decode e).inUse then return .inr (ofs + DIR_ENTRY_SIZE, e)
    else return .inl (ofs, e)
  else return .inl (ofs, e)

/-- The second half of `dir_add`: writes a free slot, or the end of the file. -/
def dirAddSlot (dir : ℕ) (name : CString) (inodeSector : ℕ) : FsProg Bool := do
  let e ← atom fun s => .ok (bytesAt s.stack 0 DIR_ENTRY_SIZE, s)
  let (ofs, e) ← loop (slotRound dir) id DIR_ROUNDS (0, e)
  -- Write slot.
  let e := { inodeSector := inodeSector, name := strlcpy (DirEntry.decode e).name name,
             inUse := true : DirEntry }
  let n ← atom (inodeWriteAt dir (fun i => e.encode.getD i 0) DIR_ENTRY_SIZE (s32 ofs))
  return decide (n = DIR_ENTRY_SIZE)

def dirAdd (dir : ℕ) (name : CString) (inodeSector : ℕ) : FsProg Bool := do
  -- Check NAME for validity.
  if name.bytes = [] ∨ NAME_MAX < name.bytes.length then return false
  else
    -- Check that NAME is not in use.
    match ← lookup dir name with
    | some _ => return false
    | none => dirAddSlot dir name inodeSector

def dirRemove (dir : ℕ) (name : CString) : FsProg Bool := do
  -- Find directory entry.
  match ← lookup dir name with
  | none => return false
  | some (e, ofs) =>
    -- Open inode.
    match ← atom (inodeOpen e.inodeSector) with
    | none => return false
    | some inode =>
      -- Erase directory entry.
      let e := { e with inUse := false }
      let n ← atom (inodeWriteAt dir (fun i => e.encode.getD i 0) DIR_ENTRY_SIZE (s32 ofs))
      if n = DIR_ENTRY_SIZE then
        -- Remove inode.
        atom (inodeRemove inode)
        inodeClose (some inode)
        return true
      else
        inodeClose (some inode)
        return false

/-! ### The file system -/

/-- `filesys_create` with the directory open: success, and the sector of the inode. -/
def filesysCreateIn (dir : ℕ) (name : CString) (initialSize : ℤ) : FsProg (Bool × ℕ) := do
  match ← atom (freeMapAllocate 1) with
  | none => return (false, 0)
  | some inodeSector =>
    if ← inodeCreate inodeSector initialSize then
      let success ← dirAdd dir name inodeSector
      return (success, inodeSector)
    else return (false, inodeSector)

def filesysCreate (name : CString) (initialSize : ℤ) : FsProg Bool := do
  let dir ← dirOpenRoot
  let (success, inodeSector) ← match dir with
    | some p => filesysCreateIn p name initialSize
    | none => pure (false, 0)
  if success = false ∧ inodeSector ≠ 0 then
    atom (freeMapRelease inodeSector 1)
    dirClose dir
    return success
  else
    dirClose dir
    return success

def filesysOpen (name : CString) : FsProg (Option ℕ) := do
  let dir ← dirOpenRoot
  let inode ← match dir with
    | some p => dirLookup p name
    | none => pure none
  dirClose dir
  fileOpen inode

def filesysRemove (name : CString) : FsProg Bool := do
  let dir ← dirOpenRoot
  let success ← match dir with
    | some p => dirRemove p name
    | none => pure false
  dirClose dir
  return success

/-! ### Initialization -/

def panic {α : Type} (message : String) : FsProg α := atom fun _ => PANIC message

def freeMapInit (fsDevice : Block) (mallocs : ℕ → Bool) (mem : ℕ → BitVec 32)
    (stack : ℕ → BitVec 8) : Kernel FileSys := do
  let elems := if byteCnt fsDevice.size ≠ 0 ∧ mallocs 1 = true then some mem else none
  match ← bitmapCreate fsDevice.size (mallocs 0) elems with
  | none => PANIC "bitmap creation failed--file system device is too large"
  | some map => return {
      fsDevice := fsDevice
      freeMap := bitmapMark (bitmapMark map FREE_MAP_SECTOR) ROOT_DIR_SECTOR
      freeMapFile := none
      openInodes := []
      inodes := fun _ => none
      files := fun _ => none
      brk := 0
      mallocs := fun n => mallocs (n + 2)
      stack := stack }

def openFreeMapFile : FsProg ℕ := do
  let inode ← atom (inodeOpen FREE_MAP_SECTOR)
  let file ← fileOpen inode
  atom fun s => .ok ((), { s with freeMapFile := file })
  match file with
  | some f => return f
  | none => panic "can't open free map"

def freeMapCreate : FsProg Unit := do
  let size ← atom fun s => .ok (s32 (bitmapFileSize s.freeMap), s)
  if ← inodeCreate FREE_MAP_SECTOR size then
    let file ← openFreeMapFile
    if ← atom (bitmapWrite file) then return ()
    else panic "can't write free map"
  else panic "free map creation failed"

def freeMapOpen : FsProg Unit := do
  let file ← openFreeMapFile
  if ← atom (bitmapRead file) then return ()
  else panic "can't read free map"

def freeMapClose : FsProg Unit := do
  let file ← atom fun s => .ok (s.freeMapFile, s)
  fileClose file

def dirCreate (sector entryCnt : ℕ) : FsProg Bool :=
  inodeCreate sector (s32 (u32 (entryCnt * DIR_ENTRY_SIZE)))

def doFormat : FsProg Unit := do
  freeMapCreate
  if ← dirCreate ROOT_DIR_SECTOR 16 then freeMapClose
  else panic "root directory creation failed"

def filesysInit (format : Bool) (fsDevice : Block) (mallocs : ℕ → Bool) (mem : ℕ → BitVec 32)
    (stack : ℕ → BitVec 8) : Kernel FileSys := do
  let s ← freeMapInit fsDevice mallocs mem stack
  let (_, s) ← (do
    if format then doFormat
    freeMapOpen : FsProg Unit).run s
  return s

end Pintos.Filesys
