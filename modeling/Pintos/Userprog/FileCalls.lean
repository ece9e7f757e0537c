/-
# The system calls on files

`userprog/syscall.c` and the descriptor table of `userprog/process.c`.  The handler copies the names
of a call, so they are the kernel's; `open`, `read` and `write` hold `file_lock`, the others take no
lock.

A process has two pages of descriptors, from 2 on.  `process_add_file` does not look where they end:
what is behind belongs to somebody else, and an access there halts.

| argument | is used as |
| --- | --- |
| `unsigned initial_size`, `size`, `position` | `off_t`, a signed number |
| `int fd` | a signed number; 0 is the keyboard, 1 the console |

`load` is what `start_process` does with the file of a program: it opens it, reads from positions
inside the file, and closes it.
-/

import Pintos.Filesys.Session
import Pintos.Userprog.Process
import Pintos.Userprog.Syscall

namespace Pintos.Userprog.FileCalls

open Base Filesys FileSys Function Prog

/-! ### The code -/

/-- The file system, `file_lock`, the descriptors, and the keyboard and console. -/
structure FileKernel where
  fs : FileSys
  /-- The process that holds `file_lock`. -/
  fileLock : Option ℕ
  nextFd : ℕ → ℕ
  /-- The files of a process, by descriptor. -/
  fdTable : ℕ → ℕ → Option ℕ
  /-- The keys that are going to be pressed. -/
  keys : ℕ → BitVec 8
  console : List (BitVec 8)

abbrev CallProg (α : Type) := Prog FileKernel α

def onFs {α : Type} (p : FsProg α) : CallProg α := p.zoom FileKernel.fs fun fs k =>
    { k with fs := fs }

def lockAcquire (i : ℕ) : CallProg Unit :=
  atomWhen (fun k => k.fileLock.isNone || k.fileLock == some i) fun k => do
    ASSERT (k.fileLock ≠ some i)
    return ((), { k with fileLock := some i })

def lockRelease (i : ℕ) : CallProg Unit :=
  atom fun k => do
    ASSERT (k.fileLock = some i)
    return ((), { k with fileLock := none })

def fdSlot (fd : ℕ) : Kernel Unit :=
  if fd < 2 + FD_MAX then .ok () else PANIC "access behind fd_table"

def processAddFile (i : ℕ) : Option ℕ → CallProg ℤ
  | none => return -1
  | some f => atom fun k => do
    let fd := k.nextFd i
    fdSlot fd
    return ((fd : ℤ), { k with
      nextFd := update k.nextFd i (fd + 1)
      fdTable := update k.fdTable i (update (k.fdTable i) fd (some f)) })

def processGetFile (i : ℕ) (fd : ℤ) : CallProg (Option ℕ) :=
  atom fun k =>
    if fd ≤ 1 ∨ (k.nextFd i : ℤ) ≤ fd then .ok (none, k)
    else do
      fdSlot fd.toNat
      return (k.fdTable i fd.toNat, k)

def clearFd (i : ℕ) (fd : ℤ) : CallProg Unit :=
  atom fun k => .ok ((), { k with
    fdTable := update k.fdTable i (update (k.fdTable i) fd.toNat none) })

def processCloseFile (i : ℕ) (fd : ℤ) : CallProg Unit := do
  let inside ← atom fun k => .ok (decide (¬ (fd ≤ 1 ∨ (k.nextFd i : ℤ) ≤ fd)), k)
  if inside then
    let f ← processGetFile i fd
    onFs (fileClose f)
    clearFd i fd
  else return ()

def mallocCopy : CallProg Bool := onFs (atom fun s => .ok s.malloc)

def readKeys : ℕ → CallProg (List (BitVec 8))
  | 0 => return []
  | count + 1 => do
    let key ← atom fun k => .ok (k.keys 0, { k with keys := fun n => k.keys (n + 1) })
    let rest ← readKeys count
    return key :: rest

def putbuf (bytes : List (BitVec 8)) : CallProg Unit :=
  atom fun k => .ok ((), { k with console := k.console ++ bytes })

/-- Bytes of a copy that could not be made are read from address 0. -/
def derefCopy (copied : Bool) (size : ℕ) : CallProg Unit :=
  if copied = true ∨ size = 0 then return () else atom fun _ => PANIC "page fault at 0"

/-- What a call leaves in `eax`, and in the buffer of `read`. -/
inductive FileResult
  | bool (ok : Bool)
  | int (n : ℤ)
  | bytes (buffer : List (BitVec 8))
  | void
  | exit (status : ℤ)

def create (file : CString) (initialSize : BitVec 32) : CallProg FileResult := do
  if ← mallocCopy then return .bool (← onFs (filesysCreate file initialSize.toInt))
  else return .exit (-1)

def remove (file : CString) : CallProg FileResult := do
  if ← mallocCopy then return .bool (← onFs (filesysRemove file))
  else return .exit (-1)

def openFile (i : ℕ) (file : CString) : CallProg FileResult := do
  if ← mallocCopy then
    lockAcquire i
    let f ← onFs (filesysOpen file)
    let result ← processAddFile i f
    lockRelease i
    return .int result
  else return .exit (-1)

def filesize (i : ℕ) (fd : BitVec 32) : CallProg FileResult := do
  match ← processGetFile i fd.toInt with
  | none => return .int (-1)
  | some f => return .int (← onFs (atom (fileLength f)))

def read (i : ℕ) (fd size : BitVec 32) : CallProg FileResult := do
  lockAcquire i
  if fd.toInt = STDIN_FILENO then
    let buffer ← readKeys size.toNat
    lockRelease i
    return .bytes buffer
  else
    match ← processGetFile i fd.toInt with
    | none =>
      lockRelease i
      return .int (-1)
    | some f =>
      let buffer ← onFs (atom (fileRead f size.toInt))
      lockRelease i
      return .bytes buffer

def write (i : ℕ) (fd : BitVec 32) (buffer : ℕ → BitVec 8) (size : BitVec 32) :
    CallProg FileResult := do
  let copied ← mallocCopy
  lockAcquire i
  if fd.toInt = STDOUT_FILENO then
    derefCopy copied size.toNat
    putbuf (bytesAt buffer 0 size.toNat)
    lockRelease i
    return .int size.toInt
  else
    match ← processGetFile i fd.toInt with
    | none =>
      lockRelease i
      return .int 0
    | some f =>
      derefCopy copied size.toNat
      let n ← onFs (atom (fileWrite f buffer size.toInt))
      lockRelease i
      return .int n

def seek (i : ℕ) (fd position : BitVec 32) : CallProg FileResult := do
  match ← processGetFile i fd.toInt with
  | none => return .void
  | some f =>
    onFs (atom (fileSeek f position.toInt))
    return .void

def tell (i : ℕ) (fd : BitVec 32) : CallProg FileResult := do
  match ← processGetFile i fd.toInt with
  | none => return .exit (-1)
  | some f => return .int (← onFs (atom (fileTell f)))

def close (i : ℕ) (fd : BitVec 32) : CallProg FileResult := do
  processCloseFile i fd.toInt
  return .void

def loadReads (f : ℕ) : List (ℕ × ℤ) → FsProg Unit
  | [] => return ()
  | (pos, size) :: reads => do
    atom (fileSeek f pos)
    let _ ← atom (fileRead f size)
    loadReads f reads

def load (file : CString) (reads : List (ℕ × ℤ)) : CallProg FileResult := do
  match ← onFs (filesysOpen file) with
  | none => return .bool false
  | some f =>
    onFs (loadReads f reads)
    onFs (fileClose (some f))
    return .bool true

inductive FileCall
  | create (file : CString) (initialSize : BitVec 32)
  | remove (file : CString)
  | openFile (file : CString)
  | filesize (fd : BitVec 32)
  | read (fd size : BitVec 32)
  | write (fd : BitVec 32) (buffer : ℕ → BitVec 8) (size : BitVec 32)
  | seek (fd position : BitVec 32)
  | tell (fd : BitVec 32)
  | close (fd : BitVec 32)
  | load (file : CString) (reads : List (ℕ × ℤ))

def FileCall.code (i : ℕ) : FileCall → CallProg FileResult
  | .create file initialSize => FileCalls.create file initialSize
  | .remove file => FileCalls.remove file
  | .openFile file => FileCalls.openFile i file
  | .filesize fd => FileCalls.filesize i fd
  | .read fd size => FileCalls.read i fd size
  | .write fd buffer size => FileCalls.write i fd buffer size
  | .seek fd position => FileCalls.seek i fd position
  | .tell fd => FileCalls.tell i fd
  | .close fd => FileCalls.close i fd
  | .load file reads => FileCalls.load file reads

end Pintos.Userprog.FileCalls
