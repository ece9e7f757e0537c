/-
# System calls and user memory

`userprog/syscall.c`: what `syscall_handler` reads and writes of the memory of the process.  The
stack pointer, the words on the stack, the strings and the buffers are of the user; `check_address`
tells whether an address is in the range of user programs, not whether a page is mapped there.

A call ends by a return, by `exit`, or at the first access to an address that is not a mapped user
address (`Stop.bad`): it faults in the kernel, and `page_fault` then jumps to the address in `eax`.
-/

import Pintos.Threads.Vaddr

namespace Pintos.Userprog

open Base

/-! ### The process -/

/-- The memory of a process, and what the kernel does for it. -/
structure UserSpace where
  mem : Memory
  /-- Whether the page of a number is mapped. -/
  mapped : ℕ → Bool
  /-- Whether the one `malloc` of a call finds room. -/
  room : Bool
  /-- Whether `process_get_file` finds a file. -/
  opened : ℤ → Bool
  /-- The bytes that `file_read` stores, and that `file_write` takes. -/
  fileRead : ℤ → ℕ → ℕ
  fileWrite : ℤ → ℕ → ℕ
  fileRead_le : ∀ fd size, fileRead fd size ≤ size
  fileWrite_le : ∀ fd size, fileWrite fd size ≤ size

inductive Stop
  | exited (status : ℤ)
  | halted
  /-- An access to an address that is not a mapped user address. -/
  | bad (addr : ℕ)
  | panicked
deriving DecidableEq, Repr

abbrev Sys (α : Type) := Except Stop α

def UserSpace.Good (u : UserSpace) (addr : ℕ) : Prop :=
  isUserVaddr addr = true ∧ u.mapped (pgNo addr) = true

instance (u : UserSpace) (addr : ℕ) : Decidable (u.Good addr) :=
  inferInstanceAs (Decidable (_ ∧ _))

def userByte (u : UserSpace) (addr : ℕ) : Sys (BitVec 8) :=
  if u.Good addr then .ok (u.mem addr) else .error (.bad addr)

def UserSpace.word (u : UserSpace) (addr : ℕ) : ℕ :=
  (u.mem addr).toNat + 2 ^ 8 * (u.mem (u32 (addr + 1))).toNat +
    2 ^ 16 * (u.mem (u32 (addr + 2))).toNat + 2 ^ 24 * (u.mem (u32 (addr + 3))).toNat

def userWord (u : UserSpace) (addr : ℕ) : Sys ℕ := do
  let b₀ ← userByte u addr
  let b₁ ← userByte u (u32 (addr + 1))
  let b₂ ← userByte u (u32 (addr + 2))
  let b₃ ← userByte u (u32 (addr + 3))
  return b₀.toNat + 2 ^ 8 * b₁.toNat + 2 ^ 16 * b₂.toNat + 2 ^ 24 * b₃.toNat

def userBytes (u : UserSpace) : ℕ → ℕ → Sys (List (BitVec 8))
  | _, 0 => .ok []
  | addr, n + 1 => do
    let b ← userByte u addr
    let rest ← userBytes u (u32 (addr + 1)) n
    return b :: rest

/-! ### Checking and copying -/

def InRange (addr : ℕ) : Prop := isUserVaddr addr = true ∧ 0x08048000 ≤ addr

instance (addr : ℕ) : Decidable (InRange addr) := inferInstanceAs (Decidable (_ ∧ _))

def checkAddress (addr : ℕ) : Sys Unit :=
  if InRange addr then .ok () else .error (.exited (-1))

def checkAddress4 (addr : ℕ) : Sys Unit := do
  checkAddress addr
  checkAddress (u32 (addr + 3))

def getArgumentsLoop (u : UserSpace) : ℕ → ℕ → Sys (List ℕ)
  | _, 0 => .ok []
  | esp, count + 1 => do
    let esp := u32 (esp + 4)
    checkAddress4 esp
    let arg ← userWord u esp
    let rest ← getArgumentsLoop u esp count
    return arg :: rest

def getArguments (u : UserSpace) (esp count : ℕ) : Sys (List ℕ) :=
  if 1 ≤ count ∧ count ≤ 4 then getArgumentsLoop u esp count else .error .panicked

def checkUserStringL : ℕ → ℕ → Sys Unit
  | _, 0 => .ok ()
  | str, size + 1 => do
    checkAddress str
    checkUserStringL (u32 (str + 1)) size

/-- The loop of `check_user_string`; `fuel` is what is left of user memory. -/
def checkUserStringLoop (u : UserSpace) : ℕ → ℕ → Sys Unit
  | 0, str => checkAddress str
  | fuel + 1, str => do
    checkAddress str
    let c ← userByte u str
    if c = 0 then return () else checkUserStringLoop u fuel (u32 (str + 1))

def checkUserString (u : UserSpace) (str : ℕ) : Sys Unit :=
  checkUserStringLoop u (PHYS_BASE - str) str

def strlenLoop (u : UserSpace) : ℕ → ℕ → Sys ℕ
  | 0, _ => .ok 0
  | fuel + 1, str => do
    let c ← userByte u str
    if c = 0 then return 0 else do
      let n ← strlenLoop u fuel (u32 (str + 1))
      return n + 1

/-- `malloc`: a block, or a null pointer, which is what it returns for no bytes. -/
def UserSpace.malloc (u : UserSpace) (size : ℕ) : Bool := decide (size ≠ 0) && u.room

def getUserStringL (u : UserSpace) (str size : ℕ) : Sys (Option (List (BitVec 8))) := do
  if u.malloc size then
    let bytes ← userBytes u str size
    return some bytes
  else return none

def getUserString (u : UserSpace) (str : ℕ) : Sys (Option (List (BitVec 8))) := do
  let n ← strlenLoop u (PHYS_BASE - str) str
  getUserStringL u str (n + 1)

/-- `get_user_strings` for one string: checked, then copied, or the process ends. -/
def getUserStrings (u : UserSpace) (str : ℕ) : Sys (List (BitVec 8)) := do
  checkUserString u str
  match ← getUserString u str with
  | some bytes => return bytes
  | none => .error (.exited (-1))

/-! ### The calls -/

def STDIN_FILENO : ℤ := 0
def STDOUT_FILENO : ℤ := 1

def readBuffer (u : UserSpace) (fd : ℤ) (buffer size : ℕ) : Sys Unit := do
  let n := if fd = STDIN_FILENO then size else if u.opened fd then u.fileRead fd size else 0
  let _ ← userBytes u buffer n
  return ()

def UserSpace.writes (u : UserSpace) (fd : ℤ) (size : ℕ) : ℕ :=
  if fd = STDOUT_FILENO then size else if u.opened fd then u.fileWrite fd size else 0

/-- `write`: a copy in the kernel's memory is at hand, a null pointer is read from. -/
def writeBuffer (u : UserSpace) (fd : ℤ) (buffer : Option (List (BitVec 8))) (size : ℕ) :
    Sys Unit :=
  match buffer with
  | some _ => return ()
  | none => do
    let _ ← userBytes u 0 (u.writes fd size)
    return ()

def tell (u : UserSpace) (fd : ℤ) : Sys Unit :=
  if u.opened fd then return () else .error (.exited (-1))

/-- The system calls, with the arguments of the kernel functions. -/
inductive Service
  | create (file : List (BitVec 8)) (initialSize : ℕ)
  | remove (file : List (BitVec 8))
  | write (fd : ℤ) (buffer : Option (List (BitVec 8))) (size : ℕ)
  | exec (file : List (BitVec 8))
  | wait (tid : ℤ)
  | opens (file : List (BitVec 8))
  | filesize (fd : ℤ)
  | read (fd : ℤ) (buffer size : ℕ)
  | seek (fd : ℤ) (position : ℕ)
  | tell (fd : ℤ)
  | close (fd : ℤ)
deriving DecidableEq, Repr

/-- The numbers of the calls, in the order of `lib/syscall-nr.h`. -/
inductive SyscallNr
  | SYS_HALT | SYS_EXIT | SYS_EXEC | SYS_WAIT | SYS_CREATE | SYS_REMOVE | SYS_OPEN
  | SYS_FILESIZE | SYS_READ | SYS_WRITE | SYS_SEEK | SYS_TELL | SYS_CLOSE
deriving DecidableEq, Repr

def syscallNr : ℕ → Option SyscallNr
  | 0 => some .SYS_HALT
  | 1 => some .SYS_EXIT
  | 2 => some .SYS_EXEC
  | 3 => some .SYS_WAIT
  | 4 => some .SYS_CREATE
  | 5 => some .SYS_REMOVE
  | 6 => some .SYS_OPEN
  | 7 => some .SYS_FILESIZE
  | 8 => some .SYS_READ
  | 9 => some .SYS_WRITE
  | 10 => some .SYS_SEEK
  | 11 => some .SYS_TELL
  | 12 => some .SYS_CLOSE
  | _ => none

def handle (u : UserSpace) (esp : ℕ) : SyscallNr → Sys Service
  | .SYS_HALT => .error .halted
  | .SYS_EXIT => do
    let args ← getArguments u esp 1
    .error (.exited (s32 (args.getD 0 0)))
  | .SYS_CREATE => do
    let args ← getArguments u esp 2
    let file ← getUserStrings u (args.getD 0 0)
    return .create file (args.getD 1 0)
  | .SYS_REMOVE => do
    let args ← getArguments u esp 1
    let file ← getUserStrings u (args.getD 0 0)
    return .remove file
  | .SYS_WRITE => do
    let args ← getArguments u esp 3
    checkUserStringL (args.getD 1 0) (args.getD 2 0)
    let buffer ← getUserStringL u (args.getD 1 0) (args.getD 2 0)
    writeBuffer u (s32 (args.getD 0 0)) buffer (args.getD 2 0)
    return .write (s32 (args.getD 0 0)) buffer (args.getD 2 0)
  | .SYS_EXEC => do
    let args ← getArguments u esp 1
    let file ← getUserStrings u (args.getD 0 0)
    return .exec file
  | .SYS_WAIT => do
    let args ← getArguments u esp 1
    return .wait (s32 (args.getD 0 0))
  | .SYS_OPEN => do
    let args ← getArguments u esp 1
    let file ← getUserStrings u (args.getD 0 0)
    return .opens file
  | .SYS_FILESIZE => do
    let args ← getArguments u esp 1
    return .filesize (s32 (args.getD 0 0))
  | .SYS_READ => do
    let args ← getArguments u esp 3
    checkUserStringL (args.getD 1 0) (args.getD 2 0)
    readBuffer u (s32 (args.getD 0 0)) (args.getD 1 0) (args.getD 2 0)
    return .read (s32 (args.getD 0 0)) (args.getD 1 0) (args.getD 2 0)
  | .SYS_SEEK => do
    let args ← getArguments u esp 2
    return .seek (s32 (args.getD 0 0)) (args.getD 1 0)
  | .SYS_TELL => do
    let args ← getArguments u esp 1
    tell u (s32 (args.getD 0 0))
    return .tell (s32 (args.getD 0 0))
  | .SYS_CLOSE => do
    let args ← getArguments u esp 1
    return .close (s32 (args.getD 0 0))

/-- What is asked for, once the number and the arguments have been fetched and checked. -/
def syscallHandler (u : UserSpace) (esp : ℕ) : Sys Service := do
  checkAddress4 esp
  let number ← userWord u esp
  match syscallNr number with
  | some nr => handle u esp nr
  | none => .error (.exited (-1))

end Pintos.Userprog
