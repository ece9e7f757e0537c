/-
# Virtual addresses

`threads/vaddr.h` and the constants of `threads/loader.h`.  A page is `2^12` bytes; user addresses
lie below `PHYS_BASE`, and the kernel sees physical address `p` at `p + PHYS_BASE`.
-/

import Pintos.Base.Kernel
import Pintos.Base.Word

namespace Pintos

open Base

def PGSIZE : ℕ := 4096

def PHYS_BASE : ℕ := 0xc0000000

def pgOfs (va : ℕ) : ℕ := va % PGSIZE

def pgNo (va : ℕ) : ℕ := va / PGSIZE

def pgRoundDown (va : ℕ) : ℕ := va - pgOfs va

def isUserVaddr (va : ℕ) : Bool := va < PHYS_BASE

def isKernelVaddr (va : ℕ) : Bool := PHYS_BASE ≤ va

/-- The kernel virtual address at which physical address `PADDR` is mapped. -/
def ptov (paddr : ℕ) : Kernel ℕ := do
  ASSERT (paddr < PHYS_BASE)
  return u32 (paddr + PHYS_BASE)

/-- The physical address at which kernel virtual address `VADDR` is mapped. -/
def vtop (va : ℕ) : Kernel ℕ := do
  ASSERT (isKernelVaddr va = true)
  return va - PHYS_BASE

end Pintos
