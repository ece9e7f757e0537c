/-
# A load that fails

`virtualmemory_load_page` fails when `malloc` fails for the entry of the frame, when the contents
cannot be read or when the mapping cannot be set.  `virtualmemory_swap_in` has released the slot by
then, so that a swapped page is not lost only because its page table is still there and the mapping
does not fail.  The eviction on the way writes to a slot that was free (`frameAllocate_slot`).
-/

import Pintos.Vm.ProcessExit

namespace Pintos.Virtualmemory

open Base Function Kernel Option Pagedir Vm List

variable {vm vm' : Vm} {p u i : ℕ} {malloc alloc : Bool} {fs : LoadPageFromFilesys}

end Pintos.Virtualmemory
