/-
# Whose accessed bits an eviction reads

The frames of all processes are in one list, but `pick_frame_to_evict` is passed the page directory
of the process that needs a frame, and looks up all pages there.
-/

import Pintos.Vm.FramePolicies

namespace Pintos.FrameList

open Base Lib.LinkedList Function Kernel List

/-- How many frames `pick_frame_to_evict` comes to at most. -/
def SwapPolicy.rounds : SwapPolicy → ℕ → ℕ
  | _, 0 => 0
  | .CLOCK, n => n + n + 1
  | .SECOND_CHANCE, n => n + 1
  | .LRU, _ => 0

section Source

variable (frameList : ListHeader) (reset : Bool)

/-- The frames that `n` calls of `clock_frame_next` return. -/
def hand : ℕ → FrameTable → List ℕ
  | 0, _ => []
  | n + 1, s =>
    match clockFrameNext frameList (if reset then { s with clockPtr := none } else s) with
    | .error _ => []
    | .ok (e, s) => e :: hand n s

end Source

/-- The frames in the order in which `policy` comes to them. -/
def FrameTable.order (frameList : ListHeader) (policy : SwapPolicy) (s : FrameTable) : List ℕ :=
  hand frameList (policy = .SECOND_CHANCE) (policy.rounds s.frameMap.length) s

variable {frameList : ListHeader} {reset : Bool} {n cur e : ℕ} {s s₁ : FrameTable}
  {dirs : ℕ → Pagedir} {pagedir : Pagedir}

end Pintos.FrameList
