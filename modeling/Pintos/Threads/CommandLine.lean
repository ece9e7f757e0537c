/-
# The kernel command line

`read_command_line` of `threads/init.c`, which breaks the argument area of the loader into words,
with `strnlen` and `strchr`: the bytes of the area that are read and the elements of `argv` that are
written.  Addresses are offsets in the area.

`argv` has room for arguments of two bytes or more, but an empty one takes one.  The count is read
as an `int`, and `strnlen` looks at `string[maxlen]`.
-/

import Pintos.Base.Kernel
import Pintos.Base.Word

namespace Pintos

open Base Function Kernel

def LOADER_ARGS_LEN : ℕ := 128

structure CommandLine where
  p : ℕ := 0
  argv : ℤ → Option ℕ := fun _ => none
  writes : List ℤ := []
  reads : List ℕ := []

def CommandLine.store (s : CommandLine) (i : ℤ) (value : Option ℕ) : CommandLine :=
  { s with argv := Function.update s.argv i value, writes := i :: s.writes }

/-- `argv` holds the first `n` strings: `start i` is behind the NUL of the one before. -/
def Words (area : ℕ → BitVec 8) (argv : ℤ → Option ℕ) (n : ℕ) (start : ℕ → ℕ) : Prop :=
  start 0 = 0 ∧ ∀ i < n, argv i = some (start i) ∧ ∃ e, start (i + 1) = e + 1 ∧ start i ≤ e ∧
    e < LOADER_ARGS_LEN ∧ area e = 0 ∧ ∀ k, start i ≤ k → k < e → area k ≠ 0

/-- The accesses so far lie in `argv` and in the area. -/
structure CommandLine.Inside (s : CommandLine) : Prop where
  writes : ∀ i ∈ s.writes, 0 ≤ i ∧ i < LOADER_ARGS_LEN / 2 + 1
  reads : ∀ r ∈ s.reads, r < LOADER_ARGS_LEN

variable {area : ℕ → BitVec 8} {p n : ℕ} {s : CommandLine}

lemma Words.store {start : ℕ → ℕ} (h : Words area s.argv n start) (value : Option ℕ) :
    Words area (s.store n value).argv n start := by
  refine ⟨h.1, fun i hi => ?_⟩
  have hargv : (s.store n value).argv i = s.argv i := update_of_ne (by omega) ..
  rw [hargv]
  exact h.2 i hi

end Pintos
