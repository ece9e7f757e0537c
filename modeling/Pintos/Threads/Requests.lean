/-
# The size of a block

`malloc` adds a header to a size and rounds up to pages, and `calloc` multiplies, all in 32 bits. A
page count that wraps to zero is refused by the page allocator, so only the eleven largest sizes get
short blocks.  The check in `calloc` compares what 32 bits hold of the product with the factors, and
misses `65537 * 65537`.
-/

import Pintos.Threads.MallocSafety

namespace Pintos.Heap

open Base Kernel List

variable {A : PageAllocator}

/-- A block with room for `size` bytes, after the header of its pages. -/
def Roomy (h : Heap A) (p size : ℕ) : Prop :=
  ∃ n, h.blockSize p = .ok n ∧ size ≤ n ∧
    ∃ a ∈ h.pages, a.pages + ARENA_SIZE ≤ p ∧ p + n ≤ a.pages + PGSIZE * a.pageCnt

def zero (h : Heap A) (dst size : ℕ) : Heap A :=
  { h with arena := fun x => if x < dst + size ∧ dst < x + ARENA_SIZE then ⟨0, none, 0⟩
      else h.arena x }

/-- `a * b` zero bytes; `mem` is memory when `malloc` returns. -/
def calloc (h : Heap A) (mem : Memory) (a b : ℕ) : Kernel (Option ℕ × Heap A × Memory) :=
  let size := u32 (a * b)
  if size < a ∨ size < b then return (none, h, mem)
  else do
    let (p, h) ← h.malloc size
    match p with
    | none => return (none, h, mem)
    | some p => return (some p, h.zero p size, memset mem p 0#8 size)

variable {ram size a b : ℕ} {hram : ram ≤ 2 ^ 18} {h : Heap (pallocAllocator ram hram)}
  {live : List (ℕ × ℕ)} {others : List Allocation}

lemma Good.roomy {h : Heap A} {p : ℕ × ℕ} (hs : h.Good live others) (hp : p ∈ live) :
    h.Roomy p.1 p.2 := by
  have hsafe := HeapClient.Safe.of_good (s := ⟨h, live, others⟩) hs
  exact hsafe.inside p.1 p.2 hp

lemma Good.zero {h : Heap A} {p n : ℕ} (hs : h.Good live others) (hp : (p, n) ∈ live) :
    (h.zero p n).Good live others := by
  obtain ⟨m, -, hle, c, hc, -, hstart, _, hend⟩ :=
    HeapClient.inside_of_live (s := ⟨h, live, others⟩) hs.core hp
  refine ⟨hs.core.congr rfl rfl fun d hd => if_neg ?_, hs.held, hs.holds⟩
  rintro ⟨_, _⟩
  have hcnt := hs.core.paged.pos d hd
  dsimp only at hle hstart hend
  -- the header and the block have an address in common, so they are of one allocation
  have hcd : d = c := by
    refine hs.core.paged.eq_of_mem hd hc (x := max d.pages p) ⟨le_max_left .., ?_⟩ ⟨?_, ?_⟩
    · unfold PGSIZE ARENA_SIZE at *
      omega
    · omega
    · omega
  subst hcd
  omega

/-- No `n` pages in a row of the kernel pool are free. -/
def NoRun (h : Heap (pallocAllocator ram hram)) (n : ℕ) : Prop :=
  n = 0 ∨ ∀ i, i + n ≤ (Palloc.pool h.palloc false).usedMap.bitCnt →
    ¬ (Palloc.pool h.palloc false).usedMap.AllBits i n false

/-- There is nothing for a block of this size: no free block and no page for more of them, or no
pages for a big one. -/
def Exhausted (h : Heap (pallocAllocator ram hram)) (size : ℕ) : Prop :=
  size = 0 ∨ match h.descs.findIdx? (fun d => size ≤ d.blockSize) with
    | none => h.NoRun (DIV_ROUND_UP (u32 (size + ARENA_SIZE)) PGSIZE)
    | some i => (∀ d ∈ h.descs[i]?, d.freeList = []) ∧ h.NoRun 1

lemma findIdx?_big (hs : h.Core live) (hsize : PGSIZE < size) :
    h.descs.findIdx? (fun d => size ≤ d.blockSize) = none := by
  refine findIdx?_eq_none_iff.2 fun d hd => decide_eq_false fun hle => ?_
  have hblock := (hs.fits d hd).block_le (a := 0) (hs.fits d hd).nonempty
  unfold Desc.block PGSIZE at hblock
  unfold PGSIZE at hsize
  omega

lemma malloc_of_wrap (hs : h.Core live) (hlo : 2 ^ 32 < size + ARENA_SIZE + PGSIZE)
    (hhi : size + ARENA_SIZE ≤ 2 ^ 32) : h.malloc size = .ok (none, h) := by
  unfold ARENA_SIZE PGSIZE at hlo
  unfold ARENA_SIZE at hhi
  have hcnt : DIV_ROUND_UP (u32 (size + ARENA_SIZE)) PGSIZE = 0 := by
    unfold DIV_ROUND_UP u32 ARENA_SIZE PGSIZE
    omega
  rw [malloc, if_neg (by omega), findIdx?_big hs (by unfold PGSIZE; omega)]
  simp only [hcnt]
  rfl

/-- Beyond that the size with its header is that of one page. -/
lemma exhausted_of_wrap (hs : h.Core live) (hsize : size < 2 ^ 32)
    (hlo : 2 ^ 32 < size + ARENA_SIZE) : h.Exhausted size ↔ h.NoRun 1 := by
  unfold ARENA_SIZE at hlo
  have hcnt : DIV_ROUND_UP (u32 (size + ARENA_SIZE)) PGSIZE = 1 := by
    unfold DIV_ROUND_UP u32 ARENA_SIZE PGSIZE
    omega
  rw [Exhausted, findIdx?_big hs (by unfold PGSIZE; omega)]
  simp only [hcnt]
  exact or_iff_right (by omega)

lemma getPages_total (hA : (pallocAllocator ram hram).Holds h.palloc (h.pages ++ others)) (n : ℕ) :
    ∃ r palloc, h.getPages n = .ok (r, { h with
        palloc := palloc
        pages := (r.map fun pages => ⟨pages, n, false⟩).toList ++ h.pages }) ∧
      (pallocAllocator ram hram).Holds palloc
        ((r.map fun pages => ⟨pages, n, false⟩).toList ++ h.pages ++ others) ∧
      (r = none ↔ h.NoRun n) := by
  rcases Nat.eq_zero_or_pos n with rfl | hn
  · exact ⟨none, h.palloc, rfl, hA, iff_of_true rfl (.inl rfl)⟩
  obtain ⟨r, palloc, hget, hA'⟩ := getPages_spec hA hn
  refine ⟨r, palloc, hget, hA', ?_⟩
  obtain ⟨_, _, _, hlayout, _⟩ := PallocClient.Inv.layout hA
  rw [getPages] at hget
  rcases pallocGetMultiple_spec {} hn hlayout with ⟨i, _, hpages, hi, hall, _⟩ | ⟨hno, hpages⟩
  · rw [show (pallocAllocator ram hram).get h.palloc n = _ from hpages] at hget
    cases hget
    refine iff_of_false (Option.some_ne_none _) ?_
    rintro (rfl | hno)
    · exact hn.false
    · exact hno i hi hall
  · rw [show (pallocAllocator ram hram).get h.palloc n = _ from hpages] at hget
    cases hget
    exact iff_of_true rfl (.inr hno)

lemma malloc_total (hs : h.Good live others) (size : ℕ) : ∃ r h', h.malloc size = .ok (r, h') ∧
    (pallocAllocator ram hram).Holds h'.palloc (h'.pages ++ others) ∧
    (r = none ↔ h.Exhausted size) := by
  by_cases hne : size = 0
  · exact ⟨none, h, by rw [malloc, if_pos hne]; rfl, hs.holds, iff_of_true rfl (.inl hne)⟩
  rw [Exhausted, or_iff_right hne]
  cases hfind : h.descs.findIdx? (fun d => size ≤ d.blockSize) with
  | none =>
    obtain ⟨r, _, hget, hA, hr⟩ := getPages_total hs.holds
      (DIV_ROUND_UP (u32 (size + ARENA_SIZE)) PGSIZE)
    simp only [malloc, if_neg hne, hfind, hget, ok_bind]
    cases r with
    | none => exact ⟨none, _, rfl, hA, hr⟩
    | some =>
      exact ⟨some _, _, rfl, hA, iff_of_false (Option.some_ne_none _)
        (mt hr.2 (Option.some_ne_none _))⟩
  | some i =>
    obtain ⟨hlt, hle, _⟩ := findIdx?_eq_some_iff_getElem.1 hfind
    have hd : h.descs[i]? = some h.descs[i] := getElem?_eq_getElem hlt
    have hle : size ≤ h.descs[i].blockSize := of_decide_eq_true hle
    generalize h.descs[i] = d at hd hle
    simp only [malloc, if_neg hne, hfind, Core.getDesc hd, ok_bind, hd, Option.mem_some_iff,
      forall_eq']
    by_cases hnil : d.freeList = []
    · obtain ⟨r, _, hget, hA, hr⟩ := getPages_total hs.holds 1
      rw [if_pos hnil, and_iff_right hnil]
      cases r with
      | none => exact ⟨none, _, by rw [newArena, hget]; rfl, hA, hr⟩
      | some =>
        rcases newArena_spec hs hd with ⟨_, hnew, _⟩ | ⟨a, _, hnew, hcore, _, hA, hd1⟩
        · rw [newArena, hget, ok_bind] at hnew
          obtain ⟨_, _, hnew⟩ := bind_eq_ok.1 hnew
          obtain ⟨_, _, hnew⟩ := bind_eq_ok.1 hnew
          cases hnew
        · have hblocks : d.freeList ++ d.blocks a.pages ≠ [] := by
            have hpos := (hs.core.fits_of_get hd).nonempty
            rw [← Desc.length_blocks (a := a.pages)] at hpos
            exact append_ne_nil_of_right_ne_nil _ (length_pos_iff.1 hpos)
          obtain ⟨b, h2, htake, _, hpages2, hpalloc2, _⟩ := takeBlock_spec hcore hd1 hblocks hle
          exact ⟨some b, h2, by rw [hnew, ok_bind, if_pos rfl, htake],
            by rw [hpages2, hpalloc2]; exact hA, iff_of_false (Option.some_ne_none _)
              (mt hr.2 (Option.some_ne_none _))⟩
    · rw [if_neg hnil]
      obtain ⟨b, h2, htake, _, hpages2, hpalloc2, _⟩ := takeBlock_spec hs.core hd hnil hle
      exact ⟨some b, h2, by rw [pure_eq_ok, ok_bind, if_pos rfl, htake],
        by rw [hpages2, hpalloc2]; exact hs.holds,
        iff_of_false (Option.some_ne_none _) fun h => hnil h.1⟩

/-- No block is as large as what a size wraps at: there is at most 1 GB of memory. -/
lemma Roomy.le {p n : ℕ} (hr : h.Roomy p n)
    (hA : (pallocAllocator ram hram).Holds h.palloc (h.pages ++ others)) : n ≤ 2 ^ 30 := by
  obtain ⟨m, _, hle, a, ha, hstart, hend⟩ := hr
  have ha : a ∈ h.pages ++ others := mem_append_left _ ha
  obtain ⟨_, _, hpos, hbound⟩ := (pallocAllocator ram hram).placed hA a ha
  have hmem : a.pages ∈ a.area := ⟨le_rfl, by unfold PGSIZE; omega⟩
  obtain ⟨hbase, _⟩ := ((PallocClient.Inv.safe hA).apart a ha).2.2.2 hmem
  unfold PHYS_BASE at hbase
  omega

lemma malloc_good (hs : h.Good live others) (hsize : size + ARENA_SIZE ≤ 2 ^ 32) :
    ∃ r h', h.malloc size = .ok (r, h') ∧
      h'.Good ((r.map fun p => (p, size)).toList ++ live) others := by
  by_cases hwrap : size + ARENA_SIZE + PGSIZE ≤ 2 ^ 32
  · exact malloc_spec hs hwrap
  · exact ⟨none, h, malloc_of_wrap hs.core (not_le.1 hwrap) hsize, hs⟩

/-- **`malloc` returns no short block exactly** if the size leaves room for a header or there is no
page for the short block. -/
theorem malloc_never_short (hs : h.Good live others) (hsize : size < 2 ^ 32) :
    (∃ r h', h.malloc size = .ok (r, h') ∧ ∀ p ∈ r, h'.Roomy p size) ↔
      size + ARENA_SIZE ≤ 2 ^ 32 ∨ h.NoRun 1 := by
  by_cases hfit : size + ARENA_SIZE ≤ 2 ^ 32
  · refine iff_of_true ?_ (.inl hfit)
    obtain ⟨r, h', heq, hgood⟩ := malloc_good hs hfit
    refine ⟨r, h', heq, ?_⟩
    rintro p rfl
    exact hgood.roomy (p := (p, size)) mem_cons_self
  · obtain ⟨r, h', heq, hA, hr⟩ := malloc_total hs size
    rw [exhausted_of_wrap hs.core hsize (not_le.1 hfit)] at hr
    rw [or_iff_right hfit, ← hr]
    constructor
    · rintro ⟨_, _, heq', hroomy⟩
      rw [heq] at heq'
      cases heq'
      refine Option.eq_none_iff_forall_not_mem.2 fun p hp => ?_
      have hle := (hroomy p hp).le hA
      unfold ARENA_SIZE at hfit
      omega
    · rintro rfl
      exact ⟨none, h', heq, nofun⟩

lemma exists_good : ∃ h : Heap (pallocAllocator 400 (by decide)), h.Good [] [] := by
  obtain ⟨p, descs, hp, hdescs⟩ : ∃ p descs,
      pallocInit 400 4 (fun _ => 0) (fun _ => 0) (fun _ => 0) = .ok p ∧ mallocInit = .ok descs :=
    ⟨_, _, rfl, rfl⟩
  have hA : PallocClient.Inv 400 ⟨p, []⟩ := pallocInit_inv (by decide) (by decide) hp
  exact ⟨_, @HeapClient.start_good _ _ _ _ (fun _ => .cleared) hA hdescs⟩

theorem malloc_never_short_largest : ∃ h : Heap (pallocAllocator 400 (by decide)),
    ∃ r h', h.malloc (2 ^ 32 - 12) = .ok (r, h') ∧ ∀ p ∈ r, h'.Roomy p (2 ^ 32 - 12) := by
  obtain ⟨h, hs⟩ := exists_good
  exact ⟨h, (malloc_never_short hs (by decide)).2 (.inl (by decide))⟩

/-- **A request for almost all of memory is given one page.** -/
theorem malloc_short : ∃ p descs,
    pallocInit 400 4 (fun _ => 0) (fun _ => 0) (fun _ => 0) = .ok p ∧ mallocInit = .ok descs ∧ (do
        let (r, h) ← malloc (A := pallocAllocator 400 (by decide))
          ⟨p, descs, fun _ => .cleared, []⟩ (2 ^ 32 - 4)
        return (r, ← h.blockSize 0xc010100c)) = .ok (some 0xc010100c, 4084) :=
  ⟨_, _, rfl, rfl, by decide +kernel⟩

/-- **`calloc` returns zeros, and enough of them, exactly** if the product leaves room for a header,
or the check sees the overflow, or there is nothing for a block of what 32 bits hold of it. -/
theorem calloc_zeroed (hs : h.Good live others) (mem : Memory) :
    (∃ r h' mem', h.calloc mem a b = .ok (r, h', mem') ∧
        ∀ p ∈ r, h'.Roomy p (a * b) ∧ ∀ i < a * b, mem' (p + i) = 0) ↔
      a * b + ARENA_SIZE ≤ 2 ^ 32 ∨ u32 (a * b) < a ∨ u32 (a * b) < b ∨
        h.Exhausted (u32 (a * b)) := by
  by_cases hcheck : u32 (a * b) < a ∨ u32 (a * b) < b
  · refine iff_of_true ⟨none, h, mem, by rw [calloc, if_pos hcheck]; rfl, nofun⟩ ?_
    exact .inr (or_assoc.1 (.inl hcheck))
  rw [calloc, if_neg hcheck, ← or_assoc (a := u32 (a * b) < a), or_iff_right hcheck]
  by_cases hfit : a * b + ARENA_SIZE ≤ 2 ^ 32
  · refine iff_of_true ?_ (.inl hfit)
    have hword : u32 (a * b) = a * b := u32_of_lt (by unfold ARENA_SIZE at hfit; omega)
    obtain ⟨r, h', heq, hgood⟩ := malloc_good hs hfit
    rw [hword, heq]
    cases r with
    | none => exact ⟨none, h', mem, rfl, nofun⟩
    | some p =>
      refine ⟨some p, h'.zero p (a * b), memset mem p 0#8 (a * b), rfl, ?_⟩
      rintro _ ⟨⟩
      refine ⟨(hgood.zero mem_cons_self).roomy (p := (p, a * b)) mem_cons_self, fun i hi => ?_⟩
      exact if_pos ⟨by omega, by omega⟩
  · obtain ⟨r, h', heq, hA, hr⟩ := malloc_total hs (u32 (a * b))
    rw [or_iff_right hfit, ← hr, heq]
    cases r with
    | none => exact iff_of_true ⟨none, h', mem, rfl, nofun⟩ rfl
    | some p =>
      refine iff_of_false ?_ nofun
      rintro ⟨_, _, _, ⟨⟩, hroomy⟩
      have hle := (hroomy p rfl).1.le (h := h'.zero p (u32 (a * b))) hA
      unfold ARENA_SIZE at hfit
      omega

theorem calloc_zeroed_words : ∃ h : Heap (pallocAllocator 400 (by decide)),
    ∃ r h' mem', h.calloc (fun _ => 0xcc#8) 100 4 = .ok (r, h', mem') ∧
      ∀ p ∈ r, h'.Roomy p (100 * 4) ∧ ∀ i < 100 * 4, mem' (p + i) = 0 := by
  obtain ⟨h, hs⟩ := exists_good
  exact ⟨h, (calloc_zeroed hs _).2 (.inl (by decide))⟩

/-- **The check misses an overflow**: `2 ^ 17 + 1` is above both factors. -/
theorem calloc_short : ∃ p descs,
    pallocInit 400 4 (fun _ => 0) (fun _ => 0) (fun _ => 0) = .ok p ∧ mallocInit = .ok descs ∧ (do
        let (r, h, _) ← calloc (A := pallocAllocator 400 (by decide))
          ⟨p, descs, fun _ => .cleared, []⟩ (fun _ => 0xcc#8) 65537 65537
        return (r, ← h.blockSize 0xc010100c)) = .ok (some 0xc010100c, 135156) :=
  ⟨_, _, rfl, rfl, by decide +kernel⟩

end Pintos.Heap
