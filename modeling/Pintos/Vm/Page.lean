/-
# Loading, unmapping and installing pages

The operations that touch a page directory and a supplemental page table together:
`virtualmemory_load_page` and `virtualmemory_table_mm_unmap` of `vm/page.c`, `install_page` of
`userprog/process.c` and the part of `page_fault` of `userprog/exception.c` for a page that is not
present.

`virtualmemory_load_page_from_filesys`, declared nowhere in the repository, is a parameter; pages of
the kernel pool are arguments.
-/

import Pintos.Vm.Frame

namespace Pintos.Virtualmemory

open Base Kernel Vm

/-- `virtualmemory_load_page_from_filesys`: the memory it leaves, and whether it succeeded. -/
abbrev LoadPageFromFilesys := PageTableEntry → ℕ → Memory → Memory × Bool

/-- The `switch` of `virtualmemory_load_page`: fills the frame and returns the permission, or frees
it. -/
def loadFill (fs : LoadPageFromFilesys) (vm : Vm) (framePage : ℕ) (spte : PageTableEntry) :
    Kernel (Option Bool × Vm) :=
  match spte.status with
  | .ALL_ZERO => return (some true, vm.setMem (memset vm.palloc.mem framePage 0#8 PGSIZE))
  | .ON_FRAME => return (some true, vm)
  | .ON_SWAP => do
    let (mem, swap) ← swapIn vm.swap vm.palloc.mem spte.swapIndex framePage
    return (some true, { vm.setMem mem with swap := swap })
  | .FROM_FILESYS =>
    match fs spte framePage vm.palloc.mem with
    | (mem, true) => return (some spte.writable, vm.setMem mem)
    | (mem, false) => do return (none, ← frameFree (vm.setMem mem) framePage)
  | .other _ => PANIC "존재하지 않는 프레임 상태입니다"

/-- `virtualmemory_load_page` with a frame: fill it, map it, mark the entry, read again after an
eviction. -/
def loadInto (fs : LoadPageFromFilesys) (vm : Vm) (p upage framePage : ℕ) (alloc : Bool) :
    Kernel (Bool × Vm) :=
  match vm.spte p upage with
  | none => kernelFault
  | some spte => do
    match ← loadFill fs vm framePage spte with
    | (none, vm) => return (false, vm)
    | (some writable, vm) =>
      match ← pagedirSetPage (vm.procs p).pagedir upage framePage writable vm.initRamPages
          alloc with
      | (pd, false) => return (false, ← frameFree (vm.setPagedir p pd) framePage)
      | (pd, true) =>
        let vm := vm.setPagedir p pd
        let vm := vm.setSpte p upage (some { spte with kpage := framePage, status := .ON_FRAME })
        let vm := vm.setDirty p framePage false
        return (true, ← frameUnpin vm framePage)

def loadPage (policy : SwapPolicy) (fs : LoadPageFromFilesys) (vm : Vm) (p upage : ℕ)
    (malloc alloc : Bool) : Kernel (Bool × Vm) :=
  match vm.spte p upage with
  | none => return (false, vm)
  | some spte =>
    if spte.status = .ON_FRAME then return (true, vm)
    else do
      match ← frameAllocate policy vm p { PAL_USER := true } upage malloc with
      | (none, vm) => return (false, vm)
      | (some framePage, vm) => loadInto fs vm p upage framePage alloc

structure FileWrite where
  page : Page
  size : ℕ
  offset : ℕ

def writeBack (vm : Vm) (p page offset bytes : ℕ) (isDirty : Bool) : Kernel (Option FileWrite) :=
  if isDirty then
    match vm.maps p page with
    | some (frame, _) => return some ⟨pageAt vm.palloc.mem frame, bytes, offset⟩
    | none => kernelFault
  else return none

/-- `virtualmemory_table_mm_unmap` by `p`: writes a dirty page back, and forgets it.  `tmpPage` is
what `palloc_get_page (0)` returns. -/
def tableMmUnmap (vm : Vm) (p page offset bytes : ℕ) (tmpPage : Option ℕ) :
    Kernel (Option FileWrite × Vm) :=
  match vm.spte p page with
  | none => PANIC "munmap - some page is missing; can't happen!"
  | some spte =>
    match spte.status with
    | .ON_FRAME => do
      ASSERT (spte.kpage ≠ 0)
      let vm ← framePin vm spte.kpage
      let isDirty := spte.dirty || vm.isDirty p page || vm.isDirty p spte.kpage
      let write ← writeBack vm p page offset bytes isDirty
      let vm ← frameFree vm spte.kpage
      let vm := vm.setPagedir p (← pagedirClearPage (vm.procs p).pagedir page)
      return (write, vm.setSpte p page none)
    | .ON_SWAP =>
      if spte.dirty || vm.isDirty p page then do
        let tmp := tmpPage.getD 0
        let (mem, swap) ← swapIn vm.swap vm.palloc.mem spte.swapIndex tmp
        let vm := { vm.setMem (memset mem tmp 0xcc#8 PGSIZE) with swap := swap }
        return (some ⟨pageAt mem tmp, PGSIZE, offset⟩, vm.setSpte p page none)
      else do
        let vm := { vm with swap := ← swapFree vm.swap spte.swapIndex }
        return (none, vm.setSpte p page none)
    | .FROM_FILESYS => return (none, vm.setSpte p page none)
    | .ALL_ZERO => PANIC "존재하지 않는 상태이다"
    | .other _ => PANIC "존재하지 않는 상태이다"

def installPage (vm : Vm) (p upage kpage : ℕ) (writable : Bool) (block : Option PageTableEntry)
    (alloc : Bool) : Kernel (Bool × Vm) := do
  match ← pagedirGetPage (vm.procs p).pagedir upage with
  | some _ => return (false, vm)
  | none =>
    match ← pagedirSetPage (vm.procs p).pagedir upage kpage writable vm.initRamPages alloc with
    | (pd, false) => return (false, vm.setPagedir p pd)
    | (pd, true) =>
      match ← tableInstallFrame (vm.setPagedir p pd) p upage kpage block with
      | (true, vm) => return (true, ← frameUnpin vm kpage)
      | (false, vm) => return (false, vm)

def MAX_STACK_SIZE : ℕ := 0x800000

/-- What `page_fault` reads: not present, user access, the address, `f->esp`, and `current_esp`. -/
structure Fault where
  notPresent : Bool
  user : Bool
  faultAddr : ℕ
  esp : ℕ
  currentEsp : ℕ
deriving DecidableEq, Repr

def Fault.growsStack (f : Fault) : Bool :=
  let esp := if f.user then f.esp else f.currentEsp
  let onStackFrame := decide (esp ≤ f.faultAddr ∨ f.faultAddr = u32 (f.esp + 2 ^ 32 - 32))
  let isStackAddr := decide (PHYS_BASE - MAX_STACK_SIZE ≤ f.faultAddr ∧ f.faultAddr < PHYS_BASE)
  onStackFrame && isStackAddr

def growStack (vm : Vm) (p : ℕ) (f : Fault) (block : Option PageTableEntry) : Kernel Vm :=
  if f.growsStack && !tableHasEntry vm p (pgRoundDown f.faultAddr) then do
    let (_, vm) ← tableInstallZeropage vm p (pgRoundDown f.faultAddr) block
    return vm
  else return vm

/-- The page fault handler of process `p`: whether the fault was handled. -/
def pageFault (policy : SwapPolicy) (fs : LoadPageFromFilesys) (vm : Vm) (p : ℕ) (f : Fault)
    (block : Option PageTableEntry) (malloc alloc : Bool) : Kernel (Bool × Vm) :=
  if !f.notPresent then return (false, vm)
  else do
    let vm ← growStack vm p f block
    loadPage policy fs vm p (pgRoundDown f.faultAddr) malloc alloc

/-! ### What the operations do -/

variable {vm vm' : Vm} {policy : SwapPolicy} {fs : LoadPageFromFilesys} {p upage kpage : ℕ}
  {alloc malloc r : Bool} {block : Option PageTableEntry}

inductive Filled (fs : LoadPageFromFilesys) (vm : Vm) (framePage : ℕ) (spte : PageTableEntry) :
    Bool → Memory → Swap → Prop
  | zero : spte.status = .ALL_ZERO →
      Filled fs vm framePage spte true (memset vm.palloc.mem framePage 0#8 PGSIZE) vm.swap
  | frame : spte.status = .ON_FRAME → Filled fs vm framePage spte true vm.palloc.mem vm.swap
  | swap {mem : Memory} {swap : Swap} : spte.status = .ON_SWAP →
      swapIn vm.swap vm.palloc.mem spte.swapIndex framePage = .ok (mem, swap) →
      Filled fs vm framePage spte true mem swap
  | filesys {mem : Memory} : spte.status = .FROM_FILESYS →
      fs spte framePage vm.palloc.mem = (mem, true) →
      Filled fs vm framePage spte spte.writable mem vm.swap

lemma loadFill_eq_ok {spte : PageTableEntry} {r : Option Bool}
    (h : loadFill fs vm kpage spte = .ok (r, vm')) :
    (∃ w mem swap, r = some w ∧ Filled fs vm kpage spte w mem swap ∧
        vm' = { vm.setMem mem with swap := swap }) ∨
      (r = none ∧ ∃ mem, frameFree (vm.setMem mem) kpage = .ok vm') := by
  unfold loadFill at h
  split at h
  · rename_i hst
    cases h
    exact .inl ⟨_, _, _, rfl, .zero hst, rfl⟩
  · rename_i hst
    cases h
    exact .inl ⟨_, _, _, rfl, .frame hst, rfl⟩
  · rename_i hst
    rw [bind_eq_ok] at h
    obtain ⟨⟨_, _⟩, hin, h⟩ := h
    cases h
    exact .inl ⟨_, _, _, rfl, .swap hst hin, rfl⟩
  · rename_i hst
    split at h
    · rename_i mem hfs
      cases h
      exact .inl ⟨_, _, _, rfl, .filesys hst hfs, rfl⟩
    · rename_i mem hfs
      rw [bind_eq_ok] at h
      obtain ⟨_, hfree, h⟩ := h
      cases h
      exact .inr ⟨rfl, mem, hfree⟩
  · cases h

def unpinned (kpage : ℕ) (f : FrameTableEntry) : FrameTableEntry :=
  if f.kpage = kpage then { f with pinned := false } else f

structure Vm.Loads (fs : LoadPageFromFilesys) (vm vm' : Vm) (p upage kpage : ℕ)
    (spte : PageTableEntry) (w : Bool) : Prop where
  aligned : pgOfs upage = 0
  user : upage < PHYS_BASE
  filled : Filled fs vm kpage spte w vm'.palloc.mem vm'.swap
  was_unmapped : vm.maps p upage = none
  palloc : vm'.palloc = { vm.palloc with mem := vm'.palloc.mem }
  frames : vm'.frames = vm.frames.map (unpinned kpage)
  spte : ∀ q v, vm'.spte q v = if q = p ∧ v = upage then
    some { spte with kpage := kpage, status := .ON_FRAME } else vm.spte q v
  maps : ∀ q v, vm'.maps q v = if q = p ∧ v = upage then
    some (PHYS_BASE + (kpage - PHYS_BASE) % 2 ^ 32, w) else vm.maps q v

structure Vm.Drops (vm vm' : Vm) (kpage : ℕ) : Prop where
  freed : ∃ mem, pallocFreePage { vm.palloc with mem := mem } kpage = .ok vm'.palloc
  frames : vm'.frames = vm.frames.filter fun f => f.kpage ≠ kpage
  spte : ∀ q v, vm'.spte q v = vm.spte q v
  maps : ∀ q v, vm'.maps q v = vm.maps q v

lemma frameFree_drops (h : frameFree vm kpage = .ok vm') : vm.Drops vm' kpage := by
  obtain ⟨_, _, rfl, hfree⟩ := frameDoFree_eq_ok h
  exact ⟨⟨vm.palloc.mem, hfree⟩, rfl, fun _ _ => rfl, fun _ _ => rfl⟩

/-- **Loading into a frame** maps the page and marks its entry, or gives the frame up. -/
theorem loadInto_eq_ok (h : loadInto fs vm p upage kpage alloc = .ok (r, vm')) :
    ∃ spte, vm.spte p upage = some spte ∧
      if r then ∃ w, vm.Loads fs vm' p upage kpage spte w else vm.Drops vm' kpage := by
  unfold loadInto at h
  split at h
  · cases h
  rename_i spte hspte
  refine ⟨spte, hspte, ?_⟩
  rw [bind_eq_ok] at h
  obtain ⟨⟨_, _⟩, hfill, h⟩ := h
  rcases loadFill_eq_ok hfill with ⟨w, mem, swap, rfl, hfilled, rfl⟩ | ⟨rfl, mem, hfree⟩
  swap
  · cases h
    obtain ⟨⟨mem', hpalloc⟩, hframes, hs, hm⟩ := frameFree_drops hfree
    exact ⟨⟨mem', hpalloc⟩, hframes, hs, hm⟩
  simp only [bind_eq_ok] at h
  obtain ⟨⟨_, ok⟩, hset, h⟩ := h
  obtain ⟨hofs, huser, hset⟩ := pagedirSetPage_eq_ok hset
  cases ok with
  | false =>
    simp only [bind_eq_ok] at h
    obtain ⟨_, hfree, h⟩ := h
    cases h
    obtain ⟨⟨mem', hpalloc⟩, hframes, hs, hm⟩ := frameFree_drops hfree
    simp only [Bool.false_eq_true, if_false] at hset
    rw [hset, setPagedir_self] at hpalloc hframes hs hm
    exact ⟨⟨mem', hpalloc⟩, hframes, hs, hm⟩
  | true =>
    simp only [bind_eq_ok] at h
    obtain ⟨_, hunpin, h⟩ := h
    cases h
    obtain ⟨_, rfl⟩ := frameSetPinned_eq_ok hunpin
    simp only [if_true] at hset ⊢
    obtain ⟨hnone, hpd⟩ := hset
    generalize hY : setDirty _ p kpage false = vm3
    have hpalloc : vm3.palloc = { vm.palloc with mem := mem } := by
      rw [← hY, palloc_setDirty]
      rfl
    have hswap : vm3.swap = swap := by rw [← hY, swap_setDirty]; rfl
    refine ⟨w, hofs, huser, ?_, hnone, ?_, ?_, fun q v => ?_, fun q v => ?_⟩
    · rw [hpalloc, hswap]
      exact hfilled
    · dsimp only
      rw [hpalloc]
    · dsimp only
      rw [← hY, frames_setDirty]
      rfl
    · refine Eq.trans (b := vm3.spte q v) rfl ?_
      rw [← hY, spte_setDirty, spte_setSpte]
      split_ifs
      · rfl
      · exact spte_setPagedir ..
    · refine Eq.trans (b := vm3.maps q v) rfl ?_
      rw [← hY, maps_setDirty, maps_setSpte]
      exact maps_setPagedir_page _ _ _ _ _ hpd

/-- **Loading a page**: nothing to load, resident, no frame, or loaded into one. -/
theorem loadPage_eq_ok (h : loadPage policy fs vm p upage malloc alloc = .ok (r, vm')) :
    (vm.spte p upage = none ∧ r = false ∧ vm' = vm) ∨ ∃ spte, vm.spte p upage = some spte ∧
        ((spte.status = .ON_FRAME ∧ r = true ∧ vm' = vm) ∨ (spte.status ≠ .ON_FRAME ∧ ∃ k vm1,
            frameAllocate policy vm p { PAL_USER := true } upage malloc = .ok (k, vm1) ∧
            match k with
            | none => r = false ∧ vm' = vm1
            | some k => loadInto fs vm1 p upage k alloc = .ok (r, vm'))) := by
  unfold loadPage at h
  split at h
  · rename_i hnone
    cases h
    exact .inl ⟨hnone, rfl, rfl⟩
  · rename_i spte hspte
    refine .inr ⟨spte, hspte, ?_⟩
    split_ifs at h with hst
    · cases h
      exact .inl ⟨hst, rfl, rfl⟩
    · rw [bind_eq_ok] at h
      obtain ⟨⟨k, vm1⟩, hframe, h⟩ := h
      refine .inr ⟨hst, k, vm1, hframe, ?_⟩
      cases k with
      | none =>
        cases h
        exact ⟨rfl, rfl⟩
      | some => exact h

structure Vm.Installs (vm vm' : Vm) (p upage kpage : ℕ) (w : Bool) (entry : PageTableEntry) :
    Prop where
  aligned : pgOfs upage = 0
  was_unmapped : vm.maps p upage = none
  was_none : vm.spte p upage = none
  palloc : vm'.palloc = vm.palloc
  swap : vm'.swap = vm.swap
  frames : vm'.frames = vm.frames.map (unpinned kpage)
  spte : ∀ q v, vm'.spte q v = if q = p ∧ v = upage then some entry else vm.spte q v
  maps : ∀ q v, vm'.maps q v = if q = p ∧ v = upage then
    some (PHYS_BASE + (kpage - PHYS_BASE) % 2 ^ 32, w) else vm.maps q v

/-- **Installing a page** succeeds, fails without a change, or fails and leaves it mapped. -/
theorem installPage_eq_ok {w : Bool}
    (h : installPage vm p upage kpage w block alloc = .ok (r, vm')) :
    (r = true ∧ ∃ entry, block = some entry ∧ vm.Installs vm' p upage kpage w entry) ∨
      (r = false ∧ vm' = vm) ∨
      (r = false ∧ vm.maps p upage = none ∧ vm.spte p upage ≠ none ∧
        ∃ pd, vm' = vm.setPagedir p pd ∧ ∀ v, pd.maps v = if v = upage then
          some (PHYS_BASE + (kpage - PHYS_BASE) % 2 ^ 32, w) else vm.maps p v) := by
  simp only [installPage, bind_eq_ok] at h
  obtain ⟨page, _, h⟩ := h
  cases page with
  | some =>
    cases h
    exact .inr (.inl ⟨rfl, rfl⟩)
  | none =>
    simp only [bind_eq_ok] at h
    obtain ⟨⟨pd, ok⟩, hset, h⟩ := h
    obtain ⟨hofs, _, hset⟩ := pagedirSetPage_eq_ok hset
    cases ok with
    | false =>
      cases h
      simp only [Bool.false_eq_true, if_false] at hset
      exact .inr (.inl ⟨rfl, by rw [hset, setPagedir_self]⟩)
    | true =>
      obtain ⟨hnone, hpd⟩ := hset
      simp only [bind_eq_ok] at h
      obtain ⟨⟨_, _⟩, hinst, h⟩ := h
      unfold tableInstallFrame at hinst
      cases block with
      | none => cases hinst
      | some entry =>
        simp only [spte_setPagedir] at hinst
        split at hinst
        · rename_i hspte
          cases hinst
          simp only [bind_eq_ok] at h
          obtain ⟨_, hunpin, h⟩ := h
          cases h
          obtain ⟨_, rfl⟩ := frameSetPinned_eq_ok hunpin
          refine .inl ⟨rfl, entry, rfl, hofs, hnone, hspte, rfl, rfl, rfl, fun q v => ?_,
            fun q v => ?_⟩
          · refine (spte_setSpte ..).trans ?_
            rw [spte_setPagedir]
          · exact (maps_setSpte ..).trans (maps_setPagedir_page _ _ _ _ _ hpd)
        · rename_i e hspte
          cases hinst
          cases h
          exact .inr (.inr ⟨rfl, hnone, by rw [hspte]; simp, pd, rfl, hpd⟩)

lemma filter_map_pinned (frames : List FrameTableEntry) (k : ℕ) (b : Bool) :
    (frames.map fun f => if f.kpage = k then { f with pinned := b } else f).filter
        (fun f => f.kpage ≠ k) = frames.filter fun f => f.kpage ≠ k := by
  induction frames with
  | nil => rfl
  | cons f _ ih =>
    by_cases hf : f.kpage = k
    · simpa [hf] using ih
    · simpa [hf] using ih

/-- **Unmapping a page** forgets its entry; a resident page also loses its frame and its
mapping. -/
theorem tableMmUnmap_eq_ok {offset bytes : ℕ} {tmp : Option ℕ} {w : Option FileWrite}
    (h : tableMmUnmap vm p upage offset bytes tmp = .ok (w, vm')) :
    ∃ spte, vm.spte p upage = some spte ∧
      (∀ q v, vm'.spte q v = if q = p ∧ v = upage then none else vm.spte q v) ∧
      if spte.status = .ON_FRAME then
        pallocFreePage vm.palloc spte.kpage = .ok vm'.palloc ∧
        vm'.frames = vm.frames.filter (fun f => f.kpage ≠ spte.kpage) ∧
        ∀ q v, vm'.maps q v = if q = p ∧ v = upage then none else vm.maps q v
      else
        vm'.palloc = { vm.palloc with mem := vm'.palloc.mem } ∧ vm'.frames = vm.frames ∧
        ∀ q v, vm'.maps q v = vm.maps q v := by
  unfold tableMmUnmap at h
  split at h
  · cases h
  rename_i spte hspte
  refine ⟨spte, hspte, ?_⟩
  split at h
  · rename_i hst
    simp only [bind_eq_ok, ASSERT_eq_ok] at h
    obtain ⟨_, _, _, hpin, _, _, _, hfree, _, hclear, h⟩ := h
    cases h
    obtain ⟨_, rfl⟩ := frameSetPinned_eq_ok hpin
    obtain ⟨_, _, rfl, hpalloc⟩ := frameDoFree_eq_ok hfree
    obtain ⟨_, hpd⟩ := pagedirClearPage_eq_ok hclear
    rw [if_pos hst]
    refine ⟨fun q v => ?_, hpalloc, ?_, fun q v => ?_⟩
    · rw [spte_setSpte, spte_setPagedir]
      rfl
    · exact filter_map_pinned vm.frames spte.kpage true
    · rw [maps_setSpte]
      exact maps_setPagedir_page _ _ _ _ _ hpd
  · rename_i hst
    rw [if_neg (by rw [hst]; decide)]
    split_ifs at h
    · simp only [bind_eq_ok] at h
      obtain ⟨⟨_, _⟩, _, h⟩ := h
      cases h
      refine ⟨fun q v => spte_setSpte .., rfl, rfl, fun q v => maps_setSpte ..⟩
    · simp only [bind_eq_ok] at h
      obtain ⟨_, _, h⟩ := h
      cases h
      refine ⟨fun q v => spte_setSpte .., rfl, rfl, fun q v => maps_setSpte ..⟩
  · rename_i hst
    rw [if_neg (by rw [hst]; decide)]
    cases h
    refine ⟨fun q v => spte_setSpte .., rfl, rfl, fun q v => maps_setSpte ..⟩
  · cases h
  · cases h

lemma tableInstallZeropage_eq_ok (h : tableInstallZeropage vm p upage block = .ok (r, vm')) :
    vm.spte p upage = none ∧ ∃ entry : PageTableEntry, entry.status = .ALL_ZERO ∧
      entry.kpage = 0 ∧ vm' = vm.setSpte p upage (some entry) := by
  unfold tableInstallZeropage at h
  cases block with
  | none => cases h
  | some =>
    dsimp only at h
    split at h
    · rename_i hnone
      cases h
      exact ⟨hnone, _, rfl, rfl, rfl⟩
    · cases h

lemma growStack_eq_ok {f : Fault} (h : growStack vm p f block = .ok vm') :
    vm' = vm ∨ vm.spte p (pgRoundDown f.faultAddr) = none ∧ ∃ entry,
      entry.status = .ALL_ZERO ∧ vm' = vm.setSpte p (pgRoundDown f.faultAddr) (some entry) := by
  unfold growStack at h
  split_ifs at h
  · rw [bind_eq_ok] at h
    obtain ⟨⟨r, _⟩, hzero, h⟩ := h
    cases h
    obtain ⟨hnone, entry, hst, _, hvm⟩ := tableInstallZeropage_eq_ok hzero
    exact .inr ⟨hnone, entry, hst, hvm⟩
  · exact .inl (Except.ok.inj h).symm

end Pintos.Virtualmemory
