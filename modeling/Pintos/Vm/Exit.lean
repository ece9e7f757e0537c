/-
# A process that exits while others evict

`process_exit` destroys the supplemental page table entry by entry: `hash_clear` pops an entry, and
`spte_destroy_func` takes its frame out of the frame table or frees its swap slot.  The pages go
back to the page allocator at the end, with the page directory.  Meanwhile other processes call
`virtualmemory_frame_allocate`, which may evict any frame still in the frame table.

A step is one pop, one call of `spte_destroy_func`, the release of the table or of the directory, or
one `virtualmemory_frame_allocate`, which holds `frame_lock` throughout.  Between a pop and the
destruction of the entry nobody finds the entry of a frame in the table: its eviction takes a swap
slot that no entry names, and panics.
-/

import Pintos.Vm.Agreement

namespace Pintos

open Base Kernel List Pagedir

/-- A round of `pagedir_destroy`: frees the pages of a page table. -/
def pagedirDestroyTable (pd : Pagedir) (b : Palloc × List ℕ) (pde : ℕ) :
    Kernel (Palloc × List ℕ) :=
  match pd.pt pde with
  | none => return b
  | some pt =>
    forLoop (PGSIZE / 4) (fun b pte =>
      if pt pte &&& PTE_P ≠ 0#32 then do
        let page ← pteGetPage (pt pte)
        return (← pallocFreePage b.1 page, b.2 ++ [page])
      else return b) b

def pagedirDestroy (pd : Pagedir) (palloc : Palloc) : Kernel (Palloc × List ℕ) :=
  forLoop (pdNo PHYS_BASE) (pagedirDestroyTable pd) (palloc, [])

/-! ### Destroying a page directory -/

variable {w : Bool} {k u : ℕ} {pd : Pagedir} {palloc : Palloc}

lemma pteGetPage_ok {pte : BitVec 32} (hm : pteMapping pte = some (k, w)) (hk : k < 2 ^ 32) :
    pteGetPage pte = .ok k := by
  unfold pteMapping at hm
  split_ifs at hm
  obtain ⟨rfl, _⟩ := Prod.mk.inj (Option.some.inj hm)
  have hlt : (pte &&& PTE_ADDR).toNat < PHYS_BASE := by
    simp only [PHYS_BASE] at hk ⊢
    omega
  rw [pteGetPage, ptov, ASSERT_of hlt, ok_bind, Nat.add_comm, u32_of_lt hk]
  rfl

lemma Pagedir.aligned_of_maps {x : ℕ × Bool} (h : pd.maps u = some x) : pgOfs u = 0 := by
  by_contra hofs
  rw [maps, if_neg hofs] at h
  cases h

/-- The loops of `pagedir_destroy` after the entries of the first `n` pages. -/
structure Pagedir.Destroyed (pd : Pagedir) (palloc : Palloc) (n : ℕ) (b : Palloc × List ℕ) :
    Prop where
  laid : b.1.Laid
  nodup : b.2.Nodup
  mem : ∀ k, k ∈ b.2 ↔ ∃ u w, pd.maps u = some (k, w) ∧ u / PGSIZE < n
  used : ∀ k, b.1.Used k ↔ palloc.Used k ∧ k ∉ b.2

namespace Pagedir.Destroyed

variable {pd : Pagedir} {palloc : Palloc} {b : Palloc × List ℕ} {n m : ℕ}

lemma skip (h : pd.Destroyed palloc n b) (hnm : n ≤ m)
    (hnone : ∀ u, n ≤ u / PGSIZE → u / PGSIZE < m → pd.maps u = none) :
      pd.Destroyed palloc m b := by
  refine ⟨h.laid, h.nodup, fun k => ?_, h.used⟩
  rw [h.mem]
  constructor
  · rintro ⟨u, w, hm, _⟩
    exact ⟨u, w, hm, by omega⟩
  · rintro ⟨u, w, hm, hlt⟩
    refine ⟨u, w, hm, ?_⟩
    by_contra hge
    rw [hnone u (by omega) hlt] at hm
    cases hm

end Pagedir.Destroyed

section

variable (hl : palloc.Laid)
  (hused : ∀ u k w, pd.maps u = some (k, w) → u < PHYS_BASE ∧ palloc.Used k)
  (hinj : ∀ u u' k w w', pd.maps u = some (k, w) → pd.maps u' = some (k, w') → u = u')
include hused hinj

lemma Pagedir.Destroyed.free (h : pd.Destroyed palloc n b)
    (hm : pd.maps u = some (k, w)) (hu : u / PGSIZE = n) :
    ∃ palloc', pallocFreePage b.1 k = .ok palloc' ∧
      pd.Destroyed palloc (n + 1) (palloc', b.2 ++ [k]) := by
  have hnew : k ∉ b.2 := by
    intro hk
    obtain ⟨v, w', hv, hlt⟩ := (h.mem k).1 hk
    rw [hinj v u k w' w hv hm] at hlt
    omega
  obtain ⟨palloc', hfree, hturn, _⟩ :=
    pallocFreePage_spec h.laid ((h.used k).2 ⟨(hused u k w hm).2, hnew⟩)
  refine ⟨palloc', hfree, hturn.laid, ?_, fun k' => ?_, fun k' => ?_⟩
  · rw [nodup_append]
    refine ⟨h.nodup, nodup_singleton _, fun x hx y hy hxy => hnew ?_⟩
    rwa [← mem_singleton.1 hy, ← hxy]
  · rw [mem_append, mem_singleton, h.mem]
    constructor
    · rintro (⟨v, w', hv, _⟩ | rfl)
      · exact ⟨v, w', hv, by omega⟩
      · exact ⟨u, w, hm, by omega⟩
    · rintro ⟨v, w', hv, hlt⟩
      rcases Nat.lt_succ_iff_lt_or_eq.1 hlt with hlt | _
      · exact .inl ⟨v, w', hv, hlt⟩
      · have hvu : v = u := by
          have hv0 := aligned_of_maps hv
          have hu0 := aligned_of_maps hm
          simp only [pgOfs, PGSIZE] at *
          omega
        rw [hvu, hm] at hv
        exact .inr (Prod.mk.inj (Option.some.inj hv)).1.symm
  · rw [hturn.used, mem_append, mem_singleton]
    by_cases hk : k' = k
    · simp [hk]
    · rw [if_neg hk, h.used]
      simp [hk]

include hl

lemma pagedirDestroy_table {i : ℕ} (hb : pd.Destroyed palloc (i * 1024) b) :
    ∃ b', pagedirDestroyTable pd b i = .ok b' ∧ pd.Destroyed palloc ((i + 1) * 1024) b' := by
  unfold pagedirDestroyTable
  cases hpt : pd.pt i with
  | none =>
    refine ⟨b, rfl, hb.skip (by omega) fun u h1 h2 => maps_of_none ?_⟩
    have hu : pdNo u = i := by
      simp only [pdNo]
      omega
    rw [hu, hpt]
  | some pt =>
    have hend : i * 1024 + PGSIZE / 4 = (i + 1) * 1024 := by
      simp only [PGSIZE]
      omega
    rw [← hend]
    rw [← Nat.add_zero (i * 1024)] at hb
    refine forLoop_ok (fun j b => pd.Destroyed palloc (i * 1024 + j) b) hb fun j b hj hb => ?_
    have hj' : j < 1024 := hj
    have hmaps : ∀ u, pgOfs u = 0 → u / PGSIZE = i * 1024 + j → pd.maps u = pteMapping (pt j) := by
      intro u hofs _
      have hpd : pdNo u = i := by
        simp only [pdNo]
        omega
      have hptn : ptNo u = j := by
        simp only [ptNo]
        omega
      rw [maps_eq hofs (hpd.symm ▸ hpt), hptn]
    by_cases hp : pt j &&& PTE_P ≠ 0#32
    · have hm : pteMapping (pt j) = some (_, _) := if_pos hp
      have hofs : pgOfs ((i * 1024 + j) * PGSIZE) = 0 := Nat.mul_mod_left ..
      have hdiv : (i * 1024 + j) * PGSIZE / PGSIZE = i * 1024 + j :=
        Nat.mul_div_cancel _ (by decide)
      have hu := (hmaps _ hofs hdiv).trans hm
      obtain ⟨_, hfree, hnext⟩ := hb.free hused hinj hu hdiv
      have hbound := ((hused _ _ _ hu).2.bounds hl).2.1
      rw [Nat.add_assoc] at hnext
      refine ⟨_, ?_, hnext⟩
      rw [if_pos hp, pteGetPage_ok hm (by simp only [PGSIZE] at hbound; omega), ok_bind, hfree]
      rfl
    · refine ⟨b, if_neg hp, hb.skip (by omega) fun u h1 h2 => ?_⟩
      by_cases hofs : pgOfs u = 0
      · rw [hmaps u hofs (by omega)]
        exact if_neg hp
      · exact if_neg hofs

/-- **Destroying a page directory** that maps no frame twice frees each frame it maps,
once. -/
theorem pagedirDestroy_spec : ∃ palloc' pages, pagedirDestroy pd palloc = .ok (palloc', pages) ∧
    palloc'.Laid ∧
    pages.Nodup ∧ (∀ k, k ∈ pages ↔ ∃ u w, pd.maps u = some (k, w)) ∧
    ∀ k, palloc'.Used k ↔ palloc.Used k ∧ k ∉ pages := by
  have hstart : pd.Destroyed palloc (0 * 1024) (palloc, []) :=
    ⟨hl, nodup_nil, fun k => by simp, fun k => by simp⟩
  obtain ⟨⟨palloc', pages⟩, hloop, h⟩ := forLoop_ok (n := pdNo PHYS_BASE)
    (fun i b => pd.Destroyed palloc (i * 1024) b) hstart
    fun i b _ hb => pagedirDestroy_table hl hused hinj hb
  refine ⟨palloc', pages, hloop, h.laid, h.nodup, fun k => ?_, h.used⟩
  rw [h.mem]
  refine exists_congr fun u => exists_congr fun w => and_iff_left_of_imp fun hm => ?_
  have hu := (hused u k w hm).1
  simp only [pdNo, PHYS_BASE, PGSIZE] at hu ⊢
  omega

end

namespace Virtualmemory

/-- Destroys a popped entry: the frame leaves the table, the page is not freed. -/
def spteDestroyFunc (vm : Vm) (entry : PageTableEntry) : Kernel Vm :=
  if entry.kpage ≠ 0 then do
    ASSERT (entry.status = .ON_FRAME)
    frameRemoveEntry vm entry.kpage
  else if entry.status = .ON_SWAP then do
    return { vm with swap := ← swapFree vm.swap entry.swapIndex }
  else return vm

/-- Where `process_exit` is: destroying the table, before `pagedir_destroy`, or through. -/
inductive ExitPhase
  | table
  | pagedir
  | done
deriving DecidableEq, Repr

structure Exiting where
  vm : Vm
  phase : ExitPhase
  /-- The entry popped and not destroyed yet, with its page. -/
  popped : Option (ℕ × PageTableEntry)
  /-- The pages whose entries are still in the buckets, in the order of `hash_clear`. -/
  buckets : List ℕ
  /-- The frames that went back to the page allocator. -/
  released : List ℕ

/-- A step of the process that exits, or an allocation by another one. -/
inductive ExitEvent
  | pop
  | destroy
  | freeTable
  | freePagedir
  | allocate (q : ℕ) (flags : PallocFlags) (upage : ℕ) (malloc : Bool)

def Vm.evicted (vm vm' : Vm) (p : ℕ) : List ℕ :=
  (vm.frames.filter fun f => f.t = p ∧ f ∉ vm'.frames).map FrameTableEntry.kpage

/-- One step while process `p` exits, if it is at that point.  No thread has address 0. -/
def Exiting.exec (p : ℕ) (s : Exiting) : ExitEvent → Option (Kernel Exiting)
  | .pop =>
    match s.phase, s.popped, s.buckets with
    | .table, none, u :: buckets =>
      match s.vm.spte p u with
      | none => some kernelFault
      | some e =>
        some (.ok { s with vm := s.vm.setSpte p u none, popped := some (u, e), buckets := buckets })
    | _, _, _ => none
  | .destroy =>
    match s.phase, s.popped with
    | .table, some (_, e) => some do
      return { s with vm := ← spteDestroyFunc s.vm e, popped := none }
    | _, _ => none
  | .freeTable =>
    match s.phase, s.popped, s.buckets with
    | .table, none, [] => some (.ok { s with phase := .pagedir })
    | _, _, _ => none
  | .freePagedir =>
    match s.phase with
    | .pagedir => some do
      let (palloc, pages) ← pagedirDestroy (s.vm.procs p).pagedir s.vm.palloc
      return { s with
        vm := Vm.setPagedir { s.vm with palloc := palloc } p empty
        phase := .done
        released := s.released ++ pages }
    | _ => none
  | .allocate q flags upage malloc =>
    if q = 0 ∨ q = p then none
    else some do
      let (_, vm') ← frameAllocate secondChance s.vm q flags upage malloc
      return { s with vm := vm', released := s.released ++ s.vm.evicted vm' p }

def Exiting.Step (p : ℕ) (s : Exiting) (ev : ExitEvent) (s' : Exiting) : Prop :=
  s.exec p ev = some (.ok s')

/-- The condition, with the user pool full: the first frame is unpinned and its page has its entry,
a slot is free, and there is no `PAL_ASSERT`. -/
def Exiting.Meets (s : Exiting) : ExitEvent → Prop
  | .allocate _ flags _ _ => s.vm.palloc.Full →
      (∃ f ∈ s.vm.frames.head?, f.pinned = false ∧ (s.vm.spte f.t f.upage).isSome) ∧
        (∃ i < s.vm.swap.swapSize, s.vm.swap.free i = true) ∧ flags.PAL_ASSERT = false
  | _ => True

def Vm.framesOf (vm : Vm) (p : ℕ) : List ℕ :=
  (vm.frames.filter fun f => f.t = p).map FrameTableEntry.kpage

/-- **A process exits in order.**  `frames` are the frames it had. -/
structure Exiting.Safe (p : ℕ) (frames : List ℕ) (s : Exiting) : Prop where
  /-- No step panics. -/
  returns : ∀ ev r, s.exec p ev = some r → s.Meets ev → ∃ s', r = .ok s'
  /-- Once the table is destroyed, every slot in use is of another process. -/
  reclaimed : s.phase ≠ .table → ∀ i < s.vm.swap.swapSize, s.vm.swap.free i = false →
    ∃ q u e, q ≠ p ∧ s.vm.spte q u = some e ∧ e.status = .ON_SWAP ∧ e.swapIndex = i
  /-- No frame goes back to the allocator twice, and none that was not the process's. -/
  atMostOnce : s.released.Nodup ∧ s.released ⊆ frames
  /-- In the end every frame went back, and none is in the frame table. -/
  once : s.phase = .done → (∀ k ∈ frames, s.released.count k = 1) ∧ s.vm.framesOf p = []

/-- What `process_exit` may count on, with the pages `buckets`. -/
structure Vm.Ready (vm : Vm) (p : ℕ) (buckets : List ℕ) : Prop where
  core : vm.Core
  own : ∀ f ∈ vm.frames, f.t = p → f.pinned = false
  threads : ∀ f ∈ vm.frames, f.t ≠ 0
  user : ∀ f ∈ vm.frames, f.pinned = false → f.upage < PHYS_BASE
  off : ∀ u e, vm.spte p u = some e → e.status ≠ .ON_FRAME → e.kpage = 0
  wf : vm.swap.Wf
  device : vm.swap.swapBlock.type ≠ .BLOCK_FOREIGN
  slot : ∀ q u e, vm.spte q u = some e → e.status = .ON_SWAP →
    e.swapIndex < vm.swap.swapSize ∧ vm.swap.free e.swapIndex = false
  distinct : ∀ q u e q' u' e', vm.spte q u = some e → e.status = .ON_SWAP →
    vm.spte q' u' = some e' → e'.status = .ON_SWAP → e.swapIndex = e'.swapIndex → q = q' ∧ u = u'
  held : ∀ i < vm.swap.swapSize, vm.swap.free i = false →
    ∃ q u e, vm.spte q u = some e ∧ e.status = .ON_SWAP ∧ e.swapIndex = i
  nodup : buckets.Nodup
  mem_buckets : ∀ u, u ∈ buckets ↔ (vm.spte p u).isSome = true

def Exiting.start (vm : Vm) (buckets : List ℕ) : Exiting := ⟨vm, .table, none, buckets, []⟩

/-! ### When an allocation returns -/

variable {vm vm' : Vm} {f : FrameTableEntry} {cur : ℕ}

lemma pickFrameToEvict_head (cur : ℕ) (hf : f ∈ vm.frames.head?) (hun : f.pinned = false) :
    ∃ vm', pickFrameToEvict vm cur = .ok (f, vm') := by
  obtain ⟨_, hframes⟩ := head?_eq_some_iff.1 hf
  unfold pickFrameToEvict
  rw [if_neg (by simp [hframes]), hframes, length_cons, secondChanceLoop, hframes]
  simp only [hun, Bool.false_eq_true, if_false]
  split_ifs
  · have hclear : pagedirIsAccessed
        (pagedirSetAccessed (vm.procs cur).pagedir f.upage false) f.upage = false :=
      hasFlag_clear_self ..
    rw [secondChanceLoop, Vm.frames_setPagedir, hframes]
    simp only [hun, Bool.false_eq_true, if_false]
    refine ⟨_, if_neg ?_⟩
    simpa [Vm.setPagedir, Vm.setProc] using hclear
  · exact ⟨vm, rfl⟩

lemma frameDoFree_ok (hl : vm.palloc.Laid) (hf : f ∈ vm.frames)
    (hused : vm.palloc.Used f.kpage) (freePage : Bool) :
    ∃ vm', frameDoFree vm f.kpage freePage = .ok vm' := by
  obtain ⟨hbase, _, hofs⟩ := hused.bounds hl
  have hkernel : isKernelVaddr f.kpage = true := decide_eq_true hbase
  unfold frameDoFree
  rw [ASSERT_of hkernel, ok_bind, ASSERT_of hofs, ok_bind]
  cases hfind : vm.frames.find? (fun g => g.kpage = f.kpage) with
  | none => exact absurd (decide_eq_true rfl) (find?_eq_none.1 hfind f hf)
  | some =>
    cases freePage with
    | false => exact ⟨_, rfl⟩
    | true =>
      obtain ⟨_, hfree, _⟩ := pallocFreePage_spec hl hused
      simp only [if_true, hfree, ok_bind]
      exact ⟨_, rfl⟩

/-- **Eviction returns** if the first frame is unpinned, its page has an entry, and a slot is
free. -/
theorem frameEvict_ok (hl : vm.palloc.Laid) (hwf : vm.swap.Wf)
    (hdev : vm.swap.swapBlock.type ≠ .BLOCK_FOREIGN) (hf : f ∈ vm.frames.head?)
    (hun : f.pinned = false) (hused : vm.palloc.Used f.kpage) (ht : f.t ≠ 0)
    (hofs : pgOfs f.upage = 0) (huser : f.upage < PHYS_BASE)
    (hspte : (vm.spte f.t f.upage).isSome = true)
    (hslot : ∃ i < vm.swap.swapSize, vm.swap.free i = true) :
    ∃ vm', frameEvict secondChance vm cur = .ok vm' := by
  obtain ⟨vm1, hpick⟩ := pickFrameToEvict_head cur hf hun
  obtain ⟨hmem, _, hview⟩ := secondChance.pick_spec hpick
  obtain ⟨pd, hclear⟩ := pagedirClearPage_ok (vm1.procs f.t).pagedir hofs huser
  obtain ⟨i, hi, hfree⟩ := hslot
  obtain ⟨e, he⟩ := Option.isSome_iff_exists.1 hspte
  obtain ⟨swap, idx, hout, _⟩ := swapOut_spec hwf vm.palloc.mem (hused.bounds hl).1 hdev hi hfree
  have hpick' : secondChance.pick vm cur = .ok (f, vm1) := hpick
  unfold frameEvict
  rw [hpick', ok_bind]
  dsimp only
  rw [ASSERT_of ht, ok_bind, hclear, ok_bind]
  have hout' : swapOut (vm1.setPagedir f.t pd).swap (vm1.setPagedir f.t pd).palloc.mem f.kpage =
      (swap, .ok idx) := by
    rw [Vm.swap_setPagedir, Vm.palloc_setPagedir, hview.swap, hview.palloc, hout]
  rw [hout']
  dsimp only
  -- the entry is marked, whatever the dirty bit
  have hmark : ∀ d, ∃ vm2, tableSetDirty
      (tableSetSwap { vm1.setPagedir f.t pd with swap := swap } f.t f.upage idx).2 f.t f.upage d =
        .ok vm2 ∧ vm2.frames = vm.frames ∧ vm2.palloc = vm.palloc := by
    intro d
    have he' : Vm.spte { vm1.setPagedir f.t pd with swap := swap } f.t f.upage = some e := by
      rw [← he, ← hview.spte]
      exact Vm.spte_setPagedir ..
    simp only [tableSetSwap, he', tableSetDirty, Vm.spte_setSpte, and_self, if_true]
    exact ⟨_, rfl, hview.frames, hview.palloc⟩
  obtain ⟨_, hmarked, hframes, hpalloc⟩ := hmark _
  rw [hmarked, ok_bind]
  exact frameDoFree_ok (hpalloc ▸ hl) (hframes ▸ hmem) (hpalloc ▸ hused) true

/-- **Allocation returns** with a free page or if an eviction returns. -/
theorem frameAllocate_ok {flags : PallocFlags} (u : ℕ) (malloc : Bool) (hl : vm.palloc.Laid)
    (hused : ∀ f ∈ vm.frames, vm.palloc.Used f.kpage)
    (hevict : vm.palloc.Full → flags.PAL_ASSERT = false ∧
      ∃ vm', frameEvict secondChance vm cur = .ok vm') :
    ∃ r vm', frameAllocate secondChance vm cur flags u malloc = .ok (r, vm') := by
  have hget : ∃ k vm', frameGetPage secondChance vm cur flags = .ok (k, vm') := by
    unfold frameGetPage
    rcases pallocGetPage_spec hl flags with ⟨_, k, palloc, hpage⟩ | ⟨hfull, hnone⟩
    · rw [hpage, ok_bind]
      exact ⟨k, _, rfl⟩
    · obtain ⟨hassert, vm1, hvm1⟩ := hevict hfull
      rw [if_neg (by simp [hassert])] at hnone
      rw [hnone, ok_bind]
      dsimp only
      rw [hvm1, ok_bind]
      -- the frame that was evicted left room
      obtain ⟨f, _, he⟩ := frameEvict_eq_ok hvm1
      obtain ⟨palloc, hfree, hturn, hroom⟩ := pallocFreePage_spec hl (hused f he.mem)
      have hpalloc : vm1.palloc = palloc := Except.ok.inj (he.freed.symm.trans hfree)
      rcases pallocGetPage_spec hturn.laid flags with ⟨_, k, _, hpage⟩ | ⟨hfull', _⟩
      · rw [hpalloc, hpage, ok_bind]
        exact ⟨k, _, rfl⟩
      · exact absurd hfull' hroom
  obtain ⟨k, _, hk⟩ := hget
  unfold frameAllocate
  rw [hk, ok_bind]
  cases malloc with
  | false => exact ⟨_, _, rfl⟩
  | true => exact ⟨_, _, rfl⟩

end Virtualmemory
end Pintos
