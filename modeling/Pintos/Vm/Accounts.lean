/-
# What a run of virtual memory keeps account of

Besides the agreement of the three tables a process that exits relies on four facts: the slot of
every page on the swap device is in use and of no other page, an entry without a frame has no
`kpage`, an unpinned frame belongs to a user page, and a page on the swap device has its page table.
-/

import Pintos.Vm.Agreement

namespace Pintos

open Base Function Kernel Pagedir Virtualmemory Option List

/-! ### Page tables of a directory -/

def Pagedir.hasTable (pd : Pagedir) (i : ℕ) : Bool := (pd.pt i).isSome

/-- At most page table `i` is new, for user pages and if there was a page for it. -/
structure Pagedir.Grows (pd pd' : Pagedir) (i : ℕ) (alloc : Bool) : Prop where
  other : ∀ j ≠ i, pd'.hasTable j = pd.hasTable j
  kept : pd.hasTable i = true → pd'.hasTable i = true
  made : pd.hasTable i = false → pd'.hasTable i = true → alloc = true ∧ i < pdNo PHYS_BASE

variable {r w : Bool}

section Pagedir

variable {pd pd' : Pagedir} {u i : ℕ}

lemma Pagedir.hasTable_store (v : ℕ) (pte : BitVec 32) (i : ℕ) :
    (pd.store v pte).hasTable i = pd.hasTable i := by
  unfold hasTable store
  dsimp only
  by_cases hi : i = pdNo v
  · rw [hi, update_self, isSome_map]
  · rw [update_of_ne hi]

lemma Pagedir.hasTable_setFlag (flag : BitVec 32) (v : ℕ) (value : Bool) (i : ℕ) :
    (pd.setFlag flag v value).hasTable i = pd.hasTable i := by
  unfold setFlag
  split
  · exact hasTable_store ..
  · rfl

lemma Pagedir.hasTable_of_maps {x : ℕ × Bool} (h : pd.maps u = some x) :
    pd.hasTable (pdNo u) = true := by
  rw [hasTable, isSome_iff_ne_none]
  intro hnone
  rw [maps_of_none hnone] at h
  cases h

lemma pagedirClearPage_hasTable (h : pagedirClearPage pd u = .ok pd') (i : ℕ) :
    pd'.hasTable i = pd.hasTable i := by
  simp only [pagedirClearPage, lookupPage, bind_eq_ok, ASSERT_eq_ok] at h
  obtain ⟨_, _, _, _, ⟨_, _⟩, ⟨_, _, hlookup⟩, h⟩ := h
  split at hlookup
  · cases hlookup
    dsimp only at h
    split_ifs at h
    · cases h
      exact hasTable_store ..
    · cases h
      rfl
  · cases hlookup
    cases h
    rfl

/-- **Setting a page** makes a page table, or there was one, or it fails. -/
theorem pagedirSetPage_grows {kpage ram : ℕ} {alloc : Bool}
    (h : pagedirSetPage pd u kpage w ram alloc = .ok (pd', r)) :
    pd.Grows pd' (pdNo u) alloc ∧ (r = false → pd.hasTable (pdNo u) = false) := by
  simp only [pagedirSetPage, lookupPage, bind_eq_ok, ASSERT_eq_ok] at h
  obtain ⟨_, _, _, _, _, huser, _, _, _, _, ⟨_, _⟩, ⟨_, _, hlookup⟩, h⟩ := h
  have hlt : pdNo u < pdNo PHYS_BASE := by
    have hu : u < PHYS_BASE := of_decide_eq_true huser
    simp only [pdNo, PGSIZE, PHYS_BASE] at hu ⊢
    omega
  split at hlookup
  · rename_i pt hpt
    cases hlookup
    simp only [bind_eq_ok, ASSERT_eq_ok] at h
    obtain ⟨_, _, pte, _, h⟩ := h
    cases h
    have hsame : ∀ j, (pd.store u pte).hasTable j = pd.hasTable j := fun j => hasTable_store ..
    refine ⟨⟨fun j _ => hsame j, fun hi => (hsame _).trans hi, fun hi hi' => ?_⟩, by simp⟩
    rw [hsame, hi] at hi'
    cases hi'
  · rename_i hpt
    split_ifs at hlookup with halloc
    · cases hlookup
      simp only [bind_eq_ok, ASSERT_eq_ok] at h
      obtain ⟨_, _, _, _, h⟩ := h
      cases h
      refine ⟨⟨fun j hj => ?_, fun _ => ?_, fun _ _ => ?_⟩, by simp⟩
      · rw [hasTable_store]
        exact congrArg isSome (update_of_ne hj ..)
      · rw [hasTable_store, hasTable]
        dsimp only
        rw [update_self, isSome_some]
      · exact ⟨by simpa using halloc, hlt⟩
    · cases hlookup
      cases h
      have hnone : pd.hasTable (pdNo u) = false := by rw [hasTable, hpt]; rfl
      refine ⟨⟨fun _ _ => rfl, id, fun hi hi' => ?_⟩, fun _ => hnone⟩
      rw [hi] at hi'
      cases hi'

end Pagedir

namespace Virtualmemory

def Vm.hasTable (vm : Vm) (p i : ℕ) : Bool := (vm.procs p).pagedir.hasTable i

def Vm.SameTables (vm vm' : Vm) : Prop := ∀ q i, vm'.hasTable q i = vm.hasTable q i

structure Vm.Grows (vm vm' : Vm) (p i : ℕ) (alloc : Bool) : Prop where
  other : ∀ q j, ¬(q = p ∧ j = i) → vm'.hasTable q j = vm.hasTable q j
  kept : vm.hasTable p i = true → vm'.hasTable p i = true
  made : vm.hasTable p i = false → vm'.hasTable p i = true → alloc = true ∧ i < pdNo PHYS_BASE

variable {vm vm' vm'' : Vm} {fs : LoadPageFromFilesys} {p q u i k cur bytes offset idx : ℕ}
  {malloc alloc : Bool} {pd : Pagedir} {flags : PallocFlags} {e : PageTableEntry}
  {swap swap' : Swap} {mem : Memory} {block : Option PageTableEntry} {f : Fault} {tmp : Option ℕ}

lemma Vm.SameTables.trans (h : vm.SameTables vm') (h' : vm'.SameTables vm'') :
    vm.SameTables vm'' := fun q i => (h' q i).trans (h q i)

lemma Vm.SameTables.grows (h : vm.SameTables vm') (p i : ℕ) (alloc : Bool) :
    vm.Grows vm' p i alloc := by
  refine ⟨fun q j _ => h q j, fun hi => (h p i).trans hi, fun hi hi' => ?_⟩
  rw [h, hi] at hi'
  cases hi'

lemma Vm.SameTables.trans_grows (h : vm.SameTables vm') (h' : vm'.Grows vm'' p i alloc) :
    vm.Grows vm'' p i alloc :=
  ⟨fun q j hne => (h'.other q j hne).trans (h q j), fun hi => h'.kept ((h p i).trans hi),
    fun hi => h'.made ((h p i).trans hi)⟩

lemma Vm.Grows.trans_same (h : vm.Grows vm' p i alloc) (h' : vm'.SameTables vm'') :
    vm.Grows vm'' p i alloc :=
  ⟨fun q j hne => (h' q j).trans (h.other q j hne), fun hi => (h' p i).trans (h.kept hi),
    fun hi hi' => h.made hi ((h' p i).symm.trans hi')⟩

lemma Vm.Grows.mono (h : vm.Grows vm' p i alloc) {q j : ℕ} (hq : vm.hasTable q j = true) :
    vm'.hasTable q j = true := by
  by_cases hne : q = p ∧ j = i
  · obtain ⟨rfl, rfl⟩ := hne
    exact h.kept hq
  · rw [h.other q j hne, hq]

lemma Vm.sameTables_of_procs (h : vm'.procs = vm.procs) : vm.SameTables vm' := by
  intro q i
  rw [hasTable, h, hasTable]

lemma Vm.Grows.congr {vm1 vm2 : Vm} (h : vm.Grows vm' p i alloc) (h1 : vm1.procs = vm.procs)
    (h2 : vm2.procs = vm'.procs) : vm1.Grows vm2 p i alloc :=
  ((sameTables_of_procs h1.symm).trans_grows h).trans_same (sameTables_of_procs h2)

lemma Vm.hasTable_setPagedir (pd : Pagedir) (q i : ℕ) :
    (vm.setPagedir p pd).hasTable q i = if q = p then pd.hasTable i else vm.hasTable q i := by
  unfold hasTable Vm.setPagedir Vm.setProc
  by_cases hq : q = p
  · rw [if_pos hq, hq]
    dsimp only
    rw [update_self]
  · rw [if_neg hq]
    dsimp only
    rw [update_of_ne hq]

lemma Vm.sameTables_setSpte (vm : Vm) (p u : ℕ) (e : Option PageTableEntry) :
    vm.SameTables (vm.setSpte p u e) := by
  intro q i
  unfold hasTable Vm.setSpte Vm.setProc
  by_cases hq : q = p
  · rw [hq]
    dsimp only
    rw [update_self]
  · dsimp only
    rw [update_of_ne hq]

lemma Vm.sameTables_setPagedir (h : ∀ i, pd.hasTable i = (vm.procs p).pagedir.hasTable i) :
    vm.SameTables (vm.setPagedir p pd) := by
  intro q i
  rw [hasTable_setPagedir]
  split_ifs with hq
  · rw [h, hq]
    rfl
  · rfl

lemma Vm.grows_setPagedir (vm : Vm) (h : (vm.procs p).pagedir.Grows pd i alloc) :
    vm.Grows (vm.setPagedir p pd) p i alloc := by
  refine ⟨fun q j hne => ?_, fun hi => ?_, fun hi hi' => ?_⟩
  · rw [hasTable_setPagedir]
    split_ifs with hq
    · rw [h.other j fun hj => hne ⟨hq, hj⟩, hq]
      rfl
    · rfl
  · rw [hasTable_setPagedir, if_pos rfl]
    exact h.kept hi
  · rw [hasTable_setPagedir, if_pos rfl] at hi'
    exact h.made hi hi'

lemma Vm.sameTables_setDirty (dirty : Bool) : vm.SameTables (vm.setDirty p u dirty) := by
  unfold Vm.setDirty
  split_ifs
  · exact sameTables_setPagedir fun i => hasTable_setFlag ..
  · exact fun _ _ => rfl

/-! ### The page tables that the calls make -/

lemma secondChanceLoop_sameTables {n : ℕ} {f : FrameTableEntry}
    (h : secondChanceLoop vm cur n = .ok (f, vm')) : vm.SameTables vm' := by
  induction n generalizing vm with
  | zero => cases h
  | succ n ih =>
    rw [secondChanceLoop] at h
    split at h
    · cases h
    · split_ifs at h
      · exact ih h
      · exact (Vm.sameTables_setPagedir fun i => hasTable_setFlag ..).trans (ih h)
      · cases h
        exact fun _ _ => rfl

lemma frameEvict_sameTables (h : frameEvict secondChance vm cur = .ok vm') :
    vm.SameTables vm' := by
  simp only [frameEvict, bind_eq_ok, ASSERT_eq_ok] at h
  obtain ⟨⟨f, vm1⟩, hpick, _, _, _, hclear, h⟩ := h
  have hpick' : pickFrameToEvict vm cur = .ok (f, vm1) := hpick
  unfold pickFrameToEvict at hpick'
  split_ifs at hpick'
  · cases hpick'
  have h1 := secondChanceLoop_sameTables hpick'
  dsimp only at hclear h
  split at h
  · cases h
  · rename_i swap idx hout
    rw [bind_eq_ok] at h
    obtain ⟨_, hset, hfree⟩ := h
    obtain ⟨e, d, _, rfl⟩ := tableSetSwap_setDirty_eq_ok hset
    obtain ⟨_, _, rfl, _⟩ := frameDoFree_eq_ok hfree
    intro q i
    refine Eq.trans ?_ (h1 q i)
    refine (Vm.sameTables_setSpte _ _ _ _ q i).trans ((Vm.sameTables_setSpte _ _ _ _ q i).trans ?_)
    exact Vm.sameTables_setPagedir (pagedirClearPage_hasTable hclear) q i

lemma frameAllocate_sameTables {r : Option ℕ}
    (h : frameAllocate secondChance vm p flags u malloc = .ok (r, vm')) : vm.SameTables vm' := by
  simp only [frameAllocate, frameGetPage, bind_eq_ok] at h
  obtain ⟨⟨k, vm2⟩, ⟨⟨a, _⟩, _, hget⟩, h⟩ := h
  have h2 : vm.SameTables vm2 := by
    cases a with
    | some =>
      cases hget
      exact fun _ _ => rfl
    | none =>
      simp only [bind_eq_ok] at hget
      obtain ⟨_, hevict, ⟨b, _⟩, _, hget⟩ := hget
      have h1 := frameEvict_sameTables hevict
      cases b with
      | some =>
        cases hget
        exact h1
      | none => cases hget
  cases malloc with
  | false =>
    cases h
    exact h2
  | true =>
    cases h
    exact h2

lemma loadFill_none (h : loadFill fs vm k e = .ok (none, vm')) : e.status ≠ .ON_SWAP := by
  intro hst
  unfold loadFill at h
  rw [hst] at h
  simp only [bind_eq_ok] at h
  obtain ⟨_, _, h⟩ := h
  cases h

lemma Filled.swap_eq (h : Filled fs vm k e w mem swap) (hst : e.status ≠ .ON_SWAP) :
    swap = vm.swap := by
  cases h with
  | zero => rfl
  | frame => rfl
  | swap hswap => exact absurd hswap hst
  | filesys => rfl

lemma loadInto_tables (h : loadInto fs vm p u k alloc = .ok (r, vm')) :
    ∃ e, vm.spte p u = some e ∧ vm.Grows vm' p (pdNo u) alloc ∧
      (e.status ≠ .ON_SWAP → vm'.swap = vm.swap) ∧
      (r = false → e.status = .ON_SWAP → vm.hasTable p (pdNo u) = false) := by
  unfold loadInto at h
  split at h
  · cases h
  rename_i e he
  refine ⟨e, he, ?_⟩
  rw [bind_eq_ok] at h
  obtain ⟨⟨_, _⟩, hfill, h⟩ := h
  rcases loadFill_eq_ok hfill with ⟨w, mem, swap, rfl, hfilled, rfl⟩ | ⟨rfl, mem, hfree⟩
  swap
  · cases h
    have hst := loadFill_none hfill
    obtain ⟨_, _, rfl, _⟩ := frameDoFree_eq_ok hfree
    have hsame : vm.SameTables vm := fun _ _ => rfl
    exact ⟨(hsame.grows p (pdNo u) alloc).congr rfl rfl, fun _ => rfl,
      fun _ hswap => absurd hswap hst⟩
  simp only [bind_eq_ok] at h
  obtain ⟨⟨_, ok⟩, hset, h⟩ := h
  obtain ⟨hgrows, hmissing⟩ := pagedirSetPage_grows hset
  cases ok with
  | false =>
    simp only [bind_eq_ok] at h
    obtain ⟨_, hfree, h⟩ := h
    cases h
    obtain ⟨_, _, rfl, _⟩ := frameDoFree_eq_ok hfree
    have hgrows' := Vm.grows_setPagedir { vm.setMem mem with swap := swap } hgrows
    exact ⟨hgrows'.congr rfl rfl, fun hst => hfilled.swap_eq hst, fun _ _ => hmissing rfl⟩
  | true =>
    simp only [bind_eq_ok] at h
    obtain ⟨_, hunpin, h⟩ := h
    cases h
    obtain ⟨_, rfl⟩ := frameSetPinned_eq_ok hunpin
    refine ⟨?_, fun hst => ?_, (nomatch ·)⟩
    · have h1 := Vm.grows_setPagedir { vm.setMem mem with swap := swap } hgrows
      have h2 := h1.trans_same (Vm.sameTables_setSpte _ p u
        (some { e with kpage := k, status := .ON_FRAME }))
      exact (h2.trans_same (Vm.sameTables_setDirty false)).congr rfl rfl
    · dsimp only
      rw [Vm.swap_setDirty]
      exact hfilled.swap_eq hst

lemma loadPage_grows (h : loadPage secondChance fs vm p u malloc alloc = .ok (r, vm')) :
    vm.Grows vm' p (pdNo u) alloc := by
  have hsame : vm.SameTables vm := fun _ _ => rfl
  rcases loadPage_eq_ok h with ⟨_, _, rfl⟩ | ⟨e, _, ⟨_, _, rfl⟩ | ⟨_, k, _, ha, hk⟩⟩
  · exact hsame.grows ..
  · exact hsame.grows ..
  have h1 := frameAllocate_sameTables ha
  cases k with
  | none =>
    obtain ⟨_, rfl⟩ := hk
    exact h1.grows ..
  | some =>
    obtain ⟨_, _, hgrows, _⟩ := loadInto_tables hk
    exact h1.trans_grows hgrows

lemma pageFault_grows (h : pageFault secondChance fs vm p f block malloc alloc = .ok (r, vm')) :
    vm.Grows vm' p (pdNo (pgRoundDown f.faultAddr)) alloc := by
  have hsame : vm.SameTables vm := fun _ _ => rfl
  unfold pageFault at h
  split_ifs at h
  · cases h
    exact hsame.grows ..
  · rw [bind_eq_ok] at h
    obtain ⟨_, hgrow, hload⟩ := h
    have hgrows := loadPage_grows hload
    rcases growStack_eq_ok hgrow with rfl | ⟨_, _, _, rfl⟩
    · exact hgrows
    · exact (Vm.sameTables_setSpte _ _ _ _).trans_grows hgrows

lemma installPage_grows (h : installPage vm p u k w block alloc = .ok (r, vm')) :
    vm.Grows vm' p (pdNo u) alloc := by
  have hsame : vm.SameTables vm := fun _ _ => rfl
  simp only [installPage, bind_eq_ok] at h
  obtain ⟨page, _, h⟩ := h
  cases page with
  | some =>
    cases h
    exact hsame.grows ..
  | none =>
    simp only [bind_eq_ok] at h
    obtain ⟨⟨_, ok⟩, hset, h⟩ := h
    have hgrows := Vm.grows_setPagedir vm (pagedirSetPage_grows hset).1
    cases ok with
    | false =>
      cases h
      exact hgrows
    | true =>
      simp only [bind_eq_ok] at h
      obtain ⟨⟨_, _⟩, hinst, h⟩ := h
      unfold tableInstallFrame at hinst
      cases block with
      | none => cases hinst
      | some entry =>
        simp only [Vm.spte_setPagedir] at hinst
        split at hinst
        · cases hinst
          simp only [bind_eq_ok] at h
          obtain ⟨_, hunpin, h⟩ := h
          cases h
          obtain ⟨_, rfl⟩ := frameSetPinned_eq_ok hunpin
          exact (hgrows.trans_same (Vm.sameTables_setSpte _ p u (some entry))).congr rfl rfl
        · cases hinst
          cases h
          exact hgrows

lemma tableMmUnmap_tables {w : Option FileWrite}
    (h : tableMmUnmap vm p u offset bytes tmp = .ok (w, vm')) :
    ∃ e, vm.spte p u = some e ∧ vm.SameTables vm' ∧ (e.status ≠ .ON_SWAP → vm'.swap = vm.swap) ∧
      (e.status = .ON_SWAP → swapFree vm.swap e.swapIndex = .ok vm'.swap ∨
        ∃ mem page, swapIn vm.swap vm.palloc.mem e.swapIndex page = .ok (mem, vm'.swap)) := by
  unfold tableMmUnmap at h
  split at h
  · cases h
  rename_i e he
  refine ⟨e, he, ?_⟩
  split at h
  · rename_i hst
    simp only [bind_eq_ok, ASSERT_eq_ok] at h
    obtain ⟨_, _, _, hpin, _, _, _, hfree, _, hclear, h⟩ := h
    cases h
    obtain ⟨_, rfl⟩ := frameSetPinned_eq_ok hpin
    obtain ⟨_, _, rfl, _⟩ := frameDoFree_eq_ok hfree
    refine ⟨fun q i => ?_, fun _ => rfl, fun hswap => ?_⟩
    · refine (Vm.sameTables_setSpte _ _ _ _ q i).trans ?_
      exact Vm.sameTables_setPagedir (pagedirClearPage_hasTable hclear) q i
    · rw [hst] at hswap
      cases hswap
  · rename_i hst
    split_ifs at h
    · simp only [bind_eq_ok] at h
      obtain ⟨⟨mem, _⟩, hin, h⟩ := h
      cases h
      exact ⟨Vm.sameTables_setSpte _ _ _ _, fun hne => absurd hst hne, fun _ => .inr ⟨mem, _, hin⟩⟩
    · simp only [bind_eq_ok] at h
      obtain ⟨_, hfree, h⟩ := h
      cases h
      exact ⟨Vm.sameTables_setSpte _ _ _ _, fun hne => absurd hst hne, fun _ => .inl hfree⟩
  · rename_i hst
    cases h
    refine ⟨Vm.sameTables_setSpte _ _ _ _, fun _ => rfl, fun hswap => ?_⟩
    rw [hst] at hswap
    cases hswap
  · cases h
  · cases h

/-! ### The accounts -/

lemma swapIn_released {mem' : Memory} {page : ℕ} (hs : swap.Wf) (hlt : idx < swap.swapSize)
    (hused : swap.free idx = false) (h : swapIn swap mem idx page = .ok (mem', swap')) :
    swap.Released swap' idx := by
  have hp : PHYS_BASE ≤ page := by
    rw [swapIn, bind_eq_ok] at h
    obtain ⟨_, hp, _⟩ := h
    exact ASSERT_eq_ok.1 hp
  obtain ⟨_, _, h1, hrel, _⟩ := swapIn_spec hs hlt hused mem hp
  obtain ⟨_, rfl⟩ := Prod.mk.inj (Except.ok.inj (h.symm.trans h1))
  exact hrel

lemma swapFree_released (hs : swap.Wf) (hlt : idx < swap.swapSize) (hused : swap.free idx = false)
    (h : swapFree swap idx = .ok swap') : swap.Released swap' idx := by
  obtain ⟨_, h1, hrel⟩ := swapFree_spec hs hlt hused
  obtain rfl := Except.ok.inj (h.symm.trans h1)
  exact hrel

lemma Filled.released (h : Filled fs vm k e w mem swap) (hs : vm.swap.Wf)
    (hlt : e.swapIndex < vm.swap.swapSize) (hused : vm.swap.free e.swapIndex = false)
    (hst : e.status = .ON_SWAP) : vm.swap.Released swap e.swapIndex := by
  cases h with
  | zero hzero => exact absurd (hst.symm.trans hzero) (by decide)
  | frame hon => exact absurd (hst.symm.trans hon) (by decide)
  | swap _ hin => exact swapIn_released hs hlt hused hin
  | filesys hfile => exact absurd (hst.symm.trans hfile) (by decide)

/-- **What a process that exits relies on** besides the agreement of the tables. -/
structure Vm.Accounts (vm : Vm) : Prop where
  wf : vm.swap.Wf
  /-- The slot of a page on the swap device is in use. -/
  slot : ∀ q u e, vm.spte q u = some e → e.status = .ON_SWAP →
    e.swapIndex < vm.swap.swapSize ∧ vm.swap.free e.swapIndex = false
  /-- No two pages have one slot. -/
  distinct : ∀ q u e q' u' e', vm.spte q u = some e → e.status = .ON_SWAP →
    vm.spte q' u' = some e' → e'.status = .ON_SWAP → e.swapIndex = e'.swapIndex → q = q' ∧ u = u'
  off : ∀ q u e, vm.spte q u = some e → e.status ≠ .ON_FRAME → e.kpage = 0
  user : ∀ f ∈ vm.frames, f.pinned = false → f.upage < PHYS_BASE
  /-- A page on the swap device has its page table. -/
  table : ∀ q u e, vm.spte q u = some e → e.status = .ON_SWAP → vm.hasTable q (pdNo u) = true

namespace Vm.Accounts

variable {x : Option PageTableEntry} {e : PageTableEntry}

section

variable (h : vm.Accounts)
include h

lemma congr (hspte : ∀ q v, vm'.spte q v = vm.spte q v) (hswap : vm'.swap = vm.swap)
    (htable : ∀ q j, vm.hasTable q j = true → vm'.hasTable q j = true)
    (huser : ∀ f ∈ vm'.frames, f.pinned = false → f.upage < PHYS_BASE) : vm'.Accounts := by
  refine ⟨hswap ▸ h.wf, fun q v e he => ?_, fun q v e q' v' e' he hst he' => ?_,
    fun q v e he => ?_, huser, fun q v e he hst => ?_⟩
  · rw [hswap]
    exact h.slot q v e (hspte q v ▸ he)
  · exact h.distinct q v e q' v' e' (hspte q v ▸ he) hst (hspte q' v' ▸ he')
  · exact h.off q v e (hspte q v ▸ he)
  · exact htable _ _ (h.table q v e (hspte q v ▸ he) hst)

lemma put (hspte : ∀ q v, vm'.spte q v = if q = p ∧ v = u then x else vm.spte q v)
    (hx : ∀ e ∈ x, e.status ≠ .ON_SWAP ∧ (e.status ≠ .ON_FRAME → e.kpage = 0))
    (hswap : vm'.swap = vm.swap ∨ ∃ e, vm.spte p u = some e ∧ e.status = .ON_SWAP ∧
      vm.swap.Released vm'.swap e.swapIndex)
    (htable : ∀ q j, vm.hasTable q j = true → vm'.hasTable q j = true)
    (huser : ∀ f ∈ vm'.frames, f.pinned = false → f.upage < PHYS_BASE) : vm'.Accounts := by
  -- an entry on the swap device is one that was there
  have hold : ∀ {q v e}, vm'.spte q v = some e → e.status = .ON_SWAP →
      ¬(q = p ∧ v = u) ∧ vm.spte q v = some e := by
    intro q v e he hst
    rw [hspte] at he
    split_ifs at he with hqv
    · exact absurd hst (hx e he).1
    · exact ⟨hqv, he⟩
  refine ⟨?_, fun q v e he hst => ?_, fun q v e q' v' e' he hst he' hst' => ?_,
    fun q v e he hst => ?_, huser, fun q v e he hst => ?_⟩
  · rcases hswap with hswap | ⟨e, _, _, hrel⟩
    · exact hswap ▸ h.wf
    · exact hrel.wf
  · obtain ⟨hne, he⟩ := hold he hst
    rcases hswap with hswap | ⟨e0, he0, hst0, hrel⟩
    · rw [hswap]
      exact h.slot q v e he hst
    · have hsize : vm'.swap.swapSize = vm.swap.swapSize := by
        rw [hrel.wf.swapSize, hrel.block, h.wf.swapSize]
      have hidx : e.swapIndex ≠ e0.swapIndex := fun heq =>
        hne (h.distinct q v e p u e0 he hst he0 hst0 heq)
      rw [hsize, hrel.free, if_neg hidx]
      exact h.slot q v e he hst
  · exact h.distinct q v e q' v' e' (hold he hst).2 hst (hold he' hst').2 hst'
  · rw [hspte] at he
    split_ifs at he
    · exact (hx e he).2 hst
    · exact h.off q v e he hst
  · exact htable _ _ (h.table q v e (hold he hst).2 hst)

lemma evict (hc : vm.Core) {f : FrameTableEntry} (he : vm.Evicts vm' f idx)
    (htable : vm.SameTables vm') : vm'.Accounts := by
  obtain ⟨_, d, _, hspte⟩ := he.spte
  obtain ⟨_, hout⟩ := swapOut_eq_ok h.wf he.out
  have hsize : vm'.swap.swapSize = vm.swap.swapSize := by
    rw [hout.wf.swapSize, hout.size, h.wf.swapSize]
  -- the entry is the one that moved, or one that was there and has another slot
  have hold : ∀ {q v e}, vm'.spte q v = some e → e.status = .ON_SWAP →
      (q = f.t ∧ v = f.upage) ∧ e.swapIndex = idx ∨ vm.spte q v = some e ∧ e.swapIndex ≠ idx := by
    intro q v e hq hst
    rw [hspte] at hq
    split_ifs at hq with hqv
    · cases hq
      exact .inl ⟨hqv, rfl⟩
    · refine .inr ⟨hq, fun heq => ?_⟩
      have hused := (h.slot q v e hq hst).2
      rw [heq, hout.was_free] at hused
      cases hused
  refine ⟨hout.wf, fun q v e hq hst => ?_, fun q v e q' v' e' hq hst hq' hst' heq => ?_,
    fun q v e hq hst => ?_, fun g hg => ?_, fun q v e hq hst => ?_⟩
  · rw [hsize, hout.free]
    rcases hold hq hst with ⟨_, rfl⟩ | ⟨hq, hne⟩
    · exact ⟨hout.lt, if_pos rfl⟩
    · rw [if_neg hne]
      exact h.slot q v e hq hst
  · rcases hold hq hst with ⟨⟨rfl, rfl⟩, hidx⟩ | ⟨hq, hne⟩
    · rcases hold hq' hst' with ⟨⟨rfl, rfl⟩, _⟩ | ⟨_, hne'⟩
      · exact ⟨rfl, rfl⟩
      · exact absurd (heq.symm.trans hidx) hne'
    · rcases hold hq' hst' with ⟨_, hidx⟩ | ⟨hq', _⟩
      · exact absurd (heq.trans hidx) hne
      · exact h.distinct q v e q' v' e' hq hst hq' hst' heq
  · rw [hspte] at hq
    split_ifs at hq
    · cases hq
      rfl
    · exact h.off q v e hq hst
  · rw [he.frames] at hg
    exact h.user g (mem_filter.1 hg).1
  · rw [htable]
    rcases hold hq hst with ⟨⟨rfl, rfl⟩, _⟩ | ⟨hq, _⟩
    · obtain ⟨e1, he1, hst1, _⟩ := hc.unpinned f he.mem he.unpinned
      obtain ⟨w, hw⟩ := hc.resident _ _ e1 he1 hst1
      exact hasTable_of_maps hw
    · exact h.table q v e hq hst

lemma allocate (hc : vm.Core) {r : Option ℕ}
    (ha : frameAllocate secondChance vm p flags u malloc = .ok (r, vm')) : vm'.Accounts := by
  have htable := frameAllocate_sameTables ha
  obtain ⟨vm1, _, k, hroom, _, hres⟩ := frameAllocate_eq_ok ha
  have hprocs : vm'.procs = vm1.procs ∧ vm'.swap = vm1.swap := by
    cases malloc with
    | false | true =>
      obtain ⟨_, rfl⟩ := hres
      exact ⟨rfl, rfl⟩
  have h1 : vm1.Accounts := by
    cases hroom with
    | enough => exact h
    | evict hnone hev =>
      obtain rfl := pallocGetPage_eq_none hc.laid hnone
      refine h.evict hc hev fun q i => ?_
      rw [← htable q i]
      exact Vm.sameTables_of_procs hprocs.1.symm q i
  have hspte : ∀ q v, vm'.spte q v = vm1.spte q v := by
    intro q v
    rw [Vm.spte, hprocs.1, Vm.spte]
  refine h1.congr hspte hprocs.2 (fun q j hj => ?_) fun f hf hun => ?_
  · rw [Vm.hasTable, hprocs.1]
    exact hj
  · cases malloc with
    | false =>
      obtain ⟨_, rfl⟩ := hres
      exact h1.user f hf hun
    | true =>
      obtain ⟨_, rfl⟩ := hres
      rcases mem_append.1 hf with hf | hf
      · exact h1.user f hf hun
      · rw [mem_singleton.1 hf] at hun
        cases hun

lemma loadInto (hframe : ∀ f ∈ vm.frames, f.kpage = k → f.upage = u)
    (hl : loadInto fs vm p u k alloc = .ok (r, vm')) : vm'.Accounts := by
  obtain ⟨e, he, hgrows, hswap, hfails⟩ := loadInto_tables hl
  obtain ⟨_, he', hinto⟩ := loadInto_eq_ok hl
  obtain rfl := mem_unique he he'
  have hmono : ∀ q j, vm.hasTable q j = true → vm'.hasTable q j = true := fun q j => hgrows.mono
  cases r with
  | false =>
    -- a page on the swap device has its page table, so this is another one
    have hst : e.status ≠ .ON_SWAP := by
      intro hst
      have htable := h.table p u e he hst
      rw [hfails rfl hst] at htable
      cases htable
    refine h.congr hinto.spte (hswap hst) hmono fun f hf => ?_
    rw [hinto.frames] at hf
    exact h.user f (mem_filter.1 hf).1
  | true =>
    obtain ⟨w, hload⟩ := hinto
    refine h.put hload.spte ?_ ?_ hmono fun f hf hun => ?_
    · rintro _ ⟨⟩
      exact ⟨by simp, fun hne => absurd rfl hne⟩
    · by_cases hst : e.status = .ON_SWAP
      · obtain ⟨hlt, hused⟩ := h.slot p u e he hst
        exact .inr ⟨e, he, hst, hload.filled.released h.wf hlt hused hst⟩
      · exact .inl (hswap hst)
    · rw [hload.frames] at hf
      obtain ⟨f0, hf0, rfl⟩ := mem_map.1 hf
      by_cases hk : f0.kpage = k
      · rw [unpinned, if_pos hk]
        exact (hframe f0 hf0 hk).symm ▸ hload.user
      · rw [unpinned, if_neg hk] at hun ⊢
        exact h.user f0 hf0 hun

lemma load (hc : vm.Core) (hl : loadPage secondChance fs vm p u malloc alloc = .ok (r, vm')) :
    vm'.Accounts := by
  rcases loadPage_eq_ok hl with ⟨_, _, rfl⟩ | ⟨e, _, ⟨_, _, rfl⟩ | ⟨_, k, _, ha, hk⟩⟩
  · exact h
  · exact h
  have h1 := h.allocate hc ha
  cases k with
  | none =>
    obtain ⟨_, rfl⟩ := hk
    exact h1
  | some k =>
    have hall := hc.allocate ha
    obtain ⟨f, hf, _, _, rfl, rfl, _⟩ := hall.entered k rfl
    exact h1.loadInto (fun g hg hgk => by rw [hall.core.eq_of_kpage hg hf hgk]) hk

lemma grow (hg : growStack vm p f block = .ok vm') : vm'.Accounts := by
  unfold growStack at hg
  split_ifs at hg
  · rw [bind_eq_ok] at hg
    obtain ⟨⟨r, _⟩, hzero, hg⟩ := hg
    cases hg
    obtain ⟨_, _, hst, hk, rfl⟩ := tableInstallZeropage_eq_ok hzero
    refine h.put (fun q v => Vm.spte_setSpte ..) ?_ (.inl rfl) (fun q j hj => ?_) h.user
    · rintro _ ⟨⟩
      exact ⟨by rw [hst]; decide, fun _ => hk⟩
    · rw [Vm.sameTables_setSpte]
      exact hj
  · cases hg
    exact h

lemma fault (hgrown : ∀ vm1, growStack vm p f block = .ok vm1 → vm1.Core)
    (hf : pageFault secondChance fs vm p f block malloc alloc = .ok (r, vm')) : vm'.Accounts := by
  unfold pageFault at hf
  split_ifs at hf
  · cases hf
    exact h
  · rw [bind_eq_ok] at hf
    obtain ⟨vm1, hgrow, hload⟩ := hf
    exact (h.grow hgrow).load (hgrown vm1 hgrow) hload

lemma install (hframe : ∀ f ∈ vm.frames, f.kpage = k → f.upage = u)
    (hblock : ∀ e ∈ block, e.status = .ON_FRAME)
    (hi : installPage vm p u k w block alloc = .ok (r, vm')) : vm'.Accounts := by
  have hgrows := installPage_grows hi
  have hmono : ∀ q j, vm.hasTable q j = true → vm'.hasTable q j = true := fun q j => hgrows.mono
  have huser : u < PHYS_BASE := by
    simp only [installPage, pagedirGetPage, bind_eq_ok, ASSERT_eq_ok] at hi
    obtain ⟨_, ⟨_, huser, _⟩, _⟩ := hi
    exact of_decide_eq_true huser
  rcases installPage_eq_ok hi with ⟨_, e, rfl, hin⟩ | ⟨_, rfl⟩ | ⟨_, _, _, _, rfl, _⟩
  · refine h.put hin.spte ?_ (.inl hin.swap) hmono fun f hf hun => ?_
    · rintro _ ⟨⟩
      have hst := hblock e rfl
      exact ⟨by rw [hst]; decide, fun hne => absurd hst hne⟩
    · rw [hin.frames] at hf
      obtain ⟨f0, hf0, rfl⟩ := mem_map.1 hf
      by_cases hk : f0.kpage = k
      · rw [unpinned, if_pos hk]
        exact (hframe f0 hf0 hk).symm ▸ huser
      · rw [unpinned, if_neg hk] at hun ⊢
        exact h.user f0 hf0 hun
  · exact h
  · exact h.congr (fun q v => Vm.spte_setPagedir ..) rfl hmono h.user

lemma release (hf : frameFree vm k = .ok vm') : vm'.Accounts := by
  obtain ⟨_, _, rfl, _⟩ := frameDoFree_eq_ok hf
  exact h.congr (fun _ _ => rfl) rfl (fun _ _ hj => hj) fun f hf =>
    h.user f (mem_filter.1 hf).1

lemma unmap {w : Option FileWrite} (hm : tableMmUnmap vm p u offset bytes tmp = .ok (w, vm')) :
    vm'.Accounts := by
  obtain ⟨e, he, hspte, hrest⟩ := tableMmUnmap_eq_ok hm
  obtain ⟨_, he', htable, hkeep, hfreed⟩ := tableMmUnmap_tables hm
  obtain rfl := mem_unique he he'
  refine h.put hspte (by simp) ?_ (fun q j hj => (htable q j).trans hj) fun f hf => ?_
  · by_cases hst : e.status = .ON_SWAP
    · obtain ⟨hlt, hused⟩ := h.slot p u e he hst
      refine .inr ⟨e, he, hst, ?_⟩
      rcases hfreed hst with hfree | ⟨_, _, hin⟩
      · exact swapFree_released h.wf hlt hused hfree
      · exact swapIn_released h.wf hlt hused hin
    · exact .inl (hkeep hst)
  · split_ifs at hrest
    · rw [hrest.2.1] at hf
      exact h.user f (mem_filter.1 hf).1
    · rw [hrest.2.1] at hf
      exact h.user f hf

end

end Vm.Accounts

end Virtualmemory
end Pintos
