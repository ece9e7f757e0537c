/-
# Where a process may exit

`Vm.Ready` is what `process_exit` counts on.  A run that makes pages of zeros, loads and evicts them
gets to such a state: every slot in use belongs to an entry, every unpinned frame to a user page,
and an entry without a frame has no `kpage` (`Paging.Tidy`).
-/

import Pintos.Vm.Contents
import Pintos.Vm.Exit

namespace Pintos.Virtualmemory

open Base Option

/-! ### Which pages have entries -/

variable {policy : SwapPolicy} {flags : PallocFlags} {r : Option ℕ} {malloc : Bool}

lemma isSome_spte_of_allocate {vm vm' : Vm} {p u : ℕ}
    (h : frameAllocate policy vm p flags u malloc = .ok (r, vm')) (q v : ℕ) :
    (vm'.spte q v).isSome = (vm.spte q v).isSome := by
  obtain ⟨vm1, _, k, hroom, _, hres⟩ := frameAllocate_eq_ok h
  have hspte : vm'.spte q v = vm1.spte q v := by
    cases malloc with
    | false | true =>
      obtain ⟨_, rfl⟩ := hres
      rfl
  rw [hspte]
  cases hroom with
  | enough => rfl
  | evict _ he =>
    obtain ⟨e, d, hsome, hspte'⟩ := he.spte
    rw [hspte']
    split_ifs with hqv
    · rw [hqv.1, hqv.2]
      exact (congrArg Option.isSome hsome).symm
    · rfl

lemma isSome_spte_of_load {fs : LoadPageFromFilesys} {vm vm' : Vm} {p u : ℕ} {alloc : Bool}
    (h : loadPage policy fs vm p u malloc alloc = .ok (true, vm')) (q v : ℕ) :
    (vm'.spte q v).isSome = (vm.spte q v).isSome := by
  rcases loadPage_eq_ok h with ⟨_, hr, _⟩ | ⟨e, _, ⟨_, _, rfl⟩ | ⟨_, k, _, ha, hk⟩⟩
  · cases hr
  · rfl
  rw [← isSome_spte_of_allocate ha]
  cases k with
  | none =>
    obtain ⟨hr, _⟩ := hk
    cases hr
  | some =>
    obtain ⟨_, he', w, hload⟩ := loadInto_eq_ok hk
    rw [hload.spte]
    split_ifs with hqv
    · rw [hqv.1, hqv.2, he']
      rfl
    · rfl

/-! ### Runs -/

structure Paging.Tidy (vm : Vm) : Prop where
  device : vm.swap.swapBlock.type ≠ .BLOCK_FOREIGN
  user : ∀ f ∈ vm.frames, f.pinned = false → f.upage < PHYS_BASE
  off : ∀ p u e, vm.spte p u = some e → e.status ≠ .ON_FRAME → e.kpage = 0
  held : ∀ i < vm.swap.swapSize, vm.swap.free i = false →
    ∃ q u e, vm.spte q u = some e ∧ e.status = .ON_SWAP ∧ e.swapIndex = i

namespace Paging

variable {fs : LoadPageFromFilesys} {policy : SwapPolicy} {s s' : Paging} {vm' : Vm} {p u k : ℕ}
  {malloc alloc w : Bool} {f : FrameTableEntry} {e : PageTableEntry} {mem : Memory} {swap : Swap}

lemma Tidy.evict (h : Tidy s.vm) (hinv : s.Inv) {idx : ℕ} (he : s.vm.Evicts vm' f idx) :
    Tidy vm' := by
  obtain ⟨e, d, _, hspte'⟩ := he.spte
  obtain ⟨_, hout⟩ := swapOut_eq_ok hinv.wf he.out
  have htype := swapOut_type s.vm.swap s.vm.palloc.mem f.kpage
  rw [he.out] at htype
  have hsize : vm'.swap.swapSize = s.vm.swap.swapSize := by
    rw [hout.wf.swapSize, hout.size, hinv.wf.swapSize]
  obtain ⟨_, he0, hst0, _⟩ := hinv.core.unpinned f he.mem he.unpinned
  refine ⟨htype ▸ h.device, fun g hg => ?_, fun q v e' he' hst => ?_, fun i hi hused => ?_⟩
  · rw [he.frames] at hg
    exact h.user g (List.mem_filter.1 hg).1
  · rw [hspte'] at he'
    split_ifs at he'
    · cases he'
      rfl
    · exact h.off q v e' he' hst
  · rw [hout.free] at hused
    by_cases hidx : i = idx
    · exact ⟨f.t, f.upage, _, (hspte' _ _).trans (if_pos ⟨rfl, rfl⟩), rfl, hidx.symm⟩
    · rw [if_neg hidx] at hused
      obtain ⟨q, v, e', he', hst, hi'⟩ := h.held i (hsize ▸ hi) hused
      refine ⟨q, v, e', ?_, hst, hi'⟩
      rw [hspte', if_neg, he']
      rintro ⟨rfl, rfl⟩
      rw [he0] at he'
      rw [← some.inj he', hst0] at hst
      cases hst

lemma Tidy.allocate (h : Tidy s.vm) (hinv : s.Inv)
    (ha : frameAllocate policy s.vm p flags u malloc = .ok (r, vm')) : Tidy vm' := by
  obtain ⟨vm1, _, k, hroom, _, hres⟩ := frameAllocate_eq_ok ha
  have h1 : Tidy vm1 := by
    cases hroom with
    | enough => exact h
    | evict hnone hev =>
      obtain rfl := pallocGetPage_eq_none hinv.core.laid hnone
      exact h.evict hinv hev
  cases malloc with
  | false =>
    obtain ⟨_, rfl⟩ := hres
    exact { h1 with }
  | true =>
    obtain ⟨_, rfl⟩ := hres
    refine ⟨h1.device, fun f hf hun => ?_, h1.off, h1.held⟩
    rcases List.mem_append.1 hf with hf | hf
    · exact h1.user f hf hun
    · rw [List.mem_singleton.1 hf] at hun
      cases hun

lemma swap_of_filled (hinv : s.Inv) (hk : PHYS_BASE ≤ k) (he : s.vm.spte p u = some e)
    (hoff : e.status ≠ .ON_FRAME) (hf : Filled fs s.vm k e w mem swap) :
    swap = s.vm.swap ∧ e.status ≠ .ON_SWAP ∨
      s.vm.swap.Released swap e.swapIndex ∧ e.status = .ON_SWAP := by
  cases hf with
  | zero hst | filesys hst => exact .inl ⟨rfl, by rw [hst]; decide⟩
  | frame hst => exact absurd hst hoff
  | swap hst hin =>
    obtain ⟨hlt, hused, _⟩ := hinv.slot _ _ e he hst
    obtain ⟨_, _, hin', hrel, _⟩ := swapIn_spec hinv.wf hlt hused s.vm.palloc.mem hk
    rw [hin] at hin'
    obtain ⟨_, rfl⟩ := Prod.mk.inj (Except.ok.inj hin')
    exact .inr ⟨hrel, hst⟩

lemma Tidy.loaded (h : Tidy s.vm) (hinv : s.Inv) (hf : f ∈ s.vm.frames)
    (he : s.vm.spte f.t f.upage = some e) (hoff : e.status ≠ .ON_FRAME)
    (hl : s.vm.Loads fs vm' f.t f.upage f.kpage e w) : Tidy vm' := by
  have hbase := ((hinv.core.used f hf).bounds hinv.core.laid).1
  have hswap := swap_of_filled hinv hbase he hoff hl.filled
  have hkeep : ∀ {q v e'}, s.vm.spte q v = some e' → ¬ (q = f.t ∧ v = f.upage) →
      vm'.spte q v = some e' := by
    intro q v _ he' hne
    rw [hl.spte, if_neg hne, he']
  refine ⟨?_, fun g hg hun => ?_, fun q v e' he' hst => ?_, fun i hi hused => ?_⟩
  · rcases hswap with ⟨hs, _⟩ | ⟨hs, _⟩
    · rw [hs]
      exact h.device
    · rw [hs.block]
      exact h.device
  · rw [hl.frames] at hg
    obtain ⟨g0, hg0, rfl⟩ := List.mem_map.1 hg
    by_cases hk : g0.kpage = f.kpage
    · have hgf : g0 = f := hinv.core.eq_of_kpage hg0 hf hk
      rw [unpinned, if_pos hk, hgf]
      exact hl.user
    · rw [unpinned, if_neg hk] at hun ⊢
      exact h.user g0 hg0 hun
  · rw [hl.spte] at he'
    split_ifs at he'
    · rw [← some.inj he'] at hst
      exact absurd rfl hst
    · exact h.off q v e' he' hst
  · rcases hswap with ⟨hs, hst⟩ | ⟨hs, hst⟩
    · rw [hs] at hi hused
      obtain ⟨q, v, e', he', hst', hi'⟩ := h.held i hi hused
      refine ⟨q, v, e', hkeep he' ?_, hst', hi'⟩
      rintro ⟨rfl, rfl⟩
      rw [he] at he'
      exact hst (some.inj he' ▸ hst')
    · have hsize : vm'.swap.swapSize = s.vm.swap.swapSize := by
        rw [hs.wf.swapSize, hs.block, hinv.wf.swapSize]
      rw [hs.free] at hused
      split_ifs at hused with hidx
      obtain ⟨q, v, e', he', hst', rfl⟩ := h.held i (hsize ▸ hi) hused
      refine ⟨q, v, e', hkeep he' ?_, hst', rfl⟩
      rintro ⟨rfl, rfl⟩
      rw [he] at he'
      exact hidx (by rw [some.inj he'])

lemma Tidy.load (h : Tidy s.vm) (hinv : s.Inv)
    (hl : loadPage policy fs s.vm p u malloc alloc = .ok (true, vm')) : Tidy vm' := by
  rcases loadPage_eq_ok hl with ⟨_, hr, _⟩ | ⟨e, he, ⟨_, _, rfl⟩ | ⟨hst, k, vm1, ha, hk⟩⟩
  · cases hr
  · exact h
  cases k with
  | none =>
    obtain ⟨hr, _⟩ := hk
    cases hr
  | some k =>
    have hall := hinv.core.allocate ha
    obtain ⟨f, hf, _, rfl, rfl, rfl, _⟩ := hall.entered k rfl
    have he1 : vm1.spte f.t f.upage = some e := by
      rw [hall.spte _ _ fun e' he' => by rw [he] at he'; exact some.inj he' ▸ hst, he]
    obtain ⟨_, he', w, hload⟩ := loadInto_eq_ok hk
    obtain rfl := mem_unique he1 he'
    have h1 : Tidy (Paging.mk vm1 s.spaces).vm := h.allocate hinv ha
    exact h1.loaded (hinv.allocate ha) hf he1 hst hload

lemma Tidy.zeropage (h : Tidy s.vm) {block : Option PageTableEntry} {r : Bool}
    (hz : tableInstallZeropage s.vm p u block = .ok (r, vm')) : Tidy vm' := by
  obtain ⟨hnone, _, _, hk, rfl⟩ := tableInstallZeropage_eq_ok hz
  refine ⟨h.device, h.user, fun q v e he hst' => ?_, fun i hi hused => ?_⟩
  · rw [Vm.spte_setSpte] at he
    split_ifs at he
    · rw [← some.inj he, hk]
    · exact h.off q v e he hst'
  · obtain ⟨q, v, e, he, hst', hi'⟩ := h.held i hi hused
    refine ⟨q, v, e, ?_, hst', hi'⟩
    rw [Vm.spte_setSpte, if_neg, he]
    rintro ⟨rfl, rfl⟩
    rw [hnone] at he
    cases he

lemma Tidy.step {ev : PagingEvent} (h : Tidy s.vm) (hinv : s.Inv) (hs : Step fs s ev s') :
    Tidy s'.vm := by
  cases hs with
  | zeropage hz => exact h.zeropage hz
  | load hl => exact h.load hinv hl
  | allocate ha => exact h.allocate hinv ha
  | write _ hview =>
    refine ⟨?_, ?_, fun q v e he => ?_, ?_⟩
    · exact hview.swap ▸ h.device
    · exact hview.frames ▸ h.user
    · exact h.off q v e (hview.spte q v ▸ he)
    · intro i hi hused
      obtain ⟨q, v, e, he, hrest⟩ := h.held i (hview.swap ▸ hi) (hview.swap ▸ hused)
      exact ⟨q, v, e, (hview.spte q v).trans he, hrest⟩

/-- **A run gets to states in which a process may exit**, with the pages `buckets`. -/
theorem ready {ram limit : ℕ} {kbuf ubuf : ℕ → BitVec 32} {palloc : Palloc} {role : Option Block}
    {hdr : Bool} {elems : Option (ℕ → BitVec 32)} {pd : Pagedir} {buckets : List ℕ} (h1 : 256 ≤ ram)
    (h2 : ram ≤ 2 ^ 18) (hinit : pallocInit ram limit mem kbuf ubuf = .ok palloc)
    (hswap : swapInit role hdr elems = .ok swap) (hdev : swap.swapBlock.type ≠ .BLOCK_FOREIGN)
    (hrun : Reaches (Step fs) Always ⟨Vm.boot palloc swap pd ram, AddressSpaces.zero⟩ s)
    (hown : ∀ f ∈ s.vm.frames, f.t = p → f.pinned = false) (hthreads : ∀ f ∈ s.vm.frames, f.t ≠ 0)
    (hnodup : buckets.Nodup) (hmem : ∀ u, u ∈ buckets ↔ (s.vm.spte p u).isSome = true) :
    s.vm.Ready p buckets := by
  have hempty : ∀ i, swap.free i = false → ¬ i < swap.swapSize := fun i hused hi =>
    absurd (((swapInit_inv hswap).available i hi).1 hused) List.not_mem_nil
  have hboot : Tidy (Vm.boot palloc swap pd ram) := ⟨hdev, nofun, nofun,
      fun i hi hused => absurd hi (hempty i hused)⟩
  obtain ⟨hinv, htidy⟩ := hrun.invariant (fun s => s.Inv ∧ Tidy s.vm)
    (fun h hs _ => ⟨h.1.step hs, h.2.step h.1 hs⟩)
    ⟨boot_inv (pallocInit_laid h1 h2 hinit) (swapInit_inv hswap).wf, hboot⟩
  exact ⟨hinv.core, hown, hthreads, htidy.user, htidy.off p, hinv.wf, htidy.device,
    fun q u e he hst => ⟨(hinv.slot q u e he hst).1, (hinv.slot q u e he hst).2.1⟩, hinv.distinct,
    htidy.held, hnodup, hmem⟩

end Paging

end Pintos.Virtualmemory
