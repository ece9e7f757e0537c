/-
# Paging preserves memory contents

What virtual memory is for: every process has pages of its own, which hold zeros until it writes to
them and then what it wrote last (`AddressSpaces`), with no frames and no swap device.  A run is
followed by the address spaces: a user write is a write there, and installing, loading, allocating
and evicting pages are nothing.
-/

import Pintos.Vm.Agreement

namespace Pintos.Virtualmemory

open Base Function Kernel Option

abbrev AddressSpaces := ℕ → ℕ → Page

def AddressSpaces.zero : AddressSpaces := fun _ _ _ => 0#8

def AddressSpaces.write (a : AddressSpaces) (p u : ℕ) (o : Fin PGSIZE) (b : BitVec 8) :
    AddressSpaces :=
  fun q v => if q = p ∧ v = u then update (a p u) o b else a q v

lemma AddressSpaces.write_self (a : AddressSpaces) (p u : ℕ) (o : Fin PGSIZE) (b : BitVec 8) :
    a.write p u o b p u = update (a p u) o b :=
  if_pos ⟨rfl, rfl⟩

lemma AddressSpaces.write_of_ne (a : AddressSpaces) {p u q v : ℕ} (o : Fin PGSIZE)
    (b : BitVec 8) (h : ¬ (q = p ∧ v = u)) : a.write p u o b q v = a q v :=
  if_neg h

structure Paging where
  vm : Vm
  spaces : AddressSpaces

inductive PagingEvent
  | zeropage (p upage : ℕ) (block : Option PageTableEntry)
  | load (p upage : ℕ) (malloc alloc : Bool)
  | allocate (p : ℕ) (flags : PallocFlags) (upage : ℕ) (malloc : Bool)
  | write (p upage : ℕ) (o : Fin PGSIZE) (b : BitVec 8)

/-- One call that returns, or one write to a mapped writable page.  Each allocation may evict under
its own policy. -/
inductive Paging.Step (fs : LoadPageFromFilesys) : Paging → PagingEvent → Paging → Prop
  | zeropage {s : Paging} {p u : ℕ} {block : Option PageTableEntry} {r : Bool} {vm' : Vm} :
      tableInstallZeropage s.vm p u block = .ok (r, vm') →
      Step fs s (.zeropage p u block) ⟨vm', s.spaces⟩
  | load {s : Paging} {policy : SwapPolicy} {p u : ℕ} {malloc alloc : Bool} {vm' : Vm} :
      loadPage policy fs s.vm p u malloc alloc = .ok (true, vm') →
      Step fs s (.load p u malloc alloc) ⟨vm', s.spaces⟩
  | allocate {s : Paging} {policy : SwapPolicy} {p : ℕ} {flags : PallocFlags} {u : ℕ}
      {malloc : Bool} {r : Option ℕ} {vm' : Vm} :
      frameAllocate policy s.vm p flags u malloc = .ok (r, vm') →
      Step fs s (.allocate p flags u malloc) ⟨vm', s.spaces⟩
  | write {s : Paging} {p u k : ℕ} {o : Fin PGSIZE} {b : BitVec 8} {vm' : Vm} :
      s.vm.maps p u = some (k, true) → s.vm.SameView vm' →
      Step fs s (.write p u o b)
        ⟨vm'.setMem (update vm'.palloc.mem (k + o) b), s.spaces.write p u o b⟩

/-- **Resident pages hold what their owner wrote.** -/
def Paging.Faithful (s : Paging) : Prop :=
  ∀ p u k w, s.vm.maps p u = some (k, w) → pageAt s.vm.palloc.mem k = s.spaces p u

/-- What every step preserves. -/
structure Paging.Inv (s : Paging) : Prop where
  core : s.vm.Core
  wf : s.vm.swap.Wf
  faithful : s.Faithful
  status : ∀ p u e, s.vm.spte p u = some e →
    e.status = .ALL_ZERO ∨ e.status = .ON_FRAME ∨ e.status = .ON_SWAP
  zero : ∀ p u, (∀ e ∈ s.vm.spte p u, e.status = .ALL_ZERO) → s.spaces p u = fun _ => 0#8
  slot : ∀ p u e, s.vm.spte p u = some e → e.status = .ON_SWAP →
    e.swapIndex < s.vm.swap.swapSize ∧ s.vm.swap.free e.swapIndex = false ∧
      s.vm.swap.slot e.swapIndex = s.spaces p u
  distinct : ∀ p u e q v e', s.vm.spte p u = some e → e.status = .ON_SWAP →
    s.vm.spte q v = some e' → e'.status = .ON_SWAP → e.swapIndex = e'.swapIndex → p = q ∧ u = v

/-! ### Bytes of a page -/

variable {mem : Memory} {k : ℕ} {b : BitVec 8} {o : Fin PGSIZE} {f : FrameTableEntry}

lemma pageAt_congr {mem' : Memory} {k' : ℕ} (h : ∀ x ∉ pageArea k, mem' x = mem x)
    (hd : Disjoint (pageArea k') (pageArea k)) : pageAt mem' k' = pageAt mem k' := by
  funext o
  exact h _ (Set.disjoint_left.1 hd ⟨Nat.le_add_right _ _, Nat.add_lt_add_left o.isLt _⟩)

lemma pageAt_memset_zero (mem : Memory) (k : ℕ) :
    pageAt (memset mem k 0#8 PGSIZE) k = fun _ => 0#8 := by
  funext o
  exact if_pos ⟨Nat.le_add_right _ _, Nat.add_lt_add_left o.isLt _⟩

lemma memset_outside : ∀ x ∉ pageArea k, memset mem k b PGSIZE x = mem x := fun _ hx => if_neg hx

lemma pageAt_update (mem : Memory) (k : ℕ) (o : Fin PGSIZE) (b : BitVec 8) :
    pageAt (update mem (k + o) b) k = update (pageAt mem k) o b := by
  funext i
  by_cases hi : i = o
  · subst hi
    simp [pageAt]
  · have hne : k + (i : ℕ) ≠ k + o := fun h => hi (Fin.ext (by omega))
    rw [pageAt, update_of_ne hne, update_of_ne hi, pageAt]

lemma update_outside : ∀ x ∉ pageArea k, update mem (k + o) b x = mem x := by
  intro x hx
  refine update_of_ne ?_ _ _
  rintro rfl
  exact hx ⟨Nat.le_add_right _ _, Nat.add_lt_add_left o.isLt _⟩

namespace Vm.Core

variable {vm : Vm} {p u k : ℕ} {w : Bool}

lemma disjoint (h : vm.Core) (hm : vm.maps p u = some (k, w)) (hf : f ∈ vm.frames)
    (hne : ¬ (p = f.t ∧ u = f.upage ∧ f.pinned = false)) :
    Disjoint (pageArea k) (pageArea f.kpage) := by
  obtain ⟨g, hg, hun, rfl, rfl, rfl⟩ := h.mapped p u k w hm
  refine (h.used g hg).disjoint (h.used f hf) fun hk => hne ?_
  obtain rfl := h.eq_of_kpage hg hf hk
  exact ⟨rfl, rfl, hun⟩

end Vm.Core

namespace Paging

variable {fs : LoadPageFromFilesys} {policy : SwapPolicy} {s s' : Paging} {vm' : Vm} {p u k : ℕ}
  {malloc alloc w : Bool} {flags : PallocFlags} {palloc : Palloc} {e : PageTableEntry}
  {swap : Swap}

section

variable (h : s.Inv)
include h

theorem Inv.evict {idx : ℕ} (he : s.vm.Evicts vm' f idx) : Inv ⟨vm', s.spaces⟩ := by
  obtain ⟨_, hout⟩ := swapOut_eq_ok h.wf he.out
  obtain ⟨e', hst', hidx', hl⟩ := he.leaves
  have hturn := pallocFreePage_eq_ok h.core.laid (h.core.used f he.mem) he.freed
  have hsize : vm'.swap.swapSize = s.vm.swap.swapSize := by
    rw [hout.wf.swapSize, hout.size, h.wf.swapSize]
  -- the frame holds the page that is evicted
  have hpage : pageAt s.vm.palloc.mem f.kpage = s.spaces f.t f.upage := by
    obtain ⟨e, hspte, hst, hk⟩ := h.core.unpinned f he.mem he.unpinned
    obtain ⟨w, hw⟩ := h.core.resident _ _ e hspte hst
    exact h.faithful _ _ _ w (hk ▸ hw)
  -- no page on the swap device has the slot
  have hfresh : ∀ q v e, s.vm.spte q v = some e → e.status = .ON_SWAP → e.swapIndex ≠ idx := by
    intro q v e hspte hst heq
    have hused := (h.slot q v e hspte hst).2.1
    rw [heq, hout.was_free] at hused
    exact Bool.noConfusion hused
  refine ⟨h.core.leave hl, hout.wf, fun q v k w hm => ?_, fun q v e hq => ?_, fun q v hz => ?_,
    fun q v e hq hst => ?_, fun q v e q' v' e1 hq hst hq' hst1 heq => ?_⟩
  · dsimp only at hm ⊢
    rw [hl.maps] at hm
    split_ifs at hm with hqv
    rw [← h.faithful q v k w hm]
    exact pageAt_congr hturn.mem (h.core.disjoint hm he.mem fun hqv' => hqv ⟨hqv'.1, hqv'.2.1⟩)
  · dsimp only at hq
    rw [hl.spte] at hq
    split_ifs at hq
    · cases hq
      exact .inr (.inr hst')
    · exact h.status q v e hq
  · dsimp only at hz ⊢
    rw [hl.spte] at hz
    split_ifs at hz
    · have := hz e' rfl
      rw [hst'] at this
      cases this
    · exact h.zero q v hz
  · dsimp only at hq ⊢
    rw [hl.spte] at hq
    rw [hsize, hout.free]
    split_ifs at hq with hqv
    · cases hq
      obtain ⟨rfl, rfl⟩ := hqv
      rw [hidx', if_pos rfl, hout.slot, hpage]
      exact ⟨hout.lt, rfl, rfl⟩
    · obtain ⟨hlt, hused, hslot⟩ := h.slot q v e hq hst
      have hne := hfresh q v e hq hst
      rw [if_neg hne, hout.frame _ hne]
      exact ⟨hlt, hused, hslot⟩
  · dsimp only at hq hq'
    rw [hl.spte] at hq hq'
    split_ifs at hq hq' with h1 h2 h2
    · exact ⟨h1.1.trans h2.1.symm, h1.2.trans h2.2.symm⟩
    · cases hq
      exact absurd (heq.symm.trans hidx') (hfresh q' v' e1 hq' hst1)
    · cases hq'
      exact absurd (heq.trans hidx') (hfresh q v e hq hst)
    · exact h.distinct q v e q' v' e1 hq hst hq' hst1 heq

lemma Inv.take
    (hget : pallocGetPage s.vm.palloc { flags with PAL_USER := true } = .ok (some k, palloc)) :
    Inv ⟨{ s.vm with palloc := palloc }, s.spaces⟩ := by
  obtain ⟨hcore, hused, hne⟩ := h.core.take hget
  have hturn := (pallocGetPage_eq_some h.core.laid hget).2
  refine { h with core := hcore, faithful := fun q v k' w hm => ?_ }
  obtain ⟨f, hf, _, rfl, rfl, rfl⟩ := h.core.mapped q v k' w hm
  rw [← h.faithful _ _ _ w hm]
  exact pageAt_congr hturn.mem ((hcore.used f hf).disjoint hused (hne f hf))

theorem Inv.allocate {r : Option ℕ} (ha : frameAllocate policy s.vm p flags u malloc =
    .ok (r, vm')) :
    Inv ⟨vm', s.spaces⟩ := by
  have hcore := (h.core.allocate ha).core
  obtain ⟨vm1, palloc, k, hroom, hget, hres⟩ := frameAllocate_eq_ok ha
  have h1 : Inv ⟨vm1, s.spaces⟩ := by
    cases hroom with
    | enough => exact h
    | evict hnone hev =>
      obtain rfl := pallocGetPage_eq_none h.core.laid hnone
      exact h.evict hev
  have h2 : Inv ⟨{ vm1 with palloc := palloc }, s.spaces⟩ := h1.take hget
  cases malloc with
  | false =>
    obtain ⟨_, rfl⟩ := hres
    exact h2
  | true =>
    obtain ⟨_, rfl⟩ := hres
    exact { h2 with core := hcore }

lemma Inv.filled (hk : PHYS_BASE ≤ k) (he : s.vm.spte p u = some e) (hoff : e.status ≠ .ON_FRAME)
    (hf : Filled fs s.vm k e w mem swap) :
    swap.Wf ∧ swap.swapSize = s.vm.swap.swapSize ∧ pageAt mem k = s.spaces p u ∧
      (∀ x ∉ pageArea k, mem x = s.vm.palloc.mem x) ∧
      ∀ q v e', s.vm.spte q v = some e' → e'.status = .ON_SWAP → ¬ (q = p ∧ v = u) →
        swap.free e'.swapIndex = false ∧ swap.slot e'.swapIndex = s.spaces q v := by
  cases hf with
  | zero hst =>
    have hzero : s.spaces p u = fun _ => 0#8 := by
      refine h.zero p u fun e' he' => ?_
      rw [he] at he'
      exact some.inj he' ▸ hst
    exact ⟨h.wf, rfl, by rw [pageAt_memset_zero, hzero], memset_outside,
      fun q v e' hq hst' _ => (h.slot q v e' hq hst').2⟩
  | frame hst => exact absurd hst hoff
  | swap hst hin =>
    obtain ⟨hlt, hused, hslot⟩ := h.slot p u e he hst
    obtain ⟨_, _, hin', hrel, hpage, hframe⟩ := swapIn_spec h.wf hlt hused s.vm.palloc.mem hk
    rw [hin] at hin'
    cases hin'
    refine ⟨hrel.wf, ?_, hpage.trans hslot, hframe, fun q v e' hq hst' hne => ?_⟩
    · rw [hrel.wf.swapSize, hrel.block, h.wf.swapSize]
    · obtain ⟨_, hused', hslot'⟩ := h.slot q v e' hq hst'
      have hidx : e'.swapIndex ≠ e.swapIndex := fun heq =>
        hne (h.distinct q v e' p u e hq hst' he hst heq)
      rw [hrel.free, if_neg hidx]
      refine ⟨hused', ?_⟩
      rw [← hslot']
      exact Swap.slot_congr fun _ _ => by rw [hrel.block]
  | filesys hst =>
    rcases h.status p u e he with hst' | hst' | hst' <;> rw [hst] at hst' <;> cases hst'

lemma Inv.loaded (hf : f ∈ s.vm.frames) (hpin : f.pinned = true)
    (he : s.vm.spte f.t f.upage = some e) (hoff : e.status ≠ .ON_FRAME)
    (hl : s.vm.Loads fs vm' f.t f.upage f.kpage e w) : Inv ⟨vm', s.spaces⟩ := by
  obtain ⟨hbase, hlt, _⟩ := (h.core.used f hf).bounds h.core.laid
  obtain ⟨hwf, hsize, hpage, hmem, hslots⟩ := h.filled hbase he hoff hl.filled
  have hround : PHYS_BASE + (f.kpage - PHYS_BASE) % 2 ^ 32 = f.kpage :=
    frame_roundtrip hbase (by simp only [PGSIZE] at hlt; omega)
  have hoff' : ∀ e' ∈ s.vm.spte f.t f.upage, e'.status ≠ .ON_FRAME := by
    intro _ he'
    rw [he] at he'
    exact some.inj he' ▸ hoff
  -- an entry that is not on a frame is the entry of another page, as it was
  have hother : ∀ q v e', vm'.spte q v = some e' → e'.status ≠ .ON_FRAME →
      ¬ (q = f.t ∧ v = f.upage) ∧ s.vm.spte q v = some e' := by
    intro q v _ hq hst
    rw [hl.spte] at hq
    split_ifs at hq with hqv
    · cases hq
      exact absurd rfl hst
    · exact ⟨hqv, hq⟩
  refine ⟨h.core.settle hf hpin hoff' hl.settles, hwf, fun q v k w' hm => ?_, fun q v e' hq => ?_,
    fun q v hz => ?_, fun q v e' hq hst => ?_, fun q v e1 q' v' e2 hq hst hq' hst' heq => ?_⟩
  · dsimp only at hm ⊢
    rw [hl.maps] at hm
    split_ifs at hm with hqv
    · obtain ⟨rfl, rfl⟩ := hqv
      rw [hround] at hm
      cases hm
      exact hpage
    · rw [← h.faithful q v k w' hm]
      exact pageAt_congr hmem (h.core.disjoint hm hf fun hqv' => hqv ⟨hqv'.1, hqv'.2.1⟩)
  · dsimp only at hq
    by_cases hst : e'.status = .ON_FRAME
    · exact .inr (.inl hst)
    · exact h.status q v e' (hother q v e' hq hst).2
  · dsimp only at hz ⊢
    rw [hl.spte] at hz
    split_ifs at hz
    · exact absurd (hz _ rfl) (by simp)
    · exact h.zero q v hz
  · dsimp only at hq ⊢
    obtain ⟨hne, hq⟩ := hother q v e' hq (by rw [hst]; decide)
    rw [hsize]
    exact ⟨(h.slot q v e' hq hst).1, hslots q v e' hq hst hne⟩
  · obtain ⟨_, hq⟩ := hother q v e1 hq (by rw [hst]; decide)
    obtain ⟨_, hq'⟩ := hother q' v' e2 hq' (by rw [hst']; decide)
    exact h.distinct q v e1 q' v' e2 hq hst hq' hst' heq

lemma Inv.load (hl : loadPage policy fs s.vm p u malloc alloc = .ok (true, vm')) :
    Inv ⟨vm', s.spaces⟩ := by
  rcases loadPage_eq_ok hl with ⟨_, hr, _⟩ | ⟨e, he, ⟨_, _, rfl⟩ | ⟨hst, k, vm1, ha, hk⟩⟩
  · cases hr
  · exact h
  cases k with
  | none =>
    obtain ⟨hr, _⟩ := hk
    cases hr
  | some k =>
    have hall := h.core.allocate ha
    obtain ⟨f, hf, hpin, rfl, rfl, rfl, _⟩ := hall.entered k rfl
    have he1 : vm1.spte f.t f.upage = some e := by
      rw [hall.spte _ _ fun e' he' => by rw [he] at he'; exact some.inj he' ▸ hst, he]
    obtain ⟨_, he', w, hload⟩ := loadInto_eq_ok hk
    obtain rfl := mem_unique he1 he'
    exact (h.allocate ha).loaded hf hpin he1 hst hload

lemma Inv.write (hm : s.vm.maps p u = some (k, true)) (hview : s.vm.SameView vm') :
    Inv ⟨vm'.setMem (update vm'.palloc.mem (k + o) b), s.spaces.write p u o b⟩ := by
  obtain ⟨f, hf, hun, rfl, rfl, rfl⟩ := h.core.mapped p u k true hm
  have hspte : ∀ q v, (vm'.setMem (update vm'.palloc.mem (f.kpage + o) b)).spte q v =
      s.vm.spte q v := hview.spte
  -- a page whose entry is not on a frame is another page
  have hother : ∀ q v, (∀ e ∈ s.vm.spte q v, e.status ≠ .ON_FRAME) →
      s.spaces.write f.t f.upage o b q v = s.spaces q v := by
    intro q v hoff
    refine AddressSpaces.write_of_ne _ _ _ ?_
    rintro ⟨rfl, rfl⟩
    obtain ⟨e, he, hst, _⟩ := h.core.unpinned f hf hun
    exact hoff e he hst
  refine ⟨h.core.congr (fun b' => ?_) hview.frames hview.spte hview.maps, ?_, fun q v k w hq => ?_,
    fun q v e hq => ?_, fun q v hz => ?_, fun q v e hq hst => ?_, ?_⟩
  · exact (Palloc.pool_mem vm'.palloc b' _).trans (by rw [hview.palloc])
  · exact hview.swap ▸ h.wf
  · have hmaps : s.vm.maps q v = some (k, w) := (hview.maps q v).symm.trans hq
    have hmem : vm'.palloc.mem = s.vm.palloc.mem := by rw [hview.palloc]
    show pageAt (update vm'.palloc.mem (f.kpage + o) b) k = s.spaces.write f.t f.upage o b q v
    rw [hmem]
    by_cases hqv : q = f.t ∧ v = f.upage
    · obtain ⟨rfl, rfl⟩ := hqv
      obtain ⟨rfl, rfl⟩ := Prod.mk.inj (mem_unique hm hmaps)
      rw [pageAt_update, h.faithful _ _ _ _ hm, AddressSpaces.write_self]
    · have hd := h.core.disjoint hmaps hf fun hqv' => hqv ⟨hqv'.1, hqv'.2.1⟩
      rw [pageAt_congr update_outside hd, h.faithful _ _ _ _ hmaps,
        AddressSpaces.write_of_ne _ _ _ hqv]
  · exact h.status q v e (hview.spte q v ▸ hq)
  · dsimp only at hz ⊢
    rw [hspte] at hz
    rw [hother q v fun e he => by rw [hz e he]; decide]
    exact h.zero q v hz
  · dsimp only at hq ⊢
    rw [hspte] at hq
    have hoff : ∀ e' ∈ s.vm.spte q v, e'.status ≠ .ON_FRAME := by
      intro _ he'
      rw [hq] at he'
      rw [← some.inj he', hst]
      decide
    rw [hother q v hoff]
    exact hview.swap ▸ h.slot q v e hq hst
  · intro q v e q' v' e' hq hst hq'
    dsimp only at hq hq'
    rw [hspte] at hq hq'
    exact h.distinct q v e q' v' e' hq hst hq'

lemma Inv.zeropage {block : Option PageTableEntry} {r : Bool}
    (hz : tableInstallZeropage s.vm p u block = .ok (r, vm')) : Inv ⟨vm', s.spaces⟩ := by
  obtain ⟨hnone, entry, hst, hk, rfl⟩ := tableInstallZeropage_eq_ok hz
  have hspte : ∀ q v, (s.vm.setSpte p u (some entry)).spte q v =
      if q = p ∧ v = u then some entry else s.vm.spte q v := fun q v => by simp
  -- an entry on the swap device was there before
  have hother : ∀ q v e, (s.vm.setSpte p u (some entry)).spte q v = some e →
      e.status = .ON_SWAP → s.vm.spte q v = some e := by
    intro q v e hq hst'
    rw [hspte] at hq
    split_ifs at hq
    · cases hq
      rw [hst] at hst'
      cases hst'
    · exact hq
  refine ⟨?_, h.wf, fun q v k w hm => ?_, fun q v e hq => ?_, fun q v hall => ?_,
    fun q v e hq hst' => ?_, fun q v e q' v' e' hq hst1 hq' hst2 => ?_⟩
  · refine h.core.turn (some entry) (by rw [hnone]; simp) ?_ (fun _ => rfl) rfl hspte
      fun q v => by simp
    intro e he
    cases he
    exact ⟨by rw [hst]; decide, fun _ => hk⟩
  · exact h.faithful q v k w (by simpa using hm)
  · dsimp only at hq
    rw [hspte] at hq
    split_ifs at hq
    · cases hq
      exact .inl hst
    · exact h.status q v e hq
  · dsimp only at hall ⊢
    by_cases hqv : q = p ∧ v = u
    · obtain ⟨rfl, rfl⟩ := hqv
      exact h.zero q v (by rw [hnone]; simp)
    · rw [hspte, if_neg hqv] at hall
      exact h.zero q v hall
  · exact h.slot q v e (hother q v e hq hst') hst'
  · exact h.distinct q v e q' v' e' (hother q v e hq hst1) hst1 (hother q' v' e' hq' hst2) hst2

lemma Inv.step {ev : PagingEvent} (hs : Step fs s ev s') : s'.Inv := by
  cases hs with
  | zeropage hz => exact h.zeropage hz
  | load hl => exact h.load hl
  | allocate ha => exact h.allocate ha
  | write hm hview => exact h.write hm hview

end

lemma boot_inv {pd : Pagedir} {ram : ℕ} (hl : palloc.Laid) (hwf : swap.Wf) :
    Inv ⟨Vm.boot palloc swap pd ram, AddressSpaces.zero⟩ := by
  have hcore : (Vm.boot palloc swap pd ram).Core := (Tables.boot_inv hl).1.core
  refine ⟨hcore, hwf, ?_, ?_, fun _ _ _ => rfl, ?_, ?_⟩
  · intro p u k w hm
    obtain ⟨f, hf, _⟩ := hcore.mapped p u k w hm
    cases hf
  · intro p u e he
    cases he
  · intro p u e he
    cases he
  · intro p u e q v _ he
    cases he

end Paging

/-- **Paging preserves memory contents**: a resident page holds the last bytes its process wrote. -/
theorem paging_preserves_contents {ram limit : ℕ} {mem : Memory} {kbuf ubuf : ℕ → BitVec 32}
    {palloc : Palloc} {role : Option Block} {hdr : Bool} {elems : Option (ℕ → BitVec 32)}
    {swap : Swap} {pd : Pagedir} {fs : LoadPageFromFilesys} {s : Paging}
    (h₁ : 256 ≤ ram) (h₂ : ram ≤ 2 ^ 18)
    (hinit : pallocInit ram limit mem kbuf ubuf = .ok palloc)
    (hswap : swapInit role hdr elems = .ok swap)
    (hrun : Reaches (Paging.Step fs) Always ⟨Vm.boot palloc swap pd ram, AddressSpaces.zero⟩ s) :
    s.Faithful := by
  have hinv := hrun.invariant Paging.Inv (fun h hs _ => h.step hs)
    (Paging.boot_inv (pallocInit_laid h₁ h₂ hinit) (swapInit_inv hswap).wf)
  exact hinv.faithful

theorem paging_preserves_contents_swapped : ∃ palloc swap s k,
    pallocInit 264 2 (fun _ => 0) (fun _ => 0) (fun _ => 0) = .ok palloc ∧
      swapInit (some twoSlots) true (some fun _ => 0) = .ok swap ∧
      Reaches (Paging.Step fun _ _ mem => (mem, false)) Always
        ⟨Vm.boot palloc swap Pagedir.empty 264, AddressSpaces.zero⟩ s ∧
      s.vm.maps 1 0x8048000 = some (k, true) ∧ s.vm.palloc.mem (k + 5) = 42#8 := by
  obtain ⟨palloc, swap, vm1, vm2, vm3, vm4, vm5, hinit, hswap, hz1, hl1, hm1, hz2, hl2, hl3, hm2⟩ :
      ∃ palloc swap vm1 vm2 vm3 vm4 vm5,
      pallocInit 264 2 (fun _ => 0) (fun _ => 0) (fun _ => 0) = .ok palloc ∧
        swapInit (some twoSlots) true (some fun _ => 0) = .ok swap ∧
        tableInstallZeropage (Vm.boot palloc swap Pagedir.empty 264) 1 0x8048000
          (some ⟨false, 0, .ALL_ZERO, false, 0⟩) = .ok (true, vm1) ∧
        loadPage secondChance (fun _ _ mem => (mem, false)) vm1 1 0x8048000 true true =
          .ok (true, vm2) ∧
        vm2.maps 1 0x8048000 = some (0xc0107000, true) ∧
        tableInstallZeropage
          (vm2.setMem (Function.update vm2.palloc.mem (0xc0107000 + 5) 42#8)) 2 0x8048000
          (some ⟨false, 0, .ALL_ZERO, false, 0⟩) = .ok (true, vm3) ∧
        loadPage secondChance (fun _ _ mem => (mem, false)) vm3 2 0x8048000 true true =
          .ok (true, vm4) ∧
        loadPage secondChance (fun _ _ mem => (mem, false)) vm4 1 0x8048000 true true =
          .ok (true, vm5) ∧
        vm5.maps 1 0x8048000 = some (0xc0107000, true) :=
    ⟨_, _, _, _, _, _, _, rfl, rfl, rfl, rfl, rfl, rfl, rfl, rfl, rfl⟩
  have hrun : Reaches (Paging.Step fun _ _ mem => (mem, false)) Always
      ⟨Vm.boot palloc swap Pagedir.empty 264, AddressSpaces.zero⟩
      ⟨vm5, AddressSpaces.zero.write 1 0x8048000 ⟨5, by decide⟩ 42#8⟩ :=
    (((((Reaches.refl.step (.zeropage hz1) trivial).step (.load hl1) trivial).step
      (.write hm1 (.refl _)) trivial).step (.zeropage hz2) trivial).step (.load hl2) trivial).step
      (.load hl3) trivial
  have hpage := paging_preserves_contents (by decide) (by decide) hinit hswap hrun _ _ _ _ hm2
  refine ⟨palloc, swap, _, _, hinit, hswap, hrun, hm2, ?_⟩
  exact (congrFun hpage ⟨5, by decide⟩).trans rfl

end Pintos.Virtualmemory
