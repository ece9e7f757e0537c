/-
# Write protection

A page is installed with a permission: `load_segment` gives read-only pages to code.  When the page
is evicted its entry keeps nothing of that, and `virtualmemory_load_page` maps every page it reads
from the swap device as writable.

The model keeps the permission each page was installed with.
-/

import Pintos.Vm.Agreement

namespace Pintos.Virtualmemory

open Base Pagedir Vm

/-- Virtual memory, and the permission each page was installed with. -/
structure Protection where
  vm : Vm
  installed : ℕ → ℕ → Option Bool

/-- Page `u` of process `p` was installed, or unmapped. -/
def Protection.note (s : Protection) (vm : Vm) (p u : ℕ) (w : Option Bool) : Protection where
  vm := vm
  installed q v := if q = p ∧ v = u then w else s.installed q v

inductive PageCall
  | allocate (p : ℕ) (flags : PallocFlags) (upage : ℕ) (malloc : Bool)
  | install (p upage kpage : ℕ) (writable : Bool) (block : Option PageTableEntry) (alloc : Bool)
  | free (kpage : ℕ)
  | fault (p : ℕ) (f : Fault) (block : Option PageTableEntry) (malloc alloc : Bool)
  | load (p upage : ℕ) (malloc alloc : Bool)
  | unmap (p upage offset bytes : ℕ) (tmpPage : Option ℕ)
  | access (mem : Memory) (initPageDir : Pagedir)

/-- One call that returns, by any process.  A page is installed once, until it is unmapped. -/
inductive Protection.Step (policy : SwapPolicy) (fs : LoadPageFromFilesys) :
    Protection → PageCall → Protection → Prop
  | allocate {s : Protection} {p : ℕ} {flags : PallocFlags} {u : ℕ} {malloc : Bool}
      {r : Option ℕ} {vm' : Vm} :
      frameAllocate policy s.vm p flags u malloc = .ok (r, vm') →
      Step policy fs s (.allocate p flags u malloc) ⟨vm', s.installed⟩
  | install {s : Protection} {p u k : ℕ} {w alloc r : Bool} {block : Option PageTableEntry}
      {vm' : Vm} : s.installed p u = none →
      installPage s.vm p u k w block alloc = .ok (r, vm') →
      Step policy fs s (.install p u k w block alloc)
        (s.note vm' p u (if r then some w else none))
  | free {s : Protection} {k : ℕ} {vm' : Vm} : frameFree s.vm k = .ok vm' →
      Step policy fs s (.free k) ⟨vm', s.installed⟩
  | fault {s : Protection} {p : ℕ} {f : Fault} {block : Option PageTableEntry}
      {malloc alloc r : Bool} {vm' : Vm} :
      pageFault policy fs s.vm p f block malloc alloc = .ok (r, vm') →
      Step policy fs s (.fault p f block malloc alloc) ⟨vm', s.installed⟩
  | load {s : Protection} {p u : ℕ} {malloc alloc r : Bool} {vm' : Vm} :
      loadPage policy fs s.vm p u malloc alloc = .ok (r, vm') →
      Step policy fs s (.load p u malloc alloc) ⟨vm', s.installed⟩
  | unmap {s : Protection} {p u offset bytes : ℕ} {tmp : Option ℕ} {w : Option FileWrite}
      {vm' : Vm} : tableMmUnmap s.vm p u offset bytes tmp = .ok (w, vm') →
      Step policy fs s (.unmap p u offset bytes tmp) (s.note vm' p u none)
  | access {s : Protection} {vm' : Vm} {mem : Memory} {pd : Pagedir} : s.vm.SameView vm' →
      Step policy fs s (.access mem pd) ⟨{ vm'.setMem mem with initPageDir := pd }, s.installed⟩

/-- **Write protection survives paging**: a present page has the permission it was installed
with. -/
def Protection.Survives (s : Protection) : Prop :=
  ∀ p u w, s.installed p u = some w → ∀ k w', s.vm.maps p u = some (k, w') → w' = w

/-- Page `u` of `p` is no read-only one that has to be brought back. -/
def Protection.Loadable (s : Protection) (p u : ℕ) : Prop :=
  s.installed p u = some false → ∀ e ∈ s.vm.spte p u, e.status = .ON_FRAME

def PageCall.Meets (s : Protection) : PageCall → Prop
  | .fault p f _ _ _ => f.notPresent = true → s.Loadable p (pgRoundDown f.faultAddr)
  | .load p u _ _ => s.Loadable p u
  | _ => True

/-! ### What a call does to an installed page -/

/-- A page installed with `w` has an entry, and is mapped with `w` or on the swap device. -/
structure Vm.Protects (vm : Vm) (p u : ℕ) (w : Bool) : Prop where
  present : ∀ k w', vm.maps p u = some (k, w') → w' = w
  swapped : ∃ e, vm.spte p u = some e ∧ (vm.maps p u = none → e.status = .ON_SWAP)

variable {vm vm' : Vm} {policy : SwapPolicy} {fs : LoadPageFromFilesys} {p q u v k : ℕ}
  {w r malloc alloc : Bool} {e : PageTableEntry}

lemma Filled.writable_of_swap {mem : Memory} {swap : Swap} (h : Filled fs vm k e w mem swap)
    (hst : e.status = .ON_SWAP) : w = true := by
  cases h with
  | zero => rfl
  | frame => rfl
  | swap => rfl
  | filesys hst' =>
    rw [hst] at hst'
    cases hst'

namespace Vm.Protects

variable {w' : Bool} {block : Option PageTableEntry} {f : Fault}

section

variable (h : vm.Protects p u w) {flags : PallocFlags}
include h

lemma congr (hspte : vm'.spte p u = vm.spte p u)
    (hmaps : vm'.maps p u = vm.maps p u) : vm'.Protects p u w :=
  ⟨hmaps ▸ h.present, hspte ▸ hmaps ▸ h.swapped⟩

lemma evict {f : FrameTableEntry} {idx : ℕ} (he : vm.Evicts vm' f idx) : vm'.Protects p u w := by
  obtain ⟨e, d, _, hspte⟩ := he.spte
  by_cases hpu : p = f.t ∧ u = f.upage
  · refine ⟨fun k w' hm => ?_, _, (hspte p u).trans (if_pos hpu), fun _ => rfl⟩
    rw [he.maps, if_pos hpu] at hm
    cases hm
  · exact h.congr ((hspte p u).trans (if_neg hpu)) ((he.maps p u).trans (if_neg hpu))

lemma makesRoom (hr : vm.MakesRoom flags vm') : vm'.Protects p u w := by
  cases hr with
  | enough => exact h
  | @evict palloc _ _ _ _ he =>
    have h1 : Vm.Protects { vm with palloc := palloc } p u w := h.congr rfl rfl
    exact h1.evict he

lemma allocate {r : Option ℕ} (ha : frameAllocate policy vm q flags v malloc = .ok (r, vm')) :
    vm'.Protects p u w := by
  obtain ⟨_, _, k, hroom, _, hres⟩ := frameAllocate_eq_ok ha
  have h1 := h.makesRoom hroom
  cases malloc with
  | false | true =>
    obtain ⟨_, rfl⟩ := hres
    exact h1.congr rfl rfl

lemma load_writable (he : vm.spte p u = some e) (hl : vm.Loads fs vm' p u k e w') :
    w' = true := by
  obtain ⟨_, he', hsw⟩ := h.swapped
  obtain rfl := Option.mem_unique he he'
  exact hl.filled.writable_of_swap (hsw hl.was_unmapped)

end

lemma loaded (h : vm.Protects p u true) (he : vm.spte p u = some e)
    (hl : vm.Loads fs vm' p u k e w') : vm'.Protects p u true := by
  obtain rfl := h.load_writable he hl
  have hmaps := (hl.maps p u).trans (if_pos ⟨rfl, rfl⟩)
  refine ⟨fun k' w' hm => ?_, _, (hl.spte p u).trans (if_pos ⟨rfl, rfl⟩), fun hm => ?_⟩
  · rw [hmaps] at hm
    exact (Prod.mk.inj (Option.some.inj hm)).2.symm
  · rw [hmaps] at hm
    cases hm

lemma load (h : vm.Protects p u w)
    (hmeets : q = p ∧ v = u → w = false → ∀ e ∈ vm.spte q v, e.status = .ON_FRAME)
    (hl : loadPage policy fs vm q v malloc alloc = .ok (r, vm')) : vm'.Protects p u w := by
  rcases loadPage_eq_ok hl with ⟨_, _, rfl⟩ | ⟨e, he, ⟨_, _, rfl⟩ | ⟨hst, k, _, ha, hk⟩⟩
  · exact h
  · exact h
  have h1 := h.allocate ha
  cases k with
  | none =>
    obtain ⟨_, rfl⟩ := hk
    exact h1
  | some =>
    obtain ⟨_, he1, hres⟩ := loadInto_eq_ok hk
    cases r with
    | false => exact h1.congr (hres.spte p u) (hres.maps p u)
    | true =>
      obtain ⟨_, hload⟩ := hres
      by_cases hqv : p = q ∧ u = v
      · obtain ⟨rfl, rfl⟩ := hqv
        cases w with
        | false => exact absurd (hmeets ⟨rfl, rfl⟩ rfl e he) hst
        | true => exact h1.loaded he1 hload
      · exact h1.congr ((hload.spte p u).trans (if_neg hqv)) ((hload.maps p u).trans (if_neg hqv))

lemma grow (h : vm.Protects p u w) (hg : growStack vm q f block = .ok vm') :
    vm'.Protects p u w ∧ vm'.spte p u = vm.spte p u := by
  rcases growStack_eq_ok hg with rfl | ⟨hnone, entry, _, rfl⟩
  · exact ⟨h, rfl⟩
  obtain ⟨e, he, _⟩ := h.swapped
  have hne : ¬ (p = q ∧ u = pgRoundDown f.faultAddr) := by
    rintro ⟨rfl, rfl⟩
    rw [hnone] at he
    cases he
  have hspte : (vm.setSpte q (pgRoundDown f.faultAddr) (some entry)).spte p u = vm.spte p u := by
    rw [spte_setSpte, if_neg hne]
  exact ⟨h.congr hspte (maps_setSpte ..), hspte⟩

lemma fault (h : vm.Protects p u w)
    (hmeets : q = p ∧ pgRoundDown f.faultAddr = u → f.notPresent = true → w = false →
      ∀ e ∈ vm.spte p u, e.status = .ON_FRAME)
    (hf : pageFault policy fs vm q f block malloc alloc = .ok (r, vm')) : vm'.Protects p u w := by
  unfold pageFault at hf
  split_ifs at hf with hpresent
  · obtain ⟨_, rfl⟩ := Prod.mk.inj (Except.ok.inj hf)
    exact h
  rw [Kernel.bind_eq_ok] at hf
  obtain ⟨_, hgrow, hload⟩ := hf
  obtain ⟨h1, hspte⟩ := h.grow hgrow
  refine h1.load ?_ hload
  rintro ⟨rfl, rfl⟩ hw
  rw [hspte]
  exact hmeets ⟨rfl, rfl⟩ (by simpa using hpresent) hw

lemma install (h : vm.Protects p u w) (hne : ¬ (p = q ∧ u = v))
    (hi : installPage vm q v k w' block alloc = .ok (r, vm')) : vm'.Protects p u w := by
  rcases installPage_eq_ok hi with ⟨_, e, _, hi⟩ | ⟨_, rfl⟩ | ⟨_, _, _, _, rfl, hpd⟩
  · exact h.congr ((hi.spte p u).trans (if_neg hne)) ((hi.maps p u).trans (if_neg hne))
  · exact h
  · refine h.congr (spte_setPagedir ..) ?_
    rw [maps_setPagedir_page _ _ _ _ _ hpd, if_neg hne]

lemma installed (hi : installPage vm p u k w block alloc = .ok (true, vm')) :
    vm'.Protects p u w := by
  rcases installPage_eq_ok hi with ⟨_, e, _, hi⟩ | ⟨hr, _⟩ | ⟨hr, _⟩
  · have hmaps := (hi.maps p u).trans (if_pos ⟨rfl, rfl⟩)
    refine ⟨fun k' w' hm => ?_, e, (hi.spte p u).trans (if_pos ⟨rfl, rfl⟩), fun hm => ?_⟩
    · rw [hmaps] at hm
      exact (Prod.mk.inj (Option.some.inj hm)).2.symm
    · rw [hmaps] at hm
      cases hm
  · cases hr
  · cases hr

lemma unmap (h : vm.Protects p u w) {offset bytes : ℕ} {tmp : Option ℕ} {fw : Option FileWrite}
    (hne : ¬ (p = q ∧ u = v)) (hm : tableMmUnmap vm q v offset bytes tmp = .ok (fw, vm')) :
    vm'.Protects p u w := by
  obtain ⟨e, _, hspte, hrest⟩ := tableMmUnmap_eq_ok hm
  refine h.congr ((hspte p u).trans (if_neg hne)) ?_
  split_ifs at hrest
  · exact (hrest.2.2 p u).trans (if_neg hne)
  · exact hrest.2.2 p u

end Vm.Protects

lemma loadPage_writable (h : vm.Protects p u w) (hoff : ∀ e ∈ vm.spte p u, e.status ≠ .ON_FRAME)
    (hl : loadPage policy fs vm p u malloc alloc = .ok (true, vm')) :
    ∃ k, vm'.maps p u = some (k, true) := by
  rcases loadPage_eq_ok hl with ⟨_, hr, _⟩ | ⟨e, he, ⟨hst, _⟩ | ⟨_, k, _, ha, hk⟩⟩
  · cases hr
  · exact absurd hst (hoff e he)
  cases k with
  | none =>
    obtain ⟨hr, _⟩ := hk
    cases hr
  | some =>
    obtain ⟨_, he1, _, hload⟩ := loadInto_eq_ok hk
    obtain rfl := (h.allocate ha).load_writable he1 hload
    exact ⟨_, (hload.maps p u).trans (if_pos ⟨rfl, rfl⟩)⟩

namespace Protection

def Inv (s : Protection) : Prop :=
  ∀ p u w, s.installed p u = some w → s.vm.Protects p u w

variable {s s' : Protection}

lemma Inv.of_protects (h : s.Inv)
    (hp : ∀ p u w, s.installed p u = some w → s.vm.Protects p u w → vm'.Protects p u w) :
    Inv ⟨vm', s.installed⟩ :=
  fun p u w hw => hp p u w hw (h p u w hw)

lemma Inv.note (h : s.Inv) {w : Option Bool} (hnew : ∀ w' ∈ w, vm'.Protects q v w')
    (hp : ∀ p u w, ¬ (p = q ∧ u = v) → s.vm.Protects p u w → vm'.Protects p u w) :
    (s.note vm' q v w).Inv := by
  intro p u w' hw
  dsimp only [Protection.note] at hw ⊢
  split_ifs at hw with hpu
  · obtain ⟨rfl, rfl⟩ := hpu
    exact hnew w' hw
  · exact hp p u w' hpu (h p u w' hw)

theorem Inv.step {c : PageCall} (h : s.Inv) (hs : Step policy fs s c s') (hm : c.Meets s) :
    s'.Inv := by
  cases hs with
  | allocate ha => exact h.of_protects fun p u w _ hp => hp.allocate ha
  | @install q v k w alloc r block vm' hnone hi =>
    refine h.note (fun w' hw' => ?_) fun p u w hne hp => hp.install hne hi
    cases r with
    | false => cases hw'
    | true =>
      cases hw'
      exact .installed hi
  | free hf =>
    have hd := frameFree_drops hf
    exact h.of_protects fun p u w _ hp => hp.congr (hd.spte p u) (hd.maps p u)
  | fault hf =>
    refine h.of_protects fun p u w hw hp => hp.fault ?_ hf
    rintro ⟨rfl, rfl⟩ hpresent rfl
    exact hm hpresent hw
  | load hl =>
    refine h.of_protects fun p u w hw hp => hp.load ?_ hl
    rintro ⟨rfl, rfl⟩ rfl
    exact hm hw
  | unmap hu => exact h.note (fun w' hw' => by cases hw') fun p u w hne hp => hp.unmap hne hu
  | access hview =>
    exact h.of_protects fun p u w _ hp => hp.congr (hview.spte p u) (hview.maps p u)

end Protection

/-- **Write protection survives paging** in every run that loads no page back that was installed
read-only. -/
theorem protection_survives {palloc : Palloc} {swap : Swap} {pd : Pagedir} {ram : ℕ}
    {policy : SwapPolicy} {fs : LoadPageFromFilesys} {s : Protection}
    (hrun : Reaches (Protection.Step policy fs) PageCall.Meets
      ⟨boot palloc swap pd ram, fun _ _ => none⟩ s) : s.Survives := by
  have hboot : Protection.Inv ⟨boot palloc swap pd ram, fun _ _ => none⟩ := by
    intro p u w hw
    cases hw
  have hinv : s.Inv := by
    refine hrun.invariant Protection.Inv ?_ hboot
    exact fun h hs hm => h.step hs hm
  exact fun p u w hw => (hinv p u w hw).present

lemma reload_steps (w : Bool) : ∃ palloc swap s1 s2 s3 s4 s5,
    pallocInit 264 2 (fun _ => 0) (fun _ => 0) (fun _ => 0) = .ok palloc ∧
      swapInit (some nineSectors) true (some fun _ => 0) = .ok swap ∧
      Protection.Step secondChance (fun _ _ mem => (mem, false))
        ⟨boot palloc swap empty 264, fun _ _ => none⟩ (.allocate 1 {} 0x8048000 true) s1 ∧
      Protection.Step secondChance (fun _ _ mem => (mem, false)) s1
        (.install 1 0x8048000 0xc0107000 w (some ⟨false, 0, .ALL_ZERO, false, 0⟩) true) s2 ∧
      Protection.Step secondChance (fun _ _ mem => (mem, false)) s2
        (.allocate 1 {} 0x8049000 true) s3 ∧
      Protection.Step secondChance (fun _ _ mem => (mem, false)) s3 (.free 0xc0107000) s4 ∧
      Protection.Step secondChance (fun _ _ mem => (mem, false)) s4
        (.load 1 0x8048000 true true) s5 ∧
      s4.installed 1 0x8048000 = some w ∧ s5.installed 1 0x8048000 = some w ∧
      s5.vm.maps 1 0x8048000 = some (0xc0107000, true) := by
  cases w with
  | false | true =>
    exact ⟨_, _, _, _, _, _, _, rfl, rfl, .allocate rfl, .install rfl rfl, .allocate rfl, .free rfl,
      .load rfl, rfl, rfl, rfl⟩

theorem protection_survives_reload : ∃ palloc swap s,
    Reaches (Protection.Step secondChance fun _ _ mem => (mem, false)) PageCall.Meets
        ⟨boot palloc swap empty 264, fun _ _ => none⟩ s ∧
      s.installed 1 0x8048000 = some true ∧ s.vm.maps 1 0x8048000 = some (0xc0107000, true) ∧
      s.Survives := by
  obtain ⟨palloc, swap, _, _, _, s4, s5, _, _, hs1, hs2, hs3, hs4, hs5, hw4, hw, hmaps⟩ :=
    reload_steps true
  have hload : PageCall.Meets s4 (.load 1 0x8048000 true true) := by
    intro hw
    rw [hw4] at hw
    cases hw
  have hrun : Reaches (Protection.Step secondChance fun _ _ mem => (mem, false)) PageCall.Meets
      ⟨boot palloc swap empty 264, fun _ _ => none⟩ s5 :=
    ((((Reaches.refl.step hs1 trivial).step hs2 trivial).step hs3 trivial).step hs4 trivial).step
      hs5 hload
  exact ⟨palloc, swap, s5, hrun, hw, hmaps, protection_survives hrun⟩

/-- **A read-only page becomes writable** when loaded back. -/
theorem protection_lost_reload : ∃ palloc swap s,
    pallocInit 264 2 (fun _ => 0) (fun _ => 0) (fun _ => 0) = .ok palloc ∧
      swapInit (some nineSectors) true (some fun _ => 0) = .ok swap ∧
      Reaches (Protection.Step secondChance fun _ _ mem => (mem, false)) Always
        ⟨boot palloc swap empty 264, fun _ _ => none⟩ s ∧
      s.installed 1 0x8048000 = some false ∧ s.vm.maps 1 0x8048000 = some (0xc0107000, true) ∧
      ¬ s.Survives := by
  obtain ⟨palloc, swap, _, _, _, _, s5, hinit, hswap, hs1, hs2, hs3, hs4, hs5, _, hw, hmaps⟩ :=
    reload_steps false
  have hrun : Reaches (Protection.Step secondChance fun _ _ mem => (mem, false)) Always
      ⟨boot palloc swap empty 264, fun _ _ => none⟩ s5 :=
    ((((Reaches.refl.step hs1 trivial).step hs2 trivial).step hs3 trivial).step hs4 trivial).step
      hs5 trivial
  refine ⟨palloc, swap, s5, hinit, hswap, hrun, hw, hmaps, fun hs => ?_⟩
  cases hs 1 0x8048000 false hw _ _ hmaps

end Pintos.Virtualmemory
