/-
# The three tables agree

Runs of any number of processes over `frameAllocate`, `install_page`, page faults, `load_page` and
`mm_unmap`, call by call.  A process that builds its address space allocates a frame for a page and
then installs the page on it, or frees the frame if that fails; in between the frame is pending, and
other processes run.

`Vm.Agree` is the agreement of the supplemental page tables, the frame table and the page
directories.  It holds without two flaws: `virtualmemory_table_install_frame` leaves the new entry
as `malloc` returned it, and `install_page` maps a page that has an entry already before it notices.
-/

import Pintos.Base.Prog
import Pintos.Vm.Residency
import Pintos.Vm.SwapSafety

namespace Pintos.Virtualmemory

open Base Function Kernel Option Pagedir Vm List

/-- **Three-way agreement.** -/
structure Vm.Agree (vm : Vm) : Prop where
  /-- A page is on frame `k` exactly when the frame table has one entry for the two and it is
  mapped. -/
  resident : ∀ p u k, (∃ e, vm.spte p u = some e ∧ e.status = .ON_FRAME ∧ e.kpage = k) ↔
    vm.frames.countP (fun f => f.t = p ∧ f.upage = u ∧ f.kpage = k) = 1 ∧
      ∃ w, vm.maps p u = some (k, w)
  swapped : ∀ p u e, vm.spte p u = some e → e.status = .ON_SWAP →
    e.kpage = 0 ∧ (∀ f ∈ vm.frames, ¬ (f.t = p ∧ f.upage = u)) ∧ vm.maps p u = none

/-- The state of virtual memory, and the frames about to be installed. -/
structure Tables where
  vm : Vm
  pending : ℕ → Option (ℕ × ℕ)

inductive Call
  | allocate (p : ℕ) (flags : PallocFlags) (upage : ℕ) (malloc : Bool)
  | install (p : ℕ) (writable : Bool) (block : Option PageTableEntry) (alloc : Bool)
  | release (p : ℕ)
  | fault (p : ℕ) (f : Fault) (block : Option PageTableEntry) (malloc alloc : Bool)
  | load (p upage : ℕ) (malloc alloc : Bool)
  | unmap (p upage offset bytes : ℕ) (tmpPage : Option ℕ)
  | access (mem : Memory) (initPageDir : Pagedir)

/-- One call; one that panics ends the run.  A process with a pending frame installs the page or
frees the frame first.  `access` is the rest of the machine: memory, accessed and dirty bits. -/
inductive Tables.Step (policy : SwapPolicy) (fs : LoadPageFromFilesys) :
    Tables → Call → Tables → Prop
  | allocate {s : Tables} {p : ℕ} {flags : PallocFlags} {u : ℕ} {malloc : Bool} {r : Option ℕ}
      {vm' : Vm} : s.pending p = none →
      frameAllocate policy s.vm p flags u malloc = .ok (r, vm') →
      Step policy fs s (.allocate p flags u malloc)
        ⟨vm', update s.pending p (r.map fun k => (u, k))⟩
  | install {s : Tables} {p u k : ℕ} {w alloc r : Bool} {block : Option PageTableEntry}
      {vm' : Vm} : s.pending p = some (u, k) →
      installPage s.vm p u k w block alloc = .ok (r, vm') →
      Step policy fs s (.install p w block alloc)
        ⟨vm', if r then update s.pending p none else s.pending⟩
  | release {s : Tables} {p u k : ℕ} {vm' : Vm} : s.pending p = some (u, k) →
      frameFree s.vm k = .ok vm' →
      Step policy fs s (.release p) ⟨vm', update s.pending p none⟩
  | fault {s : Tables} {p : ℕ} {f : Fault} {block : Option PageTableEntry}
      {malloc alloc r : Bool} {vm' : Vm} : s.pending p = none →
      pageFault policy fs s.vm p f block malloc alloc = .ok (r, vm') →
      Step policy fs s (.fault p f block malloc alloc) ⟨vm', s.pending⟩
  | load {s : Tables} {p u : ℕ} {malloc alloc r : Bool} {vm' : Vm} : s.pending p = none →
      loadPage policy fs s.vm p u malloc alloc = .ok (r, vm') →
      Step policy fs s (.load p u malloc alloc) ⟨vm', s.pending⟩
  | unmap {s : Tables} {p u offset bytes : ℕ} {tmp : Option ℕ} {w : Option FileWrite} {vm' : Vm} :
      s.pending p = none → tableMmUnmap s.vm p u offset bytes tmp = .ok (w, vm') →
      Step policy fs s (.unmap p u offset bytes tmp) ⟨vm', s.pending⟩
  | access {s : Tables} {vm' : Vm} {mem : Memory} {pd : Pagedir} : s.vm.SameView vm' →
      Step policy fs s (.access mem pd) ⟨{ vm'.setMem mem with initPageDir := pd }, s.pending⟩

/-- The condition: frames are asked for only for pages without an entry, and the block for an
installed page happens to hold `ON_FRAME` and the frame. -/
def Call.Meets (s : Tables) : Call → Prop
  | .allocate p _ u _ => s.vm.spte p u = none
  | .install p _ block _ => ∀ u k, s.pending p = some (u, k) →
      ∀ e ∈ block, e.status = .ON_FRAME ∧ e.kpage = k
  | _ => True

def Vm.boot (palloc : Palloc) (swap : Swap) (initPageDir : Pagedir) (ram : ℕ) : Vm :=
  { palloc := palloc, swap := swap, frames := [], historyNum := 0
    procs := fun _ => ⟨empty, fun _ => none⟩
    initPageDir := initPageDir, initRamPages := ram }

/-! ### The invariant -/

/-- What every call preserves: the tables agree, and the pinned frames are the pending ones. -/
structure Tables.Inv (s : Tables) : Prop where
  core : s.vm.Core
  pins : ∀ f ∈ s.vm.frames, f.pinned = true → s.pending f.t = some (f.upage, f.kpage)
  pending : ∀ p u k, s.pending p = some (u, k) →
    (∀ e ∈ s.vm.spte p u, e.status ≠ .ON_FRAME) ∧
      ∃ f ∈ s.vm.frames, f.pinned = true ∧ f.t = p ∧ f.upage = u ∧ f.kpage = k

def Tables.Fresh (s : Tables) : Prop :=
  ∀ p u k, s.pending p = some (u, k) → s.vm.spte p u = none

variable {entry : PageTableEntry} {palloc : Palloc} {swap : Swap} {ram : ℕ}

namespace Tables

variable {policy : SwapPolicy} {fs : LoadPageFromFilesys} {s s' : Tables} {vm vm' : Vm}
  {p u k : ℕ} {malloc alloc r : Bool} {block : Option PageTableEntry} {f : Fault}

section

variable (h : s.Inv)
include h

lemma Inv.agree (hfresh : s.Fresh) : s.vm.Agree := by
  have hcount : ∀ f ∈ s.vm.frames,
      s.vm.frames.countP (fun g => g.t = f.t ∧ g.upage = f.upage ∧ g.kpage = f.kpage) = 1 := by
    intro f hf
    have hcongr : ∀ g ∈ s.vm.frames,
        (decide (g.t = f.t ∧ g.upage = f.upage ∧ g.kpage = f.kpage) = true ↔ (g == f) = true) := by
      intro g hg
      rw [decide_eq_true_iff, beq_iff_eq]
      constructor
      · exact fun hgf => h.core.eq_of_kpage hg hf hgf.2.2
      · rintro rfl
        exact ⟨rfl, rfl, rfl⟩
    rw [countP_congr hcongr]
    exact count_eq_one_of_mem (List.Nodup.of_map _ h.core.nodup) hf
  refine ⟨fun p u k => ⟨?_, ?_⟩, fun p u e he hst => ⟨h.core.swapped p u e he hst, ?_, ?_⟩⟩
  · rintro ⟨e, he, hst, rfl⟩
    obtain ⟨w, hw⟩ := h.core.resident p u e he hst
    obtain ⟨f, hf, _, rfl, rfl, hk⟩ := h.core.mapped p u _ w hw
    exact ⟨hk ▸ hcount f hf, w, hw⟩
  · rintro ⟨_, w, hw⟩
    exact h.core.on_frame_of_mapped hw
  · rintro f hf ⟨rfl, rfl⟩
    cases hpin : f.pinned with
    | true =>
      have hnone := hfresh _ _ _ (h.pins f hf hpin)
      rw [hnone] at he
      cases he
    | false =>
      obtain ⟨_, he', hst', _⟩ := h.core.unpinned f hf hpin
      rw [he'] at he
      cases he
      rw [hst'] at hst
      cases hst
  · refine h.core.unmapped fun e' he' hst' => ?_
    rw [he] at he'
    cases he'
    rw [hst'] at hst
    cases hst

lemma Inv.pending_frame (hp : s.pending p = some (u, k)) :
    ∃ f ∈ s.vm.frames, f.pinned = true ∧ f.t = p ∧ f.upage = u ∧ f.kpage = k :=
  (h.pending p u k hp).2

lemma Inv.ne_of_kpage (hp : s.pending p = some (u, k)) {g : FrameTableEntry}
    (hg : g ∈ s.vm.frames) (hpin : g.pinned = true) (hne : g.kpage ≠ k) : g.t ≠ p := by
  rintro rfl
  have := h.pins g hg hpin
  rw [hp] at this
  obtain ⟨_, rfl⟩ := Prod.mk.inj (some.inj this)
  exact hne rfl

lemma Inv.allocated {r : Option ℕ} (hp : s.pending p = none)
    (hoff : ∀ e ∈ s.vm.spte p u, e.status ≠ .ON_FRAME) (ha : s.vm.Allocated vm' p u r) :
    Inv ⟨vm', update s.pending p (r.map fun k => (u, k))⟩ := by
  refine ⟨ha.core, fun f hf hpin => ?_, fun q v k hq => ?_⟩
  · dsimp only
    rcases (ha.pinned f hpin).1 hf with hold | ⟨_, hr, rfl, rfl⟩
    · have hft : f.t ≠ p := by
        rintro rfl
        rw [h.pins f hold hpin] at hp
        cases hp
      rw [update_of_ne hft, h.pins f hold hpin]
    · rw [update_self, hr]
      rfl
  · dsimp only at hq ⊢
    by_cases hqp : q = p
    · subst hqp
      rw [update_self, map_eq_some_iff] at hq
      obtain ⟨_, rfl, hq⟩ := hq
      cases hq
      obtain ⟨f, hf, hpin, ht, hu, hk, _⟩ := ha.entered _ rfl
      exact ⟨by rw [ha.spte _ _ hoff]; exact hoff, f, hf, hpin, ht, hu, hk⟩
    · rw [update_of_ne hqp] at hq
      obtain ⟨hoff', f, hf, hpin, hrest⟩ := h.pending q v k hq
      exact ⟨by rw [ha.spte _ _ hoff']; exact hoff', f, (ha.pinned f hpin).2 (.inl hf), hpin, hrest⟩

lemma Inv.settled {w : Bool} (hp : s.pending p = some (u, k))
    (hs : s.vm.Settles vm' p u k w entry) : Inv ⟨vm', update s.pending p none⟩ := by
  obtain ⟨f, hf, hpin, rfl, rfl, rfl⟩ := h.pending_frame hp
  refine ⟨h.core.settle hf hpin (h.pending _ _ _ hp).1 hs, fun g hg hgpin => ?_, fun q v k hq => ?_⟩
  · dsimp only at hg ⊢
    rw [hs.frames] at hg
    obtain ⟨g0, hg0, rfl⟩ := mem_map.1 hg
    by_cases hk : g0.kpage = f.kpage
    · simp [unpinned, hk] at hgpin
    · rw [unpinned, if_neg hk] at hgpin ⊢
      rw [update_of_ne (h.ne_of_kpage hp hg0 hgpin hk), h.pins g0 hg0 hgpin]
  · dsimp only at hq ⊢
    obtain ⟨hqp, hq⟩ := update_none_cases hq
    obtain ⟨hoff, g, hg, hgpin, rfl, rfl, rfl⟩ := h.pending q v k hq
    have hk : g.kpage ≠ f.kpage := fun hk => hqp (by rw [h.core.eq_of_kpage hg hf hk])
    refine ⟨?_, g, ?_, hgpin, rfl, rfl, rfl⟩
    · rw [hs.spte, if_neg fun hgf => hqp hgf.1]
      exact hoff
    · rw [hs.frames]
      exact mem_map.2 ⟨g, hg, if_neg hk⟩

lemma Inv.dropped (hp : s.pending p = some (u, k)) (hd : s.vm.Drops vm' k) :
    Inv ⟨vm', update s.pending p none⟩ := by
  obtain ⟨f, hf, hpin, rfl, rfl, rfl⟩ := h.pending_frame hp
  have hmem : ∀ g, g ∈ vm'.frames ↔ g ∈ s.vm.frames ∧ g.kpage ≠ f.kpage := by
    intro g
    rw [hd.frames, mem_filter, decide_eq_true_iff]
  refine ⟨h.core.drop hf hpin hd, fun g hg hgpin => ?_, fun q v k hq => ?_⟩
  · dsimp only at hg ⊢
    obtain ⟨hg, hk⟩ := (hmem g).1 hg
    rw [update_of_ne (h.ne_of_kpage hp hg hgpin hk), h.pins g hg hgpin]
  · dsimp only at hq ⊢
    obtain ⟨hqp, hq⟩ := update_none_cases hq
    obtain ⟨hoff, g, hg, hgpin, rfl, rfl, rfl⟩ := h.pending q v k hq
    have hk : g.kpage ≠ f.kpage := fun hk => hqp (by rw [h.core.eq_of_kpage hg hf hk])
    exact ⟨by rw [hd.spte]; exact hoff, g, (hmem g).2 ⟨hg, hk⟩, hgpin, rfl, rfl, rfl⟩

lemma Inv.kept (hk : s.vm.Keeps vm') : Inv ⟨vm', s.pending⟩ := by
  refine ⟨hk.core, fun f hf hpin => h.pins f ((hk.pinned f hpin).1 hf) hpin, fun p u k hp => ?_⟩
  obtain ⟨hoff, f, hf, hpin, hrest⟩ := h.pending p u k hp
  exact ⟨by rw [hk.spte _ _ hoff]; exact hoff, f, (hk.pinned f hpin).2 hf, hpin, hrest⟩

/-- **Loading a page** keeps the invariant, and other entries that are not resident. -/
theorem Inv.load (hp : s.pending p = none)
    (hl : loadPage policy fs s.vm p u malloc alloc = .ok (r, vm')) :
    Inv ⟨vm', s.pending⟩ ∧ ∀ q v, q ≠ p → s.vm.spte q v = none → vm'.spte q v = none := by
  rcases loadPage_eq_ok hl with ⟨_, _, rfl⟩ | ⟨e, he, ⟨_, _, rfl⟩ | ⟨hst, k, vm1, ha, hk⟩⟩
  · exact ⟨h, fun _ _ _ hnone => hnone⟩
  · exact ⟨h, fun _ _ _ hnone => hnone⟩
  have hoff : ∀ e' ∈ s.vm.spte p u, e'.status ≠ .ON_FRAME := by
    intro _ he'
    rw [he] at he'
    exact some.inj he' ▸ hst
  have hall := h.core.allocate ha
  have hinv := h.allocated hp hoff hall
  have hnone1 : ∀ q v, s.vm.spte q v = none → vm1.spte q v = none := by
    intro q v hnone
    rw [hall.spte q v (by rw [hnone]; simp), hnone]
  -- once the load is over nothing is pending for `p` again
  have hpending : ∀ x, update (update s.pending p x) p none = s.pending := by
    intro x
    rw [update_idem, ← hp, update_eq_self]
  cases k with
  | none =>
    obtain ⟨_, rfl⟩ := hk
    rw [map_none, ← hp, update_eq_self] at hinv
    exact ⟨hinv, fun q v _ => hnone1 q v⟩
  | some k =>
    have hpk : update s.pending p ((some k).map fun k => (u, k)) p = some (u, k) := update_self ..
    obtain ⟨_, _, hinto⟩ := loadInto_eq_ok hk
    cases r with
    | true =>
      obtain ⟨w, hload⟩ := hinto
      have hdone := hinv.settled hpk hload.settles
      dsimp only at hdone
      rw [hpending] at hdone
      refine ⟨hdone, fun q v hq hnone => ?_⟩
      rw [hload.spte, if_neg fun hqp => hq hqp.1]
      exact hnone1 q v hnone
    | false =>
      have hdone := hinv.dropped hpk hinto
      dsimp only at hdone
      rw [hpending] at hdone
      refine ⟨hdone, fun q v _ hnone => ?_⟩
      rw [hinto.spte]
      exact hnone1 q v hnone

lemma Inv.grow (hp : s.pending p = none) (hg : growStack s.vm p f block = .ok vm') :
    Inv ⟨vm', s.pending⟩ ∧ ∀ q v, q ≠ p → vm'.spte q v = s.vm.spte q v := by
  rcases growStack_eq_ok hg with rfl | ⟨hnone, entry, hst, rfl⟩
  · exact ⟨h, fun _ _ _ => rfl⟩
  have hkeep : ∀ q v, q ≠ p →
      (s.vm.setSpte p (pgRoundDown f.faultAddr) (some entry)).spte q v = s.vm.spte q v := by
    intro q v hq
    rw [spte_setSpte, if_neg fun hqp => hq hqp.1]
  refine ⟨⟨?_, h.pins, fun q v k hq => ?_⟩, hkeep⟩
  · refine h.core.turn (some entry) (by rw [hnone]; simp) ?_ (fun _ => rfl) rfl
      (fun q v => spte_setSpte ..) (fun q v => maps_setSpte ..)
    rintro _ ⟨⟩
    exact ⟨by rw [hst]; decide, fun hsw => by rw [hst] at hsw; cases hsw⟩
  · obtain ⟨hoff, hframe⟩ := h.pending q v k hq
    refine ⟨?_, hframe⟩
    have hqp : q ≠ p := by
      rintro rfl
      rw [hp] at hq
      cases hq
    dsimp only
    rw [hkeep q v hqp]
    exact hoff

lemma Inv.unmap {offset bytes : ℕ} {tmp : Option ℕ} {w : Option FileWrite}
    (hm : tableMmUnmap s.vm p u offset bytes tmp = .ok (w, vm')) :
    Inv ⟨vm', s.pending⟩ ∧ ∀ q v, s.vm.spte q v = none → vm'.spte q v = none := by
  obtain ⟨e, he, hspte, hrest⟩ := tableMmUnmap_eq_ok hm
  have hnone : ∀ q v, s.vm.spte q v = none → vm'.spte q v = none := by
    intro q v hnone
    rw [hspte, hnone, ite_self]
  refine ⟨?_, hnone⟩
  split_ifs at hrest with hst
  · obtain ⟨hfree, hframes, hmaps⟩ := hrest
    obtain ⟨w, hw⟩ := h.core.resident p u e he hst
    obtain ⟨f, hf, hun, rfl, rfl, hk⟩ := h.core.mapped p u _ w hw
    rw [← hk] at hfree hframes
    exact h.kept (h.core.keeps_of_leaves ⟨hf, hun, by simp, hfree, hframes, hspte, hmaps⟩)
  · obtain ⟨hpalloc, hframes, hmaps⟩ := hrest
    have hoff : ∀ e' ∈ s.vm.spte p u, e'.status ≠ .ON_FRAME := by
      intro _ he'
      rw [he] at he'
      exact some.inj he' ▸ hst
    refine ⟨h.core.turn none hoff (by simp) (fun b => ?_) hframes hspte hmaps, fun f hf => ?_,
      fun q v k hq => ?_⟩
    · rw [hpalloc, Palloc.pool_mem]
    · exact h.pins f (hframes ▸ hf)
    · obtain ⟨hoff', hframe⟩ := h.pending q v k hq
      refine ⟨fun e' he' => ?_, hframes ▸ hframe⟩
      dsimp only at he'
      rw [hspte] at he'
      split_ifs at he'
      · cases he'
      · exact hoff' e' he'

lemma Inv.fault (hp : s.pending p = none)
    (hf : pageFault policy fs s.vm p f block malloc alloc = .ok (r, vm')) :
    Inv ⟨vm', s.pending⟩ ∧ ∀ q v, q ≠ p → s.vm.spte q v = none → vm'.spte q v = none := by
  unfold pageFault at hf
  split_ifs at hf
  · cases hf
    exact ⟨h, fun _ _ _ hnone => hnone⟩
  · rw [bind_eq_ok] at hf
    obtain ⟨vm1, hgrow, hload⟩ := hf
    obtain ⟨hinv1, hkeep1⟩ := h.grow hp hgrow
    obtain ⟨hinv, hkeep⟩ := hinv1.load (s := ⟨vm1, s.pending⟩) hp hload
    exact ⟨hinv, fun q v hq hnone => hkeep q v hq ((hkeep1 q v hq).trans hnone)⟩

lemma Inv.congr (hpool : ∀ b, vm'.palloc.pool b = s.vm.palloc.pool b)
    (hframes : vm'.frames = s.vm.frames) (hspte : ∀ q v, vm'.spte q v = s.vm.spte q v)
    (hmaps : ∀ q v, vm'.maps q v = s.vm.maps q v) : Inv ⟨vm', s.pending⟩ :=
  h.kept ⟨h.core.congr hpool hframes hspte hmaps, fun _ _ => by rw [hframes],
    fun q v _ => hspte q v⟩

end

theorem Inv.step {c : Call} (h : s.Inv ∧ s.Fresh) (hs : Step policy fs s c s')
    (hm : c.Meets s) : s'.Inv ∧ s'.Fresh := by
  obtain ⟨h, hfresh⟩ := h
  -- the pending pages of the processes other than the caller
  have hothers : ∀ {p : ℕ} {vm' : Vm}, s.pending p = none →
      (∀ q v, q ≠ p → s.vm.spte q v = none → vm'.spte q v = none) →
      Fresh ⟨vm', s.pending⟩ := by
    intro p _ hp hkeep q v k hq
    refine hkeep q v ?_ (hfresh q v k hq)
    rintro rfl
    dsimp only at hq
    rw [hp] at hq
    cases hq
  cases hs with
  | @allocate p flags u malloc r vm' hp ha =>
    have hnone : s.vm.spte p u = none := hm
    have hoff : ∀ e ∈ s.vm.spte p u, e.status ≠ .ON_FRAME := by rw [hnone]; simp
    have hall := h.core.allocate ha
    refine ⟨h.allocated hp hoff hall, fun q v k hq => ?_⟩
    dsimp only at hq ⊢
    by_cases hqp : q = p
    · subst hqp
      rw [update_self, map_eq_some_iff] at hq
      obtain ⟨_, rfl, hq⟩ := hq
      cases hq
      rw [hall.spte _ _ hoff, hnone]
    · rw [update_of_ne hqp] at hq
      have hnone' := hfresh q v k hq
      rw [hall.spte _ _ (by rw [hnone']; simp), hnone']
  | @install p u k w alloc r block vm' hp hinst =>
    have hnone := hfresh p u k hp
    rcases installPage_eq_ok hinst with ⟨rfl, entry, rfl, hi⟩ | ⟨rfl, rfl⟩ | ⟨_, _, hsome, _⟩
    · obtain ⟨hst, hk⟩ := hm u k hp entry rfl
      refine ⟨h.settled hp (hi.settles hst hk), fun q v k' hq => ?_⟩
      simp only [if_true] at hq ⊢
      by_cases hqp : q = p
      · rw [hqp, update_self] at hq
        cases hq
      · rw [update_of_ne hqp] at hq
        rw [hi.spte, if_neg fun hqp' => hqp hqp'.1, hfresh q v k' hq]
    · exact ⟨h, hfresh⟩
    · exact absurd hnone hsome
  | @release p u k vm' hp hfree =>
    have hd := frameFree_drops hfree
    refine ⟨h.dropped hp hd, fun q v k' hq => ?_⟩
    dsimp only at hq ⊢
    by_cases hqp : q = p
    · rw [hqp, update_self] at hq
      cases hq
    · rw [update_of_ne hqp] at hq
      rw [hd.spte, hfresh q v k' hq]
  | @fault p f block malloc alloc r vm' hp hfault =>
    obtain ⟨hinv, hkeep⟩ := h.fault hp hfault
    exact ⟨hinv, hothers hp hkeep⟩
  | @load p u malloc alloc r vm' hp hload =>
    obtain ⟨hinv, hkeep⟩ := h.load hp hload
    exact ⟨hinv, hothers hp hkeep⟩
  | @unmap p u offset bytes tmp w vm' hp hunmap =>
    obtain ⟨hinv, hkeep⟩ := h.unmap hunmap
    exact ⟨hinv, hothers hp fun q v _ => hkeep q v⟩
  | @access vm' mem pd hview =>
    refine ⟨h.congr (fun b => ?_) hview.frames hview.spte hview.maps, fun q v k hq => ?_⟩
    · exact (Palloc.pool_mem vm'.palloc b mem).trans (by rw [hview.palloc])
    · exact (hview.spte q v).trans (hfresh q v k hq)

lemma boot_inv {pd : Pagedir} (hl : palloc.Laid) : Inv ⟨boot palloc swap pd ram, fun _ => none⟩ ∧
      Fresh ⟨boot palloc swap pd ram, fun _ => none⟩ := by
  refine ⟨⟨⟨hl, nodup_nil, ?_, ?_, ?_, ?_, ?_⟩, ?_, ?_⟩, ?_⟩
  · exact nofun
  · exact nofun
  · intro p u e he
    cases he
  · intro p u k w hm
    have hnone : (boot palloc swap pd ram).maps p u = none := maps_empty u
    rw [hnone] at hm
    cases hm
  · intro p u e he
    cases he
  · exact nofun
  · intro p u k hp
    cases hp
  · exact fun p u k hp => rfl

end Tables

lemma pallocInit_laid {limit : ℕ} {mem : Memory} {kbuf ubuf : ℕ → BitVec 32} {p : Palloc}
    (h1 : 256 ≤ ram) (h2 : ram ≤ 2 ^ 18) (h : pallocInit ram limit mem kbuf ubuf = .ok p) :
    p.Laid := by
  obtain ⟨kpages, upages, _, hk, hu⟩ := (pallocInit_inv h1 h2 h).layout
  exact ⟨_, kpages, _, upages, hk, hu, le_rfl, by omega⟩

/-- **The three tables agree** in every run, under any policy, whose calls meet the condition. -/
theorem tables_agree {ram limit : ℕ} {mem : Memory} {kbuf ubuf : ℕ → BitVec 32} {palloc : Palloc}
    {swap : Swap} {pd : Pagedir} {policy : SwapPolicy} {fs : LoadPageFromFilesys} {s : Tables}
    (h₁ : 256 ≤ ram) (h₂ : ram ≤ 2 ^ 18)
    (hinit : pallocInit ram limit mem kbuf ubuf = .ok palloc)
    (hrun : Reaches (Tables.Step policy fs) Call.Meets
      ⟨boot palloc swap pd ram, fun _ => none⟩ s) : s.vm.Agree := by
  obtain ⟨hinv, hfresh⟩ := hrun.invariant (fun s => s.Inv ∧ s.Fresh) Tables.Inv.step
    (Tables.boot_inv (pallocInit_laid h₁ h₂ hinit))
  exact hinv.agree hfresh

def oneSlot (free : Bool) : Swap :=
  ⟨nineSectors, ⟨1, fun _ => if free then 1 else 0⟩, 1⟩

lemma first_page (entry : PageTableEntry) : ∃ palloc vm1 vm2,
    pallocInit 264 4 (fun _ => 0) (fun _ => 0) (fun _ => 0) = .ok palloc ∧
      frameAllocate secondChance (boot palloc (oneSlot true) empty 264) 1 {} 0x8048000
        true = .ok (some 0xc0105000, vm1) ∧
      installPage vm1 1 0x8048000 0xc0105000 false (some entry) true = .ok (true, vm2) ∧
      vm1.spte 1 0x8048000 = none ∧ vm2.maps 1 0x8048000 = some (0xc0105000, false) ∧
      vm2.frames = [⟨0x8048000, 0xc0105000, 1, false, 0⟩] ∧ vm2.spte 1 0x8048000 = some entry := by
  refine ⟨_, _, _, rfl, rfl, rfl, ?_, ?_, ?_, ?_⟩
  all_goals rfl

theorem tables_agree_first_page : ∃ palloc swap s,
    pallocInit 264 4 (fun _ => 0) (fun _ => 0) (fun _ => 0) = .ok palloc ∧
      Reaches (Tables.Step secondChance fun _ _ mem => (mem, false)) Call.Meets
        ⟨boot palloc swap empty 264, fun _ => none⟩ s ∧
      s.vm.maps 1 0x8048000 = some (0xc0105000, false) ∧ s.vm.Agree := by
  obtain ⟨palloc, _, _, hinit, hget, hinst, _, hmaps, _⟩ :=
    first_page ⟨false, 0xc0105000, .ON_FRAME, false, 0⟩
  have hallocate : Tables.Step secondChance (fun _ _ mem => (mem, false))
      ⟨_, fun _ => none⟩ _ _ := .allocate rfl hget
  have hrun : Reaches _ Call.Meets _ _ :=
    (Reaches.refl.step hallocate rfl).step (.install rfl hinst) (by
      rintro _ _ ⟨⟩ _ ⟨⟩
      exact ⟨rfl, rfl⟩)
  exact ⟨palloc, _, _, hinit, hrun, hmaps, tables_agree (by decide) (by decide) hinit hrun⟩

/-- **The tables disagree** once a page is installed with a block of zeros: it is mapped, but the
entry says `ALL_ZERO`. -/
theorem tables_disagree_first_page : ∃ palloc swap s,
    pallocInit 264 4 (fun _ => 0) (fun _ => 0) (fun _ => 0) = .ok palloc ∧
      Reaches (Tables.Step secondChance fun _ _ mem => (mem, false)) Always
        ⟨boot palloc swap empty 264, fun _ => none⟩ s ∧ ¬ s.vm.Agree := by
  obtain ⟨palloc, _, _, hinit, hget, hinst, _, hmaps, hframes, hspte⟩ :=
    first_page ⟨false, 0, .ALL_ZERO, false, 0⟩
  refine ⟨palloc, _, _, hinit, (Reaches.refl.step (.allocate rfl hget) trivial).step
    (.install rfl hinst) trivial, fun hagree => ?_⟩
  obtain ⟨e, he, hst, _⟩ := (hagree.resident 1 0x8048000 0xc0105000).2
    ⟨by dsimp only; rw [hframes]; decide, false, hmaps⟩
  rw [hspte] at he
  cases he
  cases hst

end Pintos.Virtualmemory
