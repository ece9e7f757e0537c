/-
# Resident pages

What the operations on frames keep true of the three tables, whatever the policy.  An unpinned frame
belongs to a page whose entry and whose mapping name it, and conversely; a pinned frame is being
filled, and nothing is said about it.
-/

import Mathlib.Data.List.Nodup
import Pintos.Threads.PallocPage
import Pintos.Vm.Page

namespace Pintos.Virtualmemory

open Base List

section Frames

variable {frames : List FrameTableEntry} {f g : FrameTableEntry} {k : ℕ}

lemma mem_filter_kpage : g ∈ frames.filter (fun g => g.kpage ≠ k) ↔ g ∈ frames ∧ g.kpage ≠ k := by
  rw [mem_filter, decide_eq_true_iff]

lemma nodup_push (h : (frames.map FrameTableEntry.kpage).Nodup)
    (hne : ∀ g ∈ frames, g.kpage ≠ f.kpage) :
    ((frames ++ [f]).map FrameTableEntry.kpage).Nodup := by
  rw [map_append, nodup_append]
  refine ⟨h, nodup_singleton _, fun x hx y hy => ?_⟩
  obtain ⟨g, hg, rfl⟩ := mem_map.1 hx
  rw [map_singleton, mem_singleton] at hy
  exact hy ▸ hne g hg

lemma frame_eq_of_owner {entry : ℕ → ℕ → Option PageTableEntry}
    (hnodup : (frames.map FrameTableEntry.kpage).Nodup)
    (hentry : ∀ f ∈ frames, f.pinned = false →
      ∃ e, entry f.t f.upage = some e ∧ e.status = .ON_FRAME ∧ e.kpage = f.kpage)
    (hf : f ∈ frames) (hg : g ∈ frames) (hfu : f.pinned = false) (hgu : g.pinned = false)
    (ht : f.t = g.t) (hu : f.upage = g.upage) : f = g := by
  obtain ⟨e, he, _, hek⟩ := hentry f hf hfu
  obtain ⟨_, he', _, hek'⟩ := hentry g hg hgu
  rw [ht, hu, he'] at he
  cases he
  exact inj_on_of_nodup_map hnodup hf hg (hek.symm.trans hek')

end Frames

/-- **The tables agree on resident pages.** -/
structure Vm.Core (vm : Vm) : Prop where
  laid : vm.palloc.Laid
  nodup : (vm.frames.map FrameTableEntry.kpage).Nodup
  used : ∀ f ∈ vm.frames, vm.palloc.Used f.kpage
  unpinned : ∀ f ∈ vm.frames, f.pinned = false →
    ∃ e, vm.spte f.t f.upage = some e ∧ e.status = .ON_FRAME ∧ e.kpage = f.kpage
  /-- A page on a frame is mapped to it. -/
  resident : ∀ p u e, vm.spte p u = some e → e.status = .ON_FRAME →
    ∃ w, vm.maps p u = some (e.kpage, w)
  mapped : ∀ p u k w, vm.maps p u = some (k, w) →
    ∃ f ∈ vm.frames, f.pinned = false ∧ f.t = p ∧ f.upage = u ∧ f.kpage = k
  swapped : ∀ p u e, vm.spte p u = some e → e.status = .ON_SWAP → e.kpage = 0

/-- A page settles on a frame: its entry and its mapping name it, unpinned. -/
structure Vm.Settles (vm vm' : Vm) (p u k : ℕ) (w : Bool) (entry : PageTableEntry) : Prop where
  on_frame : entry.status = .ON_FRAME
  kpage : entry.kpage = k
  pool : ∀ b, vm'.palloc.pool b = vm.palloc.pool b
  frames : vm'.frames = vm.frames.map (Virtualmemory.unpinned k)
  spte : ∀ q v, vm'.spte q v = if q = p ∧ v = u then some entry else vm.spte q v
  maps : ∀ q v, vm'.maps q v = if q = p ∧ v = u then
    some (PHYS_BASE + (k - PHYS_BASE) % 2 ^ 32, w) else vm.maps q v

/-- A page leaves frame `f`: that is freed, the page unmapped, and its entry says so or is gone. -/
structure Vm.Leaves (vm vm' : Vm) (f : FrameTableEntry) (entry : Option PageTableEntry) : Prop where
  mem : f ∈ vm.frames
  unpinned : f.pinned = false
  off_frame : ∀ e ∈ entry, e.status ≠ .ON_FRAME ∧ (e.status = .ON_SWAP → e.kpage = 0)
  freed : pallocFreePage vm.palloc f.kpage = .ok vm'.palloc
  frames : vm'.frames = vm.frames.filter fun g => g.kpage ≠ f.kpage
  spte : ∀ q v, vm'.spte q v = if q = f.t ∧ v = f.upage then entry else vm.spte q v
  maps : ∀ q v, vm'.maps q v = if q = f.t ∧ v = f.upage then none else vm.maps q v

variable {flags : PallocFlags} {w : Bool} {entry : Option PageTableEntry}

namespace Vm.Core

variable {vm vm' : Vm} {p u k : ℕ} {f g : FrameTableEntry}

section

variable (h : vm.Core)
include h

lemma eq_of_kpage (hf : f ∈ vm.frames) (hg : g ∈ vm.frames) (hk : f.kpage = g.kpage) : f = g :=
  inj_on_of_nodup_map h.nodup hf hg hk

lemma on_frame_of_mapped (hm : vm.maps p u = some (k, w)) :
    ∃ e, vm.spte p u = some e ∧ e.status = .ON_FRAME ∧ e.kpage = k := by
  obtain ⟨f, hf, hun, rfl, rfl, rfl⟩ := h.mapped p u k w hm
  exact h.unpinned f hf hun

lemma unmapped (hs : ∀ e ∈ vm.spte p u, e.status ≠ .ON_FRAME) : vm.maps p u = none := by
  rcases hm : vm.maps p u with _ | ⟨k, w⟩
  · rfl
  · obtain ⟨e, he, hst, _⟩ := h.on_frame_of_mapped hm
    exact absurd hst (hs e he)

lemma leave (hl : vm.Leaves vm' f entry) : vm'.Core := by
  have hturn := pallocFreePage_eq_ok h.laid (h.used f hl.mem) hl.freed
  have hmem : ∀ g, g ∈ vm'.frames ↔ g ∈ vm.frames ∧ g.kpage ≠ f.kpage :=
    fun g => hl.frames ▸ mem_filter_kpage
  -- the frames that stay belong to other pages
  have hother : ∀ g ∈ vm'.frames, g.pinned = false → ¬ (g.t = f.t ∧ g.upage = f.upage) := by
    rintro g hg hun ⟨ht, hu⟩
    obtain ⟨hg, hne⟩ := (hmem g).1 hg
    exact hne (congrArg _ (frame_eq_of_owner h.nodup h.unpinned hg hl.mem hun hl.unpinned ht hu))
  refine ⟨hturn.laid, ?_, fun g hg => ?_, fun g hg hun => ?_, fun p u e he hst => ?_,
    fun p u k w hm => ?_, fun p u e he hst => ?_⟩
  · rw [hl.frames]
    exact h.nodup.sublist (filter_sublist.map _)
  · obtain ⟨hg, hne⟩ := (hmem g).1 hg
    exact (hturn.used _).2 (by rw [if_neg hne]; exact h.used g hg)
  · rw [hl.spte, if_neg (hother g hg hun)]
    exact h.unpinned g ((hmem g).1 hg).1 hun
  · rw [hl.spte] at he
    split_ifs at he with hpu
    · exact absurd hst (hl.off_frame e he).1
    · rw [hl.maps, if_neg hpu]
      exact h.resident p u e he hst
  · rw [hl.maps] at hm
    split_ifs at hm with hpu
    obtain ⟨g, hg, hun, rfl, rfl, rfl⟩ := h.mapped p u k w hm
    refine ⟨g, (hmem g).2 ⟨hg, fun hk => hpu ?_⟩, hun, rfl, rfl, rfl⟩
    rw [h.eq_of_kpage hg hl.mem hk]
    exact ⟨rfl, rfl⟩
  · rw [hl.spte] at he
    split_ifs at he
    · exact (hl.off_frame e he).2 hst
    · exact h.swapped p u e he hst

theorem settle {entry : PageTableEntry} (hf : f ∈ vm.frames) (hpin : f.pinned = true)
    (hoff : ∀ e ∈ vm.spte f.t f.upage, e.status ≠ .ON_FRAME)
    (hs : vm.Settles vm' f.t f.upage f.kpage w entry) : vm'.Core := by
  obtain ⟨hbase, hlt, _⟩ := (h.used f hf).bounds h.laid
  have hround : PHYS_BASE + (f.kpage - PHYS_BASE) % 2 ^ 32 = f.kpage :=
    frame_roundtrip hbase (by simp only [PGSIZE] at hlt; omega)
  have hk : ∀ g : FrameTableEntry, (Virtualmemory.unpinned f.kpage g).kpage = g.kpage := by
    intro g
    unfold Virtualmemory.unpinned
    split_ifs <;> rfl
  refine ⟨h.laid.congr hs.pool, ?_, fun g hg => ?_, fun g hg hun => ?_, fun p u e he hst => ?_,
    fun p u k w' hm => ?_, fun p u e he hst => ?_⟩
  · rw [hs.frames, map_map]
    exact (map_congr_left fun g _ => hk g) ▸ h.nodup
  · rw [hs.frames] at hg
    obtain ⟨g0, hg0, rfl⟩ := mem_map.1 hg
    rw [hk]
    exact (h.used g0 hg0).congr hs.pool
  · rw [hs.frames] at hg
    obtain ⟨g0, hg0, rfl⟩ := mem_map.1 hg
    by_cases hgk : g0.kpage = f.kpage
    · obtain rfl := h.eq_of_kpage hg0 hf hgk
      refine ⟨entry, ?_, hs.on_frame, by rw [hk]; exact hs.kpage⟩
      rw [hs.spte, if_pos]
      simp [Virtualmemory.unpinned]
    · rw [Virtualmemory.unpinned, if_neg hgk] at hun ⊢
      obtain ⟨e, he, hst, hek⟩ := h.unpinned g0 hg0 hun
      refine ⟨e, ?_, hst, hek⟩
      rw [hs.spte, if_neg, he]
      rintro ⟨ht, hu⟩
      rw [ht, hu] at he
      exact hoff e he hst
  · rw [hs.spte] at he
    rw [hs.maps]
    split_ifs at he ⊢
    · cases he
      exact ⟨w, by rw [hround, hs.kpage]⟩
    · exact h.resident p u e he hst
  · rw [hs.maps] at hm
    rw [hs.frames]
    split_ifs at hm with hpu
    · obtain ⟨rfl, rfl⟩ := hpu
      rw [hround] at hm
      cases hm
      exact ⟨_, mem_map_of_mem hf, by simp [Virtualmemory.unpinned]⟩
    · obtain ⟨g, hg, hun, rfl, rfl, rfl⟩ := h.mapped p u k w' hm
      refine ⟨g, mem_map.2 ⟨g, hg, if_neg fun hgk => ?_⟩, hun, rfl, rfl, rfl⟩
      rw [h.eq_of_kpage hg hf hgk, hpin] at hun
      exact Bool.noConfusion hun
  · rw [hs.spte] at he
    split_ifs at he
    · cases he
      rw [hs.on_frame] at hst
      cases hst
    · exact h.swapped p u e he hst

lemma take {palloc : Palloc}
    (hget : pallocGetPage vm.palloc { flags with PAL_USER := true } = .ok (some k, palloc)) :
    Core { vm with palloc := palloc } ∧ palloc.Used k ∧ ∀ f ∈ vm.frames, f.kpage ≠ k := by
  obtain ⟨hfree, hturn⟩ := pallocGetPage_eq_some h.laid hget
  have hne : ∀ f ∈ vm.frames, f.kpage ≠ k := fun f hf hk => hfree (hk ▸ h.used f hf)
  refine ⟨{ h with laid := hturn.laid, used := fun f hf => ?_ }, ?_, hne⟩
  · exact (hturn.used _).2 (by rw [if_neg (hne f hf)]; exact h.used f hf)
  · exact (hturn.used _).2 (by rw [if_pos rfl])

lemma push {history : ℤ} (hk : vm.palloc.Used k) (hne : ∀ f ∈ vm.frames, f.kpage ≠ k) :
    Core { vm with
      frames := vm.frames ++ [⟨u, k, p, true, history⟩]
      historyNum := vm.historyNum + 1 } := by
  have hnew : ∀ f : FrameTableEntry, f ∈ vm.frames ++ [⟨u, k, p, true, history⟩] ↔
      f ∈ vm.frames ∨ f = ⟨u, k, p, true, history⟩ := by
    intro f
    rw [mem_append, mem_singleton]
  refine ⟨h.laid, ?_, fun f hf => ?_, fun f hf hun => ?_, h.resident, fun p u k w hm => ?_,
    h.swapped⟩
  · exact nodup_push h.nodup hne
  · rcases (hnew f).1 hf with hf | rfl
    · exact h.used f hf
    · exact hk
  · rcases (hnew f).1 hf with hf | rfl
    · exact h.unpinned f hf hun
    · exact Bool.noConfusion hun
  · obtain ⟨f, hf, hrest⟩ := h.mapped p u k w hm
    exact ⟨f, (hnew f).2 (.inl hf), hrest⟩

lemma drop (hf : f ∈ vm.frames) (hpin : f.pinned = true)
    (hd : vm.Drops vm' f.kpage) : vm'.Core := by
  obtain ⟨mem, hfree⟩ := hd.freed
  have hpool : ∀ b, Palloc.pool { vm.palloc with mem := mem } b = vm.palloc.pool b :=
    fun b => Palloc.pool_mem _ b mem
  have hturn := pallocFreePage_eq_ok (h.laid.congr hpool) ((h.used f hf).congr hpool) hfree
  have hmem : ∀ g, g ∈ vm'.frames ↔ g ∈ vm.frames ∧ g.kpage ≠ f.kpage :=
    fun g => hd.frames ▸ mem_filter_kpage
  refine ⟨hturn.laid, ?_, fun g hg => ?_, fun g hg hun => ?_, fun p u e he hst => ?_,
    fun p u k w hm => ?_, fun p u e he hst => ?_⟩
  · rw [hd.frames]
    exact h.nodup.sublist (filter_sublist.map _)
  · obtain ⟨hg, hne⟩ := (hmem g).1 hg
    exact (hturn.used _).2 (by rw [if_neg hne]; exact (h.used g hg).congr hpool)
  · rw [hd.spte]
    exact h.unpinned g ((hmem g).1 hg).1 hun
  · rw [hd.maps]
    exact h.resident p u e (by rw [← hd.spte]; exact he) hst
  · rw [hd.maps] at hm
    obtain ⟨g, hg, hun, hrest⟩ := h.mapped p u k w hm
    refine ⟨g, (hmem g).2 ⟨hg, fun hk => ?_⟩, hun, hrest⟩
    rw [h.eq_of_kpage hg hf hk, hpin] at hun
    exact Bool.noConfusion hun
  · exact h.swapped p u e (by rw [← hd.spte]; exact he) hst

lemma of_on_frame (hpool : ∀ b, vm'.palloc.pool b = vm.palloc.pool b)
    (hframes : vm'.frames = vm.frames)
    (hspte : ∀ q v e, e.status = .ON_FRAME → (vm'.spte q v = some e ↔ vm.spte q v = some e))
    (hmaps : ∀ q v, vm'.maps q v = vm.maps q v)
    (hswapped : ∀ q v e, vm'.spte q v = some e → e.status = .ON_SWAP → e.kpage = 0) :
    vm'.Core := by
  refine ⟨h.laid.congr hpool, hframes ▸ h.nodup, fun g hg => ?_, fun g hg hun => ?_,
    fun q v e he hst => ?_, fun q v k w hm => ?_, hswapped⟩
  · exact (h.used g (hframes ▸ hg)).congr hpool
  · obtain ⟨e, he, hst, hek⟩ := h.unpinned g (hframes ▸ hg) hun
    exact ⟨e, (hspte _ _ e hst).2 he, hst, hek⟩
  · rw [hmaps]
    exact h.resident q v e ((hspte q v e hst).1 he) hst
  · rw [hframes]
    exact h.mapped q v k w (hmaps q v ▸ hm)

lemma congr (hpool : ∀ b, vm'.palloc.pool b = vm.palloc.pool b)
    (hframes : vm'.frames = vm.frames) (hspte : ∀ q v, vm'.spte q v = vm.spte q v)
    (hmaps : ∀ q v, vm'.maps q v = vm.maps q v) : vm'.Core :=
  h.of_on_frame hpool hframes (fun q v e _ => by rw [hspte]) hmaps
    fun q v e he => h.swapped q v e (hspte q v ▸ he)

lemma turn (entry : Option PageTableEntry) (hoff : ∀ e ∈ vm.spte p u, e.status ≠ .ON_FRAME)
    (hentry : ∀ e ∈ entry, e.status ≠ .ON_FRAME ∧ (e.status = .ON_SWAP → e.kpage = 0))
    (hpool : ∀ b, vm'.palloc.pool b = vm.palloc.pool b) (hframes : vm'.frames = vm.frames)
    (hspte : ∀ q v, vm'.spte q v = if q = p ∧ v = u then entry else vm.spte q v)
    (hmaps : ∀ q v, vm'.maps q v = vm.maps q v) : vm'.Core := by
  refine h.of_on_frame hpool hframes (fun q v e hst => ?_) hmaps fun q v e he hst => ?_
  · rw [hspte]
    split_ifs with hpu
    · rw [hpu.1, hpu.2]
      exact iff_of_false (fun he => (hentry e he).1 hst) fun he => hoff e he hst
    · rfl
  · rw [hspte] at he
    split_ifs at he
    · exact (hentry e he).2 hst
    · exact h.swapped q v e he hst

end

end Vm.Core

/-! ### The operations of the source -/

variable {vm vm' : Vm} {policy : SwapPolicy} {fs : LoadPageFromFilesys} {p u k : ℕ}
  {malloc alloc : Bool} {f : FrameTableEntry}

lemma Vm.Evicts.leaves {idx : ℕ} (h : vm.Evicts vm' f idx) :
    ∃ e, e.status = .ON_SWAP ∧ e.swapIndex = idx ∧ vm.Leaves vm' f (some e) := by
  obtain ⟨e, d, _, hspte⟩ := h.spte
  refine ⟨_, rfl, rfl, { h with off_frame := ?_, spte := hspte }⟩
  rintro _ ⟨⟩
  exact ⟨by simp, fun _ => rfl⟩

lemma Vm.Loads.settles {spte : PageTableEntry} (h : vm.Loads fs vm' p u k spte w) :
    vm.Settles vm' p u k w { spte with kpage := k, status := .ON_FRAME } :=
  ⟨rfl, rfl, fun b => by rw [h.palloc, Palloc.pool_mem], h.frames, h.spte, h.maps⟩

lemma Vm.Installs.settles {entry : PageTableEntry} (h : vm.Installs vm' p u k w entry)
    (hst : entry.status = .ON_FRAME) (hk : entry.kpage = k) : vm.Settles vm' p u k w entry :=
  ⟨hst, hk, fun b => by rw [h.palloc], h.frames, h.spte, h.maps⟩

/-- Pinned frames and pages that are not resident are left alone. -/
structure Vm.Keeps (vm vm' : Vm) : Prop where
  core : vm'.Core
  pinned : ∀ f, f.pinned = true → (f ∈ vm'.frames ↔ f ∈ vm.frames)
  spte : ∀ q v, (∀ e ∈ vm.spte q v, e.status ≠ .ON_FRAME) → vm'.spte q v = vm.spte q v

lemma Vm.Core.keeps_of_leaves (h : vm.Core) (hl : vm.Leaves vm' f entry) : vm.Keeps vm' := by
  refine ⟨h.leave hl, fun g hpin => ?_, fun q v hoff => ?_⟩
  · rw [hl.frames, mem_filter, decide_eq_true_iff, and_iff_left_iff_imp]
    intro hg hk
    rw [h.eq_of_kpage hg hl.mem hk, hl.unpinned] at hpin
    exact Bool.noConfusion hpin
  · rw [hl.spte, if_neg]
    rintro ⟨rfl, rfl⟩
    obtain ⟨e, he, hst, _⟩ := h.unpinned f hl.mem hl.unpinned
    exact hoff e he hst

lemma Vm.Core.makesRoom (h : vm.Core) (hr : vm.MakesRoom flags vm') : vm.Keeps vm' := by
  cases hr with
  | enough => exact ⟨h, fun _ _ => Iff.rfl, fun _ _ _ => rfl⟩
  | @evict palloc _ f idx hnone hev =>
    obtain rfl := pallocGetPage_eq_none h.laid hnone
    obtain ⟨e, _, _, hl⟩ := hev.leaves
    exact h.keeps_of_leaves hl

/-- What an allocation for page `u` of `p` that returned `r` does. -/
structure Vm.Allocated (vm vm' : Vm) (p u : ℕ) (r : Option ℕ) : Prop where
  core : vm'.Core
  entered : ∀ k, r = some k → ∃ f ∈ vm'.frames, f.pinned = true ∧ f.t = p ∧ f.upage = u ∧
    f.kpage = k ∧ f ∉ vm.frames
  pinned : ∀ f, f.pinned = true → (f ∈ vm'.frames ↔ f ∈ vm.frames ∨ f ∈ vm'.frames ∧
    r = some f.kpage ∧ f.t = p ∧ f.upage = u)
  spte : ∀ q v, (∀ e ∈ vm.spte q v, e.status ≠ .ON_FRAME) → vm'.spte q v = vm.spte q v

theorem Vm.Core.allocate {r : Option ℕ} (h : vm.Core)
    (ha : frameAllocate policy vm p flags u malloc = .ok (r, vm')) : vm.Allocated vm' p u r := by
  obtain ⟨_, _, k, hroom, hget, hres⟩ := frameAllocate_eq_ok ha
  have hkeeps := h.makesRoom hroom
  obtain ⟨hcore, hused, hne⟩ := hkeeps.core.take hget
  cases malloc with
  | false =>
    obtain ⟨rfl, rfl⟩ := hres
    refine ⟨hcore, nofun, fun f hf => ?_, hkeeps.spte⟩
    simp only [reduceCtorEq, false_and, and_false, or_false]
    exact hkeeps.pinned f hf
  | true =>
    obtain ⟨rfl, rfl⟩ := hres
    refine ⟨hcore.push hused hne, ?_, fun f hf => ?_, hkeeps.spte⟩
    · rintro _ ⟨⟩
      refine ⟨_, mem_append_right _ (mem_singleton_self _), rfl, rfl, rfl, rfl, ?_⟩
      intro hmem
      exact hne _ ((hkeeps.pinned _ rfl).2 hmem) rfl
    · constructor
      · intro hmem
        rcases mem_append.1 hmem with hold | hnew
        · exact .inl ((hkeeps.pinned f hf).1 hold)
        · obtain rfl := mem_singleton.1 hnew
          exact .inr ⟨hmem, rfl, rfl, rfl⟩
      · rintro (hold | ⟨hmem, _⟩)
        · exact mem_append_left _ ((hkeeps.pinned f hf).2 hold)
        · exact hmem

end Pintos.Virtualmemory
