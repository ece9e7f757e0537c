/-
# Exit and eviction do not get in each other's way

The invariant of a process that exits is about an entry function that counts the entry popped last
as still there.  What it maps and what went back to the allocator are together what it started with.

An eviction cannot mark the popped entry, so the invariant survives one only if the evicted page has
its entry in a table.
-/

import Pintos.Vm.ExitReady

namespace Pintos.Virtualmemory

open Base List Exiting Vm Pagedir Kernel

abbrev Entries := ℕ → ℕ → Option PageTableEntry

/-! ### Slots -/

/-- **The slots in use are those of the pages on the swap device**, one each. -/
structure SlotsHeld (swap : Swap) (entry : Entries) : Prop where
  wf : swap.Wf
  device : swap.swapBlock.type ≠ .BLOCK_FOREIGN
  slot : ∀ q u e, entry q u = some e → e.status = .ON_SWAP →
    e.swapIndex < swap.swapSize ∧ swap.free e.swapIndex = false
  distinct : ∀ q u e q' u' e', entry q u = some e → e.status = .ON_SWAP →
    entry q' u' = some e' → e'.status = .ON_SWAP → e.swapIndex = e'.swapIndex → q = q' ∧ u = u'
  held : ∀ i < swap.swapSize, swap.free i = false →
    ∃ q u e, entry q u = some e ∧ e.status = .ON_SWAP ∧ e.swapIndex = i

namespace SlotsHeld

variable {swap swap' : Swap} {entry entry' : Entries} {p u : ℕ} {e : PageTableEntry}

lemma forget (h : SlotsHeld swap entry) (hoff : ∀ e ∈ entry p u, e.status ≠ .ON_SWAP)
    (hput : ∀ q v, entry' q v = if q = p ∧ v = u then none else entry q v) :
    SlotsHeld swap entry' := by
  have hold : ∀ {q v e}, entry' q v = some e → entry q v = some e := by
    intro q v e he
    rw [hput] at he
    split_ifs at he
    exact he
  refine ⟨h.wf, h.device, fun q v e he => h.slot q v e (hold he),
    fun q v e q' v' e' he hst he' => h.distinct q v e q' v' e' (hold he) hst (hold he'),
    fun i hi hfree => ?_⟩
  obtain ⟨q, v, e, he, hst, hidx⟩ := h.held i hi hfree
  refine ⟨q, v, e, ?_, hst, hidx⟩
  rw [hput, if_neg, he]
  rintro ⟨rfl, rfl⟩
  exact hoff e he hst

lemma release (h : SlotsHeld swap entry) (he : entry p u = some e) (hst : e.status = .ON_SWAP)
    (hr : swap.Released swap' e.swapIndex)
    (hput : ∀ q v, entry' q v = if q = p ∧ v = u then none else entry q v) :
    SlotsHeld swap' entry' := by
  have hsize : swap'.swapSize = swap.swapSize := by
    rw [hr.wf.swapSize, hr.block, h.wf.swapSize]
  have hold : ∀ {q v e'}, entry' q v = some e' → ¬ (q = p ∧ v = u) ∧ entry q v = some e' := by
    intro q v _ he'
    rw [hput] at he'
    split_ifs at he' with hqv
    exact ⟨hqv, he'⟩
  refine ⟨hr.wf, hr.block ▸ h.device, fun q v e' he' hst' => ?_,
    fun q v e1 q' v' e2 h1 hst1 h2 => h.distinct q v e1 q' v' e2 (hold h1).2 hst1 (hold h2).2,
    fun i hi hfree => ?_⟩
  · obtain ⟨hne, he'⟩ := hold he'
    obtain ⟨hlt, hused⟩ := h.slot q v e' he' hst'
    rw [hsize, hr.free, if_neg fun heq => hne (h.distinct q v e' p u e he' hst' he hst heq)]
    exact ⟨hlt, hused⟩
  · rw [hr.free] at hfree
    split_ifs at hfree with hidx
    obtain ⟨q, v, e', he', hst', rfl⟩ := h.held i (hsize ▸ hi) hfree
    refine ⟨q, v, e', ?_, hst', rfl⟩
    rw [hput, if_neg, he']
    rintro ⟨rfl, rfl⟩
    rw [he] at he'
    exact hidx (by rw [Option.some.inj he'])

lemma out (h : SlotsHeld swap entry) {bytes : Page} (ho : swap.Out swap' bytes e.swapIndex)
    (htype : swap'.swapBlock.type = swap.swapBlock.type) (hst : e.status = .ON_SWAP)
    (hoff : ∀ e' ∈ entry p u, e'.status ≠ .ON_SWAP)
    (hput : ∀ q v, entry' q v = if q = p ∧ v = u then some e else entry q v) :
    SlotsHeld swap' entry' := by
  have hsize : swap'.swapSize = swap.swapSize := by
    rw [ho.wf.swapSize, ho.size, h.wf.swapSize]
  have hfresh : ∀ q v e', entry q v = some e' → e'.status = .ON_SWAP →
      e'.swapIndex ≠ e.swapIndex := by
    intro q v e' he' hst' heq
    have hused := (h.slot q v e' he' hst').2
    rw [heq, ho.was_free] at hused
    exact Bool.noConfusion hused
  refine ⟨ho.wf, htype ▸ h.device, fun q v e' he' hst' => ?_,
    fun q v e1 q' v' e2 h1 hst1 h2 hst2 heq => ?_, fun i hi hfree => ?_⟩
  · rw [hput] at he'
    rw [hsize, ho.free]
    split_ifs at he'
    · cases he'
      exact ⟨ho.lt, if_pos rfl⟩
    · rw [if_neg (hfresh q v e' he' hst')]
      exact h.slot q v e' he' hst'
  · rw [hput] at h1 h2
    split_ifs at h1 h2 with hqv hqv' hqv'
    · exact ⟨hqv.1.trans hqv'.1.symm, hqv.2.trans hqv'.2.symm⟩
    · rw [← Option.some.inj h1] at heq
      exact absurd heq.symm (hfresh q' v' e2 h2 hst2)
    · rw [← Option.some.inj h2] at heq
      exact absurd heq (hfresh q v e1 h1 hst1)
    · exact h.distinct q v e1 q' v' e2 h1 hst1 h2 hst2 heq
  · rw [ho.free] at hfree
    by_cases hi' : i = e.swapIndex
    · exact ⟨p, u, e, by rw [hput, if_pos ⟨rfl, rfl⟩], hst, hi'.symm⟩
    · rw [if_neg hi'] at hfree
      obtain ⟨q, v, e', he', hst', hidx⟩ := h.held i (hsize ▸ hi) hfree
      refine ⟨q, v, e', ?_, hst', hidx⟩
      rw [hput, if_neg, he']
      rintro ⟨rfl, rfl⟩
      exact hoff e' he' hst'

end SlotsHeld

/-! ### Frames -/

/-- **Unpinned frames belong to the pages whose entries name them**, and conversely for `p`. -/
structure FramesHeld (p : ℕ) (palloc : Palloc) (frames : List FrameTableEntry) (entry : Entries) :
    Prop where
  laid : palloc.Laid
  nodup : (frames.map FrameTableEntry.kpage).Nodup
  used : ∀ f ∈ frames, palloc.Used f.kpage
  threads : ∀ f ∈ frames, f.t ≠ 0
  own : ∀ f ∈ frames, f.t = p → f.pinned = false
  user : ∀ f ∈ frames, f.pinned = false → pgOfs f.upage = 0 ∧ f.upage < PHYS_BASE
  unpinned : ∀ f ∈ frames, f.pinned = false →
    ∃ e, entry f.t f.upage = some e ∧ e.status = .ON_FRAME ∧ e.kpage = f.kpage
  framed : ∀ u e, entry p u = some e → e.status = .ON_FRAME →
    ∃ f ∈ frames, f.t = p ∧ f.upage = u ∧ f.kpage = e.kpage
  off : ∀ u e, entry p u = some e → e.status ≠ .ON_FRAME → e.kpage = 0

variable {q : ℕ} {ev : ExitEvent} {vm : Vm}

namespace FramesHeld

variable {p u : ℕ} {palloc palloc' : Palloc} {frames : List FrameTableEntry}
  {entry entry' : Entries} {f g : FrameTableEntry}

section

variable (h : FramesHeld p palloc frames entry)
include h

lemma eq_of_kpage (hf : f ∈ frames) (hg : g ∈ frames) (hk : f.kpage = g.kpage) : f = g :=
  inj_on_of_nodup_map h.nodup hf hg hk

lemma leave (hf : f ∈ frames) (hun : f.pinned = false) {x : Option PageTableEntry}
    (hx : ∀ e ∈ x, e.status ≠ .ON_FRAME ∧ e.kpage = 0)
    (hput : ∀ q v, entry' q v = if q = f.t ∧ v = f.upage then x else entry q v)
    (hlaid : palloc'.Laid) (hused : ∀ k ≠ f.kpage, palloc.Used k → palloc'.Used k) :
    FramesHeld p palloc' (frames.filter fun g => g.kpage ≠ f.kpage) entry' := by
  refine ⟨hlaid, h.nodup.sublist (filter_sublist.map _), fun g hg => ?_,
    fun g hg => h.threads g (mem_filter_kpage.1 hg).1,
    fun g hg => h.own g (mem_filter_kpage.1 hg).1,
    fun g hg => h.user g (mem_filter_kpage.1 hg).1, fun g hg hgu => ?_, fun u e he hst => ?_,
    fun u e he hst => ?_⟩
  · obtain ⟨hg, hne⟩ := mem_filter_kpage.1 hg
    exact hused _ hne (h.used g hg)
  · obtain ⟨hg, hne⟩ := mem_filter_kpage.1 hg
    rw [hput, if_neg]
    · exact h.unpinned g hg hgu
    · rintro ⟨ht, hu⟩
      exact hne (by rw [frame_eq_of_owner h.nodup h.unpinned hg hf hgu hun ht hu])
  · rw [hput] at he
    split_ifs at he with hpu
    · exact absurd hst (hx e he).1
    · obtain ⟨g, hg, rfl, rfl, hk⟩ := h.framed u e he hst
      refine ⟨g, mem_filter.2 ⟨hg, decide_eq_true fun hgk => hpu ?_⟩, rfl, rfl, hk⟩
      rw [h.eq_of_kpage hg hf hgk]
      exact ⟨rfl, rfl⟩
  · rw [hput] at he
    split_ifs at he
    · exact (hx e he).2
    · exact h.off u e he hst

lemma forget (hoff : ∀ e ∈ entry q u, e.status ≠ .ON_FRAME)
    (hput : ∀ q' v, entry' q' v = if q' = q ∧ v = u then none else entry q' v) :
    FramesHeld p palloc frames entry' := by
  refine ⟨h.laid, h.nodup, h.used, h.threads, h.own, h.user, fun g hg hgu => ?_,
    fun v e he hst => ?_, fun v e he hst => ?_⟩
  · obtain ⟨e, he, hst, hk⟩ := h.unpinned g hg hgu
    refine ⟨e, ?_, hst, hk⟩
    rw [hput, if_neg, he]
    rintro ⟨rfl, rfl⟩
    exact hoff e he hst
  · rw [hput] at he
    split_ifs at he
    exact h.framed v e he hst
  · rw [hput] at he
    split_ifs at he
    exact h.off v e he hst

lemma take (hlaid : palloc'.Laid) (hused : ∀ k, palloc.Used k → palloc'.Used k) :
    FramesHeld p palloc' frames entry :=
  { h with laid := hlaid, used := fun f hf => hused _ (h.used f hf) }

lemma push (hk : palloc.Used f.kpage) (hne : ∀ g ∈ frames, g.kpage ≠ f.kpage)
    (hpin : f.pinned = true) (ht : f.t ≠ 0) (hp : f.t ≠ p) :
    FramesHeld p palloc (frames ++ [f]) entry := by
  have hnew : ∀ {P : FrameTableEntry → Prop}, (∀ g ∈ frames, P g) → P f →
      ∀ g ∈ frames ++ [f], P g := by
    intro P hold hf g hg
    rcases mem_append.1 hg with hg | hg
    · exact hold g hg
    · exact mem_singleton.1 hg ▸ hf
  have hpinned : ∀ {P : Prop}, f.pinned = false → P := by
    intro P hun
    rw [hpin] at hun
    exact Bool.noConfusion hun
  refine ⟨h.laid, nodup_push h.nodup hne, hnew h.used hk, hnew h.threads ht,
    hnew h.own fun hfp => absurd hfp hp, hnew h.user hpinned, hnew h.unpinned hpinned,
    fun v e he hst => ?_, h.off⟩
  obtain ⟨g, hg, hrest⟩ := h.framed v e he hst
  exact ⟨g, mem_append_left _ hg, hrest⟩

end

end FramesHeld

/-! ### Pages -/

/-- **The directory of process `p` maps no frame twice**, and maps its frames in the frame table. -/
structure PagesHeld (p : ℕ) (palloc : Palloc) (frames : List FrameTableEntry)
    (maps : ℕ → Option (ℕ × Bool)) : Prop where
  resident : ∀ f ∈ frames, f.t = p → ∃ w, maps f.upage = some (f.kpage, w)
  mapped : ∀ u k w, maps u = some (k, w) → u < PHYS_BASE ∧ palloc.Used k ∧
    ∀ f ∈ frames, f.kpage = k → f.t = p ∧ f.upage = u
  inj : ∀ u v k w w', maps u = some (k, w) → maps v = some (k, w') → u = v

namespace PagesHeld

variable {p : ℕ} {palloc palloc' : Palloc} {frames frames' : List FrameTableEntry}
  {maps maps' : ℕ → Option (ℕ × Bool)} {f : FrameTableEntry}

section

variable (h : PagesHeld p palloc frames maps)
include h

lemma shrink (hsub : ∀ f ∈ frames', f ∈ frames)
    (hused : ∀ k, palloc.Used k → palloc'.Used k) : PagesHeld p palloc' frames' maps := by
  refine ⟨fun f hf => h.resident f (hsub f hf), fun u k w hm => ?_, h.inj⟩
  obtain ⟨huser, hk, hown⟩ := h.mapped u k w hm
  exact ⟨huser, hused k hk, fun f hf => hown f (hsub f hf)⟩

lemma leaveOther (hf : f ∈ frames) (hp : f.t ≠ p)
    (hused : ∀ k ≠ f.kpage, palloc.Used k → palloc'.Used k) :
    PagesHeld p palloc' (frames.filter fun g => g.kpage ≠ f.kpage) maps := by
  refine ⟨fun g hg => h.resident g (mem_filter.1 hg).1, fun u k w hm => ?_, h.inj⟩
  obtain ⟨huser, hk, hown⟩ := h.mapped u k w hm
  refine ⟨huser, hused k ?_ hk, fun g hg => hown g (mem_filter.1 hg).1⟩
  rintro rfl
  exact hp (hown f hf rfl).1

lemma leaveOwn (hf : f ∈ frames) (hp : f.t = p)
    (hused : ∀ k ≠ f.kpage, palloc.Used k → palloc'.Used k)
    (hmaps : ∀ v, maps' v = if v = f.upage then none else maps v) :
    PagesHeld p palloc' (frames.filter fun g => g.kpage ≠ f.kpage) maps' := by
  obtain ⟨w0, hw0⟩ := h.resident f hf hp
  have hold : ∀ {v x}, maps' v = some x → v ≠ f.upage ∧ maps v = some x := by
    intro v x hv
    rw [hmaps] at hv
    split_ifs at hv with hvu
    exact ⟨hvu, hv⟩
  refine ⟨fun g hg hgp => ?_, fun u k w hm => ?_, fun u v k w w' hu hv =>
    h.inj u v k w w' (hold hu).2 (hold hv).2⟩
  · obtain ⟨hg, hne⟩ := mem_filter_kpage.1 hg
    obtain ⟨w, hw⟩ := h.resident g hg hgp
    refine ⟨w, ?_⟩
    rw [hmaps, if_neg, hw]
    intro hu
    rw [hu, hw0] at hw
    exact hne (Prod.mk.inj (Option.some.inj hw)).1.symm
  · obtain ⟨hne, hm⟩ := hold hm
    obtain ⟨huser, hk, hown⟩ := h.mapped u k w hm
    refine ⟨huser, hused k ?_ hk, fun g hg => hown g (mem_filter.1 hg).1⟩
    rintro rfl
    exact hne (h.inj u _ _ w w0 hm hw0)

lemma push (hnew : ∀ u k w, maps u = some (k, w) → f.kpage ≠ k) (hp : f.t ≠ p) :
    PagesHeld p palloc (frames ++ [f]) maps := by
  refine ⟨fun g hg hgp => ?_, fun u k w hm => ?_, h.inj⟩
  · rcases mem_append.1 hg with hg | hg
    · exact h.resident g hg hgp
    · exact absurd (mem_singleton.1 hg ▸ hgp) hp
  · obtain ⟨huser, hk, hown⟩ := h.mapped u k w hm
    refine ⟨huser, hk, fun g hg hgk => ?_⟩
    rcases mem_append.1 hg with hg | hg
    · exact hown g hg hgk
    · rw [mem_singleton.1 hg] at hgk
      exact absurd hgk (hnew u k w hm)

end

end PagesHeld

/-! ### The process that exits -/

def Exiting.entry (p : ℕ) (s : Exiting) : Entries := fun q u =>
  match s.popped with
  | some (v, e) => if q = p ∧ u = v then some e else s.vm.spte q u
  | none => s.vm.spte q u

/-- What every step preserves; `frames` are the frames the process started with. -/
structure Exiting.Inv (p : ℕ) (frames : List ℕ) (s : Exiting) : Prop where
  slots : SlotsHeld s.vm.swap (s.entry p)
  framesHeld : FramesHeld p s.vm.palloc s.vm.frames (s.entry p)
  pages : PagesHeld p s.vm.palloc s.vm.frames (s.vm.maps p)
  buckets : s.buckets.Nodup ∧ ∀ u, u ∈ s.buckets ↔ (s.vm.spte p u).isSome = true
  fresh : ∀ u e, s.popped = some (u, e) → s.vm.spte p u = none
  ended : s.phase ≠ .table → s.popped = none ∧ s.buckets = []
  gone : s.phase = .done → ∀ u, s.vm.maps p u = none
  nodup : frames.Nodup
  /-- A frame went back to the allocator or is mapped. -/
  account : ∃ mapped : List ℕ, (∀ k, k ∈ mapped ↔ ∃ u w, s.vm.maps p u = some (k, w)) ∧
    frames.Perm (s.released ++ mapped)

namespace Exiting

variable {p : ℕ} {frames : List ℕ} {s s' : Exiting} {r : Kernel Exiting} {f : FrameTableEntry}
  {vm' : Vm} {flags : PallocFlags}

lemma entry_of_none (h : s.popped = none) (q u : ℕ) : s.entry p q u = s.vm.spte q u := by
  simp only [entry, h]

lemma entry_of_some {v : ℕ} {e : PageTableEntry} (h : s.popped = some (v, e)) (q u : ℕ) :
    s.entry p q u = if q = p ∧ u = v then some e else s.vm.spte q u := by
  simp only [entry, h]

section

variable (h : s.Inv p frames)
include h

lemma Inv.spte_eq_none (hphase : s.phase ≠ .table) (u : ℕ) : s.vm.spte p u = none := by
  have hu := h.buckets.2 u
  rw [(h.ended hphase).2] at hu
  rw [← Option.not_isSome_iff_eq_none]
  exact fun hsome => not_mem_nil (hu.2 hsome)

/-- **The invariant says what is wanted** of the slots and the frames. -/
theorem Inv.reclaimed (hphase : s.phase ≠ .table) {i : ℕ}
    (hi : i < s.vm.swap.swapSize) (hused : s.vm.swap.free i = false) :
    ∃ q u e, q ≠ p ∧ s.vm.spte q u = some e ∧ e.status = .ON_SWAP ∧ e.swapIndex = i := by
  obtain ⟨q, u, e, he, hst, hidx⟩ := h.slots.held i hi hused
  rw [entry_of_none (h.ended hphase).1] at he
  refine ⟨q, u, e, ?_, he, hst, hidx⟩
  rintro rfl
  rw [h.spte_eq_none hphase] at he
  cases he

lemma Inv.atMostOnce : s.released.Nodup ∧ s.released ⊆ frames := by
  obtain ⟨_, _, hperm⟩ := h.account
  have hnodup := hperm.nodup_iff.1 h.nodup
  exact ⟨(nodup_append.1 hnodup).1, fun k hk => hperm.mem_iff.2 (mem_append_left _ hk)⟩

lemma Inv.once (hphase : s.phase = .done) :
    (∀ k ∈ frames, s.released.count k = 1) ∧ s.vm.framesOf p = [] := by
  have htable : s.phase ≠ .table := by
    rw [hphase]
    decide
  constructor
  · obtain ⟨mapped, hmapped, hperm⟩ := h.account
    -- nothing is mapped any more
    obtain rfl : mapped = [] := by
      refine eq_nil_iff_forall_not_mem.2 fun k hk => ?_
      obtain ⟨u, w, hm⟩ := (hmapped k).1 hk
      rw [h.gone hphase] at hm
      cases hm
    rw [append_nil] at hperm
    intro k hk
    exact count_eq_one_of_mem h.atMostOnce.1 (hperm.mem_iff.1 hk)
  · rw [framesOf, map_eq_nil_iff, filter_eq_nil_iff]
    intro f hf hfp
    have hfp := of_decide_eq_true hfp
    obtain ⟨e, he, _⟩ := h.framesHeld.unpinned f hf (h.framesHeld.own f hf hfp)
    rw [entry_of_none (h.ended htable).1, hfp, h.spte_eq_none htable] at he
    cases he

/-! ### The steps of the process -/

lemma Inv.pop (hx : s.exec p .pop = some r) : ∃ s', r = .ok s' ∧ s'.Inv p frames := by
  simp only [exec] at hx
  split at hx
  swap
  · cases hx
  rename_i u buckets hphase hpopped hbuckets
  obtain ⟨hnodup, hmem⟩ := h.buckets
  rw [hbuckets] at hnodup hmem
  obtain ⟨e, he⟩ := Option.isSome_iff_exists.1 ((hmem u).1 (mem_cons_self ..))
  rw [he] at hx
  cases hx
  refine ⟨_, rfl, ?_⟩
  -- the entry is counted as still there
  have hentry : entry p { s with
      vm := s.vm.setSpte p u none, popped := some (u, e), buckets := buckets } = s.entry p := by
    funext q v
    rw [entry_of_some rfl, entry_of_none hpopped, spte_setSpte]
    split_ifs with hqv
    · rw [hqv.1, hqv.2, he]
    · rfl
  have hmaps : (s.vm.setSpte p u none).maps p = s.vm.maps p := funext fun v => maps_setSpte ..
  refine ⟨?_, ?_, ?_, ⟨(nodup_cons.1 hnodup).2, fun v => ?_⟩, ?_, ?_, ?_, h.nodup, ?_⟩
  · rw [hentry]
    exact h.slots
  · rw [hentry]
    exact h.framesHeld
  · dsimp only
    rw [hmaps]
    exact h.pages
  · dsimp only
    rw [spte_setSpte]
    have hne : v ∈ buckets → v ≠ u := by
      rintro hv rfl
      exact (nodup_cons.1 hnodup).1 hv
    constructor
    · intro hv
      rw [if_neg fun hpv => hne hv hpv.2]
      exact (hmem v).1 (mem_cons_of_mem _ hv)
    · intro hv
      split_ifs at hv with hpv
      · cases hv
      · rcases mem_cons.1 ((hmem v).2 hv) with rfl | hv
        · exact absurd ⟨rfl, rfl⟩ hpv
        · exact hv
  · intro v _ hv
    obtain ⟨rfl, _⟩ := Prod.mk.inj (Option.some.inj hv)
    exact (spte_setSpte ..).trans (if_pos ⟨rfl, rfl⟩)
  · exact fun hne => absurd hphase hne
  · intro hdone
    rw [hphase] at hdone
    cases hdone
  · dsimp only
    rw [hmaps]
    exact h.account

lemma Inv.destroy (hx : s.exec p .destroy = some r) : ∃ s', r = .ok s' ∧ s'.Inv p frames := by
  simp only [exec] at hx
  split at hx
  swap
  · cases hx
  rename_i u e hphase hpopped
  cases hx
  have he : s.entry p p u = some e := by rw [entry_of_some hpopped, if_pos ⟨rfl, rfl⟩]
  -- without the entry, if the tables stay as they are
  have hput : ∀ vm', (∀ q v, spte vm' q v = s.vm.spte q v) → ∀ q v,
      entry p { s with vm := vm', popped := none } q v =
        if q = p ∧ v = u then none else s.entry p q v := by
    intro _ hspte q v
    rw [entry_of_none rfl, entry_of_some hpopped, hspte]
    split_ifs with hqv
    · rw [hqv.1, hqv.2, h.fresh u e hpopped]
    · rfl
  have hdone : ∀ {vm'}, (∀ q v, spte vm' q v = s.vm.spte q v) →
      (∀ v, maps vm' p v = s.vm.maps p v) →
      SlotsHeld vm'.swap (entry p { s with vm := vm', popped := none }) →
      FramesHeld p vm'.palloc vm'.frames (entry p { s with vm := vm', popped := none }) →
      PagesHeld p vm'.palloc vm'.frames (s.vm.maps p) →
      Inv p frames { s with vm := vm', popped := none } := by
    intro vm' hspte hmaps hslots hframes hpages
    have hmaps' : vm'.maps p = s.vm.maps p := funext hmaps
    refine ⟨hslots, hframes, ?_, ⟨h.buckets.1, fun v => ?_⟩, nofun,
      fun hne => absurd hphase hne, fun hd => ?_, h.nodup, ?_⟩
    · dsimp only
      rw [hmaps']
      exact hpages
    · rw [hspte]
      exact h.buckets.2 v
    · rw [hphase] at hd
      cases hd
    · dsimp only
      rw [hmaps']
      exact h.account
  unfold spteDestroyFunc
  by_cases hk : e.kpage ≠ 0
  · -- the entry has a frame
    have hst : e.status = .ON_FRAME := by
      by_contra hst
      exact hk (h.framesHeld.off u e he hst)
    obtain ⟨f, hf, hfp, rfl, hfk⟩ := h.framesHeld.framed u e he hst
    have hun := h.framesHeld.own f hf hfp
    obtain ⟨vm', hfree⟩ := frameDoFree_ok h.framesHeld.laid hf (h.framesHeld.used f hf) false
    have hremove : frameRemoveEntry s.vm e.kpage = .ok vm' := hfk ▸ hfree
    rw [if_pos hk, ASSERT_of hst, ok_bind, hremove]
    refine ⟨_, rfl, ?_⟩
    obtain ⟨_, palloc, rfl, hpalloc⟩ := frameDoFree_eq_ok hfree
    obtain rfl : palloc = s.vm.palloc := hpalloc
    have hput' := hput { s.vm with frames := s.vm.frames.filter fun g => g.kpage ≠ f.kpage }
      fun _ _ => rfl
    refine hdone (fun _ _ => rfl) (fun _ => rfl) ?_ ?_ ?_
    · refine h.slots.forget (fun e' he' => ?_) hput'
      rw [he] at he'
      rw [← Option.some.inj he', hst]
      decide
    · refine h.framesHeld.leave hf hun (x := none) nofun (fun q v => ?_)
        h.framesHeld.laid fun _ _ hused => hused
      rw [hfp]
      exact hput' q v
    · exact h.pages.shrink (fun g hg => (mem_filter.1 hg).1) fun _ hused => hused
  · -- no frame: it is not resident
    have hst : e.status ≠ .ON_FRAME := by
      intro hst
      obtain ⟨f, hf, _, _, hfk⟩ := h.framesHeld.framed u e he hst
      have hbase := ((h.framesHeld.used f hf).bounds h.framesHeld.laid).1
      rw [hfk, not_not.1 hk] at hbase
      exact absurd hbase (by decide)
    have hoff : ∀ e' ∈ s.entry p p u, e'.status ≠ .ON_FRAME := by
      intro _ he'
      rw [he] at he'
      exact Option.some.inj he' ▸ hst
    rw [if_neg hk]
    by_cases hsw : e.status = .ON_SWAP
    · obtain ⟨hlt, hused⟩ := h.slots.slot p u e he hsw
      obtain ⟨swap, hfree, hrel⟩ := swapFree_spec h.slots.wf hlt hused
      rw [if_pos hsw, hfree, ok_bind]
      have hput' := hput { s.vm with swap := swap } fun _ _ => rfl
      exact ⟨_, rfl, hdone (fun _ _ => rfl) (fun _ => rfl)
        (h.slots.release he hsw hrel hput') (h.framesHeld.forget hoff hput') h.pages⟩
    · rw [if_neg hsw]
      have hput' := hput s.vm fun _ _ => rfl
      refine ⟨_, rfl, hdone (fun _ _ => rfl) (fun _ => rfl)
        (h.slots.forget (fun e' he' => ?_) hput')
        (h.framesHeld.forget hoff hput') h.pages⟩
      rw [he] at he'
      exact Option.some.inj he' ▸ hsw

lemma Inv.freeTable (hx : s.exec p .freeTable = some r) : ∃ s', r = .ok s' ∧ s'.Inv p frames := by
  simp only [exec] at hx
  split at hx
  swap
  · cases hx
  rename_i _ hpopped hbuckets
  cases hx
  exact ⟨_, rfl, { h with ended := fun _ => ⟨hpopped, hbuckets⟩, gone := nofun }⟩

lemma Inv.freePagedir (hx : s.exec p .freePagedir = some r) :
    ∃ s', r = .ok s' ∧ s'.Inv p frames := by
  simp only [exec] at hx
  split at hx
  swap
  · cases hx
  rename_i hphase
  obtain rfl := Option.some.inj hx
  have htable : s.phase ≠ .table := by
    rw [hphase]
    decide
  obtain ⟨hpopped, hbuckets⟩ := h.ended htable
  obtain ⟨palloc, pages, hdestroy, hlaid, hnodup, hmem, hused⟩ :=
    pagedirDestroy_spec h.framesHeld.laid
      (fun u k w hm => ⟨(h.pages.mapped u k w hm).1, (h.pages.mapped u k w hm).2.1⟩) h.pages.inj
  rw [hdestroy, ok_bind]
  refine ⟨_, rfl, ?_⟩
  have hmaps : ∀ v, (setPagedir { s.vm with palloc := palloc } p empty).maps p v =
      none := by
    intro v
    rw [maps_setPagedir, if_pos rfl, maps_empty]
  have hspte : ∀ q v, (setPagedir { s.vm with palloc := palloc } p empty).spte q v =
      s.vm.spte q v := fun q v => spte_setPagedir ..
  have hentry : entry p { s with
      vm := setPagedir { s.vm with palloc := palloc } p empty
      phase := .done
      released := s.released ++ pages } = s.entry p := by
    funext q v
    simp only [entry, hpopped]
    exact hspte q v
  -- the frames that are left belong to others, and the directory did not map them
  have hother : ∀ f ∈ s.vm.frames, f.t ≠ p := by
    rintro f hf rfl
    obtain ⟨e, he, _⟩ := h.framesHeld.unpinned f hf (h.framesHeld.own f hf rfl)
    rw [entry_of_none hpopped, h.spte_eq_none htable] at he
    cases he
  have hkeep : ∀ f ∈ s.vm.frames, palloc.Used f.kpage := by
    intro f hf
    refine (hused _).2 ⟨h.framesHeld.used f hf, fun hk => ?_⟩
    obtain ⟨u, w, hm⟩ := (hmem _).1 hk
    exact hother f hf ((h.pages.mapped u _ w hm).2.2 f hf rfl).1
  refine ⟨?_, ?_, ?_, ⟨h.buckets.1, fun v => ?_⟩, fun v e hv => ?_, fun _ => ⟨hpopped, hbuckets⟩,
    fun _ => hmaps, h.nodup, [], fun k => ?_, ?_⟩
  · rw [hentry]
    exact h.slots
  · rw [hentry]
    exact ⟨hlaid, h.framesHeld.nodup, hkeep, h.framesHeld.threads, h.framesHeld.own,
      h.framesHeld.user, h.framesHeld.unpinned, h.framesHeld.framed, h.framesHeld.off⟩
  · refine ⟨fun f hf hfp => absurd hfp (hother f hf), fun u k w hm => ?_, fun u v k w w' hm => ?_⟩
    · rw [hmaps] at hm
      cases hm
    · rw [hmaps] at hm
      cases hm
  · rw [hspte]
    exact h.buckets.2 v
  · rw [hspte]
    exact h.fresh v e hv
  · simp [hmaps]
  · obtain ⟨mapped, hmapped, hperm⟩ := h.account
    have hnodup' := (nodup_append.1 (hperm.nodup_iff.1 h.nodup)).2.1
    have hsame : mapped.Perm pages :=
      (perm_ext_iff_of_nodup hnodup' hnodup).2 fun k => by rw [hmapped, hmem]; rfl
    rw [append_nil]
    exact hperm.trans (hsame.append_left _)

end

/-! ### An allocation by another process -/

lemma evicted_of_evict (hnodup : (vm.frames.map FrameTableEntry.kpage).Nodup) (hf : f ∈ vm.frames)
    (hframes : vm'.frames = vm.frames.filter fun g => g.kpage ≠ f.kpage) :
    vm.evicted vm' p = if f.t = p then [f.kpage] else [] := by
  have hiff : ∀ g ∈ vm.frames, decide (g.t = p ∧ g ∉ vm'.frames) = decide (f.t = p ∧ g = f) := by
    intro g hg
    rw [decide_eq_decide, hframes, mem_filter, decide_eq_true_iff]
    constructor
    · rintro ⟨ht, hgone⟩
      obtain rfl : g = f := by
        refine inj_on_of_nodup_map hnodup hg hf ?_
        by_contra hk
        exact hgone ⟨hg, hk⟩
      exact ⟨ht, rfl⟩
    · rintro ⟨ht, rfl⟩
      exact ⟨ht, fun hgone => hgone.2 rfl⟩
  rw [evicted, filter_congr hiff]
  by_cases ht : f.t = p
  · simp only [ht, true_and, if_true]
    rw [filter_eq, count_eq_one_of_mem (List.Nodup.of_map _ hnodup) hf,
      replicate_one, map_singleton]
  · simp [ht]

lemma evicted_push (vm1 : Vm) (hp : f.t ≠ p) (hframes : vm'.frames = vm1.frames ++ [f]) :
    vm.evicted vm' p = vm.evicted vm1 p := by
  have hiff : ∀ g ∈ vm.frames,
      decide (g.t = p ∧ g ∉ vm'.frames) = decide (g.t = p ∧ g ∉ vm1.frames) := by
    intro g _
    rw [decide_eq_decide, hframes, mem_append, mem_singleton, not_or]
    refine and_congr_right fun ht => and_iff_left_of_imp fun _ hgf => hp ?_
    rw [← hgf, ht]
  rw [evicted, filter_congr hiff, evicted]

lemma evicted_self (hframes : vm'.frames = vm.frames) : vm.evicted vm' p = [] := by
  rw [evicted, map_eq_nil_iff, filter_eq_nil_iff]
  intro g hg hgone
  rw [decide_eq_true_iff, hframes] at hgone
  exact hgone.2 hg

section

variable (h : s.Inv p frames)
include h

/-- **Evicting a frame.**  Its page has an entry in a table, so the slot is held by it. -/
theorem Inv.evict {idx : ℕ} (he : s.vm.Evicts vm' f idx) :
    Inv p frames { s with vm := vm', released := s.released ++ s.vm.evicted vm' p } := by
  obtain ⟨e, d, hspte, hspte'⟩ := he.spte
  obtain ⟨_, hout⟩ := swapOut_eq_ok h.slots.wf he.out
  have htype := swapOut_type s.vm.swap s.vm.palloc.mem f.kpage
  rw [he.out] at htype
  have hturn := pallocFreePage_eq_ok h.framesHeld.laid (h.framesHeld.used f he.mem) he.freed
  have hused : ∀ k ≠ f.kpage, s.vm.palloc.Used k → vm'.palloc.Used k := by
    intro k hk hu
    exact (hturn.used k).2 (by rw [if_neg hk]; exact hu)
  have hpopped : ∀ v e', s.popped = some (v, e') → ¬ (f.t = p ∧ f.upage = v) := by
    rintro v e' hv ⟨rfl, rfl⟩
    rw [h.fresh _ _ hv] at hspte
    cases hspte
  have hentry : s.entry p f.t f.upage = some e := by
    cases hpop : s.popped with
    | none => rw [entry_of_none hpop, hspte]
    | some => rw [entry_of_some hpop, if_neg (hpopped _ _ hpop), hspte]
  have hput : ∀ q v, entry p { s with
      vm := vm', released := s.released ++ s.vm.evicted vm' p } q v =
        if q = f.t ∧ v = f.upage then
          some { e with status := .ON_SWAP, kpage := 0, swapIndex := idx, dirty := d }
        else s.entry p q v := by
    intro q v
    cases hpop : s.popped with
    | none =>
      rw [entry_of_none hpop]
      simp only [entry]
      exact hspte' q v
    | some x =>
      rw [entry_of_some hpop]
      simp only [entry, hspte']
      have hne := hpopped x.1 x.2 hpop
      by_cases hqv : q = f.t ∧ v = f.upage
      · rw [if_pos hqv, if_pos hqv, if_neg]
        rintro ⟨rfl, rfl⟩
        exact hne ⟨hqv.1.symm, hqv.2.symm⟩
      · rw [if_neg hqv, if_neg hqv]
  obtain ⟨_, he0, hst0, _⟩ := h.framesHeld.unpinned f he.mem he.unpinned
  obtain rfl := Option.mem_unique hentry he0
  refine ⟨?_, ?_, ?_, ⟨h.buckets.1, fun v => ?_⟩, fun v e' hv => ?_, h.ended, fun hdone v => ?_,
    h.nodup, ?_⟩
  · refine h.slots.out (e := { e with
      status := .ON_SWAP, kpage := 0, swapIndex := idx, dirty := d }) hout htype rfl
      (fun e' he' => ?_) hput
    rw [hentry] at he'
    rw [← Option.some.inj he', hst0]
    decide
  · dsimp only
    rw [he.frames]
    refine h.framesHeld.leave he.mem he.unpinned ?_ hput hturn.laid hused
    rintro _ ⟨⟩
    exact ⟨by simp, rfl⟩
  · dsimp only
    rw [he.frames]
    by_cases hp : f.t = p
    · refine h.pages.leaveOwn he.mem hp hused fun v => ?_
      rw [he.maps, hp]
      simp
    · have hmaps : vm'.maps p = s.vm.maps p := by
        funext v
        rw [he.maps, if_neg fun hpv => hp hpv.1.symm]
      rw [hmaps]
      exact h.pages.leaveOther he.mem hp hused
  · dsimp only
    rw [h.buckets.2, hspte']
    split_ifs with hpv
    · rw [hpv.1, hpv.2, hspte]
      rfl
    · rfl
  · rw [hspte', if_neg fun hpv => hpopped v e' hv ⟨hpv.1.symm, hpv.2.symm⟩]
    exact h.fresh v e' hv
  · rw [he.maps]
    split_ifs
    · rfl
    · exact h.gone hdone v
  · obtain ⟨mapped, hmapped, hperm⟩ := h.account
    dsimp only
    rw [evicted_of_evict h.framesHeld.nodup he.mem he.frames]
    by_cases hp : f.t = p
    · have hnodup := (nodup_append.1 (hperm.nodup_iff.1 h.nodup)).2.1
      obtain ⟨w0, hw0⟩ := h.pages.resident f he.mem hp
      refine ⟨mapped.erase f.kpage, fun k => ?_, ?_⟩
      · rw [hnodup.mem_erase_iff, hmapped]
        constructor
        · rintro ⟨hk, u, w, hm⟩
          refine ⟨u, w, ?_⟩
          rw [he.maps, if_neg, hm]
          rintro ⟨_, rfl⟩
          rw [hw0] at hm
          exact hk (Prod.mk.inj (Option.some.inj hm)).1.symm
        · rintro ⟨u, w, hm⟩
          rw [he.maps] at hm
          split_ifs at hm with hpu
          refine ⟨?_, u, w, hm⟩
          rintro rfl
          exact hpu ⟨hp.symm, h.pages.inj u _ _ w w0 hm hw0⟩
      · rw [if_pos hp, append_assoc, singleton_append]
        have hmem : f.kpage ∈ mapped := (hmapped _).2 ⟨f.upage, w0, hw0⟩
        exact hperm.trans ((perm_cons_erase hmem).append_left _)
    · refine ⟨mapped, fun k => ?_, ?_⟩
      · have hmaps : ∀ v, vm'.maps p v = s.vm.maps p v := by
          intro v
          rw [he.maps, if_neg fun hpv => hp hpv.1.symm]
        simp only [hmaps]
        exact hmapped k
      · rw [if_neg hp, append_nil]
        exact hperm

lemma Inv.take {palloc : Palloc} {k : ℕ}
    (hget : pallocGetPage s.vm.palloc { flags with PAL_USER := true } = .ok (some k, palloc)) :
    Inv p frames { s with vm := { s.vm with palloc := palloc } } ∧ palloc.Used k ∧
      (∀ f ∈ s.vm.frames, f.kpage ≠ k) ∧ ∀ u k' w, s.vm.maps p u = some (k', w) → k ≠ k' := by
  obtain ⟨hfree, hturn⟩ := pallocGetPage_eq_some h.framesHeld.laid hget
  have hused : ∀ k', s.vm.palloc.Used k' → palloc.Used k' := by
    intro _ hk'
    rw [hturn.used]
    split_ifs
    · rfl
    · exact hk'
  have hpages := h.pages.shrink (fun _ hf => hf) hused
  refine ⟨{ h with framesHeld := h.framesHeld.take hturn.laid hused, pages := hpages }, ?_, ?_, ?_⟩
  · rw [hturn.used, if_pos rfl]
  · rintro f hf rfl
    exact hfree (h.framesHeld.used f hf)
  · rintro u _ w hm rfl
    exact hfree (h.pages.mapped u k w hm).2.1

lemma Inv.enter (history : ℤ) (hk : s.vm.palloc.Used f.kpage)
    (hne : ∀ g ∈ s.vm.frames, g.kpage ≠ f.kpage)
    (hmap : ∀ u k w, s.vm.maps p u = some (k, w) → f.kpage ≠ k) (hpin : f.pinned = true)
    (ht : f.t ≠ 0) (hp : f.t ≠ p) :
    Inv p frames { s with
      vm := { s.vm with frames := s.vm.frames ++ [f], historyNum := history } } :=
  { h with framesHeld := h.framesHeld.push hk hne hpin ht hp, pages := h.pages.push hmap hp }

theorem Inv.allocate {upage : ℕ} {malloc : Bool}
    (hx : s.exec p (.allocate q flags upage malloc) = some r)
    (hm : s.Meets (.allocate q flags upage malloc)) : ∃ s', r = .ok s' ∧ s'.Inv p frames := by
  simp only [exec] at hx
  split_ifs at hx with hq
  obtain ⟨hq0, hqp⟩ := not_or.1 hq
  cases hx
  have hevict : s.vm.palloc.Full → flags.PAL_ASSERT = false ∧
      ∃ vm', frameEvict secondChance s.vm q = .ok vm' := by
    intro hfull
    obtain ⟨⟨f, hf, hun, hsome⟩, hslot, hassert⟩ := hm hfull
    have hmem : f ∈ s.vm.frames := mem_of_mem_head? hf
    obtain ⟨hofs, huser⟩ := h.framesHeld.user f hmem hun
    exact ⟨hassert, frameEvict_ok h.framesHeld.laid h.slots.wf h.slots.device hf hun
      (h.framesHeld.used f hmem) (h.framesHeld.threads f hmem) hofs huser hsome hslot⟩
  obtain ⟨k, _, ha⟩ := frameAllocate_ok upage malloc h.framesHeld.laid h.framesHeld.used hevict
  rw [ha, ok_bind]
  refine ⟨_, rfl, ?_⟩
  obtain ⟨vm1, _, framePage, hroom, hget, hres⟩ := frameAllocate_eq_ok ha
  -- making room
  have h1 : Inv p frames { s with vm := vm1, released := s.released ++ s.vm.evicted vm1 p } := by
    cases hroom with
    | enough =>
      rw [evicted_self rfl, append_nil]
      exact h
    | evict hnone hev =>
      obtain rfl := pallocGetPage_eq_none h.framesHeld.laid hnone
      exact h.evict hev
  obtain ⟨h2, hused, hne, hmap⟩ := h1.take hget
  dsimp only at h2 hne hmap ⊢
  cases malloc with
  | false =>
    obtain ⟨_, rfl⟩ := hres
    exact h2
  | true =>
    obtain ⟨_, rfl⟩ := hres
    have h3 := h2.enter (f := ⟨upage, framePage, q, true, vm1.historyNum⟩)
      (vm1.historyNum + 1) hused hne hmap rfl hq0 hqp
    rw [evicted_push vm1 (f := ⟨upage, framePage, q, true, vm1.historyNum⟩) hqp rfl]
    exact h3

/-- **Every step that meets the condition returns and keeps the invariant.** -/
theorem Inv.exec_ok (hx : s.exec p ev = some r) (hm : s.Meets ev) :
    ∃ s', r = .ok s' ∧ s'.Inv p frames := by
  cases ev with
  | pop => exact h.pop hx
  | destroy => exact h.destroy hx
  | freeTable => exact h.freeTable hx
  | freePagedir => exact h.freePagedir hx
  | allocate => exact h.allocate hx hm

lemma Inv.step (hs : Step p s ev s') (hm : s.Meets ev) : s'.Inv p frames := by
  obtain ⟨_, hs1, hinv⟩ := h.exec_ok hs hm
  cases hs1
  exact hinv

end

lemma start_inv {buckets : List ℕ} (h : vm.Ready p buckets) :
    Inv p (vm.framesOf p) (start vm buckets) := by
  have hmem : ∀ k, k ∈ vm.framesOf p ↔ ∃ u w, vm.maps p u = some (k, w) := by
    intro k
    rw [framesOf, mem_map]
    constructor
    · rintro ⟨f, hf, rfl⟩
      obtain ⟨hmem, hp⟩ := mem_filter.1 hf
      have ht : f.t = p := of_decide_eq_true hp
      obtain ⟨e, he, hst, hk⟩ := h.core.unpinned f hmem (h.own f hmem ht)
      obtain ⟨w, hw⟩ := h.core.resident _ _ e he hst
      exact ⟨f.upage, w, by rw [← hk, ← ht]; exact hw⟩
    · rintro ⟨u, w, hm⟩
      obtain ⟨f, hf, _, ht, _, hk⟩ := h.core.mapped p u k w hm
      exact ⟨f, mem_filter.2 ⟨hf, decide_eq_true ht⟩, hk⟩
  refine ⟨{ h with }, ?_, ?_, ⟨h.nodup, h.mem_buckets⟩,
    nofun, fun hne => absurd rfl hne, nofun, ?_,
    vm.framesOf p, hmem, .refl _⟩
  · refine ⟨h.core.laid, h.core.nodup, h.core.used, h.threads, h.own, fun f hf hun => ⟨?_, ?_⟩,
      h.core.unpinned, fun u e he hst => ?_, h.off⟩
    · obtain ⟨e, he, hst, _⟩ := h.core.unpinned f hf hun
      obtain ⟨w, hw⟩ := h.core.resident _ _ e he hst
      exact aligned_of_maps hw
    · exact h.user f hf hun
    · obtain ⟨w, hw⟩ := h.core.resident p u e he hst
      obtain ⟨f, hf, _, ht, hu, hk⟩ := h.core.mapped p u _ w hw
      exact ⟨f, hf, ht, hu, hk⟩
  · refine ⟨fun f hf ht => ?_, fun u k w hm => ?_, fun u v k w w' hu hv => ?_⟩
    · obtain ⟨e, he, hst, hk⟩ := h.core.unpinned f hf (h.own f hf ht)
      obtain ⟨w, hw⟩ := h.core.resident _ _ e he hst
      exact ⟨w, by rw [← hk, ← ht]; exact hw⟩
    · obtain ⟨f, hf, hun, ht, rfl, rfl⟩ := h.core.mapped p u k w hm
      refine ⟨h.user f hf hun, h.core.used f hf, fun g hg hgk => ?_⟩
      obtain rfl := h.core.eq_of_kpage hg hf hgk
      exact ⟨ht, rfl⟩
    · obtain ⟨f, hf, _, _, rfl, hfk⟩ := h.core.mapped p u k w hu
      obtain ⟨g, hg, _, _, rfl, hgk⟩ := h.core.mapped p v k w' hv
      rw [h.core.eq_of_kpage hf hg (hfk.trans hgk.symm)]
  · exact h.core.nodup.sublist (filter_sublist.map _)

end Exiting

/-- **Exit and eviction**, if the evictions meet the condition. -/
theorem exit_safe {vm : Vm} {p : ℕ} {buckets : List ℕ} {s : Exiting} (h : vm.Ready p buckets)
    (hrun : Reaches (Exiting.Step p) Exiting.Meets (start vm buckets) s) :
    s.Safe p (vm.framesOf p) := by
  have hinv : s.Inv p (vm.framesOf p) := by
    refine hrun.invariant (Exiting.Inv p (vm.framesOf p)) ?_ (start_inv h)
    intro s _ _ hi hs hm
    exact hi.step hs hm
  refine ⟨fun ev r hx hm => ?_, fun hphase i hi hused => hinv.reclaimed hphase hi hused,
    hinv.atMostOnce, hinv.once⟩
  obtain ⟨s', hr, _⟩ := hinv.exec_ok hx hm
  exact ⟨s', hr⟩

instance (s : Exiting) (ev : ExitEvent) : Decidable (s.Meets ev) := by
  cases ev with
  | allocate q flags upage malloc => exact inferInstanceAs (Decidable (_ → _))
  | _ => exact .isTrue trivial

def Exiting.next (p : ℕ) (s : Exiting) (ev : ExitEvent) : Option Exiting :=
  match s.exec p ev with
  | some (.ok s') => if s.Meets ev then some s' else none
  | _ => none

lemma Exiting.next_step {p : ℕ} {s s' : Exiting} (h : s.next p ev = some s') :
    Exiting.Step p s ev s' ∧ s.Meets ev := by
  unfold next at h
  split at h
  · rename_i hx
    split_ifs at h with hm
    cases h
    exact ⟨hx, hm⟩
  · cases h

def twoPages : Kernel Vm := do
  let block : Option PageTableEntry := some ⟨false, 0, .ALL_ZERO, false, 0⟩
  let noFile : LoadPageFromFilesys := fun _ _ mem => (mem, false)
  let palloc ← pallocInit 264 3 (fun _ => 0) (fun _ => 0) (fun _ => 0)
  let swap ← swapInit (some twoSlots) true (some fun _ => 0)
  let (_, vm) ← tableInstallZeropage (boot palloc swap empty 264) 1 0x8048000 block
  let (loaded, vm) ← loadPage secondChance noFile vm 1 0x8048000 true true
  ASSERT (loaded = true)
  let (_, vm) ← tableInstallZeropage vm 1 0x8049000 block
  let (loaded, vm) ← loadPage secondChance noFile vm 1 0x8049000 true true
  ASSERT (loaded = true)
  ASSERT (∀ f ∈ vm.frames, f.t = 1 ∧ f.pinned = false)
  return vm

lemma twoPages_ready (h : twoPages = .ok vm) : vm.Ready 1 [0x8048000, 0x8049000] := by
  simp only [twoPages, bind_eq_ok, ASSERT_eq_ok] at h
  obtain ⟨palloc, hinit, swap, hswap, ⟨_, _⟩, hz1, ⟨_, _⟩, hl2, _, rfl, ⟨_, _⟩, hz3,
    ⟨_, vm4⟩, hl4, _, rfl, _, hframes, h⟩ := h
  cases h
  have hrun : Reaches (Paging.Step fun _ _ mem => (mem, false)) Always
      ⟨boot palloc swap empty 264, AddressSpaces.zero⟩ ⟨vm4, AddressSpaces.zero⟩ :=
    (((Reaches.refl.step (.zeropage hz1) trivial).step (.load hl2) trivial).step
      (.zeropage hz3) trivial).step (.load hl4) trivial
  have hdev : swap.swapBlock.type ≠ .BLOCK_FOREIGN := by
    rw [← Option.some.inj (swapInit_block hswap)]
    decide
  refine Paging.ready (by decide) (by decide) hinit hswap hdev hrun (fun f hf _ => (hframes f hf).2)
    (fun f hf => by rw [(hframes f hf).1]; decide) (by decide) fun u => ?_
  obtain ⟨_, _, _, _, rfl⟩ := tableInstallZeropage_eq_ok hz1
  obtain ⟨_, _, _, _, rfl⟩ := tableInstallZeropage_eq_ok hz3
  rw [isSome_spte_of_load hl4, spte_setSpte]
  by_cases hu : u = 0x8049000
  · simp [hu]
  · rw [if_neg fun h => hu h.2, isSome_spte_of_load hl2, spte_setSpte]
    by_cases hu' : u = 0x8048000
    · simp [hu']
    · rw [if_neg fun h => hu' h.2]
      simp [hu, hu', boot, spte]

theorem exit_safe_evicted : ∃ vm s, vm.Ready 1 [0x8048000, 0x8049000] ∧
    Reaches (Exiting.Step 1) Exiting.Meets (start vm [0x8048000, 0x8049000]) s ∧
      s.Safe 1 (vm.framesOf 1) ∧ s.phase = .done ∧ s.released = [0xc0107000, 0xc0106000] := by
  have hcheck : twoPages.toOption.any (fun vm =>
      (runThrough (next 1) [.pop, .destroy, .allocate 2 { PAL_USER := true } 0x8048000 true,
        .pop, .destroy, .freeTable, .freePagedir]
        (start vm [0x8048000, 0x8049000])).any fun s =>
          s.phase = .done ∧ s.released = [0xc0107000, 0xc0106000]) = true := by
    decide +kernel
  cases hvm : twoPages with
  | error =>
    rw [hvm] at hcheck
    cases hcheck
  | ok vm =>
    rw [hvm] at hcheck
    obtain ⟨s, hrun, hs⟩ := exists_runThrough next_step _ _ _ hcheck
    obtain ⟨hphase, hreleased⟩ := of_decide_eq_true hs
    have hready := twoPages_ready hvm
    exact ⟨vm, s, hready, hrun, exit_safe hready hrun, hphase, hreleased⟩

/-- **A popped entry is lost to an eviction.**  Process 1 pops an entry; before it takes the frame
out of the frame table, process 2 evicts that one. -/
theorem exit_panics_popped : ∃ vm s, vm.Ready 1 [0x8048000, 0x8049000] ∧
    Exiting.Step 1 (start vm [0x8048000, 0x8049000]) .pop s ∧
      s.exec 1 (.allocate 2 { PAL_USER := true } 0x8048000 true) =
        some (PANIC "더티비트를 설정할 테이블을 찾을 수 없다") := by
  have hcheck : (twoPages.toOption.bind fun vm => ((start vm [0x8048000, 0x8049000]).exec 1
      .pop).bind fun r => r.toOption.bind fun s => s.exec 1 (.allocate 2 { PAL_USER := true }
        0x8048000 true)).map (·.map fun _ => ()) =
          some (PANIC "더티비트를 설정할 테이블을 찾을 수 없다") := by
    decide +kernel
  cases hvm : twoPages with
  | error =>
    rw [hvm] at hcheck
    cases hcheck
  | ok vm =>
    rw [hvm] at hcheck
    obtain ⟨x, hx, heq⟩ := Option.map_eq_some_iff.1 hcheck
    obtain ⟨_, ⟨⟩, hx⟩ := Option.bind_eq_some_iff.1 hx
    obtain ⟨r, hpop, hx⟩ := Option.bind_eq_some_iff.1 hx
    cases r with
    | error => cases hx
    | ok s =>
      cases x with
      | ok => cases heq
      | error =>
        cases heq
        exact ⟨vm, s, twoPages_ready hvm, hpop, hx⟩

end Pintos.Virtualmemory
