/-
# A process that exits gives everything back

`process_exit` in the build with virtual memory: `virtualmemory_table_destroy` takes the frames of
the thread out of the frame table and frees its swap slots, and `pagedir_destroy` returns its
frames, page tables and page directory to the page allocator.

A thread has a supplemental page table and a page directory from the start of `load` on; if
`pagedir_create` fails there, `load` fails and leaves the table.  `virtualmemory_table_create` tests
neither of its allocations: without the first `hash_init` writes to a null pointer, without the
second the table has no buckets.  A run is made of starts of `load`, calls of `Tables.Step` by
threads that have both, and exits.  `pages` lists the pages that hold directories and page tables.

`virtualmemory_table_destroy` asserts that there is a table, so a thread that never ran `load`
cannot exit.  An exit is one step here; evictions in the middle are the subject of `Exit`.
-/

import Pintos.Vm.Accounts
import Pintos.Vm.Exit

namespace Pintos.Virtualmemory

open Base Function Kernel List Pagedir

structure Directory where
  page : ℕ
  table : ℕ → Option ℕ

def Directory.pageAt (d : Directory) : Option ℕ → Option ℕ
  | none => some d.page
  | some i => d.table i

structure Threads where
  vm : Vm
  pending : ℕ → Option (ℕ × ℕ)
  /-- `t->table` is not null. -/
  table : ℕ → Bool
  /-- The hash table in it has buckets. -/
  hashed : ℕ → Bool
  /-- `t->pagedir`. -/
  dir : ℕ → Option Directory
  /-- The pages of the kernel pool that are in use for directories and page tables. -/
  pages : List ℕ

/-- What an exit gave back: swap slots, user pages, kernel pages. -/
structure Freed where
  slots : List ℕ
  frames : List ℕ
  tables : List ℕ

def PageTableEntry.slots (e : PageTableEntry) : List ℕ :=
  if e.kpage = 0 ∧ e.status = .ON_SWAP then [e.swapIndex] else []

/-- `hash_clear` with `spte_destroy_func`; returns the slots it freed. -/
def destroyEntries (p : ℕ) : List ℕ → Vm → Kernel (Vm × List ℕ)
  | [], vm => return (vm, [])
  | u :: buckets, vm =>
    match vm.spte p u with
    | none => kernelFault
    | some e => do
      let vm ← spteDestroyFunc (vm.setSpte p u none) e
      let (vm, slots) ← destroyEntries p buckets vm
      return (vm, e.slots ++ slots)

/-- The state of `pagedir_destroy`. -/
structure Destroying where
  palloc : Palloc
  frames : List ℕ
  pages : List ℕ
  tables : List ℕ

def Destroying.freePage (b : Destroying) (page : ℕ) : Kernel Destroying := do
  ASSERT (page ∈ b.pages)
  return { b with pages := b.pages.erase page, tables := b.tables ++ [page] }

/-- A round of the loop of `pagedir_destroy`: the frames of a page table, then the table. -/
def destroyRound (pd : Pagedir) (d : Directory) (b : Destroying) (i : ℕ) : Kernel Destroying := do
  let (palloc, frames) ← pagedirDestroyTable pd (b.palloc, b.frames) i
  match pd.pt i, d.table i with
  | none, _ => return { b with palloc := palloc, frames := frames }
  | some _, some page => Destroying.freePage { b with palloc := palloc, frames := frames } page
  | some _, none => kernelFault

def directoryDestroy (pd : Pagedir) (d : Directory) (palloc : Palloc) (pages : List ℕ) :
    Kernel Destroying := do
  let b ← forLoop (pdNo PHYS_BASE) (destroyRound pd d) ⟨palloc, [], pages, []⟩
  b.freePage d.page

/-- `virtualmemory_table_create`, with the outcomes of its two allocations: whether the table has
buckets. -/
def tableCreate (table buckets : Bool) : Kernel Bool :=
  if table then return buckets else kernelFault

/-- `process_exit` by `p`, with the pages `buckets` in the order of `hash_clear`. -/
def processExit (s : Threads) (p : ℕ) (buckets : List ℕ) : Kernel (Threads × Freed) := do
  ASSERT (s.table p = true)
  -- `list_empty` of the first bucket
  ASSERT (s.hashed p = true)
  let (vm, slots) ← destroyEntries p buckets s.vm
  let s := { s with vm := vm, table := update s.table p false }
  match s.dir p with
  | none => return (s, ⟨slots, [], []⟩)
  | some d =>
    let b ← directoryDestroy (vm.procs p).pagedir d vm.palloc s.pages
    return ({ s with
      vm := Vm.setPagedir { vm with palloc := b.palloc } p empty
      dir := update s.dir p none
      pages := b.pages }, ⟨slots, b.frames, b.tables⟩)

/-! ### Runs -/

/-- The start of `load`, a call, or an exit; `page` is a page for a directory or page table, `table`
and `buckets` are the allocations of `virtualmemory_table_create`. -/
inductive ThreadEvent
  | load (p : ℕ) (page : Option ℕ) (table buckets : Bool)
  | call (c : Call) (page : Option ℕ)
  | exit (p : ℕ) (buckets : List ℕ)

def Call.proc : Call → Option ℕ
  | .allocate p _ _ _ => some p
  | .install p _ _ _ => some p
  | .release p => some p
  | .fault p _ _ _ _ => some p
  | .load p _ _ _ => some p
  | .unmap p _ _ _ _ => some p
  | .access _ _ => none

def Threads.after (s : Threads) (vm : Vm) (pending : ℕ → Option (ℕ × ℕ)) (page : Option ℕ) :
    Threads :=
  { s with
    vm := vm
    pending := pending
    dir := fun q => (s.dir q).map fun d =>
      ⟨d.page, fun i => if vm.hasTable q i = true ∧ s.vm.hasTable q i = false then page
        else d.table i⟩
    pages := page.toList ++ s.pages }

def Threads.Lists (s : Threads) (p : ℕ) (buckets : List ℕ) : Prop :=
  buckets.Nodup ∧ ∀ u, u ∈ buckets ↔ (s.vm.spte p u).isSome = true

/-- One step.  A page that is taken was not in use, `access` makes no page table, who looks up a
page in a table without buckets halts, and a thread about to install a page does not exit. -/
inductive Threads.Step (fs : LoadPageFromFilesys) : Threads → ThreadEvent → Threads → Prop
  | load {s : Threads} {p : ℕ} {page : Option ℕ} {table buckets hashed : Bool} :
      s.table p = false → (∀ a ∈ page, a ∉ s.pages) → tableCreate table buckets = .ok hashed →
      Step fs s (.load p page table buckets) { s with
        table := update s.table p true
        hashed := update s.hashed p hashed
        dir := update s.dir p (page.map fun a => ⟨a, fun _ => none⟩)
        pages := page.toList ++ s.pages }
  | call {s : Threads} {c : Call} {vm : Vm} {pending : ℕ → Option (ℕ × ℕ)} {page : Option ℕ} :
      Tables.Step secondChance fs ⟨s.vm, s.pending⟩ c ⟨vm, pending⟩ →
      (∀ p ∈ c.proc, s.table p = true ∧ s.hashed p = true ∧ (s.dir p).isSome = true) →
      (c.proc = none → s.vm.SameTables vm) → (page = none ↔ s.vm.SameTables vm) →
      (∀ a ∈ page, a ∉ s.pages) →
      Step fs s (.call c page) (s.after vm pending page)
  | exit {s s' : Threads} {p : ℕ} {buckets : List ℕ} {freed : Freed} : s.pending p = none →
      s.Lists p buckets → processExit s p buckets = .ok (s', freed) →
      Step fs s (.exit p buckets) s'

/-- The condition: the allocations of `virtualmemory_table_create` succeed, calls keep the tables in
agreement, and who exits has run `load`. -/
def ThreadEvent.Meets (s : Threads) : ThreadEvent → Prop
  | .load _ _ table buckets => table = true ∧ buckets = true
  | .call c _ => c.Meets ⟨s.vm, s.pending⟩
  | .exit p _ => s.table p = true

def Threads.boot (palloc : Palloc) (swap : Swap) (initPageDir : Pagedir) (ram : ℕ) : Threads where
  vm := Vm.boot palloc swap initPageDir ram
  pending := fun _ => none
  table := fun _ => false
  hashed := fun _ => false
  dir := fun _ => none
  pages := []

/-- **Everything is given back once.** -/
structure Threads.GivesBack (s : Threads) (p : ℕ) (s' : Threads) (freed : Freed) : Prop where
  /-- No entry of the frame table names the thread. -/
  frames : ∀ f ∈ s'.vm.frames, f.t ≠ p
  /-- The slots of its pages on the swap device are freed, each once. -/
  slots : freed.slots.Nodup ∧ ∀ i, i ∈ freed.slots ↔
    ∃ u e, s.vm.spte p u = some e ∧ e.status = .ON_SWAP ∧ e.swapIndex = i
  free : ∀ i ∈ freed.slots, s'.vm.swap.free i = true
  /-- Its resident frames are returned to the allocator, each once. -/
  resident : freed.frames.Nodup ∧ ∀ k, k ∈ freed.frames ↔ ∃ f ∈ s.vm.frames, f.t = p ∧ f.kpage = k
  tables : freed.tables.Nodup ∧ ∀ a, a ∈ freed.tables ↔
    ∃ d ∈ s.dir p, ∃ i, d.pageAt i = some a

/-! ### The supplemental page table -/

structure EntriesDestroyed (vm : Vm) (p : ℕ) (done : List ℕ) (vm' : Vm) : Prop where
  palloc : vm'.palloc = vm.palloc
  frames : vm'.frames = vm.frames.filter fun f => ¬(f.t = p ∧ f.upage ∈ done)
  wf : vm'.swap.Wf
  block : vm'.swap.swapBlock = vm.swap.swapBlock
  free : ∀ i, vm'.swap.free i = true ↔ vm.swap.free i = true ∨
    ∃ u ∈ done, ∃ e, vm.spte p u = some e ∧ e.status = .ON_SWAP ∧ e.swapIndex = i
  spte : ∀ q v, vm'.spte q v = if q = p ∧ v ∈ done then none else vm.spte q v
  pagedir : ∀ q, (vm'.procs q).pagedir = (vm.procs q).pagedir

variable {f : FrameTableEntry} {a i q v : ℕ} {palloc : Palloc} {pd : Pagedir} {swap : Swap}

section Entries

variable {vm vm' vm'' : Vm} {p u : ℕ} {done buckets : List ℕ} {e : PageTableEntry}

lemma EntriesDestroyed.refl (p : ℕ) (h : vm.swap.Wf) : EntriesDestroyed vm p [] vm := by
  refine ⟨rfl, ?_, h, rfl, fun i => ?_, fun q v => ?_, fun _ => rfl⟩
  · simp
  · simp
  · simp

lemma Vm.Core.frame_iff (hc : vm.Core) (hown : ∀ f ∈ vm.frames, f.t = p → f.pinned = false)
    (he : vm.spte p u = some e) (hf : f ∈ vm.frames) :
    f.t = p ∧ f.upage = u ↔ e.status = .ON_FRAME ∧ f.kpage = e.kpage := by
  constructor
  · rintro ⟨rfl, rfl⟩
    obtain ⟨_, he', hst, hk⟩ := hc.unpinned f hf (hown f hf rfl)
    obtain rfl := Option.mem_unique he he'
    exact ⟨hst, hk.symm⟩
  · rintro ⟨hst, hk⟩
    obtain ⟨w, hw⟩ := hc.resident p u e he hst
    obtain ⟨g, hg, _, ht, hu, hgk⟩ := hc.mapped p u _ w hw
    obtain rfl := hc.eq_of_kpage hf hg (hk.trans hgk.symm)
    exact ⟨ht, hu⟩

lemma Vm.Accounts.kpage_ne_zero (ha : vm.Accounts) (hc : vm.Core) (he : vm.spte p u = some e) :
    e.kpage ≠ 0 ↔ e.status = .ON_FRAME := by
  constructor
  · intro hk
    by_contra hst
    exact hk (ha.off p u e he hst)
  · intro hst hk
    obtain ⟨w, hw⟩ := hc.resident p u e he hst
    obtain ⟨f, hf, _, _, _, hfk⟩ := hc.mapped p u _ w hw
    have hbase := ((hc.used f hf).bounds hc.laid).1
    rw [hfk, hk] at hbase
    exact absurd hbase (by decide)

namespace EntriesDestroyed

lemma cons (h : EntriesDestroyed vm p done vm') (hpalloc : vm''.palloc = vm.palloc)
    (hframes : vm''.frames = vm'.frames.filter fun f => ¬(f.t = p ∧ f.upage = u))
    (hprocs : vm''.procs = (vm'.setSpte p u none).procs) (hwf : vm''.swap.Wf)
    (hblock : vm''.swap.swapBlock = vm'.swap.swapBlock)
    (hfree : ∀ i, vm''.swap.free i = true ↔ vm'.swap.free i = true ∨
      ∃ e, vm.spte p u = some e ∧ e.status = .ON_SWAP ∧ e.swapIndex = i) :
    EntriesDestroyed vm p (u :: done) vm'' := by
  refine ⟨hpalloc, ?_, hwf, hblock.trans h.block, fun i => ?_, fun q v => ?_, fun q => ?_⟩
  · rw [hframes, h.frames, filter_filter]
    refine filter_congr fun f _ => ?_
    by_cases ht : f.t = p
    · by_cases hu : f.upage = u
      · simp [ht, hu]
      · simp [ht, hu]
    · simp [ht]
  · rw [hfree, h.free]
    simp only [mem_cons, exists_eq_or_imp]
    exact or_assoc.trans (or_congr_right or_comm)
  · rw [Vm.spte, hprocs]
    refine (Vm.spte_setSpte ..).trans ?_
    rw [h.spte]
    by_cases hq : q = p
    · by_cases hv : v = u
      · simp [hq, hv]
      · simp [hq, hv]
    · simp [hq]
  · rw [hprocs, ← h.pagedir q]
    by_cases hq : q = p
    · rw [hq, Vm.setSpte, Vm.setProc]
      dsimp only
      rw [update_self]
    · rw [Vm.setSpte, Vm.setProc]
      dsimp only
      rw [update_of_ne hq]

/-- **Destroying an entry** gives back its frame table entry or its slot. -/
theorem step (h : EntriesDestroyed vm p done vm') (hc : vm.Core) (ha : vm.Accounts)
    (hown : ∀ f ∈ vm.frames, f.t = p → f.pinned = false) (hu : u ∉ done)
    (he : vm.spte p u = some e) :
    ∃ vm'', spteDestroyFunc (vm'.setSpte p u none) e = .ok vm'' ∧
      EntriesDestroyed vm p (u :: done) vm'' := by
  have hsub : ∀ f ∈ vm'.frames, f ∈ vm.frames := by
    intro f hf
    rw [h.frames] at hf
    exact (mem_filter.1 hf).1
  have hframe : ∀ f ∈ vm'.frames, (f.t = p ∧ f.upage = u ↔ e.status = .ON_FRAME ∧
      f.kpage = e.kpage) := fun f hf => hc.frame_iff hown he (hsub f hf)
  have hnoframe : e.status ≠ .ON_FRAME →
      vm'.frames = vm'.frames.filter fun f => ¬(f.t = p ∧ f.upage = u) := by
    intro hst
    refine (filter_eq_self.2 fun f hf => ?_).symm
    rw [decide_eq_true_iff, hframe f hf]
    exact fun hf => hst hf.1
  unfold spteDestroyFunc
  by_cases hst : e.status = .ON_FRAME
  · -- the entry has a frame, and the frame has an entry
    obtain ⟨w, hw⟩ := hc.resident p u e he hst
    obtain ⟨f, hf, _, _, hfu, hfk⟩ := hc.mapped p u _ w hw
    have hf' : f ∈ vm'.frames := by
      rw [h.frames, mem_filter]
      simp [hf, hfu, hu]
    have hlaid : (vm'.setSpte p u none).palloc.Laid := h.palloc ▸ hc.laid
    obtain ⟨vm'', hfree⟩ := frameDoFree_ok hlaid hf' (h.palloc ▸ hc.used f hf) false
    have hremove : frameRemoveEntry (vm'.setSpte p u none) e.kpage = .ok vm'' := hfk ▸ hfree
    rw [if_pos ((ha.kpage_ne_zero hc he).2 hst), ASSERT_of hst, ok_bind, hremove]
    refine ⟨vm'', rfl, ?_⟩
    obtain ⟨_, _, rfl, hpalloc⟩ := frameDoFree_eq_ok hfree
    refine h.cons (hpalloc.trans h.palloc) ?_ rfl h.wf rfl fun i => ?_
    · refine filter_congr fun g hg => ?_
      rw [hfk]
      simp only [hframe g hg, hst, true_and]
    · refine ⟨.inl, fun hi => hi.elim id ?_⟩
      rintro ⟨_, he', hsw, _⟩
      rw [← Option.mem_unique he he', hst] at hsw
      cases hsw
  · rw [if_neg (mt (ha.kpage_ne_zero hc he).1 hst)]
    by_cases hsw : e.status = .ON_SWAP
    · -- the slot is still in use: no entry destroyed so far had it
      obtain ⟨_, hused⟩ := ha.slot p u e he hsw
      have hlt' : e.swapIndex < vm'.swap.swapSize := by
        rwa [h.wf.swapSize, h.block, ← ha.wf.swapSize]
      have hused' : vm'.swap.free e.swapIndex = false := by
        rw [Bool.eq_false_iff, ne_eq, h.free]
        rintro (hfree | ⟨v, hv, e', he', hsw', hidx⟩)
        · rw [hused] at hfree
          cases hfree
        · exact hu ((ha.distinct p v e' p u e he' hsw' he hsw hidx).2 ▸ hv)
      obtain ⟨swap, hfree, hrel⟩ := swapFree_spec h.wf hlt' hused'
      have hfree' : swapFree (vm'.setSpte p u none).swap e.swapIndex = .ok swap := hfree
      rw [if_pos hsw, hfree', ok_bind]
      refine ⟨_, rfl, h.cons h.palloc (hnoframe hst) rfl hrel.wf hrel.block fun i => ?_⟩
      rw [hrel.free]
      by_cases hi : i = e.swapIndex
      · simp [hi, he, hsw]
      · rw [if_neg hi]
        refine ⟨.inl, fun hi' => hi'.elim id ?_⟩
        rintro ⟨_, he', _, hidx⟩
        rw [← Option.mem_unique he he'] at hidx
        exact absurd hidx.symm hi
    · rw [if_neg hsw]
      refine ⟨_, rfl, h.cons h.palloc (hnoframe hst) rfl h.wf rfl fun i => ?_⟩
      refine ⟨.inl, fun hi => hi.elim id ?_⟩
      rintro ⟨_, he', hsw', _⟩
      rw [← Option.mem_unique he he'] at hsw'
      exact absurd hsw' hsw

end EntriesDestroyed

def Vm.slotsOf (vm : Vm) (p u : ℕ) : List ℕ := (vm.spte p u).elim [] PageTableEntry.slots

theorem destroyEntries_spec (hc : vm.Core) (ha : vm.Accounts)
    (hown : ∀ f ∈ vm.frames, f.t = p → f.pinned = false) (h : EntriesDestroyed vm p done vm')
    (hnodup : buckets.Nodup) (hnew : ∀ u ∈ buckets, u ∉ done ∧ (vm.spte p u).isSome = true) :
    ∃ vm'', destroyEntries p buckets vm' = .ok (vm'', buckets.flatMap (vm.slotsOf p)) ∧
      EntriesDestroyed vm p (buckets.reverse ++ done) vm'' := by
  induction buckets generalizing done vm' with
  | nil => exact ⟨vm', rfl, h⟩
  | cons u _ ih =>
    obtain ⟨hfresh, hnodup⟩ := nodup_cons.1 hnodup
    obtain ⟨hu, hsome⟩ := hnew u mem_cons_self
    obtain ⟨e, he⟩ := Option.isSome_iff_exists.1 hsome
    obtain ⟨_, hdestroy, h1⟩ := h.step hc ha hown hu he
    obtain ⟨vm2, hrest, h2⟩ := ih h1 hnodup fun v hv => by
      refine ⟨?_, (hnew v (mem_cons_of_mem _ hv)).2⟩
      rw [mem_cons, not_or]
      exact ⟨fun hvu => hfresh (hvu ▸ hv), (hnew v (mem_cons_of_mem _ hv)).1⟩
    have he' : vm'.spte p u = some e := by
      rw [h.spte, if_neg fun hd => hu hd.2, he]
    refine ⟨vm2, ?_, ?_⟩
    · rw [destroyEntries, he']
      dsimp only
      rw [hdestroy, ok_bind, hrest, ok_bind, flatMap_cons, Vm.slotsOf, he]
      rfl
    · rw [reverse_cons, append_assoc]
      exact h2

lemma slots_freed (hc : vm.Core) (ha : vm.Accounts) (hnodup : buckets.Nodup)
    (hmem : ∀ u, u ∈ buckets ↔ (vm.spte p u).isSome = true) :
    (buckets.flatMap (vm.slotsOf p)).Nodup ∧ ∀ i, i ∈ buckets.flatMap (vm.slotsOf p) ↔
      ∃ u e, vm.spte p u = some e ∧ e.status = .ON_SWAP ∧ e.swapIndex = i := by
  have hslot : ∀ u i, i ∈ vm.slotsOf p u ↔
      ∃ e, vm.spte p u = some e ∧ e.status = .ON_SWAP ∧ e.swapIndex = i := by
    intro u i
    unfold Vm.slotsOf
    cases he : vm.spte p u with
    | none => simp
    | some e =>
      have hk : e.status = .ON_SWAP → e.kpage = 0 := hc.swapped p u e he
      by_cases hsw : e.status = .ON_SWAP
      · simp [PageTableEntry.slots, hsw, hk hsw, eq_comm]
      · simp [PageTableEntry.slots, hsw]
  constructor
  · rw [nodup_flatMap]
    refine ⟨fun u _ => ?_, hnodup.imp fun {u v} huv i hi hi' => ?_⟩
    · unfold Vm.slotsOf
      cases vm.spte p u with
      | none => exact nodup_nil
      | some =>
        rw [Option.elim_some, PageTableEntry.slots]
        split_ifs
        · exact nodup_singleton _
        · exact nodup_nil
    · obtain ⟨e, he, hsw, hidx⟩ := (hslot u i).1 hi
      obtain ⟨e', he', hsw', hidx'⟩ := (hslot v i).1 hi'
      exact huv (ha.distinct p u e p v e' he hsw he' hsw' (hidx.trans hidx'.symm)).2
  · intro i
    rw [mem_flatMap]
    constructor
    · rintro ⟨u, _, hi⟩
      exact ⟨u, (hslot u i).1 hi⟩
    · rintro ⟨u, e, he, hrest⟩
      refine ⟨u, (hmem u).2 (by rw [he]; rfl), (hslot u i).2 ⟨e, he, hrest⟩⟩

end Entries

/-! ### The page directory -/

/-- The state of the loop of `pagedir_destroy` after `n` rounds. -/
structure DirectoryDestroyed (pd : Pagedir) (d : Directory) (palloc : Palloc) (pages : List ℕ)
    (n : ℕ) (b : Destroying) : Prop where
  frames : pd.Destroyed palloc (n * 1024) (b.palloc, b.frames)
  nodup : b.tables.Nodup
  mem : ∀ a, a ∈ b.tables ↔ ∃ i < n, d.table i = some a
  kept : ∀ a ∈ pages, a ∉ b.tables → a ∈ b.pages

structure Directory.Owns (d : Directory) (has : ℕ → Bool) (pages : List ℕ) : Prop where
  table : ∀ i, (d.table i).isSome = has i
  used : ∀ x a, d.pageAt x = some a → a ∈ pages
  distinct : ∀ x y a, d.pageAt x = some a → d.pageAt y = some a → x = y

section Directory

variable {pd : Pagedir} {d : Directory} {palloc : Palloc} {pages : List ℕ} {b : Destroying}

lemma kept_erase {page : ℕ} {tables : List ℕ} (h : a ∉ tables → a ∈ pages)
    (hnot : a ∉ tables ++ [page]) : a ∈ pages.erase page := by
  rw [mem_append, mem_singleton, not_or] at hnot
  exact (mem_erase_of_ne hnot.2).2 (h hnot.1)

lemma Destroying.freePage_ok (h : a ∈ b.pages) :
    b.freePage a = .ok { b with pages := b.pages.erase a, tables := b.tables ++ [a] } := by
  rw [freePage, ASSERT_of h]
  rfl

variable (hd : d.Owns pd.hasTable pages) (hl : palloc.Laid)
  (hused : ∀ u k w, pd.maps u = some (k, w) → u < PHYS_BASE ∧ palloc.Used k)
  (hinj : ∀ u u' k w w', pd.maps u = some (k, w) → pd.maps u' = some (k, w') → u = u')
include hd hl hused hinj

lemma destroyRound_spec (h : DirectoryDestroyed pd d palloc pages i b) :
    ∃ b', destroyRound pd d b i = .ok b' ∧ DirectoryDestroyed pd d palloc pages (i + 1) b' := by
  obtain ⟨⟨palloc', frames⟩, hround, hframes⟩ := pagedirDestroy_table hl hused hinj h.frames
  have htable := hd.table i
  rw [hasTable] at htable
  unfold destroyRound
  rw [hround, ok_bind]
  cases hpt : pd.pt i with
  | none =>
    rw [hpt, Option.isSome_none, Option.isSome_eq_false_iff, Option.isNone_iff_eq_none] at htable
    refine ⟨_, rfl, hframes, h.nodup, fun a => ?_, h.kept⟩
    rw [h.mem]
    constructor
    · rintro ⟨j, _, ha⟩
      exact ⟨j, by omega, ha⟩
    · rintro ⟨j, _, ha⟩
      have hne : j ≠ i := by
        rintro rfl
        rw [htable] at ha
        cases ha
      exact ⟨j, by omega, ha⟩
  | some =>
    rw [hpt, Option.isSome_some] at htable
    obtain ⟨page, hpage⟩ := Option.isSome_iff_exists.1 htable
    -- no earlier table had this page
    have hnew : page ∉ b.tables := by
      intro hmem
      obtain ⟨j, _, ha⟩ := (h.mem page).1 hmem
      have hji : some j = some i := hd.distinct (some j) (some i) page ha hpage
      exact absurd (Option.some.inj hji) (by omega)
    have hin : page ∈ ({ b with palloc := palloc', frames := frames } : Destroying).pages :=
      h.kept page (hd.used (some i) page hpage) hnew
    rw [hpage]
    dsimp only
    rw [Destroying.freePage_ok hin]
    refine ⟨_, rfl, hframes, ?_, fun a => ?_, fun a ha hnot => ?_⟩
    · exact nodup_append'.2 ⟨h.nodup, nodup_singleton _, by simpa using hnew⟩
    · rw [mem_append, mem_singleton, h.mem]
      constructor
      · rintro (⟨j, _, ha⟩ | rfl)
        · exact ⟨j, by omega, ha⟩
        · exact ⟨i, by omega, hpage⟩
      · rintro ⟨j, _, ha⟩
        by_cases hji : j = i
        · rw [hji, hpage] at ha
          exact .inr (Option.some.inj ha).symm
        · exact .inl ⟨j, by omega, ha⟩
    · exact kept_erase (h.kept a ha) hnot

/-- **Destroying the page directory** returns its frames, its page tables and its page, each
once. -/
theorem directoryDestroy_spec (huser : ∀ i, pd.hasTable i = true → i < pdNo PHYS_BASE) :
    ∃ b, directoryDestroy pd d palloc pages = .ok b ∧ b.palloc.Laid ∧
      (∀ k, b.palloc.Used k ↔ palloc.Used k ∧ k ∉ b.frames) ∧
      (b.frames.Nodup ∧ ∀ k, k ∈ b.frames ↔ ∃ u w, pd.maps u = some (k, w)) ∧
      (b.tables.Nodup ∧ ∀ a, a ∈ b.tables ↔ ∃ x, d.pageAt x = some a) ∧
      ∀ a ∈ pages, a ∉ b.tables → a ∈ b.pages := by
  have hstart : DirectoryDestroyed pd d palloc pages 0 ⟨palloc, [], pages, []⟩ :=
    ⟨⟨hl, nodup_nil, fun k => by simp, fun k => by simp⟩, nodup_nil,
      fun a => by simp, fun a ha _ => ha⟩
  obtain ⟨b, hloop, h⟩ := forLoop_ok (n := pdNo PHYS_BASE)
    (fun i b => DirectoryDestroyed pd d palloc pages i b) hstart
    fun i b _ hb => destroyRound_spec hd hl hused hinj hb
  have hown : d.pageAt none = some d.page := rfl
  have hnew : d.page ∉ b.tables := by
    intro hmem
    obtain ⟨j, _, ha⟩ := (h.mem _).1 hmem
    exact nomatch hd.distinct none (some j) d.page hown ha
  have hin : d.page ∈ b.pages := h.kept _ (hd.used none _ hown) hnew
  rw [directoryDestroy, hloop, ok_bind, Destroying.freePage_ok hin]
  refine ⟨_, rfl, h.frames.laid, h.frames.used, ⟨h.frames.nodup, fun k => ?_⟩,
    ⟨?_, fun a => ?_⟩, fun a ha hnot => ?_⟩
  · refine (h.frames.mem k).trans (exists_congr fun u => exists_congr fun w =>
      and_iff_left_of_imp fun hm => ?_)
    have hu := (hused u k w hm).1
    simp only [pdNo, PHYS_BASE, PGSIZE] at hu ⊢
    omega
  · exact nodup_append'.2 ⟨h.nodup, nodup_singleton _, by simpa using hnew⟩
  · rw [mem_append, mem_singleton, h.mem]
    constructor
    · rintro (⟨i, _, ha⟩ | rfl)
      · exact ⟨some i, ha⟩
      · exact ⟨none, rfl⟩
    · rintro ⟨x, hx⟩
      cases x with
      | none => exact .inr (Option.some.inj hx).symm
      | some i =>
        have hsome : (d.table i).isSome = true := Option.isSome_iff_exists.2 ⟨a, hx⟩
        rw [hd.table] at hsome
        exact .inl ⟨i, huser i hsome, hx⟩
  · exact kept_erase (h.kept a ha) hnot

end Directory

/-! ### A process is gone -/

/-- Process `p` has no frame, no entry and no page table left, and its slots are free. -/
structure Vm.Cleared (vm : Vm) (p : ℕ) (vm' : Vm) : Prop where
  laid : vm'.palloc.Laid
  used : ∀ f ∈ vm.frames, f.t ≠ p → vm'.palloc.Used f.kpage
  frames : vm'.frames = vm.frames.filter fun f => f.t ≠ p
  spte : ∀ q v, vm'.spte q v = if q = p then none else vm.spte q v
  maps : ∀ q v, vm'.maps q v = if q = p then none else vm.maps q v
  tables : ∀ q i, vm'.hasTable q i = if q = p then false else vm.hasTable q i
  wf : vm'.swap.Wf
  block : vm'.swap.swapBlock = vm.swap.swapBlock
  free : ∀ i, vm'.swap.free i = true ↔ vm.swap.free i = true ∨
    ∃ u e, vm.spte p u = some e ∧ e.status = .ON_SWAP ∧ e.swapIndex = i

namespace Vm.Cleared

variable {vm vm' : Vm} {p : ℕ} {pending : ℕ → Option (ℕ × ℕ)}

section

variable (h : vm.Cleared p vm')
include h

lemma mem_frames : f ∈ vm'.frames ↔ f ∈ vm.frames ∧ f.t ≠ p := by
  rw [h.frames, mem_filter, decide_eq_true_iff]

lemma spte_some {e : PageTableEntry} (he : vm'.spte q v = some e) :
    q ≠ p ∧ vm.spte q v = some e := by
  rw [h.spte] at he
  split_ifs at he with hq
  exact ⟨hq, he⟩

lemma core (hc : vm.Core) : vm'.Core := by
  refine ⟨h.laid, ?_, fun f hf => ?_, fun f hf hun => ?_, fun q v e he hst => ?_,
    fun q v k w hm => ?_, fun q v e he => ?_⟩
  · rw [h.frames]
    exact hc.nodup.sublist (filter_sublist.map _)
  · obtain ⟨hf, hne⟩ := h.mem_frames.1 hf
    exact h.used f hf hne
  · obtain ⟨hf, hne⟩ := h.mem_frames.1 hf
    rw [h.spte, if_neg hne]
    exact hc.unpinned f hf hun
  · obtain ⟨hne, he⟩ := h.spte_some he
    rw [h.maps, if_neg hne]
    exact hc.resident q v e he hst
  · rw [h.maps] at hm
    split_ifs at hm with hq
    obtain ⟨f, hf, hun, ht, hrest⟩ := hc.mapped q v k w hm
    exact ⟨f, h.mem_frames.2 ⟨hf, fun hp => hq (ht.symm.trans hp)⟩, hun, ht, hrest⟩
  · exact hc.swapped q v e (h.spte_some he).2

lemma accounts (ha : vm.Accounts) : vm'.Accounts := by
  refine ⟨h.wf, fun q v e he hst => ?_, fun q v e q' v' e' he hst he' => ?_,
    fun q v e he => ?_, fun f hf => ?_, fun q v e he hst => ?_⟩
  · obtain ⟨hne, he⟩ := h.spte_some he
    obtain ⟨_, hused⟩ := ha.slot q v e he hst
    refine ⟨by rwa [h.wf.swapSize, h.block, ← ha.wf.swapSize], ?_⟩
    rw [Bool.eq_false_iff, ne_eq, h.free]
    rintro (hfree | ⟨u, e', he', hst', hidx⟩)
    · rw [hused] at hfree
      cases hfree
    · exact hne (ha.distinct p u e' q v e he' hst' he hst hidx).1.symm
  · exact ha.distinct q v e q' v' e' (h.spte_some he).2 hst (h.spte_some he').2
  · exact ha.off q v e (h.spte_some he).2
  · exact ha.user f (h.mem_frames.1 hf).1
  · obtain ⟨hne, he⟩ := h.spte_some he
    rw [h.tables, if_neg hne]
    exact ha.table q v e he hst

lemma tablesInv (hp : pending p = none)
    (hi : Tables.Inv ⟨vm, pending⟩ ∧ Tables.Fresh ⟨vm, pending⟩) :
    Tables.Inv ⟨vm', pending⟩ ∧ Tables.Fresh ⟨vm', pending⟩ := by
  obtain ⟨hinv, hfresh⟩ := hi
  have hne : ∀ {q u k}, pending q = some (u, k) → q ≠ p := by
    rintro q u k hq rfl
    rw [hp] at hq
    cases hq
  refine ⟨⟨h.core hinv.core, fun f hf => ?_, fun q u k hq => ?_⟩, fun q u k hq => ?_⟩
  · exact hinv.pins f (h.mem_frames.1 hf).1
  · obtain ⟨hoff, f, hf, hpin, ht, hrest⟩ := hinv.pending q u k hq
    refine ⟨?_, f, h.mem_frames.2 ⟨hf, ht ▸ hne hq⟩, hpin, ht, hrest⟩
    dsimp only
    rw [h.spte, if_neg (hne hq)]
    exact hoff
  · dsimp only
    rw [h.spte, if_neg (hne hq)]
    exact hfresh q u k hq

end

end Vm.Cleared

/-! ### The invariant -/

/-- The directories have the page tables of the processor, and no page twice. -/
structure Threads.Dirs (has : ℕ → ℕ → Bool) (dir : ℕ → Option Directory) (pages : List ℕ) :
    Prop where
  absent : ∀ p, dir p = none → ∀ i, has p i = false
  owns : ∀ p d, dir p = some d → d.Owns (has p) pages
  user : ∀ p i, has p i = true → i < pdNo PHYS_BASE
  apart : ∀ p d x q d' y a, dir p = some d → d.pageAt x = some a → dir q = some d' →
    d'.pageAt y = some a → p = q

structure Threads.Inv (s : Threads) : Prop where
  tables : Tables.Inv ⟨s.vm, s.pending⟩ ∧ Tables.Fresh ⟨s.vm, s.pending⟩
  accounts : s.vm.Accounts
  dirs : Dirs s.vm.hasTable s.dir s.pages
  idle : ∀ p, s.dir p = none → s.pending p = none ∧ ∀ u, s.vm.spte p u = none
  loaded : ∀ p, s.table p = false → s.dir p = none
  hashed : ∀ p, s.table p = true → s.hashed p = true

namespace Threads

variable {s s' : Threads} {p : ℕ} {buckets pages pages' : List ℕ}
  {dir : ℕ → Option Directory} {has : ℕ → ℕ → Bool} {page : Option ℕ}

lemma Inv.own (h : s.Inv) (hp : s.pending p = none) :
    ∀ f ∈ s.vm.frames, f.t = p → f.pinned = false := by
  rintro f hf rfl
  rw [Bool.eq_false_iff]
  intro hpin
  have hpending := h.tables.1.pins f hf hpin
  dsimp only at hpending
  rw [hp] at hpending
  cases hpending

lemma Inv.no_frames (h : s.Inv) (hp : s.pending p = none) (hnone : ∀ u, s.vm.spte p u = none) :
    ∀ f ∈ s.vm.frames, f.t ≠ p := by
  rintro f hf rfl
  obtain ⟨e, he, _⟩ := h.tables.1.core.unpinned f hf (h.own hp f hf rfl)
  dsimp only at he
  rw [hnone] at he
  cases he

lemma Inv.mapped_iff (h : s.Inv) (hp : s.pending p = none) (k : ℕ) :
    (∃ u w, s.vm.maps p u = some (k, w)) ↔ ∃ f ∈ s.vm.frames, f.t = p ∧ f.kpage = k := by
  constructor
  · rintro ⟨u, w, hm⟩
    obtain ⟨f, hf, _, ht, _, hk⟩ := h.tables.1.core.mapped p u k w hm
    exact ⟨f, hf, ht, hk⟩
  · rintro ⟨f, hf, rfl, rfl⟩
    obtain ⟨e, he, hst, hk⟩ := h.tables.1.core.unpinned f hf (h.own hp f hf rfl)
    obtain ⟨w, hw⟩ := h.tables.1.core.resident _ _ e he hst
    exact ⟨f.upage, w, hk ▸ hw⟩

lemma Dirs.exit (h : Dirs has dir pages)
    (hkept : ∀ a ∈ pages, (∀ d x, dir p = some d → d.pageAt x ≠ some a) → a ∈ pages') :
    Dirs (fun q i => if q = p then false else has q i) (update dir p none) pages' := by
  have hold : ∀ {q d}, update dir p none q = some d → q ≠ p ∧ dir q = some d := by
    intro q d hq
    by_cases hqp : q = p
    · rw [hqp, update_self] at hq
      cases hq
    · exact ⟨hqp, by rwa [update_of_ne hqp] at hq⟩
  refine ⟨fun q hq i => ?_, fun q d hq => ?_, fun q i hi => ?_, fun q d x q' d' y a hq hx hq' => ?_⟩
  · split_ifs with hqp
    · rfl
    · rw [update_of_ne hqp] at hq
      exact h.absent q hq i
  · obtain ⟨hqp, hq⟩ := hold hq
    simp only [if_neg hqp]
    obtain ⟨htable, hused, hdistinct⟩ := h.owns q d hq
    refine ⟨htable, fun x a hx => hkept a (hused x a hx) fun d' y hp hy => ?_, hdistinct⟩
    exact hqp (h.apart q d x p d' y a hq hx hp hy)
  · split_ifs at hi
    exact h.user q i hi
  · exact h.apart q d x q' d' y a (hold hq).2 hx (hold hq').2

structure TableDestroyed (vm : Vm) (p : ℕ) (vm' : Vm) : Prop where
  palloc : vm'.palloc = vm.palloc
  frames : vm'.frames = vm.frames.filter fun f => f.t ≠ p
  spte : ∀ q v, vm'.spte q v = if q = p then none else vm.spte q v
  pagedir : ∀ q, (vm'.procs q).pagedir = (vm.procs q).pagedir
  wf : vm'.swap.Wf
  block : vm'.swap.swapBlock = vm.swap.swapBlock
  free : ∀ i, vm'.swap.free i = true ↔ vm.swap.free i = true ∨
    ∃ u e, vm.spte p u = some e ∧ e.status = .ON_SWAP ∧ e.swapIndex = i

lemma Inv.destroyEntries (h : s.Inv) (hp : s.pending p = none) (hb : s.Lists p buckets) :
    ∃ vm', destroyEntries p buckets s.vm = .ok (vm', buckets.flatMap (s.vm.slotsOf p)) ∧
      TableDestroyed s.vm p vm' := by
  have hown := h.own hp
  have hc : s.vm.Core := h.tables.1.core
  obtain ⟨vm1, hentries, h1⟩ := destroyEntries_spec hc h.accounts hown
    (EntriesDestroyed.refl p h.accounts.wf) hb.1 fun u hu => ⟨not_mem_nil, (hb.2 u).1 hu⟩
  have hdone : ∀ u, u ∈ buckets.reverse ++ [] ↔ (s.vm.spte p u).isSome = true := by
    intro u
    rw [append_nil, mem_reverse, hb.2]
  refine ⟨vm1, hentries, h1.palloc, ?_, fun q v => ?_, h1.pagedir, h1.wf, h1.block, fun i => ?_⟩
  · rw [h1.frames]
    refine filter_congr fun f hf => ?_
    rw [decide_eq_decide, hdone]
    refine not_congr (and_iff_left_of_imp fun ht => ?_)
    obtain ⟨e, he, _⟩ := hc.unpinned f hf (hown f hf ht)
    rw [← ht]
    exact Option.isSome_iff_exists.2 ⟨e, he⟩
  · rw [h1.spte]
    simp only [hdone]
    by_cases hq : q = p
    · cases hv : s.vm.spte p v with
      | none => simp [hq, hv]
      | some => simp [hq]
    · simp [hq]
  · rw [h1.free]
    refine or_congr_right (exists_congr fun u => ?_)
    rw [hdone]
    exact and_iff_right_of_imp fun ⟨e, he, _⟩ => Option.isSome_iff_exists.2 ⟨e, he⟩

lemma Inv.directoryDestroy (h : s.Inv) (hp : s.pending p = none) {d : Directory}
    (hdir : s.dir p = some d) :
    ∃ b, directoryDestroy (s.vm.procs p).pagedir d s.vm.palloc s.pages = .ok b ∧ b.palloc.Laid ∧
      (∀ k, b.palloc.Used k ↔ s.vm.palloc.Used k ∧ k ∉ b.frames) ∧
      (b.frames.Nodup ∧ ∀ k, k ∈ b.frames ↔ ∃ f ∈ s.vm.frames, f.t = p ∧ f.kpage = k) ∧
      (b.tables.Nodup ∧ ∀ a, a ∈ b.tables ↔ ∃ x, d.pageAt x = some a) ∧
      ∀ a ∈ s.pages, a ∉ b.tables → a ∈ b.pages := by
  have hc : s.vm.Core := h.tables.1.core
  obtain ⟨b, hdestroy, hlaid, hused, ⟨hnodup, hmem⟩, hrest⟩ :=
    directoryDestroy_spec (h.dirs.owns p d hdir) hc.laid (fun u k w hm => by
        obtain ⟨f, hf, hun, _, rfl, rfl⟩ := hc.mapped p u k w hm
        exact ⟨h.accounts.user f hf hun, hc.used f hf⟩)
      (fun u u' k w w' hm hm' => by
        obtain ⟨f, hf, _, _, rfl, hk⟩ := hc.mapped p u k w hm
        obtain ⟨g, hg, _, _, rfl, hk'⟩ := hc.mapped p u' k w' hm'
        rw [hc.eq_of_kpage hf hg (hk.trans hk'.symm)])
      (h.dirs.user p)
  exact ⟨b, hdestroy, hlaid, hused, ⟨hnodup, fun k => (hmem k).trans (h.mapped_iff hp k)⟩, hrest⟩

lemma Inv.cleared (h : s.Inv) (hp : s.pending p = none) {vm' : Vm} (hcleared : s.vm.Cleared p vm')
    (hkept : ∀ a ∈ s.pages, (∀ d x, s.dir p = some d → d.pageAt x ≠ some a) → a ∈ pages') :
    Inv { s with
      vm := vm', table := update s.table p false
      dir := update s.dir p none, pages := pages' } := by
  refine ⟨hcleared.tablesInv hp h.tables, hcleared.accounts h.accounts, ?_, fun q hq => ?_,
    fun q hq => ?_, fun q hq => h.hashed q ?_⟩
  · have hhas : vm'.hasTable = fun q i => if q = p then false else s.vm.hasTable q i :=
      funext fun q => funext fun i => hcleared.tables q i
    exact hhas ▸ h.dirs.exit hkept
  · by_cases hqp : q = p
    · rw [hqp]
      exact ⟨hp, fun u => (hcleared.spte p u).trans (if_pos rfl)⟩
    · dsimp only at hq ⊢
      rw [update_of_ne hqp] at hq
      refine ⟨(h.idle q hq).1, fun u => ?_⟩
      rw [hcleared.spte, if_neg hqp]
      exact (h.idle q hq).2 u
  · by_cases hqp : q = p
    · dsimp only
      rw [hqp, update_self]
    · dsimp only at hq ⊢
      rw [update_of_ne hqp] at hq ⊢
      exact h.loaded q hq
  · dsimp only at hq
    by_cases hqp : q = p
    · rw [hqp, update_self] at hq
      cases hq
    · rwa [update_of_ne hqp] at hq

/-- **An exit** by a thread with a table gives everything back, and keeps the invariant. -/
theorem Inv.exit (h : s.Inv) (htable : s.table p = true) (hp : s.pending p = none)
    (hb : s.Lists p buckets) :
    ∃ s' freed, processExit s p buckets = .ok (s', freed) ∧ s.GivesBack p s' freed ∧ s'.Inv := by
  have hc : s.vm.Core := h.tables.1.core
  obtain ⟨vm1, hentries, h1⟩ := h.destroyEntries hp hb
  have hslots := slots_freed hc h.accounts hb.1 hb.2
  have hfree : ∀ i ∈ buckets.flatMap (s.vm.slotsOf p), vm1.swap.free i = true :=
    fun i hi => (h1.free i).2 (.inr ((hslots.2 i).1 hi))
  unfold processExit
  rw [ASSERT_of htable, ok_bind, ASSERT_of (h.hashed p htable), ok_bind, hentries, ok_bind]
  dsimp only
  split
  · -- `pagedir_create` had failed: the thread has nothing but an empty table
    rename_i hdir
    obtain ⟨_, hnone⟩ := h.idle p hdir
    have hcleared : s.vm.Cleared p vm1 := by
      refine ⟨h1.palloc ▸ hc.laid, fun f hf _ => h1.palloc ▸ hc.used f hf, h1.frames, h1.spte,
        fun q v => ?_, fun q i => ?_, h1.wf, h1.block, h1.free⟩
      · rw [Vm.maps, h1.pagedir]
        split_ifs with hq
        · rw [hq]
          exact hc.unmapped (by rw [hnone]; simp)
        · rfl
      · rw [Vm.hasTable, h1.pagedir]
        split_ifs with hq
        · exact hq ▸ h.dirs.absent p hdir i
        · rfl
    have hinv := h.cleared hp hcleared fun a (ha : a ∈ s.pages) _ => ha
    rw [← hdir, update_eq_self] at hinv
    refine ⟨_, _, rfl, ⟨fun f hf => (hcleared.mem_frames.1 hf).2, hslots, hfree, ?_, ?_⟩, hinv⟩
    · refine ⟨nodup_nil, fun k => ⟨by simp, ?_⟩⟩
      rintro ⟨f, hf, ht, _⟩
      exact absurd ht (h.no_frames hp hnone f hf)
    · refine ⟨nodup_nil, fun a => ⟨by simp, ?_⟩⟩
      rintro ⟨d, hd, _⟩
      rw [hdir] at hd
      cases hd
  · rename_i d hdir
    obtain ⟨b, hdestroy, hlaid, hused, hresident, htab, hkept⟩ := h.directoryDestroy hp hdir
    have hcleared : s.vm.Cleared p (Vm.setPagedir { vm1 with palloc := b.palloc } p empty) := by
      refine ⟨hlaid, fun f hf hne => ?_, h1.frames, fun q v => ?_, fun q v => ?_, fun q i => ?_,
        h1.wf, h1.block, h1.free⟩
      · refine (hused _).2 ⟨hc.used f hf, fun hmem => ?_⟩
        obtain ⟨g, hg, ht, hk⟩ := (hresident.2 _).1 hmem
        exact hne (hc.eq_of_kpage hf hg hk.symm ▸ ht)
      · exact (Vm.spte_setPagedir ..).trans (h1.spte q v)
      · rw [Vm.maps_setPagedir]
        split_ifs
        · exact maps_empty v
        · exact congrArg (maps · v) (h1.pagedir q)
      · rw [Vm.hasTable_setPagedir]
        split_ifs
        · rfl
        · exact congrArg (hasTable · i) (h1.pagedir q)
    have hinv := h.cleared hp hcleared fun a ha hnot => hkept a ha fun hmem => by
      obtain ⟨x, hx⟩ := (htab.2 a).1 hmem
      exact hnot d x hdir hx
    rw [h1.pagedir, h1.palloc, hdestroy, ok_bind]
    refine ⟨_, _, rfl, ⟨fun f hf => (hcleared.mem_frames.1 hf).2, hslots, hfree, hresident,
      htab.1, fun a => ?_⟩, hinv⟩
    rw [htab.2]
    simp [hdir]

/-! ### Steps -/

lemma Dirs.load (h : Dirs has dir pages) (hp : dir p = none) (hpage : ∀ a ∈ page, a ∉ pages) :
    Dirs has (update dir p (page.map fun a => ⟨a, fun _ => none⟩)) (page.toList ++ pages) := by
  cases page with
  | none =>
    rw [Option.map_none, ← hp, update_eq_self]
    exact h
  | some a =>
    have hnew : a ∉ pages := hpage a rfl
    -- a directory is the new one, which is empty, or an old one
    have hold : ∀ {q d}, update dir p (some ⟨a, fun _ => none⟩) q = some d →
        (q = p ∧ d = ⟨a, fun _ => none⟩) ∨ q ≠ p ∧ dir q = some d := by
      intro q d hq
      by_cases hqp : q = p
      · rw [hqp, update_self] at hq
        exact .inl ⟨hqp, (Option.some.inj hq).symm⟩
      · exact .inr ⟨hqp, by rwa [update_of_ne hqp] at hq⟩
    have honly : ∀ {x b}, Directory.pageAt ⟨a, fun _ => none⟩ x = some b → x = none ∧ b = a := by
      intro x b hx
      cases x with
      | none => exact ⟨rfl, (Option.some.inj hx).symm⟩
      | some => cases hx
    refine ⟨fun q hq => ?_, fun q d hq => ?_, h.user, fun q d x q' d' y b hq hx hq' hy => ?_⟩
    · refine h.absent q ?_
      by_cases hqp : q = p
      · rw [hqp, hp]
      · rwa [update_of_ne hqp] at hq
    · rcases hold hq with ⟨rfl, rfl⟩ | ⟨_, hq⟩
      · refine ⟨fun i => (h.absent q hp i).symm, fun x b hx => ?_, fun x y b hx hy => ?_⟩
        · rw [(honly hx).2]
          exact mem_cons_self
        · rw [(honly hx).1, (honly hy).1]
      · obtain ⟨htable, hused, hdistinct⟩ := h.owns q d hq
        exact ⟨htable, fun x b hx => mem_cons_of_mem _ (hused x b hx), hdistinct⟩
    · rcases hold hq with ⟨hqp, rfl⟩ | ⟨_, hq1⟩
      · rcases hold hq' with ⟨hqp', _⟩ | ⟨_, hq2⟩
        · rw [hqp, hqp']
        · exact absurd ((h.owns q' d' hq2).used y b hy) ((honly hx).2 ▸ hnew)
      · rcases hold hq' with ⟨_, rfl⟩ | ⟨_, hq2⟩
        · exact absurd ((h.owns q d hq1).used x b hx) ((honly hy).2 ▸ hnew)
        · exact h.apart q d x q' d' y b hq1 hx hq2 hy

lemma Dirs.grow {has' : ℕ → ℕ → Bool} (h : Dirs has dir pages)
    (hmono : ∀ q j, has q j = true → has' q j = true)
    (hnew : ∀ q j, has' q j = true → has q j = false →
      (q = p ∧ j = i) ∧ j < pdNo PHYS_BASE ∧ page.isSome = true ∧ (dir q).isSome = true)
    (hpage : ∀ a ∈ page, a ∉ pages) :
    Dirs has' (fun q => (dir q).map fun d =>
      ⟨d.page, fun j => if has' q j = true ∧ has q j = false then page else d.table j⟩)
      (page.toList ++ pages) := by
  -- a page of a directory is an old one, or the new one at its one place
  have hold : ∀ {q d' x a}, (dir q).map (fun d => (⟨d.page, fun j =>
      if has' q j = true ∧ has q j = false then page else d.table j⟩ : Directory)) = some d' →
      d'.pageAt x = some a →
      ∃ d, dir q = some d ∧ (d.pageAt x = some a ∨ (q = p ∧ x = some i) ∧ page = some a) := by
    intro q _ x a hq hx
    obtain ⟨d, hd, rfl⟩ := Option.map_eq_some_iff.1 hq
    refine ⟨d, hd, ?_⟩
    cases x with
    | none => exact .inl hx
    | some j =>
      simp only [Directory.pageAt] at hx ⊢
      split_ifs at hx with hj
      · obtain ⟨⟨hqp, hji⟩, _⟩ := hnew q j hj.1 hj.2
        exact .inr ⟨⟨hqp, congrArg some hji⟩, hx⟩
      · exact .inl hx
  refine ⟨fun q hq j => ?_, fun q d' hq => ?_, fun q j hj => ?_,
    fun q d' x q' d'' y a hq hx hq' hy => ?_⟩
  · have hq : dir q = none := Option.map_eq_none_iff.1 hq
    have hwas := h.absent q hq j
    rw [Bool.eq_false_iff]
    intro hj
    obtain ⟨_, _, _, hsome⟩ := hnew q j hj hwas
    rw [hq] at hsome
    cases hsome
  · refine ⟨fun j => ?_, fun x a hx => ?_, fun x y a hx hy => ?_⟩
    · obtain ⟨d, hd, rfl⟩ := Option.map_eq_some_iff.1 hq
      have htable := (h.owns q d hd).table j
      dsimp only
      split_ifs with hj
      · rw [hj.1]
        exact (hnew q j hj.1 hj.2).2.2.1
      · rw [htable]
        cases hhas : has q j with
        | true => exact (hmono q j hhas).symm
        | false =>
          cases hhas' : has' q j with
          | true => exact absurd ⟨hhas', hhas⟩ hj
          | false => rfl
    · obtain ⟨d, hd, hx | ⟨_, hx⟩⟩ := hold hq hx
      · exact mem_append_right _ ((h.owns q d hd).used x a hx)
      · exact mem_append_left _ (Option.mem_toList.2 hx)
    · obtain ⟨d, hd, hx1 | ⟨⟨_, hxi⟩, hx1⟩⟩ := hold hq hx
      · obtain ⟨_, hd1, hy1 | ⟨_, hy1⟩⟩ := hold hq hy
        · obtain rfl := Option.mem_unique hd hd1
          exact (h.owns q d hd).distinct x y a hx1 hy1
        · exact absurd ((h.owns q d hd).used x a hx1) (hpage a hy1)
      · obtain ⟨d1, hd1, hy1 | ⟨⟨_, hyi⟩, _⟩⟩ := hold hq hy
        · exact absurd ((h.owns q d1 hd1).used y a hy1) (hpage a hx1)
        · rw [hxi, hyi]
  · cases hwas : has q j with
    | true => exact h.user q j hwas
    | false => exact (hnew q j hj hwas).2.1
  · obtain ⟨d, hd, hx1 | ⟨⟨hqp, _⟩, hx1⟩⟩ := hold hq hx
    · obtain ⟨d1, hd1, hy1 | ⟨_, hy1⟩⟩ := hold hq' hy
      · exact h.apart q d x q' d1 y a hd hx1 hd1 hy1
      · exact absurd ((h.owns q d hd).used x a hx1) (hpage a hy1)
    · obtain ⟨d1, hd1, hy1 | ⟨⟨hqp', _⟩, _⟩⟩ := hold hq' hy
      · exact absurd ((h.owns q' d1 hd1).used y a hy1) (hpage a hx1)
      · rw [hqp, hqp']

end Threads

namespace Tables

variable {fs : LoadPageFromFilesys} {t t' : Tables} {c : Call}

section

variable (hs : Step secondChance fs t c t')
include hs

lemma Step.grows (haccess : c.proc = none → t.vm.SameTables t'.vm) :
    ∃ p i alloc, t.vm.Grows t'.vm p i alloc ∧ (c.proc = some p ∨ t.vm.SameTables t'.vm) := by
  cases hs with
  | allocate _ ha =>
    have hsame := frameAllocate_sameTables ha
    exact ⟨0, 0, false, hsame.grows .., .inr hsame⟩
  | install _ hi => exact ⟨_, _, _, installPage_grows hi, .inl rfl⟩
  | release _ hf =>
    obtain ⟨_, _, rfl, _⟩ := frameDoFree_eq_ok hf
    have hsame := Vm.sameTables_of_procs (rfl : t.vm.procs = t.vm.procs)
    exact ⟨0, 0, false, (hsame.grows 0 0 false).congr rfl rfl, .inr hsame⟩
  | fault _ hf => exact ⟨_, _, _, pageFault_grows hf, .inl rfl⟩
  | load _ hl => exact ⟨_, _, _, loadPage_grows hl, .inl rfl⟩
  | unmap _ hm =>
    obtain ⟨_, _, hsame, _⟩ := tableMmUnmap_tables hm
    exact ⟨0, 0, false, hsame.grows .., .inr hsame⟩
  | access => exact ⟨0, 0, false, (haccess rfl).grows .., .inr (haccess rfl)⟩

theorem Step.accounts (hm : c.Meets t) (h : t.Inv)
    (ha : t.vm.Accounts) (haccess : c.proc = none → t.vm.SameTables t'.vm) : t'.vm.Accounts := by
  cases hs with
  | allocate _ halloc => exact ha.allocate h.core halloc
  | @install p u k w alloc r block vm' hp hi =>
    obtain ⟨f, hf, _, _, rfl, rfl⟩ := h.pending_frame hp
    exact ha.install (fun g hg hk => by rw [h.core.eq_of_kpage hg hf hk])
      (fun e he => (hm _ _ hp e he).1) hi
  | release _ hf => exact ha.release hf
  | fault hp hf => exact ha.fault (fun vm1 hgrow => (h.grow hp hgrow).1.core) hf
  | load _ hl => exact ha.load h.core hl
  | unmap _ hunmap => exact ha.unmap hunmap
  | access hview =>
    refine ha.congr hview.spte hview.swap (fun q j hj => (haccess rfl q j).trans hj) fun f hf => ?_
    exact ha.user f (hview.frames ▸ hf)

lemma Step.spte_none (h : t.Inv) (hq : c.proc ≠ some q) (hnone : t.vm.spte q v = none) :
    t'.vm.spte q v = none := by
  cases hs with
  | allocate _ ha => rw [(h.core.allocate ha).spte q v (by rw [hnone]; simp), hnone]
  | @install p u k w alloc r block vm' hp hi =>
    have hqp : q ≠ p := fun hqp => hq (congrArg some hqp.symm)
    rcases installPage_eq_ok hi with ⟨_, e, _, hin⟩ | ⟨_, rfl⟩ | ⟨_, _, _, _, rfl, _⟩
    · rw [hin.spte, if_neg fun hqp' => hqp hqp'.1, hnone]
    · exact hnone
    · exact (Vm.spte_setPagedir ..).trans hnone
  | release _ hf => rw [(frameFree_drops hf).spte, hnone]
  | fault hp hf => exact (h.fault hp hf).2 q v (fun hqp => hq (congrArg some hqp.symm)) hnone
  | load hp hl => exact (h.load hp hl).2 q v (fun hqp => hq (congrArg some hqp.symm)) hnone
  | unmap _ hm => exact (h.unmap hm).2 q v hnone
  | access hview => exact (hview.spte q v).trans hnone

lemma Step.pending_other (hq : c.proc ≠ some q) : t'.pending q = t.pending q := by
  cases hs with
  | allocate | release => exact update_of_ne (fun hqp => hq (congrArg some hqp.symm)) ..
  | install =>
    dsimp only
    split_ifs
    · exact update_of_ne (fun hqp => hq (congrArg some hqp.symm)) ..
    · rfl
  | fault => rfl
  | load => rfl
  | unmap => rfl
  | access => rfl

end

end Tables

namespace Threads

variable {s s' : Threads} {fs : LoadPageFromFilesys}

theorem Inv.step {ev : ThreadEvent} (h : s.Inv) (hs : Step fs s ev s') (hm : ev.Meets s) :
    s'.Inv := by
  cases hs with
  | @load p page _ _ hashed htable hpage hcreate =>
    have hdir := h.loaded p htable
    have hhashed : hashed = true := by
      obtain ⟨rfl, rfl⟩ := hm
      exact (Except.ok.inj hcreate).symm
    refine ⟨h.tables, h.accounts, h.dirs.load hdir hpage, fun q hq => h.idle q ?_, fun q hq => ?_,
      fun q hq => ?_⟩
    · by_cases hqp : q = p
      · rw [hqp, hdir]
      · dsimp only at hq
        rwa [update_of_ne hqp] at hq
    · have hqp : q ≠ p := by
        rintro rfl
        dsimp only at hq
        rw [update_self] at hq
        cases hq
      dsimp only at hq ⊢
      rw [update_of_ne hqp] at hq ⊢
      exact h.loaded q hq
    · dsimp only at hq ⊢
      by_cases hqp : q = p
      · rw [hqp, update_self, hhashed]
      · rw [update_of_ne hqp] at hq ⊢
        exact h.hashed q hq
  | @call c vm pending page hcall hproc haccess hmade hpage =>
    obtain ⟨p, i, _, hgrows, hwho⟩ := hcall.grows haccess
    have hnone : ∀ {q}, (s.dir q).map (fun d => (⟨d.page, fun i => if vm.hasTable q i = true ∧
        s.vm.hasTable q i = false then page else d.table i⟩ : Directory)) = none →
        s.dir q = none ∧ c.proc ≠ some q := by
      intro q hq
      have hq := Option.map_eq_none_iff.1 hq
      refine ⟨hq, fun hc => ?_⟩
      have hsome := (hproc q hc).2.2
      rw [hq] at hsome
      cases hsome
    refine ⟨Tables.Inv.step h.tables hcall hm, hcall.accounts hm h.tables.1 h.accounts haccess,
      h.dirs.grow (p := p) (i := i) (fun q j => hgrows.mono) (fun q j hj hwas => ?_) hpage,
      fun q hq => ?_, fun q hq => ?_, h.hashed⟩
    · -- a new page table is that of the process that made the call
      have hj : vm.hasTable q j = true := hj
      have hdiffer : ¬ s.vm.SameTables vm := by
        intro hsame
        rw [hsame, hwas] at hj
        cases hj
      have hqj : q = p ∧ j = i := by
        by_contra hne
        exact absurd ((hgrows.other q j hne).symm.trans hj) (by dsimp only; rw [hwas]; decide)
      obtain ⟨rfl, rfl⟩ := hqj
      refine ⟨⟨rfl, rfl⟩, (hgrows.made hwas hj).2, ?_, (hproc q (hwho.resolve_right hdiffer)).2.2⟩
      rw [Option.isSome_iff_ne_none, ne_eq, hmade]
      exact hdiffer
    · obtain ⟨hdir, hq⟩ := hnone hq
      obtain ⟨hpending, hspte⟩ := h.idle q hdir
      exact ⟨(hcall.pending_other hq).trans hpending,
        fun u => hcall.spte_none h.tables.1 hq (hspte u)⟩
    · exact Option.map_eq_none_iff.2 (h.loaded q hq)
  | @exit s' p buckets freed hp hb hexit =>
    obtain ⟨_, _, hexit1, _, hinv⟩ := h.exit hm hp hb
    obtain ⟨rfl, _⟩ := Prod.mk.inj (Except.ok.inj (hexit.symm.trans hexit1))
    exact hinv

lemma boot_inv {ram : ℕ} (hl : palloc.Laid) (hwf : swap.Wf) : (boot palloc swap pd ram).Inv := by
  refine ⟨Tables.boot_inv hl, ⟨hwf, nofun, nofun, nofun, nofun, nofun⟩,
    ⟨fun q _ i => rfl, nofun, nofun, nofun⟩, fun q _ => ⟨rfl, fun u => rfl⟩, fun q _ => rfl,
    nofun⟩

end Threads

/-- **Process exit releases everything once**, in every run whose calls keep the tables in
agreement and whose tables get their memory, for a thread that has run `load`. -/
theorem exit_releases_all {ram limit : ℕ} {mem : Memory} {kbuf ubuf : ℕ → BitVec 32}
    {palloc : Palloc} {role : Option Block} {hdr : Bool} {elems : Option (ℕ → BitVec 32)}
    {swap : Swap} {pd : Pagedir} {fs : LoadPageFromFilesys} {s : Threads} {p : ℕ}
    {buckets : List ℕ} (h₁ : 256 ≤ ram) (h₂ : ram ≤ 2 ^ 18)
    (hinit : pallocInit ram limit mem kbuf ubuf = .ok palloc)
    (hswap : swapInit role hdr elems = .ok swap)
    (hrun : Reaches (Threads.Step fs) ThreadEvent.Meets (Threads.boot palloc swap pd ram) s)
    (htable : s.table p = true) (hpending : s.pending p = none) (hbuckets : s.Lists p buckets) :
    ∃ s' freed, processExit s p buckets = .ok (s', freed) ∧ s.GivesBack p s' freed := by
  have hboot : (Threads.boot palloc swap pd ram).Inv :=
    Threads.boot_inv (pallocInit_laid h₁ h₂ hinit) (swapInit_inv hswap).wf
  have hinv : s.Inv := by
    refine hrun.invariant Threads.Inv ?_ hboot
    exact fun h hs hm => h.step hs hm
  obtain ⟨s', freed, hexit, hback, _⟩ := hinv.exit htable hpending hbuckets
  exact ⟨s', freed, hexit, hback⟩

theorem exit_releases_all_first_page : ∃ palloc swap s s' freed,
    pallocInit 264 4 (fun _ => 0) (fun _ => 0) (fun _ => 0) = .ok palloc ∧
      swapInit (some nineSectors) true (some fun _ => 0) = .ok swap ∧
      Reaches (Threads.Step fun _ _ mem => (mem, false)) ThreadEvent.Meets
        (Threads.boot palloc swap empty 264) s ∧
      s.vm.maps 1 0x8048000 = some (0xc0105000, false) ∧
      processExit s 1 [0x8048000] = .ok (s', freed) ∧ s.GivesBack 1 s' freed := by
  obtain ⟨palloc, swap, vm1, vm2, hinit, hswap, hget, hinst, hmaps⟩ : ∃ palloc swap vm1 vm2,
      pallocInit 264 4 (fun _ => 0) (fun _ => 0) (fun _ => 0) = .ok palloc ∧
        swapInit (some nineSectors) true (some fun _ => 0) = .ok swap ∧
        frameAllocate secondChance (Vm.boot palloc swap empty 264) 1 {} 0x8048000 true =
          .ok (some 0xc0105000, vm1) ∧
        installPage vm1 1 0x8048000 0xc0105000 false
          (some ⟨false, 0xc0105000, .ON_FRAME, false, 0⟩) true = .ok (true, vm2) ∧
        vm2.maps 1 0x8048000 = some (0xc0105000, false) :=
    ⟨_, _, _, _, rfl, rfl, rfl, rfl, rfl⟩
  -- the page table of the page is new
  have hdiffer : ¬ vm1.SameTables vm2 := by
    intro h
    have hnew : vm2.hasTable 1 (pdNo 0x8048000) = true := hasTable_of_maps hmaps
    rw [h, frameAllocate_sameTables hget] at hnew
    cases hnew
  have hsame := frameAllocate_sameTables hget
  obtain ⟨s, hrun, rfl, htable, hpending⟩ : ∃ s, Reaches (Threads.Step fun _ _ mem => (mem, false))
      ThreadEvent.Meets (Threads.boot palloc swap empty 264) s ∧ s.vm = vm2 ∧ s.table 1 = true ∧
        s.pending 1 = none := by
    have hload : Threads.Step (fun _ _ mem => (mem, false)) (Threads.boot palloc swap empty 264)
        (.load 1 (some 0xc0001000) true true) _ := .load rfl (fun _ _ => not_mem_nil) rfl
    refine ⟨_, ((Reaches.refl.step hload ⟨rfl, rfl⟩).step (.call (.allocate rfl hget) ?_ nofun
      ⟨fun _ => hsame, fun _ => rfl⟩ nofun) rfl).step (e := .call _ (some 0xc0002000)) (.call
        (.install rfl hinst) ?_ nofun ⟨(nomatch ·), fun h => absurd h hdiffer⟩ ?_) ?_, rfl, rfl,
          rfl⟩
    · rintro _ ⟨⟩
      exact ⟨rfl, rfl, rfl⟩
    · rintro _ ⟨⟩
      exact ⟨rfl, rfl, rfl⟩
    · rintro _ ⟨⟩
      exact (show 0xc0002000 ∉ [0xc0001000] by decide)
    · rintro _ _ ⟨⟩ _ ⟨⟩
      exact ⟨rfl, rfl⟩
  -- the page is the only one
  have hcore : (Vm.boot palloc swap empty 264).Core :=
    (Tables.boot_inv (pallocInit_laid (by decide) (by decide) hinit)).1.core
  have hlists : s.Lists 1 [0x8048000] := by
    refine ⟨nodup_singleton _, fun u => ?_⟩
    have hnone : vm1.spte 1 u = none := (hcore.allocate hget).spte 1 u nofun
    rcases installPage_eq_ok hinst with ⟨_, e, _, hin⟩ | ⟨h, _⟩ | ⟨h, _⟩
    · rw [hin.spte, hnone, mem_singleton]
      by_cases hu : u = 0x8048000
      · rw [if_pos ⟨rfl, hu⟩]
        exact ⟨fun _ => rfl, fun _ => hu⟩
      · rw [if_neg fun h => hu h.2]
        exact ⟨fun h => absurd h hu, nofun⟩
    · cases h
    · cases h
  obtain ⟨s', freed, hexit, hback⟩ :=
    exit_releases_all (by decide) (by decide) hinit hswap hrun htable hpending hlists
  exact ⟨palloc, swap, s, s', freed, hinit, hswap, hrun, hmaps, hexit, hback⟩

/-- **A thread that never ran `load` cannot exit**, here the first thread. -/
theorem exit_kernel_thread : ∃ palloc swap,
    pallocInit 264 4 (fun _ => 0) (fun _ => 0) (fun _ => 0) = .ok palloc ∧
      swapInit (some nineSectors) true (some fun _ => 0) = .ok swap ∧
      (Threads.boot palloc swap empty 264).pending 1 = none ∧
      (Threads.boot palloc swap empty 264).Lists 1 [] ∧
      processExit (Threads.boot palloc swap empty 264) 1 [] = PANIC "assertion failed." := by
  refine ⟨_, _, rfl, rfl, rfl, ⟨nodup_nil, fun u => ?_⟩, rfl⟩
  exact ⟨nofun, nofun⟩

end Pintos.Virtualmemory
