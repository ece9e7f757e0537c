/-
# The frame table

`vm/frame.c`.  `frameAllocate` takes a page of the user pool; when there is none it evicts a frame:
the owner's mapping is cleared, the page swapped out, the owner's entry marked, and the page freed
and taken again.  The calls hold `frame_lock`, so each is one step.

Which frame is evicted is a parameter, a `SwapPolicy`: any choice of an unpinned frame that at most
clears accessed bits.  The shipped one is `secondChance`.
-/

import Pintos.Vm.Table

namespace Pintos.Virtualmemory

open Base Function Kernel

def Vm.SameView (vm vm' : Vm) : Prop :=
  ∃ pds : ℕ → Pagedir, vm' = { vm with procs := fun p => { vm.procs p with pagedir := pds p } } ∧
    ∀ p u, (pds p).maps u = vm.maps p u

/-- `pick_frame_to_evict`: it returns an unpinned frame, and changes accessed bits at most. -/
structure SwapPolicy where
  pick : Vm → ℕ → Kernel (FrameTableEntry × Vm)
  pick_spec : ∀ {vm vm' : Vm} {cur : ℕ} {f : FrameTableEntry}, pick vm cur = .ok (f, vm') →
    f ∈ vm.frames ∧ f.pinned = false ∧ vm.SameView vm'

/-- The loop of `SECOND_CHANCE`; each round resets `clock_ptr`. -/
def secondChanceLoop (vm : Vm) (cur : ℕ) : ℕ → Kernel (FrameTableEntry × Vm)
  | 0 => PANIC "어느 프레임도 스왑아웃 할 수 없습니다.\n"
  | n + 1 =>
    match vm.frames with
    | [] => PANIC "프레임 테이블이 비어있습니다!"
    | e :: _ =>
      if e.pinned then secondChanceLoop vm cur n
      else if pagedirIsAccessed (vm.procs cur).pagedir e.upage then
        secondChanceLoop
          (vm.setPagedir cur (pagedirSetAccessed (vm.procs cur).pagedir e.upage false)) cur n
      else return (e, vm)

def pickFrameToEvict (vm : Vm) (cur : ℕ) : Kernel (FrameTableEntry × Vm) :=
  if vm.frames.length = 0 then PANIC "프레임 테이블이 비어있습니다!"
  else secondChanceLoop vm cur (vm.frames.length + 1)

/-- Removes the frame at `kpage` from the table, and frees its page if `freePage`. -/
def frameDoFree (vm : Vm) (kpage : ℕ) (freePage : Bool) : Kernel Vm := do
  ASSERT (isKernelVaddr kpage = true)
  ASSERT (pgOfs kpage = 0)
  match vm.frames.find? (fun f => f.kpage = kpage) with
  | none => PANIC "free할 페이지가 해시 맵에 존재하지 않는다."
  | some _ =>
    let vm := { vm with frames := vm.frames.filter fun f => f.kpage ≠ kpage }
    if freePage then
      return { vm with palloc := ← pallocFreePage vm.palloc kpage }
    else
      return vm

def frameFree (vm : Vm) (kpage : ℕ) : Kernel Vm := frameDoFree vm kpage true

def frameRemoveEntry (vm : Vm) (kpage : ℕ) : Kernel Vm := frameDoFree vm kpage false

def frameSetPinned (vm : Vm) (kpage : ℕ) (newValue : Bool) : Kernel Vm :=
  match vm.frames.find? (fun f => f.kpage = kpage) with
  | none => PANIC "pin/unpin할 프레임이 존재하지 않습니다"
  | some _ =>
    return { vm with frames := vm.frames.map fun f =>
      if f.kpage = kpage then { f with pinned := newValue } else f }

def frameUnpin (vm : Vm) (kpage : ℕ) : Kernel Vm := frameSetPinned vm kpage false

def framePin (vm : Vm) (kpage : ℕ) : Kernel Vm := frameSetPinned vm kpage true

/-- Makes room: swaps a frame out and frees its page. -/
def frameEvict (policy : SwapPolicy) (vm : Vm) (cur : ℕ) : Kernel Vm := do
  let (f, vm) ← policy.pick vm cur
  ASSERT (f.t ≠ 0)
  let vm := vm.setPagedir f.t (← pagedirClearPage (vm.procs f.t).pagedir f.upage)
  let isDirty := vm.isDirty f.t f.upage || vm.isDirty f.t f.kpage
  match swapOut vm.swap vm.palloc.mem f.kpage with
  | (_, .error e) => .error e
  | (swap, .ok swapIdx) =>
    let vm := { vm with swap := swap }
    let vm := (tableSetSwap vm f.t f.upage swapIdx).2
    let vm ← tableSetDirty vm f.t f.upage isDirty
    frameDoFree vm f.kpage true

/-- A page of the user pool for thread `cur`, evicting a frame if there is none. -/
def frameGetPage (policy : SwapPolicy) (vm : Vm) (cur : ℕ) (flags : PallocFlags) :
    Kernel (ℕ × Vm) := do
  match ← pallocGetPage vm.palloc { flags with PAL_USER := true } with
  | (some framePage, palloc) => return (framePage, { vm with palloc := palloc })
  | (none, palloc) =>
    let vm ← frameEvict policy { vm with palloc := palloc } cur
    match ← pallocGetPage vm.palloc { flags with PAL_USER := true } with
    | (some framePage, palloc) => return (framePage, { vm with palloc := palloc })
    | (none, _) => PANIC "assertion failed."

/-- `virtualmemory_frame_allocate (FLAGS, UPAGE)` by `cur`, with or without `malloc`. -/
def frameAllocate (policy : SwapPolicy) (vm : Vm) (cur : ℕ) (flags : PallocFlags) (upage : ℕ)
    (malloc : Bool) : Kernel (Option ℕ × Vm) := do
  let (framePage, vm) ← frameGetPage policy vm cur flags
  if malloc then
    let frame : FrameTableEntry :=
      { upage := upage, kpage := framePage, t := cur, pinned := true, history := vm.historyNum }
    return (some framePage,
      { vm with frames := vm.frames ++ [frame], historyNum := vm.historyNum + 1 })
  else
    return (none, vm)

/-! ### Choosing a frame -/

variable {p : ℕ} {flags : PallocFlags}

namespace Vm.SameView

variable {vm vm' vm'' : Vm}

lemma refl (vm : Vm) : vm.SameView vm := ⟨fun p => (vm.procs p).pagedir, rfl, fun _ _ => rfl⟩

section

variable (h : vm.SameView vm')
include h

lemma trans (h' : vm'.SameView vm'') : vm.SameView vm'' := by
  obtain ⟨_, rfl, hmaps⟩ := h
  obtain ⟨pds', rfl, hmaps'⟩ := h'
  exact ⟨pds', rfl, fun p u => (hmaps' p u).trans (hmaps p u)⟩

lemma spte (p u : ℕ) : vm'.spte p u = vm.spte p u := by
  obtain ⟨_, rfl, _⟩ := h
  rfl

lemma maps (p u : ℕ) : vm'.maps p u = vm.maps p u := by
  obtain ⟨_, rfl, hmaps⟩ := h
  exact hmaps p u

lemma frames : vm'.frames = vm.frames := by
  obtain ⟨_, rfl, _⟩ := h
  rfl

lemma palloc : vm'.palloc = vm.palloc := by
  obtain ⟨_, rfl, _⟩ := h
  rfl

lemma swap : vm'.swap = vm.swap := by
  obtain ⟨_, rfl, _⟩ := h
  rfl

end

lemma setPagedir {pd : Pagedir} (h : ∀ u, pd.maps u = vm.maps p u) :
    vm.SameView (vm.setPagedir p pd) := by
  refine ⟨update (fun q => (vm.procs q).pagedir) p pd, ?_, fun q u => ?_⟩
  · rw [Vm.setPagedir, Vm.setProc]
    congr 1
    funext q
    by_cases hq : q = p
    · subst hq
      simp
    · simp [hq]
  · by_cases hq : q = p
    · subst hq
      simpa using h u
    · rw [update_of_ne hq]
      rfl

end Vm.SameView

lemma secondChanceLoop_spec {vm vm' : Vm} {cur n : ℕ} {f : FrameTableEntry}
    (h : secondChanceLoop vm cur n = .ok (f, vm')) :
    f ∈ vm.frames ∧ f.pinned = false ∧ vm.SameView vm' := by
  induction n generalizing vm with
  | zero => cases h
  | succ n ih =>
    rw [secondChanceLoop] at h
    split at h
    · cases h
    · rename_i e rest hframes
      split_ifs at h with hpinned
      · exact ih h
      · obtain ⟨hmem, hun, hview⟩ := ih h
        refine ⟨hmem, hun, Vm.SameView.trans (Vm.SameView.setPagedir fun u => ?_) hview⟩
        rw [maps_pagedirSetAccessed, Vm.maps]
      · cases h
        exact ⟨by simp [hframes], by simpa using hpinned, .refl _⟩

def secondChance : SwapPolicy where
  pick := pickFrameToEvict
  pick_spec := by
    intro _ _ _ f h
    unfold pickFrameToEvict at h
    split_ifs at h
    · exact absurd h (PANIC_ne_ok _ _)
    · exact secondChanceLoop_spec h

/-! ### What the operations do -/

variable {vm vm' : Vm} {policy : SwapPolicy} {cur kpage upage : ℕ}

lemma frameDoFree_eq_ok {freePage : Bool} (h : frameDoFree vm kpage freePage = .ok vm') :
    (∃ f ∈ vm.frames, f.kpage = kpage) ∧ ∃ palloc,
      vm' = { vm with frames := vm.frames.filter fun f => f.kpage ≠ kpage, palloc := palloc } ∧
      if freePage then pallocFreePage vm.palloc kpage = .ok palloc else palloc = vm.palloc := by
  simp only [frameDoFree, bind_eq_ok, ASSERT_eq_ok] at h
  obtain ⟨_, _, _, _, h⟩ := h
  split at h
  · cases h
  · rename_i f hf
    refine ⟨⟨f, List.mem_of_find?_eq_some hf, by simpa using List.find?_some hf⟩, ?_⟩
    cases freePage with
    | true =>
      simp only [if_true, bind_eq_ok] at h
      obtain ⟨palloc, hfree, h⟩ := h
      cases h
      exact ⟨palloc, rfl, hfree⟩
    | false =>
      cases h
      exact ⟨vm.palloc, rfl, rfl⟩

lemma frameSetPinned_eq_ok {v : Bool} (h : frameSetPinned vm kpage v = .ok vm') :
    (∃ f ∈ vm.frames, f.kpage = kpage) ∧ vm' = { vm with frames := vm.frames.map fun f =>
      if f.kpage = kpage then { f with pinned := v } else f } := by
  unfold frameSetPinned at h
  split at h
  · cases h
  · rename_i f hf
    cases h
    exact ⟨⟨f, List.mem_of_find?_eq_some hf, by simpa using List.find?_some hf⟩, rfl⟩

structure Vm.Evicts (vm vm' : Vm) (f : FrameTableEntry) (idx : ℕ) : Prop where
  mem : f ∈ vm.frames
  unpinned : f.pinned = false
  out : swapOut vm.swap vm.palloc.mem f.kpage = (vm'.swap, .ok idx)
  freed : pallocFreePage vm.palloc f.kpage = .ok vm'.palloc
  frames : vm'.frames = vm.frames.filter fun g => g.kpage ≠ f.kpage
  maps : ∀ p u, vm'.maps p u = if p = f.t ∧ u = f.upage then none else vm.maps p u
  spte : ∃ e d, vm.spte f.t f.upage = some e ∧ ∀ p u, vm'.spte p u =
    if p = f.t ∧ u = f.upage then
      some { e with status := .ON_SWAP, kpage := 0, swapIndex := idx, dirty := d }
    else vm.spte p u

lemma tableSetSwap_setDirty_eq_ok {u idx : ℕ} {d : Bool}
    (h : tableSetDirty (tableSetSwap vm p u idx).2 p u d = .ok vm') :
    ∃ e d', vm.spte p u = some e ∧ vm' =
      (vm.setSpte p u (some { e with status := .ON_SWAP, kpage := 0, swapIndex := idx })).setSpte
        p u (some { e with status := .ON_SWAP, kpage := 0, swapIndex := idx, dirty := d' }) := by
  unfold tableSetSwap at h
  split at h
  · rename_i hnone
    rw [tableSetDirty, hnone] at h
    cases h
  · rename_i e he
    rw [tableSetDirty, Vm.spte_setSpte, if_pos ⟨rfl, rfl⟩] at h
    cases h
    exact ⟨e, _, he, rfl⟩

/-- **Eviction.**  An eviction that returns moved an unpinned frame to a swap slot. -/
theorem frameEvict_eq_ok (h : frameEvict policy vm cur = .ok vm') :
    ∃ f idx, vm.Evicts vm' f idx := by
  simp only [frameEvict, bind_eq_ok, ASSERT_eq_ok] at h
  obtain ⟨⟨f, _⟩, hpick, _, _, _, hclear, h⟩ := h
  obtain ⟨hmem, hun, hview⟩ := policy.pick_spec hpick
  obtain ⟨_, hpd⟩ := pagedirClearPage_eq_ok hclear
  dsimp only at hclear h
  split at h
  · cases h
  · rename_i swap idx hout
    rw [bind_eq_ok] at h
    obtain ⟨vm2, hset, hfree⟩ := h
    obtain ⟨e, d, he, hvm2⟩ := tableSetSwap_setDirty_eq_ok hset
    obtain ⟨_, _, rfl, hpalloc⟩ := frameDoFree_eq_ok hfree
    have he' : vm.spte f.t f.upage = some e := by
      rw [← hview.spte, ← he]
      exact (Vm.spte_setPagedir ..).symm
    have hmaps : ∀ p u, vm2.maps p u = if p = f.t ∧ u = f.upage then none else vm.maps p u := by
      intro p u
      rw [hvm2, Vm.maps_setSpte, Vm.maps_setSpte, ← hview.maps]
      exact Vm.maps_setPagedir_page _ _ _ _ _ hpd
    have hspte : ∀ p u, vm2.spte p u = if p = f.t ∧ u = f.upage then
        some { e with status := .ON_SWAP, kpage := 0, swapIndex := idx, dirty := d }
        else vm.spte p u := by
      intro p u
      rw [hvm2, Vm.spte_setSpte, Vm.spte_setSpte, ← hview.spte]
      split_ifs
      · rfl
      · exact Vm.spte_setPagedir ..
    have hframes : vm2.frames = vm.frames := by rw [hvm2, ← hview.frames]; rfl
    have hpalloc2 : vm2.palloc = vm.palloc := by rw [hvm2, ← hview.palloc]; rfl
    have hswap2 : vm2.swap = swap := by rw [hvm2]; rfl
    refine ⟨f, idx, ⟨hmem, hun, ?_, ?_, ?_, hmaps, e, d, he', hspte⟩⟩
    · rw [← hview.swap, ← hview.palloc]
      exact hswap2 ▸ hout
    · rw [← hpalloc2]
      exact hpalloc
    · rw [← hframes]

/-- Before the page is entered: it is taken, perhaps after an eviction. -/
inductive Vm.MakesRoom (vm : Vm) (flags : PallocFlags) : Vm → Prop
  | enough : MakesRoom vm flags vm
  | evict {palloc : Palloc} {vm' : Vm} {f : FrameTableEntry} {idx : ℕ} :
      pallocGetPage vm.palloc { flags with PAL_USER := true } = .ok (none, palloc) →
      Vm.Evicts { vm with palloc := palloc } vm' f idx → MakesRoom vm flags vm'

lemma frameGetPage_eq_ok {framePage : ℕ}
    (h : frameGetPage policy vm cur flags = .ok (framePage, vm')) :
    ∃ vm1 palloc, vm.MakesRoom flags vm1 ∧
      pallocGetPage vm1.palloc { flags with PAL_USER := true } = .ok (some framePage, palloc) ∧
      vm' = { vm1 with palloc := palloc } := by
  simp only [frameGetPage, bind_eq_ok] at h
  obtain ⟨⟨r, palloc⟩, hget, h⟩ := h
  cases r with
  | some =>
    cases h
    exact ⟨vm, palloc, .enough, hget, rfl⟩
  | none =>
    simp only [bind_eq_ok] at h
    obtain ⟨vm1, hevict, ⟨r, palloc'⟩, hget', h⟩ := h
    obtain ⟨f, _, he⟩ := frameEvict_eq_ok hevict
    cases r with
    | some =>
      cases h
      exact ⟨vm1, palloc', .evict hget he, hget', rfl⟩
    | none => cases h

/-- **Allocation.**  A call that returns took a page, and entered it if there was memory. -/
theorem frameAllocate_eq_ok {malloc : Bool} {r : Option ℕ}
    (h : frameAllocate policy vm cur flags upage malloc = .ok (r, vm')) :
    ∃ vm1 palloc framePage, vm.MakesRoom flags vm1 ∧
      pallocGetPage vm1.palloc { flags with PAL_USER := true } = .ok (some framePage, palloc) ∧
      if malloc then
        r = some framePage ∧ vm' = { vm1 with
          palloc := palloc
          frames := vm1.frames ++ [⟨upage, framePage, cur, true, vm1.historyNum⟩]
          historyNum := vm1.historyNum + 1 }
      else r = none ∧ vm' = { vm1 with palloc := palloc } := by
  simp only [frameAllocate, bind_eq_ok] at h
  obtain ⟨⟨framePage, _⟩, hget, h⟩ := h
  obtain ⟨vm1, palloc, hroom, hpage, rfl⟩ := frameGetPage_eq_ok hget
  refine ⟨vm1, palloc, framePage, hroom, hpage, ?_⟩
  cases malloc with
  | true =>
    cases h
    exact ⟨rfl, rfl⟩
  | false =>
    cases h
    exact ⟨rfl, rfl⟩

end Pintos.Virtualmemory
