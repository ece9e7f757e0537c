/-
# The frame list and its clock

The static variables of `vm/frame.c` at the level of addresses: the frame list is linked through its
entries, the clock pointer is an address, and a freed entry is memory that holds anything.  It
represents the frame table of `Vm.Frame`, a list of entries.

An entry has the address of its `listmap` element, so `list_entry` is the identity, and the headers
of the list are addresses of entries too, which hold whatever lies there.  Which page and block the
allocators hand out, and what a freed block holds, are parameters (`AllocateArgs`).  Of an eviction
the model has what touches the frame table.  `makeRoom` and `enter` are the halves of
`virtualmemory_frame_allocate`.
-/

import Pintos.Base.Run
import Pintos.Lib.ListSequences
import Pintos.Vm.Table

namespace Pintos.FrameList

open Base Lib.LinkedList Function Kernel List ListHeader
open Virtualmemory (FrameTableEntry)

/-! ### The source -/

inductive SwapPolicy where
  | CLOCK
  | SECOND_CHANCE
  | LRU
deriving DecidableEq, Repr

/-- The static variables of `vm/frame.c`, and the memory of the entries; the map is a list by
insertion. -/
structure FrameTable where
  heap : ListHeap
  entry : ℕ → FrameTableEntry
  frameMap : List ℕ
  clockPtr : ElemPtr
  historyNum : ℤ

structure Junk where
  prev : ElemPtr
  next : ElemPtr
  entry : FrameTableEntry

section Source

variable (frameList : ListHeader)

def frameInit (heap : ListHeap) (entry : ℕ → FrameTableEntry) : FrameTable :=
  { heap := listInit heap frameList, entry := entry, frameMap := [], clockPtr := none,
    historyNum := 0 }

def clockFrameNext (s : FrameTable) : Kernel (ℕ × FrameTable) :=
  if listEmpty s.heap frameList then
    PANIC "프레임 테이블이 비어있습니다!"
  else do
    match ← (if s.clockPtr = none ∨ s.clockPtr = listEnd frameList then
        pure (listBegin s.heap frameList)
      else listNext s.heap s.clockPtr) with
    | some e => return (e, { s with clockPtr := some e })
    | none => PANIC "null pointer dereference"

/-- The loops of `CLOCK` and `SECOND_CHANCE`; the second resets the clock in each round. -/
def pickLoop (next : FrameTable → Kernel (ℕ × FrameTable)) (reset : Bool) :
    ℕ → FrameTable → Pagedir → Kernel (ℕ × FrameTable × Pagedir)
  | 0, _, _ => PANIC "어느 프레임도 스왑아웃 할 수 없습니다.\n"
  | n + 1, s, pagedir => do
    let (e, s) ← next (if reset then { s with clockPtr := none } else s)
    if (s.entry e).pinned then
      pickLoop next reset n s pagedir
    else if pagedirIsAccessed pagedir (s.entry e).upage then
      pickLoop next reset n s (pagedirSetAccessed pagedir (s.entry e).upage false)
    else
      return (e, s, pagedir)

def lruLoop : ℕ → FrameTable → ℤ → ℕ → Kernel (ℕ × FrameTable)
  | 0, _, _, _ => PANIC "out of fuel"
  | fuel + 1, s, oldest, e => do
    if s.clockPtr = listEnd frameList then
      return (e, s)
    match s.clockPtr with
    | none => PANIC "null pointer dereference"
    | some a =>
      let s' := { s with clockPtr := ← listNext s.heap s.clockPtr }
      if (s.entry a).history < oldest ∧ (s.entry a).pinned = false then
        lruLoop fuel s' (s.entry a).history a
      else
        lruLoop fuel s' oldest e

def FrameTable.setHistory (s : FrameTable) (e : ℕ) (v : ℤ) : FrameTable :=
  { s with entry := update s.entry e { s.entry e with history := v } }

def lruEntry (fuel uninit : ℕ) (s : FrameTable) : Kernel (ℕ × FrameTable) := do
  let (e, s) ← lruLoop frameList fuel { s with clockPtr := listBegin s.heap frameList } 999999999
    uninit
  return (e, s.setHistory e 99999999)

/-- `fuel` is for the loop of `LRU`, `uninit` what its variable for the entry holds at first. -/
def pickFrameToEvict (next : FrameTable → Kernel (ℕ × FrameTable)) (policy : SwapPolicy)
    (fuel uninit : ℕ) (s : FrameTable) (pagedir : Pagedir) : Kernel (ℕ × FrameTable × Pagedir) :=
  let n := s.frameMap.length
  if n = 0 then
    PANIC "프레임 테이블이 비어있습니다!"
  else
    match policy with
    | .CLOCK => pickLoop next false (n + n + 1) s pagedir
    | .SECOND_CHANCE => pickLoop next true (n + 1) s pagedir
    | .LRU => do
      let (e, s) ← lruEntry frameList fuel uninit s
      return (e, s, pagedir)

def frameDoFree (s : FrameTable) (kpage : ℕ) (junk : Junk) : Kernel FrameTable := do
  ASSERT (isKernelVaddr kpage = true)
  ASSERT (pgOfs kpage = 0)
  match s.frameMap.find? (fun a => (s.entry a).kpage = kpage) with
  | none => PANIC "free할 페이지가 해시 맵에 존재하지 않는다."
  | some f =>
    let (_, heap) ← Lib.LinkedList.listRemove s.heap (some f)
    return { s with
      heap := (heap.setPrev f junk.prev).setNext f junk.next
      entry := update s.entry f junk.entry
      frameMap := s.frameMap.erase f }

def frameSetPinned (s : FrameTable) (kpage : ℕ) (newValue : Bool) : Kernel FrameTable :=
  match s.frameMap.find? (fun a => (s.entry a).kpage = kpage) with
  | none => PANIC "pin/unpin할 프레임이 존재하지 않습니다"
  | some f =>
    return { s with entry := update s.entry f { s.entry f with pinned := newValue } }

/-- What a call is given, by its caller, the allocators and the stack. -/
structure AllocateArgs where
  upage : ℕ
  /-- The current thread. -/
  t : ℕ
  /-- Its page directory. -/
  pagedir : Pagedir
  /-- What the first `palloc_get_page` returns. -/
  framePage : Option ℕ
  /-- What the second one returns, after an eviction. -/
  evictedPage : ℕ
  /-- What `malloc` returns. -/
  block : Option ℕ
  /-- What the evicted entry's block holds when it is free. -/
  junk : Junk
  /-- The local variable of `lru_entry`. -/
  uninit : ℕ
  /-- A bound on the rounds of `lru_entry`. -/
  fuel : ℕ

/-- The first half: a page, of an evicted frame if need be. -/
def makeRoom (policy : SwapPolicy) (args : AllocateArgs) (s : FrameTable) :
    Kernel (ℕ × FrameTable) :=
  match args.framePage with
  | some framePage => return (framePage, s)
  | none => do
    let (f, s, _) ← pickFrameToEvict frameList (clockFrameNext frameList) policy args.fuel
      args.uninit s args.pagedir
    ASSERT ((s.entry f).t ≠ 0)
    return (args.evictedPage, ← frameDoFree s (s.entry f).kpage args.junk)

def enter (args : AllocateArgs) (framePage : ℕ) (s : FrameTable) : Kernel FrameTable :=
  match args.block with
  | none => return s
  | some frame => do
    return { s with
      entry := update s.entry frame
        { upage := args.upage, kpage := framePage, t := args.t, pinned := true,
          history := s.historyNum }
      historyNum := s.historyNum + 1
      frameMap := s.frameMap ++ [frame]
      heap := ← listPushBack s.heap frameList (some frame) }

end Source

inductive FrameCall where
  | allocate (args : AllocateArgs)
  | free (kpage : ℕ) (junk : Junk)
  | removeEntry (kpage : ℕ) (junk : Junk)
  | pin (kpage : ℕ)
  | unpin (kpage : ℕ)

section Runs

variable (frameList : ListHeader) (policy : SwapPolicy)

/-- The allocators hand out a page that no frame has, and a block not in the list. -/
structure AllocateArgs.Fresh (args : AllocateArgs) (framePage : ℕ) (s : FrameTable) : Prop where
  page : ∀ a ∈ s.frameMap, (s.entry a).kpage ≠ framePage
  block : ∀ frame, args.block = some frame → frame ∉ frameList.nodes s.frameMap

/-- **The calls that return.** -/
inductive Step : FrameTable → FrameCall → FrameTable → Prop
  | allocate {s s₁ s' : FrameTable} {args : AllocateArgs} {framePage : ℕ} :
      makeRoom frameList policy args s = .ok (framePage, s₁) → args.Fresh frameList framePage s₁ →
      enter frameList args framePage s₁ = .ok s' → Step s (.allocate args) s'
  | free {s s' : FrameTable} {kpage : ℕ} {junk : Junk} :
      frameDoFree s kpage junk = .ok s' → Step s (.free kpage junk) s'
  | removeEntry {s s' : FrameTable} {kpage : ℕ} {junk : Junk} :
      frameDoFree s kpage junk = .ok s' → Step s (.removeEntry kpage junk) s'
  | pin {s s' : FrameTable} {kpage : ℕ} :
      frameSetPinned s kpage true = .ok s' → Step s (.pin kpage) s'
  | unpin {s s' : FrameTable} {kpage : ℕ} :
      frameSetPinned s kpage false = .ok s' → Step s (.unpin kpage) s'

end Runs

/-! ### The table is well formed -/

section Represents

variable {frameList : ListHeader} {s s' : FrameTable} {kpage a framePage : ℕ}
  {args : AllocateArgs} {policy : SwapPolicy}

/-- **The representation.**  The list holds the entries of the map, each with its own page. -/
structure FrameTable.Rep (frameList : ListHeader) (s : FrameTable) : Prop where
  linked : WellFormed (fun _ : Unit => frameList) s.heap fun _ => s.frameMap
  kpages : ∀ a ∈ s.frameMap, ∀ b ∈ s.frameMap, (s.entry a).kpage = (s.entry b).kpage → a = b

lemma mem_nodes (list : ListHeader) {xs : List ℕ} (ha : a ∈ xs) : a ∈ list.nodes xs :=
  mem_append_left _ (mem_cons_of_mem _ ha)

lemma kpage_update {f : ℕ} {x : FrameTableEntry} (hx : x.kpage = (s.entry f).kpage) (a : ℕ) :
    (update s.entry f x a).kpage = (s.entry a).kpage := by
  by_cases ha : a = f
  · subst ha
    rw [update_self, hx]
  · rw [update_of_ne ha]

namespace FrameTable.Rep

lemma nodup (h : s.Rep frameList) : s.frameMap.Nodup := by
  have hnodes := h.linked.nodup ()
  rw [nodes, cons_append, nodup_cons] at hnodes
  exact (nodup_append.1 hnodes.2).1

lemma ne_tail (h : s.Rep frameList) (ha : a ∈ s.frameMap) : a ≠ frameList.tail := by
  have hnodes := h.linked.nodup ()
  rw [nodes, cons_append, nodup_cons] at hnodes
  exact (nodup_append.1 hnodes.2).2.2 a ha _ (mem_singleton_self _)

lemma init (hlist : frameList.head ≠ frameList.tail) (heap : ListHeap)
    (entry : ℕ → FrameTableEntry) : (frameInit frameList heap entry).Rep frameList := by
  constructor
  · constructor
    · intro _
      simpa [nodes, frameInit] using hlist
    · intro i j hij
      exact absurd rfl hij
    · intro _
      refine isChain_pair.mpr ⟨?_, ?_⟩
      · simp [frameInit, listInit, hlist]
      · simp [frameInit, listInit]
    · intro _
      simp [frameInit, listInit, hlist]
    · intro _
      simp [frameInit, listInit]
  · intro a ha
    cases ha

section

variable (h : s.Rep frameList)
include h

lemma listBegin_eq : listBegin s.heap frameList = some (frameList.at s.frameMap) :=
  (h.linked.linked (i := ()) (show s.frameMap = [] ++ s.frameMap from rfl)).1

lemma listNext_eq {us vs : List ℕ} (hsplit : s.frameMap = us ++ a :: vs) :
    listNext s.heap (some a) = .ok (some (frameList.at vs)) := by
  have hlink := (h.linked.linked (i := ())
    (show s.frameMap = (us ++ [a]) ++ vs by rw [hsplit, append_assoc]; rfl)).1
  have hlast : frameList.before (us ++ [a]) = a := by simp [before]
  rw [hlast] at hlink
  rw [listNext, ASSERT_of (isHead_or_isInterior hlink), ok_bind, load, hlink]

lemma not_empty (hne : s.frameMap ≠ []) : listEmpty s.heap frameList = false := by
  have := h.linked.not_empty (i := ()) hne
  simpa using this

lemma setClock (p : ElemPtr) : ({ s with clockPtr := p } : FrameTable).Rep frameList :=
  ⟨h.linked, h.kpages⟩

lemma congr_heap (heap : ListHeap) (hsame : ∀ x ∈ frameList.nodes s.frameMap,
      heap.prev x = s.heap.prev x ∧ heap.next x = s.heap.next x) :
    ({ s with heap := heap } : FrameTable).Rep frameList := by
  refine ⟨⟨h.linked.nodup, h.linked.disjoint, fun i => ?_, fun i => ?_, fun i => ?_⟩, h.kpages⟩
  · refine (h.linked.chain i).congr (fun x hx => ?_) fun x hx => ?_
    · exact (hsame x (dropLast_subset _ hx)).2
    · exact (hsame x (mem_of_mem_tail hx)).1
  · rw [(hsame _ mem_cons_self).1]
    exact h.linked.headPrev i
  · rw [(hsame _ (by simp [nodes])).2]
    exact h.linked.tailNext i

lemma congr_entry (entry : ℕ → FrameTableEntry)
    (hsame : ∀ a ∈ s.frameMap, (entry a).kpage = (s.entry a).kpage) :
    ({ s with entry := entry } : FrameTable).Rep frameList := by
  refine ⟨h.linked, fun a ha b hb heq => h.kpages a ha b hb ?_⟩
  rwa [← hsame a ha, ← hsame b hb]

lemma setHistory (e : ℕ) (v : ℤ) : (s.setHistory e v).Rep frameList :=
  h.congr_entry _ fun a _ => kpage_update (by rfl) a

end

end FrameTable.Rep

theorem frameDoFree_sound {junk : Junk} (hrep : s.Rep frameList)
    (h : frameDoFree s kpage junk = .ok s') :
    ∃ f ∈ s.frameMap, (s.entry f).kpage = kpage ∧ s'.frameMap = s.frameMap.erase f ∧
      s'.clockPtr = s.clockPtr ∧ s'.Rep frameList ∧ s'.historyNum = s.historyNum ∧
      ∀ a, a ≠ f → s'.entry a = s.entry a := by
  simp only [frameDoFree, bind_eq_ok, ASSERT_eq_ok] at h
  obtain ⟨_, _, _, _, h⟩ := h
  cases hfind : s.frameMap.find? (fun a => (s.entry a).kpage = kpage) with
  | none =>
    rw [hfind] at h
    cases h
  | some f =>
    have hmem := mem_of_find?_eq_some hfind
    have hkpage : (s.entry f).kpage = kpage := by simpa using find?_some hfind
    obtain ⟨us, vs, hsplit⟩ := append_of_mem hmem
    obtain ⟨heap, hremove, hlinked⟩ := hrep.linked.remove (i := ()) hsplit
    have herase : s.frameMap.erase f = us ++ vs := by
      have hnd := hrep.nodup
      rw [hsplit] at hnd ⊢
      have hus : f ∉ us := fun hin => (nodup_append.1 hnd).2.2 f hin f mem_cons_self rfl
      rw [erase_append_right _ hus, erase_cons_head]
    rw [hfind] at h
    simp only [hremove, ok_bind, pure_eq_ok, Except.ok.injEq] at h
    subst h
    refine ⟨f, hmem, hkpage, rfl, rfl, ?_, rfl, fun a ha => update_of_ne ha ..⟩
    have hnot : f ∉ frameList.nodes (us ++ vs) := by
      have hnd := hrep.linked.nodup ()
      have hperm := frameList.nodes_perm us [f] vs
      rw [hsplit, show us ++ f :: vs = us ++ [f] ++ vs by simp] at hnd
      exact (nodup_cons.1 (hperm.nodup_iff.1 hnd)).1
    -- The list without the entry is linked well, and the entry is no node of it any more.
    have hrep' : ({ s with heap := heap, frameMap := us ++ vs } : FrameTable).Rep frameList := by
      constructor
      · have hfun : update (fun _ : Unit => s.frameMap) () (us ++ vs) = fun _ => us ++ vs := by
          funext i
          exact update_self ..
        rw [← hfun]
        exact hlinked
      · intro a ha b hb
        have hsub : ∀ x ∈ us ++ vs, x ∈ s.frameMap := by
          intro x hx
          rw [hsplit]
          rcases mem_append.1 hx with hx | hx
          · exact mem_append_left _ hx
          · exact mem_append_right _ (mem_cons_of_mem _ hx)
        exact hrep.kpages a (hsub a ha) b (hsub b hb)
    rw [herase]
    have hne : ∀ x ∈ frameList.nodes (us ++ vs), x ≠ f := by
      rintro x hx rfl
      exact hnot hx
    refine (hrep'.congr_heap ((heap.setPrev f junk.prev).setNext f junk.next)
      fun x hx => ?_).congr_entry (update s.entry f junk.entry) fun a ha => ?_
    · simp [hne x hx]
    · rw [update_of_ne (hne a (mem_nodes frameList ha))]

lemma frameSetPinned_sound {v : Bool} (hrep : s.Rep frameList)
    (h : frameSetPinned s kpage v = .ok s') :
    s'.frameMap = s.frameMap ∧ s'.clockPtr = s.clockPtr ∧ s'.Rep frameList ∧
      ∀ a, (s'.entry a).kpage = (s.entry a).kpage := by
  unfold frameSetPinned at h
  cases hfind : s.frameMap.find? (fun a => (s.entry a).kpage = kpage) with
  | none =>
    rw [hfind] at h
    cases h
  | some =>
    rw [hfind] at h
    cases h
    exact ⟨rfl, rfl, hrep.congr_entry _ fun a _ => kpage_update (by rfl) a, kpage_update (by rfl)⟩

theorem enter_sound (hrep : s.Rep frameList) (hfresh : args.Fresh frameList framePage s)
    (h : enter frameList args framePage s = .ok s') :
    s'.frameMap = s.frameMap ++ args.block.toList ∧ s'.clockPtr = s.clockPtr ∧
      s'.Rep frameList ∧ (∀ a ∈ s.frameMap, s'.entry a = s.entry a) ∧
      ∀ a ∈ args.block, (s'.entry a).kpage = framePage := by
  unfold enter at h
  cases hblock : args.block with
  | none =>
    rw [hblock] at h
    cases h
    exact ⟨(append_nil _).symm, rfl, hrep, fun _ _ => rfl, nofun⟩
  | some frame =>
    have hnot := hfresh.block frame hblock
    obtain ⟨heap, hpush, hlinked⟩ := hrep.linked.insert (i := ())
      (show s.frameMap = s.frameMap ++ [] from (append_nil _).symm) (fun _ => hnot)
    have hpush' : listPushBack s.heap frameList (some frame) = .ok heap := hpush
    rw [hblock] at h
    simp only [hpush', ok_bind, pure_eq_ok, Except.ok.injEq] at h
    subst h
    have hold : ∀ a ∈ s.frameMap, a ≠ frame := by
      rintro a ha rfl
      exact hnot (mem_nodes frameList ha)
    refine ⟨rfl, rfl, ⟨?_, ?_⟩, fun a ha => update_of_ne (hold a ha) .., ?_⟩
    · have hfun : update (fun _ : Unit => s.frameMap) () (s.frameMap ++ [frame]) =
          fun _ => s.frameMap ++ [frame] := by
        funext i
        exact update_self ..
      show WellFormed _ heap fun _ => s.frameMap ++ [frame]
      rw [← hfun]
      exact hlinked
    · intro a ha b hb heq
      dsimp only at ha hb heq
      rcases mem_append.1 ha with ha' | ha' <;> rcases mem_append.1 hb with hb' | hb'
      · rw [update_of_ne (hold a ha'), update_of_ne (hold b hb')] at heq
        exact hrep.kpages a ha' b hb' heq
      · obtain rfl := mem_singleton.1 hb'
        rw [update_of_ne (hold a ha'), update_self] at heq
        exact absurd heq (hfresh.page a ha')
      · obtain rfl := mem_singleton.1 ha'
        rw [update_of_ne (hold b hb'), update_self] at heq
        exact absurd heq.symm (hfresh.page b hb')
      · rw [mem_singleton.1 ha', mem_singleton.1 hb']
    · rintro _ ⟨⟩
      dsimp only
      rw [update_self]

/-! ### Choosing a frame -/

section Choosing

variable {pagedir pagedir' : Pagedir} {e n fuel : ℕ}

lemma clockFrameNext_eq_ok (h : clockFrameNext frameList s = .ok (e, s')) :
    s' = { s with clockPtr := some e } := by
  unfold clockFrameNext at h
  by_cases hempty : listEmpty s.heap frameList
  · rw [if_pos hempty] at h
    cases h
  rw [if_neg hempty, bind_eq_ok] at h
  obtain ⟨p, _, h⟩ := h
  cases p with
  | none => cases h
  | some =>
    cases h
    rfl

lemma pickLoop_eq_ok {reset : Bool}
    (h : pickLoop (clockFrameNext frameList) reset n s pagedir = .ok (e, s', pagedir')) :
    ∃ p, s' = { s with clockPtr := p } := by
  induction n generalizing s pagedir with
  | zero => cases h
  | succ n ih =>
    rw [pickLoop, bind_eq_ok] at h
    obtain ⟨⟨a, s₁⟩, hnext, h⟩ := h
    have hs1 : ∃ p, s₁ = { s with clockPtr := p } := by
      cases reset with
      | true => exact ⟨_, clockFrameNext_eq_ok (s := { s with clockPtr := none }) hnext⟩
      | false => exact ⟨_, clockFrameNext_eq_ok hnext⟩
    obtain ⟨p, rfl⟩ := hs1
    dsimp only at h
    split_ifs at h
    · obtain ⟨q, rfl⟩ := ih h
      exact ⟨q, rfl⟩
    · obtain ⟨q, rfl⟩ := ih h
      exact ⟨q, rfl⟩
    · cases h
      exact ⟨p, rfl⟩

lemma lruLoop_eq_ok {oldest : ℤ} {e0 : ℕ}
    (h : lruLoop frameList fuel s oldest e0 = .ok (e, s')) : ∃ p, s' =
      { s with clockPtr := p } := by
  induction fuel generalizing s oldest e0 with
  | zero => cases h
  | succ _ ih =>
    rw [lruLoop] at h
    split_ifs at h
    · cases h
      exact ⟨s'.clockPtr, rfl⟩
    · cases hclock : s.clockPtr with
      | none =>
        rw [hclock] at h
        cases h
      | some =>
        rw [hclock] at h
        simp only [bind_eq_ok] at h
        obtain ⟨p, _, h⟩ := h
        split_ifs at h
        · obtain ⟨q, rfl⟩ := ih h
          exact ⟨q, rfl⟩
        · obtain ⟨q, rfl⟩ := ih h
          exact ⟨q, rfl⟩

theorem pickFrameToEvict_sound {uninit : ℕ} (hrep : s.Rep frameList)
    (h : pickFrameToEvict frameList (clockFrameNext frameList) policy fuel uninit s pagedir =
      .ok (e, s', pagedir')) :
    s'.Rep frameList ∧ s'.frameMap = s.frameMap ∧ ∀ a, (s'.entry a).kpage = (s.entry a).kpage := by
  unfold pickFrameToEvict at h
  dsimp only at h
  split_ifs at h
  · cases h
  cases policy with
  | CLOCK | SECOND_CHANCE =>
    obtain ⟨p, rfl⟩ := pickLoop_eq_ok h
    exact ⟨hrep.setClock p, rfl, fun _ => rfl⟩
  | LRU =>
    simp only [lruEntry, bind_eq_ok] at h
    obtain ⟨⟨_, _⟩, ⟨⟨_, _⟩, hloop, h1⟩, h⟩ := h
    obtain ⟨p, rfl⟩ := lruLoop_eq_ok hloop
    cases h1
    cases h
    exact ⟨(hrep.setClock p).setHistory _ _, rfl, kpage_update (by rfl)⟩

end Choosing

lemma makeRoom_sound (hrep : s.Rep frameList)
    (h : makeRoom frameList policy args s = .ok (framePage, s')) : s'.Rep frameList := by
  unfold makeRoom at h
  cases hpage : args.framePage with
  | some =>
    rw [hpage] at h
    cases h
    exact hrep
  | none =>
    rw [hpage] at h
    simp only [bind_eq_ok, ASSERT_eq_ok] at h
    obtain ⟨⟨f, _, _⟩, hpick, _, _, _, hfree, h⟩ := h
    cases h
    obtain ⟨hrep1, _⟩ := pickFrameToEvict_sound hrep hpick
    obtain ⟨_, _, _, _, _, hrep2, _⟩ := frameDoFree_sound hrep1 hfree
    exact hrep2

lemma Step.rep {c : FrameCall} (hrep : s.Rep frameList) (h : Step frameList policy s c s') :
    s'.Rep frameList := by
  cases h with
  | allocate hroom hfresh henter =>
    exact (enter_sound (makeRoom_sound hrep hroom) hfresh henter).2.2.1
  | free h | removeEntry h =>
    obtain ⟨_, _, _, _, _, hrep', _⟩ := frameDoFree_sound hrep h
    exact hrep'
  | pin h | unpin h => exact (frameSetPinned_sound hrep h).2.2.1

lemma rep_of_reaches {Meets : FrameTable → FrameCall → Prop}
    (hlist : frameList.head ≠ frameList.tail) {heap : ListHeap} {entry : ℕ → FrameTableEntry}
    (hrun : Reaches (Step frameList policy) Meets (frameInit frameList heap entry) s) :
    s.Rep frameList :=
  hrun.invariant _ (fun hrep hs _ => hs.rep hrep) (.init hlist heap entry)

end Represents

end Pintos.FrameList
