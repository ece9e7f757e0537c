/-
# The frame table and the user pool

The frame list of `FrameList` with the page allocator under it.  `palloc_get_page` and `malloc` may
fail at any time; a page that is freed goes back to the pool.

`virtualmemory_frame_allocate` gets its page before the block for the entry.  When there is no block
it returns a null pointer and keeps the page, which no entry names.
-/

import Pintos.Vm.Agreement
import Pintos.Vm.FramePolicies

namespace Pintos.FrameList

open Base Lib.LinkedList Function Kernel

def FrameTable.Holds (s : FrameTable) (k : ℕ) : Prop := ∃ a ∈ s.frameMap, (s.entry a).kpage = k

def Gets (palloc : Palloc) (page : Option ℕ) (palloc' : Palloc) : Prop :=
  (∃ flags : PallocFlags,
    pallocGetPage palloc { flags with PAL_USER := true } = .ok (page, palloc')) ∨
  page = none ∧ palloc' = palloc

section Runs

variable (frameList : ListHeader) (policy : SwapPolicy)

/-- The calls that return; `malloc` hands out a block that is not in use. -/
inductive PoolStep : FrameTable × Palloc → FrameCall → FrameTable × Palloc → Prop
  | allocate {s s' : FrameTable} {palloc palloc' : Palloc} {args : AllocateArgs} {k : ℕ} :
      args.framePage = some k → Gets palloc (some k) palloc' →
      (∀ frame ∈ args.block, frame ∉ frameList.nodes s.frameMap) →
      enter frameList args k s = .ok s' → PoolStep (s, palloc) (.allocate args) (s', palloc')
  | evict {s s₁ s₂ s' : FrameTable} {palloc palloc₀ palloc₁ palloc₂ : Palloc}
      {args : AllocateArgs} {f : ℕ} {pagedir : Pagedir} :
      args.framePage = none → Gets palloc none palloc₀ →
      pickFrameToEvict frameList (clockFrameNext frameList) policy args.fuel args.uninit s
        args.pagedir = .ok (f, s₁, pagedir) → (s₁.entry f).t ≠ 0 →
      frameDoFree s₁ (s₁.entry f).kpage args.junk = .ok s₂ →
      pallocFreePage palloc₀ (s₁.entry f).kpage = .ok palloc₁ →
      Gets palloc₁ (some args.evictedPage) palloc₂ →
      (∀ frame ∈ args.block, frame ∉ frameList.nodes s₂.frameMap) →
      enter frameList args args.evictedPage s₂ = .ok s' →
      PoolStep (s, palloc) (.allocate args) (s', palloc₂)
  | free {s s' : FrameTable} {palloc palloc' : Palloc} {kpage : ℕ} {junk : Junk} :
      frameDoFree s kpage junk = .ok s' → pallocFreePage palloc kpage = .ok palloc' →
      PoolStep (s, palloc) (.free kpage junk) (s', palloc')
  | pin {s s' : FrameTable} {palloc : Palloc} {kpage : ℕ} :
      frameSetPinned s kpage true = .ok s' → PoolStep (s, palloc) (.pin kpage) (s', palloc)
  | unpin {s s' : FrameTable} {palloc : Palloc} {kpage : ℕ} :
      frameSetPinned s kpage false = .ok s' → PoolStep (s, palloc) (.unpin kpage) (s', palloc)

end Runs

def FrameCall.HasBlock (_ : FrameTable × Palloc) : FrameCall → Prop
  | .allocate args => args.block ≠ none
  | _ => True

/-- **The table and the pool agree.** -/
structure Accounted (frameList : ListHeader) (s : FrameTable) (palloc : Palloc) : Prop where
  rep : s.Rep frameList
  laid : palloc.Laid
  used : ∀ k, palloc.Used k ↔ s.Holds k

variable {frameList : ListHeader} {s s' : FrameTable} {palloc palloc' : Palloc} {k : ℕ}

lemma Gets.some (h : Gets palloc (some k) palloc') (hl : palloc.Laid) :
    ¬ palloc.Used k ∧ palloc.Turns palloc' k true := by
  obtain ⟨_, hget⟩ | ⟨hnone, _⟩ := h
  · exact pallocGetPage_eq_some hl hget
  · cases hnone

lemma Gets.none (h : Gets palloc none palloc') (hl : palloc.Laid) : palloc' = palloc := by
  obtain ⟨_, hget⟩ | ⟨_, hsame⟩ := h
  · exact pallocGetPage_eq_none hl hget
  · exact hsame

namespace Accounted

section

variable (h : Accounted frameList s palloc)
include h

lemma congr (hrep : s'.Rep frameList) (hmap : s'.frameMap = s.frameMap)
    (hentry : ∀ a, (s'.entry a).kpage = (s.entry a).kpage) : Accounted frameList s' palloc := by
  refine ⟨hrep, h.laid, fun k => (h.used k).trans ?_⟩
  simp only [FrameTable.Holds, hmap, hentry]

lemma free {kpage : ℕ} {junk : Junk} (hdo : frameDoFree s kpage junk = .ok s')
    (hfree : pallocFreePage palloc kpage = .ok palloc') : Accounted frameList s' palloc' := by
  obtain ⟨f, hf, rfl, hmap, _, hrep, _, hother⟩ := frameDoFree_sound h.rep hdo
  have hturn := pallocFreePage_eq_ok h.laid ((h.used _).2 ⟨f, hf, rfl⟩) hfree
  refine ⟨hrep, hturn.laid, fun k => ?_⟩
  have hmem : ∀ a, a ∈ s'.frameMap ↔ a ≠ f ∧ a ∈ s.frameMap := by
    intro a
    rw [hmap, h.rep.nodup.mem_erase_iff]
  rw [hturn.used, h.used]
  constructor
  · intro hk
    split_ifs at hk with hkf
    obtain ⟨a, ha, rfl⟩ := hk
    have haf : a ≠ f := by
      rintro rfl
      exact hkf rfl
    exact ⟨a, (hmem a).2 ⟨haf, ha⟩, by rw [hother a haf]⟩
  · rintro ⟨a, ha, rfl⟩
    obtain ⟨haf, ha⟩ := (hmem a).1 ha
    rw [hother a haf, if_neg fun hk => haf (h.rep.kpages a ha f hf hk)]
    exact ⟨a, ha, rfl⟩

lemma enter {args : AllocateArgs} (hget : Gets palloc (some k) palloc')
    (hblock : ∀ frame ∈ args.block, frame ∉ frameList.nodes s.frameMap)
    (henter : enter frameList args k s = .ok s') (hsome : args.block ≠ none) :
    Accounted frameList s' palloc' := by
  obtain ⟨hfree, hturn⟩ := hget.some h.laid
  have hfresh : args.Fresh frameList k s :=
    ⟨fun a ha hk => hfree ((h.used k).2 ⟨a, ha, hk⟩), hblock⟩
  obtain ⟨hmap, _, hrep, hold, hnew⟩ := enter_sound h.rep hfresh henter
  obtain ⟨frame, hframe⟩ := Option.ne_none_iff_exists'.1 hsome
  rw [hframe] at hmap
  refine ⟨hrep, hturn.laid, fun k' => ?_⟩
  rw [hturn.used, h.used]
  constructor
  · intro hk'
    split_ifs at hk' with hkk
    · exact ⟨frame, by simp [hmap], (hnew frame hframe).trans hkk.symm⟩
    · obtain ⟨a, ha, hak⟩ := hk'
      exact ⟨a, by simp [hmap, ha], by rw [hold a ha, hak]⟩
  · rintro ⟨a, ha, rfl⟩
    rw [hmap] at ha
    rcases List.mem_append.1 ha with ha | ha
    · rw [hold a ha, if_neg (hfresh.page a ha)]
      exact ⟨a, ha, rfl⟩
    · obtain rfl := List.mem_singleton.1 ha
      rw [if_pos (hnew a hframe)]

end

theorem step {policy : SwapPolicy} {s s' : FrameTable × Palloc} {c : FrameCall}
    (h : Accounted frameList s.1 s.2) (hs : PoolStep frameList policy s c s')
    (hm : c.HasBlock s) : Accounted frameList s'.1 s'.2 := by
  cases hs with
  | allocate _ hget hblock henter => exact h.enter hget hblock henter hm
  | evict _ hnone hpick _ hdo hfree hget hblock henter =>
    obtain rfl := hnone.none h.laid
    obtain ⟨hrep, hmap, hentry⟩ := pickFrameToEvict_sound h.rep hpick
    exact ((h.congr hrep hmap hentry).free hdo hfree).enter hget hblock henter hm
  | free hdo hfree => exact h.free hdo hfree
  | pin hset | unpin hset =>
    obtain ⟨hmap, _, hrep, hentry⟩ := frameSetPinned_sound h.rep hset
    exact h.congr hrep hmap hentry

end Accounted

/-- **The frame table accounts for every user page**, if `malloc` does not fail. -/
theorem frame_table_accounts {ram limit : ℕ} {mem : Memory} {kbuf ubuf : ℕ → BitVec 32}
    {policy : SwapPolicy} {heap : ListHeap} {entry : ℕ → Virtualmemory.FrameTableEntry}
    {s : FrameTable × Palloc} (h₁ : 256 ≤ ram) (h₂ : ram ≤ 2 ^ 18)
    (hinit : pallocInit ram limit mem kbuf ubuf = .ok palloc)
    (hlist : frameList.head ≠ frameList.tail)
    (hrun : Reaches (PoolStep frameList policy) FrameCall.HasBlock
      (frameInit frameList heap entry, palloc) s) : Accounted frameList s.1 s.2 := by
  have hinv := pallocInit_inv h₁ h₂ hinit
  refine Reaches.invariant (fun s => Accounted frameList s.1 s.2) ?_ ?_ hrun
  · exact fun h hs hm => Accounted.step h hs hm
  · refine ⟨.init hlist heap entry, Virtualmemory.pallocInit_laid h₁ h₂ hinit, fun k => ?_⟩
    refine ⟨?_, fun ⟨_, ha, _⟩ => absurd ha List.not_mem_nil⟩
    rintro ⟨i, hi, _, hbit⟩
    obtain ⟨_, ha, _⟩ := (hinv.bit true i hi).1 hbit
    exact absurd ha List.not_mem_nil

def firstArgs (block : Option ℕ) : AllocateArgs :=
  ⟨0x8048000, 1, Pagedir.empty, some 0xc0105000, 0, block, ⟨none, none, ⟨0, 0, 0, false, 0⟩⟩, 0, 0⟩

def secondArgs : AllocateArgs :=
  { firstArgs (some 4) with upage := 0x8049000, framePage := some 0xc0106000 }

theorem frame_table_accounts_two : ∃ palloc s,
    pallocInit 264 4 (fun _ => 0) (fun _ => 0) (fun _ => 0) = .ok palloc ∧
      Reaches (PoolStep ⟨0, 1⟩ .CLOCK) FrameCall.HasBlock (freshTable, palloc) s ∧
      s.1.frameMap = [2, 4] ∧ Accounted ⟨0, 1⟩ s.1 s.2 := by
  have hpages : (do
      let palloc ← pallocInit 264 4 (fun _ => 0) (fun _ => 0) (fun _ => 0)
      let r ← pallocGetPage palloc ⟨false, false, true⟩
      let q ← pallocGetPage r.2 ⟨false, false, true⟩
      return (r.1, q.1)) = Except.ok (some 0xc0105000, some 0xc0106000) := by decide +kernel
  obtain ⟨palloc, hinit, hpages⟩ := bind_eq_ok.1 hpages
  obtain ⟨⟨_, _⟩, hget₁, hpages⟩ := bind_eq_ok.1 hpages
  obtain ⟨⟨_, palloc₂⟩, hget₂, hpages⟩ := bind_eq_ok.1 hpages
  cases hpages
  obtain ⟨s₁, s₂, henter₁, henter₂, hmap⟩ : ∃ s₁ s₂,
      enter ⟨0, 1⟩ (firstArgs (some 2)) 0xc0105000 freshTable = .ok s₁ ∧
        enter ⟨0, 1⟩ secondArgs 0xc0106000 s₁ = .ok s₂ ∧ s₂.frameMap = [2, 4] :=
    ⟨_, _, rfl, rfl, rfl⟩
  have hrun : Reaches (PoolStep ⟨0, 1⟩ .CLOCK) FrameCall.HasBlock (freshTable, palloc)
      (s₂, palloc₂) := by
    refine .step (.step .refl (.allocate rfl (.inl ⟨⟨false, false, true⟩, hget₁⟩) ?_ henter₁)
      (Option.some_ne_none _)) (.allocate rfl (.inl ⟨⟨false, false, true⟩, hget₂⟩) ?_ henter₂)
      (Option.some_ne_none _)
    · rintro _ ⟨⟩
      decide
    · cases henter₁
      rintro _ ⟨⟩
      decide
  exact ⟨palloc, _, hinit, hrun, hmap, frame_table_accounts (by decide) (by decide) hinit
    (by decide) hrun⟩

/-- **Without memory for the entry the page is lost**: no entry has it, and it is in use. -/
theorem frameAllocate_leaks : ∃ palloc palloc',
    pallocInit 264 4 (fun _ => 0) (fun _ => 0) (fun _ => 0) = .ok palloc ∧
      PoolStep ⟨0, 1⟩ .CLOCK (freshTable, palloc) (.allocate (firstArgs none))
        (freshTable, palloc') ∧
      palloc'.Used 0xc0105000 ∧ ¬ freshTable.Holds 0xc0105000 := by
  obtain ⟨palloc, palloc', hinit, hget⟩ : ∃ palloc palloc',
      pallocInit 264 4 (fun _ => 0) (fun _ => 0) (fun _ => 0) = .ok palloc ∧
        pallocGetPage palloc ⟨false, false, true⟩ = .ok (some 0xc0105000, palloc') :=
    ⟨_, _, rfl, rfl⟩
  have hlaid := Virtualmemory.pallocInit_laid (by decide) (by decide) hinit
  obtain ⟨_, hturn⟩ := @pallocGetPage_eq_some _ _ _ ⟨false, false, true⟩ hlaid hget
  refine ⟨palloc, palloc', hinit, .allocate rfl (.inl ⟨⟨false, false, true⟩, hget⟩) nofun rfl,
    (hturn.used _).2 (by rw [if_pos rfl]), ?_⟩
  rintro ⟨_, ha, _⟩
  exact absurd ha List.not_mem_nil

end Pintos.FrameList
