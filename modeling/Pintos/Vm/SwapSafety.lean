/-
# Swap slots are exclusive

The client of `vm/swap.c` keeps the slots that are out and the page each was written with.  It swaps
out any page, and swaps in or frees a slot that is out.
-/

import Mathlib.Order.CompletePartialOrder
import Pintos.Vm.Swap

namespace Pintos.Virtualmemory

open Base Kernel List

structure SwapClient where
  swap : Swap
  out : List (ℕ × Page)

def SwapClient.indices (c : SwapClient) : List ℕ := c.out.map Prod.fst

def SwapClient.drop (c : SwapClient) (swap' : Swap) (swapIndex : ℕ) : SwapClient :=
  ⟨swap', c.out.filter fun e => e.1 ≠ swapIndex⟩

/-- One call: any page out, or a slot that is out in to any page, or freed. -/
inductive SwapClient.Step : SwapClient → SwapClient → Prop
  | swapOut {c : SwapClient} {mem : Memory} {page swapIndex : ℕ} {swap' : Swap} :
      swapOut c.swap mem page = (swap', .ok swapIndex) →
      Step c ⟨swap', (swapIndex, pageAt mem page) :: c.out⟩
  | swapIn {c : SwapClient} {mem mem' : Memory} {page swapIndex : ℕ} {swap' : Swap} :
      swapIndex ∈ c.indices → swapIn c.swap mem swapIndex page = .ok (mem', swap') →
      Step c (c.drop swap' swapIndex)
  | swapFree {c : SwapClient} {swapIndex : ℕ} {swap' : Swap} :
      swapIndex ∈ c.indices → swapFree c.swap swapIndex = .ok swap' →
      Step c (c.drop swap' swapIndex)

def SwapClient.Reaches : SwapClient → SwapClient → Prop := Relation.ReflTransGen Step

/-- **Swap slot exclusivity.** -/
structure SwapClient.Safe (c : SwapClient) : Prop where
  fresh : ∀ mem page swap' swapIndex, swapOut c.swap mem page = (swap', .ok swapIndex) →
    swapIndex ∉ c.indices
  disjoint : c.indices.Pairwise fun i j => Disjoint (slotSectors i) (slotSectors j)
  /-- They lie inside the device. -/
  inside : ∀ i ∈ c.indices, slotSectors i ⊆ Set.Iio c.swap.swapBlock.size
  /-- Swapping in delivers the page the slot was written with, and nothing else. -/
  delivers : ∀ e ∈ c.out, ∀ mem page, PHYS_BASE ≤ page →
    ∃ mem' swap', swapIn c.swap mem e.1 page = .ok (mem', swap') ∧ pageAt mem' page = e.2 ∧
      ∀ x, ¬ (page ≤ x ∧ x < page + PGSIZE) → mem' x = mem x
  /-- A slot is unavailable exactly when it is out. -/
  available : ∀ i < c.swap.swapSize, c.swap.swapAvailable.bit i = false ↔ i ∈ c.indices
  /-- With no slot available a swap-out does not return, and writes no slot that is out. -/
  full : (∀ i < c.swap.swapSize, c.swap.swapAvailable.bit i = false) → ∀ mem page,
    (∃ e, (swapOut c.swap mem page).2 = .error e) ∧
      ∀ i ∈ c.indices, ∀ k ∈ slotSectors i,
        (swapOut c.swap mem page).1.swapBlock.sectors k = c.swap.swapBlock.sectors k
  /-- With a slot available, on a device that may be written, it returns. -/
  returns : c.swap.swapBlock.type ≠ .BLOCK_FOREIGN →
    (∃ i < c.swap.swapSize, c.swap.swapAvailable.bit i = true) → ∀ mem page, PHYS_BASE ≤ page →
    ∃ swapIndex, (swapOut c.swap mem page).2 = .ok swapIndex

/-! ### The invariant -/

structure SwapClient.Inv (c : SwapClient) : Prop where
  wf : c.swap.Wf
  nodup : c.indices.Nodup
  lt : ∀ i ∈ c.indices, i < c.swap.swapSize
  available : ∀ i < c.swap.swapSize, c.swap.free i = false ↔ i ∈ c.indices
  slot : ∀ e ∈ c.out, c.swap.slot e.1 = e.2

namespace SwapClient

variable {c c' : SwapClient} {swap' : Swap} {i : ℕ}

@[simp] lemma mem_indices_drop {j : ℕ} :
    j ∈ (c.drop swap' i).indices ↔ j ∈ c.indices ∧ j ≠ i := by
  simp only [indices, drop, mem_map, mem_filter, decide_eq_true_eq]
  constructor
  · rintro ⟨e, ⟨he, hne⟩, rfl⟩
    exact ⟨⟨e, he, rfl⟩, hne⟩
  · rintro ⟨⟨e, he, rfl⟩, hne⟩
    exact ⟨e, ⟨he, hne⟩, rfl⟩

lemma Inv.safe (h : c.Inv) : c.Safe := by
  refine ⟨?_, ?_, fun i hi => h.wf.slotSectors_inside (h.lt i hi), ?_, h.available, ?_, ?_⟩
  · intro _ _ _ i hout hi
    have ho := (swapOut_eq_ok h.wf hout).2
    rw [← h.available i ho.lt, ho.was_free] at hi
    exact Bool.noConfusion hi
  · exact h.nodup.imp fun hij => slotSectors_disjoint hij
  · intro e he mem _ hp
    have hmem : e.1 ∈ c.indices := mem_map_of_mem he
    have hlt := h.lt _ hmem
    obtain ⟨mem', swap', hin, _, hpage, hframe⟩ :=
      swapIn_spec h.wf hlt ((h.available _ hlt).2 hmem) mem hp
    exact ⟨mem', swap', hin, hpage.trans (h.slot e he), hframe⟩
  · intro hfull mem page
    obtain ⟨herr, _, hkeep⟩ := swapOut_full h.wf mem page hfull
    exact ⟨herr, fun i hi => hkeep i (h.lt i hi)⟩
  · rintro htype ⟨i, hi, hfree⟩ mem page hp
    obtain ⟨_, r, hr, _⟩ := swapOut_spec h.wf mem hp htype hi hfree
    exact ⟨r, by rw [hr]⟩

lemma Inv.swapOut (h : c.Inv) {bytes : Page} (ho : c.swap.Out swap' bytes i) :
    Inv ⟨swap', (i, bytes) :: c.out⟩ := by
  have hsize : swap'.swapSize = c.swap.swapSize := by
    rw [ho.wf.swapSize, ho.size, h.wf.swapSize]
  have hfresh : i ∉ c.indices := by
    rw [← h.available i ho.lt, ho.was_free]
    exact Bool.noConfusion
  refine ⟨ho.wf, nodup_cons.2 ⟨hfresh, h.nodup⟩, fun j hj => ?_, fun j hj => ?_, ?_⟩
  · rw [hsize]
    rcases mem_cons.1 hj with rfl | hj
    · exact ho.lt
    · exact h.lt j hj
  · rw [hsize] at hj
    rw [ho.free, show indices ⟨swap', (i, bytes) :: c.out⟩ = i :: c.indices from rfl,
      mem_cons, ← h.available j hj]
    split_ifs with hji <;> simp [hji]
  · intro e he
    rcases mem_cons.1 he with rfl | he
    · exact ho.slot
    · have hne : e.1 ≠ i := fun heq => hfresh (heq ▸ mem_map_of_mem he)
      rw [ho.frame _ hne, h.slot e he]

lemma Inv.release (h : c.Inv) (hr : c.swap.Released swap' i) : (c.drop swap' i).Inv := by
  have hsize : swap'.swapSize = c.swap.swapSize := by
    rw [hr.wf.swapSize, hr.block, h.wf.swapSize]
  refine ⟨hr.wf, h.nodup.sublist (filter_sublist.map _), fun j hj => ?_, fun j hj => ?_, ?_⟩
  · exact (h.lt j (mem_indices_drop.1 hj).1).trans_eq hsize.symm
  · rw [mem_indices_drop, ← h.available j (hj.trans_eq hsize)]
    refine (iff_of_eq (congrArg (· = false) (hr.free j))).trans ?_
    split_ifs with hji <;> simp [hji]
  · intro e he
    have hslot : swap'.slot e.1 = c.swap.slot e.1 := Swap.slot_congr fun k _ => by rw [hr.block]
    exact hslot.trans (h.slot e (mem_of_mem_filter he))

lemma Inv.step (h : c.Inv) (hs : Step c c') : c'.Inv := by
  cases hs with
  | swapOut hout => exact h.swapOut (swapOut_eq_ok h.wf hout).2
  | @swapIn mem mem' page i swap' hi hin =>
    have hlt := h.lt i hi
    have hp : PHYS_BASE ≤ page := by
      obtain ⟨_, hassert, _⟩ := bind_eq_ok.1 hin
      exact ASSERT_eq_ok.1 hassert
    obtain ⟨_, _, hin', hr, _⟩ := swapIn_spec h.wf hlt ((h.available i hlt).2 hi) mem hp
    rw [hin] at hin'
    cases hin'
    exact h.release hr
  | @swapFree i swap' hi hfree =>
    have hlt := h.lt i hi
    obtain ⟨_, hfree', hr⟩ := swapFree_spec h.wf hlt ((h.available i hlt).2 hi)
    rw [hfree] at hfree'
    cases hfree'
    exact h.release hr

lemma Inv.reaches (h : c.Inv) (hr : Reaches c c') : c'.Inv := by
  induction hr with
  | refl => exact h
  | tail _ hs ih => exact ih.step hs

end SwapClient

variable {elems : Option (ℕ → BitVec 32)} {role : Option Block} {hdr : Bool} {s : Swap}

lemma swapInit_block (h : swapInit role hdr elems = .ok s) : role = some s.swapBlock := by
  obtain ⟨_, _, h⟩ := bind_eq_ok.1 h
  cases role with
  | none => cases h
  | some =>
    obtain ⟨r, _, h⟩ := bind_eq_ok.1 h
    cases r with
    | none => cases h
    | some =>
      obtain ⟨_, _, h⟩ := bind_eq_ok.1 h
      cases h
      rfl

lemma swapInit_inv (h : swapInit role hdr elems = .ok s) : SwapClient.Inv ⟨s, []⟩ := by
  obtain ⟨_, _, h⟩ := bind_eq_ok.1 h
  cases role with
  | none => cases h
  | some block =>
    have hn : block.size / SECTORS_PER_PAGE < 2 ^ 32 :=
      lt_of_le_of_lt (Nat.div_le_self _ _) block.size_lt
    obtain ⟨r, hcreate, h⟩ := bind_eq_ok.1 h
    cases r with
    | none => cases h
    | some map =>
      obtain ⟨hcnt, _⟩ := bitmapCreate_eq_some hn hcreate
      obtain ⟨map', hset, hcnt', hbit⟩ :=
        bitmapSetMultiple_spec (b := map) 0 map.bitCnt true (hcnt ▸ hn) (by omega)
      obtain ⟨m, hm, h⟩ := bind_eq_ok.1 h
      obtain rfl : m = map' := Except.ok.inj (hm.symm.trans hset)
      cases h
      refine ⟨⟨hcnt'.trans hcnt, rfl⟩, nodup_nil, fun i hi => ?_, fun i hi => ?_, ?_⟩
      · cases hi
      · have hfree : m.bit i = true := by
          rw [hbit, if_pos ⟨Nat.zero_le _, by rw [hcnt, Nat.zero_add]; exact hi⟩]
        exact ⟨fun h => absurd (hfree.symm.trans h) (by decide), nofun⟩
      · exact nofun

/-- **Swap slot exclusivity**, on a device of any size, after any swap-outs, swap-ins and frees. -/
theorem swap_safe {role : Option Block} {hdr : Bool} {elems : Option (ℕ → BitVec 32)} {s : Swap}
    {c : SwapClient} (hinit : swapInit role hdr elems = .ok s)
    (hreach : SwapClient.Reaches ⟨s, []⟩ c) : c.Safe :=
  ((swapInit_inv hinit).reaches hreach).safe

def nineSectors : Block := ⟨.BLOCK_SWAP, 9, fun _ _ => 0, by decide⟩

def twoSlots : Block := ⟨.BLOCK_SWAP, 17, fun _ _ => 0, by decide⟩

theorem swap_safe_two : ∃ s c, swapInit (some twoSlots) true (some fun _ => 0) = .ok s ∧
      SwapClient.Reaches ⟨s, []⟩ c ∧ c.indices = [1, 0] ∧ c.Safe := by
  obtain ⟨s, hs, h0, h1⟩ : ∃ s, swapInit (some twoSlots) true (some fun _ => 0) = .ok s ∧
      (swapOut s (fun _ => 0) PHYS_BASE).2 = .ok 0 ∧
      (swapOut (swapOut s (fun _ => 0) PHYS_BASE).1 (fun _ => 1) PHYS_BASE).2 = .ok 1 :=
    ⟨_, rfl, rfl, rfl⟩
  have hrun : SwapClient.Reaches ⟨s, []⟩ _ :=
    (Relation.ReflTransGen.single (.swapOut (Prod.ext rfl h0))).tail (.swapOut (Prod.ext rfl h1))
  exact ⟨s, _, hs, hrun, rfl, swap_safe hs hrun⟩

end Pintos.Virtualmemory
