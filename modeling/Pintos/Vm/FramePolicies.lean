/-
# Which frame is evicted

`pick_frame_to_evict` of `vm/frame.c` under its three policies.

* `SECOND_CHANCE`, the shipped policy, sets the clock pointer to null in every round, so that all
  look at the first frame of the list (`pickLoop_first`): it is returned if it is not pinned,
  whatever the accessed bits are, and otherwise nothing is.
* `LRU` looks for a history below 999999999 with a result that is not initialised: when no frame
  qualifies, it is what the stack held.
* `CLOCK` keeps its pointer at the entry that is evicted and freed.  `FrameTable.ahead` is the list
  before the pointer; `clock_frame_next` returns its first entry, behind the last the tail.
-/

import Pintos.Vm.Frame
import Pintos.Vm.FrameList

namespace Pintos.FrameList

open Base Lib.LinkedList Function Kernel List FrameTable Virtualmemory
open Virtualmemory (FrameTableEntry)

variable {frameList : ListHeader} {s s' : FrameTable} {pagedir : Pagedir} {a cur fuel : ℕ}
  {rest vs us : List ℕ} {vm : Virtualmemory.Vm}

/-! ### Second chance -/

lemma clockFrameNext_first (hrep : s.Rep frameList) (hfirst : s.frameMap = a :: rest)
    (hclock : s.clockPtr = none ∨ s.clockPtr = listEnd frameList) :
    clockFrameNext frameList s = .ok (a, { s with clockPtr := some a }) := by
  have hempty : ¬ listEmpty s.heap frameList = true := by
    rw [hrep.not_empty (by rw [hfirst]; exact cons_ne_nil _ _)]
    exact Bool.false_ne_true
  rw [clockFrameNext, if_neg hempty, if_pos hclock, hrep.listBegin_eq, hfirst]
  rfl

/-- **Every round looks at the first frame**, and returns it after two rounds if it is not
pinned. -/
theorem pickLoop_first (hrep : s.Rep frameList) (hfirst : s.frameMap = a :: rest) (n : ℕ) :
    pickLoop (clockFrameNext frameList) true (n + 2) s pagedir =
      if (s.entry a).pinned then PANIC "어느 프레임도 스왑아웃 할 수 없습니다.\n"
      else if pagedirIsAccessed pagedir (s.entry a).upage then
        .ok (a, { s with clockPtr := some a }, pagedirSetAccessed pagedir (s.entry a).upage false)
      else .ok (a, { s with clockPtr := some a }, pagedir) := by
  have hnext : ∀ p, clockFrameNext frameList { s with clockPtr := none } =
      .ok (a, { ({ s with clockPtr := p } : FrameTable) with clockPtr := some a }) :=
    fun p => clockFrameNext_first (hrep.setClock none) hfirst (.inl rfl)
  cases hpinned : (s.entry a).pinned with
  | true =>
    -- The rounds all see the same pinned frame.
    have hpanic : ∀ (m : ℕ) (p : ElemPtr), pickLoop (clockFrameNext frameList) true m
        { s with clockPtr := p } pagedir = PANIC "어느 프레임도 스왑아웃 할 수 없습니다.\n" := by
      intro m
      induction m with
      | zero => exact fun _ => rfl
      | succ m ih =>
        intro p
        rw [pickLoop, if_pos rfl, hnext p, ok_bind]
        dsimp only
        rw [hpinned, if_pos rfl]
        exact ih _
    rw [if_pos rfl]
    exact hpanic (n + 2) s.clockPtr
  | false =>
    rw [if_neg Bool.false_ne_true, pickLoop, if_pos rfl, hnext s.clockPtr, ok_bind]
    dsimp only
    rw [hpinned, if_neg Bool.false_ne_true]
    cases hacc : pagedirIsAccessed pagedir (s.entry a).upage with
    | false =>
      rw [if_neg Bool.false_ne_true, if_neg Bool.false_ne_true]
      rfl
    | true =>
      have hclear : pagedirIsAccessed (pagedirSetAccessed pagedir (s.entry a).upage false)
          (s.entry a).upage = false := Pagedir.hasFlag_clear_self PTE_A _
      rw [if_pos rfl, if_pos rfl, pickLoop, if_pos rfl, hnext (some a), ok_bind]
      dsimp only
      rw [hpinned, if_neg Bool.false_ne_true, hclear, if_neg Bool.false_ne_true]
      rfl

/-- The accessed bit of an entry, in the directory of the thread `view` names. -/
def FrameTable.accessed (s : FrameTable) (dir : ℕ → Pagedir) (view : ℕ → ℕ) (e : ℕ) : Bool :=
  pagedirIsAccessed (dir (view e)) (s.entry e).upage

/-- **What a second chance is.**  An unpinned frame not accessed, or the first unpinned one if all
are. -/
structure FrameTable.SecondChance (s : FrameTable) (dir : ℕ → Pagedir) (view : ℕ → ℕ) (e : ℕ) :
    Prop where
  mem : e ∈ s.frameMap
  unpinned : (s.entry e).pinned = false
  chance : s.accessed dir view e = false ∨
    ((∀ g ∈ s.frameMap, (s.entry g).pinned = false → s.accessed dir view g = true) ∧
      s.frameMap.find? (fun g => !(s.entry g).pinned) = some e)

/-- **The shipped policy is right exactly** if the first frame may be evicted: it is not pinned, and
not accessed or all unpinned frames are. -/
theorem secondChance_right (hrep : s.Rep frameList) (dir : ℕ → Pagedir) (cur : ℕ) (view : ℕ → ℕ)
    (fuel uninit : ℕ) :
    (∃ e s' pagedir', pickFrameToEvict frameList (clockFrameNext frameList) .SECOND_CHANCE fuel
        uninit s (dir cur) = .ok (e, s', pagedir') ∧ s.SecondChance dir view e) ↔
      ∃ a ∈ s.frameMap.head?, (s.entry a).pinned = false ∧ (s.accessed dir view a = false ∨
        ∀ g ∈ s.frameMap, (s.entry g).pinned = false → s.accessed dir view g = true) := by
  unfold pickFrameToEvict
  dsimp only
  cases hfirst : s.frameMap with
  | nil =>
    rw [if_pos length_nil]
    exact ⟨nofun, nofun⟩
  | cons a rest =>
    rw [length_cons, if_neg (Nat.succ_ne_zero _), pickLoop_first hrep hfirst]
    have hmem : a ∈ s.frameMap := hfirst ▸ mem_cons_self
    cases hun : (s.entry a).pinned with
    | true =>
      rw [if_pos rfl]
      refine ⟨nofun, ?_⟩
      rintro ⟨_, hhead, h, _⟩
      obtain rfl : a = _ := by simpa using hhead
      rw [hun] at h
      cases h
    | false =>
      obtain ⟨s₁, pagedir₁, hpick⟩ : ∃ s₁ pagedir₁, (if pagedirIsAccessed (dir cur)
          (s.entry a).upage = true then .ok (a, { s with clockPtr := some a },
            pagedirSetAccessed (dir cur) (s.entry a).upage false)
          else .ok (a, { s with clockPtr := some a }, dir cur) :
            Kernel (ℕ × FrameTable × Pagedir)) = .ok (a, s₁, pagedir₁) := by
        split_ifs
        · exact ⟨_, _, rfl⟩
        · exact ⟨_, _, rfl⟩
      rw [if_neg Bool.false_ne_true, hpick, ← hfirst]
      constructor
      · rintro ⟨_, _, _, ⟨⟩, _, _, hchance⟩
        exact ⟨a, by rw [hfirst]; rfl, hun, hchance.imp_right And.left⟩
      · rintro ⟨_, hhead, _, hacc⟩
        obtain rfl : a = _ := by simpa [hfirst] using hhead
        refine ⟨a, s₁, pagedir₁, rfl, hmem, hun, hacc.imp_right fun hall => ⟨hall, ?_⟩⟩
        rw [hfirst, find?_cons, hun]
        rfl

def twoFrames (pinned₁ pinned₂ : Bool) : FrameTable where
  heap := ⟨fun a => if a = 10 then some 0 else if a = 20 then some 10 else if a = 1 then some 20
      else none,
    fun a => if a = 0 then some 10 else if a = 10 then some 20 else if a = 20 then some 1
      else none⟩
  entry a := if a = 10 then ⟨0x1000, 0xc0100000, 1, pinned₁, 0⟩
    else ⟨0x2000, 0xc0101000, 1, pinned₂, 1⟩
  frameMap := [10, 20]
  clockPtr := none
  historyNum := 2

lemma twoFrames_rep (p1 p2 : Bool) : (twoFrames p1 p2).Rep ⟨0, 1⟩ := by
  constructor
  · constructor
    · exact fun _ => by decide +revert
    · exact fun i j hij => absurd rfl hij
    · intro _
      refine List.IsChain.cons_cons ⟨rfl, rfl⟩ ?_
      refine List.IsChain.cons_cons ⟨rfl, rfl⟩ ?_
      exact isChain_pair.mpr ⟨rfl, rfl⟩
    · exact fun _ => rfl
    · exact fun _ => rfl
  · decide +revert

def oneAccessed : Pagedir := ⟨fun _ => some fun n => if n = 1 then PTE_A else 0#32⟩

theorem secondChance_right_two :
    ∃ e s' pagedir', pickFrameToEvict ⟨0, 1⟩ (clockFrameNext ⟨0, 1⟩) .SECOND_CHANCE 0 0
        (twoFrames false true) oneAccessed = .ok (e, s', pagedir') ∧
      (twoFrames false true).SecondChance (fun _ => oneAccessed) (fun _ => 1) e :=
  (secondChance_right (twoFrames_rep false true) (fun _ => oneAccessed) 1 (fun _ => 1) 0 0).2
    ⟨10, rfl, rfl, .inr (by decide)⟩

/-- **Only the first frame counts.**  If it is pinned, the kernel panics; if it has been accessed,
it is evicted although the other has not. -/
theorem secondChance_first_only :
    pickFrameToEvict ⟨0, 1⟩ (clockFrameNext ⟨0, 1⟩) .SECOND_CHANCE 0 0 (twoFrames true false)
        oneAccessed = PANIC "어느 프레임도 스왑아웃 할 수 없습니다.\n" ∧
      (∃ s' pagedir', pickFrameToEvict ⟨0, 1⟩ (clockFrameNext ⟨0, 1⟩) .SECOND_CHANCE 0 0
        (twoFrames false false) oneAccessed = .ok (10, s', pagedir')) ∧
      (twoFrames false false).accessed (fun _ => oneAccessed) (fun _ => 1) 10 = true ∧
      (twoFrames false false).accessed (fun _ => oneAccessed) (fun _ => 1) 20 = false :=
  ⟨rfl, ⟨_, _, rfl⟩, by decide, by decide⟩

lemma secondChanceLoop_first {f : FrameTableEntry} {rest : List FrameTableEntry}
    (hfirst : vm.frames = f :: rest) (n : ℕ) :
    secondChanceLoop vm cur (n + 2) =
      if f.pinned then PANIC "어느 프레임도 스왑아웃 할 수 없습니다.\n"
      else if pagedirIsAccessed (vm.procs cur).pagedir f.upage then
        .ok (f, vm.setPagedir cur (pagedirSetAccessed (vm.procs cur).pagedir f.upage false))
      else .ok (f, vm) := by
  cases hpinned : f.pinned with
  | true =>
    have hpanic : ∀ m, secondChanceLoop vm cur m = PANIC "어느 프레임도 스왑아웃 할 수 없습니다.\n" := by
      intro m
      induction m with
      | zero => rfl
      | succ m ih =>
        rw [secondChanceLoop, hfirst]
        dsimp only
        rw [hpinned, if_pos rfl, ih]
    rw [if_pos rfl, hpanic]
  | false =>
    rw [if_neg Bool.false_ne_true, secondChanceLoop, hfirst]
    dsimp only
    rw [hpinned, if_neg Bool.false_ne_true]
    cases hacc : pagedirIsAccessed (vm.procs cur).pagedir f.upage with
    | false =>
      rw [if_neg Bool.false_ne_true, if_neg Bool.false_ne_true]
      rfl
    | true =>
      have hclear : pagedirIsAccessed (pagedirSetAccessed (vm.procs cur).pagedir f.upage false)
          f.upage = false := Pagedir.hasFlag_clear_self PTE_A _
      have hframes : (vm.setPagedir cur
          (pagedirSetAccessed (vm.procs cur).pagedir f.upage false)).frames = f :: rest := hfirst
      have hpd : ((vm.setPagedir cur (pagedirSetAccessed (vm.procs cur).pagedir f.upage
          false)).procs cur).pagedir = pagedirSetAccessed (vm.procs cur).pagedir f.upage false := by
        rw [Virtualmemory.Vm.setPagedir, Virtualmemory.Vm.setProc]
        dsimp only
        rw [update_self]
      rw [if_pos rfl, if_pos rfl, secondChanceLoop, hframes]
      dsimp only
      rw [hpinned, if_neg Bool.false_ne_true, hpd, hclear, if_neg Bool.false_ne_true]
      rfl

/-- **The policy of `Vm.Frame` is the shipped one**, on the entries that the list holds. -/
theorem secondChance_refines (hrep : s.Rep frameList) (hframes : vm.frames = s.frameMap.map s.entry)
    (fuel uninit : ℕ) :
    Virtualmemory.pickFrameToEvict vm cur = (do
      let (e, _, pagedir) ← pickFrameToEvict frameList (clockFrameNext frameList) .SECOND_CHANCE
        fuel uninit s (vm.procs cur).pagedir
      return (s.entry e, vm.setPagedir cur pagedir)) := by
  have hself : vm.setPagedir cur (vm.procs cur).pagedir = vm := by
    rw [Virtualmemory.Vm.setPagedir, Virtualmemory.Vm.setProc]
    exact congrArg (fun procs => { vm with procs := procs }) (update_eq_self _ _)
  unfold Virtualmemory.pickFrameToEvict pickFrameToEvict
  dsimp only
  cases hmap : s.frameMap with
  | nil =>
    rw [hmap] at hframes
    rw [if_pos (by rw [hframes]; rfl), if_pos (show ([] : List ℕ).length = 0 from rfl), panic_bind]
  | cons a rest =>
    have hfirst : vm.frames = s.entry a :: rest.map s.entry := by rw [hframes, hmap]; rfl
    have hlen : vm.frames.length + 1 = rest.length + 2 := by
      rw [hfirst, length_cons, length_map]
    rw [if_neg (by rw [hfirst]; exact Nat.succ_ne_zero _),
      if_neg (show ¬ (a :: rest).length = 0 from Nat.succ_ne_zero _), hlen,
      secondChanceLoop_first hfirst, length_cons, pickLoop_first hrep hmap]
    split_ifs
    · rw [panic_bind]
    · rfl
    · rw [ok_bind, hself]
      rfl

theorem secondChance_refines_twoFrames : ∃ vm : Virtualmemory.Vm,
    vm.frames = [⟨0x1000, 0xc0100000, 1, false, 0⟩, ⟨0x2000, 0xc0101000, 1, true, 1⟩] ∧
    Virtualmemory.pickFrameToEvict vm 1 = (do
      let (e, _, pagedir) ← pickFrameToEvict ⟨0, 1⟩ (clockFrameNext ⟨0, 1⟩) .SECOND_CHANCE 0 0
        (twoFrames false true) (vm.procs 1).pagedir
      return ((twoFrames false true).entry e, vm.setPagedir 1 pagedir)) :=
  let noBits : Bitmap := ⟨0, fun _ => 0⟩
  ⟨⟨⟨⟨noBits, 0, 0⟩, ⟨noBits, 0, 0⟩, fun _ => 0⟩,
    ⟨⟨.BLOCK_SWAP, 0, fun _ _ => 0, by decide⟩, noBits, 0⟩, _, 2,
    fun _ => ⟨oneAccessed, fun _ => none⟩, oneAccessed, 0⟩, rfl,
    secondChance_refines (twoFrames_rep false true) rfl 0 0⟩

/-! ### Least recently used -/

def FrameTable.oldestOf (s : FrameTable) (l : List ℕ) (best : ℤ × ℕ) : ℤ × ℕ :=
  l.foldl (fun best a =>
    if (s.entry a).history < best.1 ∧ (s.entry a).pinned = false then ((s.entry a).history, a)
    else best) best

lemma FrameTable.oldestOf_cons (s : FrameTable) (a : ℕ) (l : List ℕ) (best : ℤ × ℕ) :
    s.oldestOf (a :: l) best = s.oldestOf l
      (if (s.entry a).history < best.1 ∧ (s.entry a).pinned = false then ((s.entry a).history, a)
        else best) := rfl

lemma FrameTable.oldestOf_spec (s : FrameTable) (l : List ℕ) (best : ℤ × ℕ) :
    (s.oldestOf l best = best ∧ ∀ b ∈ l, (s.entry b).pinned = false → best.1 ≤
      (s.entry b).history) ∨
      ((s.oldestOf l best).2 ∈ l ∧ (s.entry (s.oldestOf l best).2).pinned = false ∧
        (s.entry (s.oldestOf l best).2).history < best.1 ∧
        ∀ b ∈ l, (s.entry b).pinned = false →
          (s.entry (s.oldestOf l best).2).history ≤ (s.entry b).history) := by
  induction l generalizing best with
  | nil => exact .inl ⟨rfl, nofun⟩
  | cons a l ih =>
    by_cases hbetter : (s.entry a).history < best.1 ∧ (s.entry a).pinned = false
    · rw [oldestOf_cons, if_pos hbetter]
      right
      rcases ih ((s.entry a).history, a) with ⟨heq, hall⟩ | ⟨hmem, hun, hlt, hall⟩
      · rw [heq]
        refine ⟨mem_cons_self, hbetter.2, hbetter.1, fun b hb hb' => ?_⟩
        rcases mem_cons.1 hb with rfl | hb
        · exact le_rfl
        · exact hall b hb hb'
      · refine ⟨mem_cons_of_mem _ hmem, hun, lt_trans hlt hbetter.1, fun b hb hb' => ?_⟩
        rcases mem_cons.1 hb with rfl | hb
        · exact hlt.le
        · exact hall b hb hb'
    · have hold : (s.entry a).pinned = false → best.1 ≤ (s.entry a).history := by
        intro hun
        by_contra hgt
        exact hbetter ⟨not_le.1 hgt, hun⟩
      rw [oldestOf_cons, if_neg hbetter]
      rcases ih best with ⟨heq, hall⟩ | ⟨hmem, hun, hlt, hall⟩
      · refine .inl ⟨heq, fun b hb hb' => ?_⟩
        rcases mem_cons.1 hb with rfl | hb
        · exact hold hb'
        · exact hall b hb hb'
      · refine .inr ⟨mem_cons_of_mem _ hmem, hun, hlt, fun b hb hb' => ?_⟩
        rcases mem_cons.1 hb with rfl | hb
        · exact hlt.le.trans (hold hb')
        · exact hall b hb hb'

lemma lruLoop_eq (hrep : s.Rep frameList) (hsplit : s.frameMap = us ++ vs)
    (hclock : s.clockPtr = some (frameList.at vs)) (hfuel : vs.length < fuel) (oldest : ℤ) (e : ℕ) :
    lruLoop frameList fuel s oldest e =
      .ok ((s.oldestOf vs (oldest, e)).2, { s with clockPtr := listEnd frameList }) := by
  induction vs generalizing s us fuel oldest e with
  | nil =>
    obtain ⟨fuel, rfl⟩ : ∃ n, fuel = n + 1 := ⟨fuel - 1, by omega⟩
    have hend : s.clockPtr = listEnd frameList := hclock
    rw [lruLoop, if_pos hend, ← hend]
    rfl
  | cons a vs ih =>
    obtain ⟨fuel, rfl⟩ : ∃ n, fuel = n + 1 := ⟨fuel - 1, by omega⟩
    have hptr : s.clockPtr = some a := hclock
    have hmem : a ∈ s.frameMap := by
      rw [hsplit]
      exact mem_append_right _ mem_cons_self
    have hne : ¬ s.clockPtr = listEnd frameList := by
      rw [hptr, listEnd]
      exact fun heq => hrep.ne_tail hmem (Option.some.inj heq)
    have hnext := hrep.listNext_eq hsplit
    have hrest : s.frameMap = (us ++ [a]) ++ vs := by
      rw [hsplit, append_assoc]
      rfl
    have hrec := fun (o : ℤ) (b : ℕ) => ih (s := { s with clockPtr := some (frameList.at vs) })
      (hrep.setClock _) hrest rfl (show vs.length < fuel from Nat.lt_of_succ_lt_succ hfuel) o b
    rw [lruLoop, if_neg hne]
    simp only [hptr, hnext, ok_bind, hrec]
    rw [oldestOf_cons]
    split_ifs
    · rfl
    · rfl

lemma lruEntry_eq (hrep : s.Rep frameList) (hfuel : s.frameMap.length < fuel) (uninit : ℕ) :
    lruEntry frameList fuel uninit s = .ok ((s.oldestOf s.frameMap (999999999, uninit)).2,
        ({ s with clockPtr := listEnd frameList } : FrameTable).setHistory
          (s.oldestOf s.frameMap (999999999, uninit)).2 99999999) := by
  have hloop := lruLoop_eq (s := { s with clockPtr := listBegin s.heap frameList })
    (hrep.setClock _) (show s.frameMap = [] ++ s.frameMap from rfl) hrep.listBegin_eq hfuel
    999999999 uninit
  rw [lruEntry, hloop]
  rfl

def FrameTable.HasOld (s : FrameTable) : Prop :=
  ∃ a ∈ s.frameMap, (s.entry a).pinned = false ∧ (s.entry a).history < 999999999

/-- **An undetermined entry is returned, and written to**, where no frame qualifies. -/
theorem lruEntry_undetermined (hrep : s.Rep frameList) (hnone : ¬ s.HasOld)
    (hfuel : s.frameMap.length < fuel) (uninit : ℕ) :
    lruEntry frameList fuel uninit s =
      .ok (uninit, ({ s with clockPtr := listEnd frameList } : FrameTable).setHistory uninit
        99999999) := by
  rw [lruEntry_eq hrep hfuel]
  rcases s.oldestOf_spec s.frameMap (999999999, uninit) with ⟨heq, _⟩ | ⟨hmem, hun, hlt, _⟩
  · rw [heq]
  · exact absurd ⟨_, hmem, hun, hlt⟩ hnone

def LruMeets (s : FrameTable) : FrameCall → Prop
  | .allocate args => args.framePage = none → s.HasOld
  | _ => True

/-- **The least recently used frame**, if an unpinned frame has a history below 999999999. -/
theorem lru_right (hlist : frameList.head ≠ frameList.tail) {heap : ListHeap}
    {entry : ℕ → FrameTableEntry}
    (hrun : Reaches (Step frameList .LRU) LruMeets (frameInit frameList heap entry) s)
    (hold : s.HasOld) {fuel : ℕ} (hfuel : s.frameMap.length < fuel) (uninit : ℕ)
    (pagedir : Pagedir) :
    ∃ e s', lruEntry frameList fuel uninit s = .ok (e, s') ∧
      pickFrameToEvict frameList (clockFrameNext frameList) .LRU fuel uninit s pagedir =
        .ok (e, s', pagedir) ∧
      e ∈ s.frameMap ∧ (s.entry e).pinned = false ∧
      ∀ b ∈ s.frameMap, (s.entry b).pinned = false → (s.entry e).history ≤ (s.entry b).history := by
  have hrep := rep_of_reaches hlist hrun
  have hentry := lruEntry_eq hrep hfuel uninit
  have hpick : ∀ e s', lruEntry frameList fuel uninit s = .ok (e, s') →
      pickFrameToEvict frameList (clockFrameNext frameList) .LRU fuel uninit s pagedir =
        .ok (e, s', pagedir) := by
    intro e _ h
    obtain ⟨a, ha, _⟩ := hold
    have hne : ¬ s.frameMap.length = 0 := by
      rw [length_eq_zero_iff]
      exact ne_nil_of_mem ha
    unfold pickFrameToEvict
    dsimp only
    rw [if_neg hne, h]
    rfl
  refine ⟨_, _, hentry, hpick _ _ hentry, ?_⟩
  rcases s.oldestOf_spec s.frameMap (999999999, uninit) with ⟨_, hall⟩ | ⟨hmem, hun, _, hall⟩
  · obtain ⟨a, ha, hun, hlt⟩ := hold
    exact absurd (hall a ha hun) (not_le.2 hlt)
  · exact ⟨hmem, hun, hall⟩

def freshTable : FrameTable :=
  frameInit ⟨0, 1⟩ ⟨fun _ => none, fun _ => none⟩ fun _ => ⟨0, 0, 0, false, 0⟩

/-- An allocation of a page by thread 1. -/
def oneArgs (framePage : Option ℕ) : AllocateArgs where
  upage := 0x1000
  t := 1
  pagedir := .empty
  framePage := framePage
  evictedPage := 0xc0100000
  block := some 10
  junk := ⟨none, none, ⟨0, 0, 0, false, 0⟩⟩
  uninit := 77
  fuel := 2

lemma oneArgs_fresh : (oneArgs (some 0xc0100000)).Fresh ⟨0, 1⟩ 0xc0100000 freshTable := by
  constructor
  · exact nofun
  · intro _ hframe
    cases hframe
    decide

/-- An allocation of another page. -/
def nextArgs : AllocateArgs :=
  { oneArgs (some 0xc0101000) with upage := 0x2000, block := some 12 }

/-- Two frames, of which the second is pinned. -/
theorem lru_right_two :
    ∃ s e s', lruEntry ⟨0, 1⟩ 3 77 s = .ok (e, s') ∧ s.frameMap = [10, 12] ∧ e ∈ s.frameMap ∧
      (s.entry e).pinned = false := by
  have hrun : ∃ s, Reaches (Step ⟨0, 1⟩ .LRU) LruMeets freshTable s ∧ s.frameMap = [10, 12] ∧
      (s.entry 10).pinned = false ∧ (s.entry 10).history = 0 := by
    refine ⟨_, ((Reaches.refl.step (.allocate rfl oneArgs_fresh rfl) nofun).step
      (.unpin (show frameSetPinned _ 0xc0100000 false = _ from rfl)) trivial).step
      (.allocate (show makeRoom ⟨0, 1⟩ .LRU nextArgs _ = _ from rfl) ?_ rfl) nofun, rfl, rfl, rfl⟩
    constructor
    · decide
    · intro _ hframe
      cases hframe
      decide
  obtain ⟨s, hrun, hmap, hun, hhistory⟩ := hrun
  have hold : s.HasOld := ⟨10, by rw [hmap]; exact mem_cons_self, hun, by rw [hhistory]; decide⟩
  obtain ⟨e, s', hentry, _, hmem, hun', _⟩ := lru_right (by decide) hrun hold
    (show s.frameMap.length < 3 by rw [hmap]; decide) 77 .empty
  exact ⟨s, e, s', hentry, hmap, hmem, hun'⟩

/-- **A frame just allocated is pinned.**  With no other, an undetermined entry is chosen. -/
theorem lru_chooses_anything :
    ∃ s, Reaches (Step ⟨0, 1⟩ .LRU) LruMeets freshTable s ∧ s.frameMap = [10] ∧
      (s.entry 10).pinned = true ∧ ∀ uninit, ∃ s',
        pickFrameToEvict ⟨0, 1⟩ (clockFrameNext ⟨0, 1⟩) .LRU 2 uninit s .empty =
          .ok (uninit, s', .empty) ∧ (s'.entry uninit).history = 99999999 := by
  have hrun : ∃ s, Reaches (Step ⟨0, 1⟩ .LRU) LruMeets freshTable s ∧ s.frameMap = [10] ∧
      (s.entry 10).pinned = true :=
    ⟨_, Reaches.refl.step (.allocate rfl oneArgs_fresh rfl) nofun, rfl, rfl⟩
  obtain ⟨s, hrun, hmap, hpinned⟩ := hrun
  refine ⟨s, hrun, hmap, hpinned, fun uninit => ?_⟩
  have hnone : ¬ s.HasOld := by
    rintro ⟨a, ha, hun, _⟩
    rw [hmap, mem_singleton] at ha
    rw [ha, hpinned] at hun
    cases hun
  have hentry := lruEntry_undetermined (rep_of_reaches (by decide) hrun) hnone
    (show s.frameMap.length < 2 by rw [hmap]; decide) uninit
  have hpick : pickFrameToEvict ⟨0, 1⟩ (clockFrameNext ⟨0, 1⟩) .LRU 2 uninit s .empty =
      .ok (uninit, ({ s with clockPtr := listEnd ⟨0, 1⟩ } : FrameTable).setHistory uninit 99999999,
        .empty) := by
    unfold pickFrameToEvict
    dsimp only
    rw [if_neg (by rw [hmap]; decide), hentry]
    rfl
  refine ⟨_, hpick, ?_⟩
  rw [setHistory]
  dsimp only
  rw [update_self]

/-! ### Clock -/

/-- **The clock pointer is valid**: null, the end of the list, or an entry of the list. -/
def FrameTable.ClockOk (frameList : ListHeader) (s : FrameTable) : Prop :=
  s.clockPtr = none ∨ s.clockPtr = listEnd frameList ∨ ∃ a ∈ s.frameMap, s.clockPtr = some a

def FrameTable.ahead (s : FrameTable) : List ℕ :=
  match s.clockPtr with
  | none => s.frameMap
  | some a => if a ∈ s.frameMap then (s.frameMap.dropWhile (· ≠ a)).tail else s.frameMap

section Ahead

variable {a x : ℕ} {us vs : List ℕ}

lemma FrameTable.ahead_first (hrep : s.Rep frameList)
    (hclock : s.clockPtr = none ∨ s.clockPtr = listEnd frameList) : s.ahead = s.frameMap := by
  rcases hclock with hclock | hclock
  · rw [ahead, hclock]
  · have hnot : frameList.tail ∉ s.frameMap := fun hin => hrep.ne_tail hin rfl
    rw [ahead, hclock]
    exact if_neg hnot

lemma FrameTable.ahead_at (hnd : s.frameMap.Nodup) (hsplit : s.frameMap = us ++ a :: vs)
    (hclock : s.clockPtr = some a) : s.ahead = vs := by
  have hus : ∀ y ∈ us, (decide (y ≠ a)) = true := by
    intro y hy
    rw [hsplit] at hnd
    exact decide_eq_true ((nodup_append.1 hnd).2.2 y hy a mem_cons_self)
  have hmem : a ∈ s.frameMap := by
    rw [hsplit]
    exact mem_append_right _ mem_cons_self
  rw [ahead, hclock]
  dsimp only
  rw [if_pos hmem, hsplit, dropWhile_append_of_pos hus, dropWhile_cons_of_neg (by simp)]
  rfl

lemma FrameTable.length_ahead (s : FrameTable) : s.ahead.length ≤ s.frameMap.length := by
  unfold ahead
  split
  · exact le_rfl
  · split_ifs
    · exact ((tail_sublist _).trans (dropWhile_sublist _)).length_le
    · exact le_rfl

lemma clockFrameNext_ahead (hrep : s.Rep frameList) (hok : s.ClockOk frameList)
    (hahead : s.ahead = x :: vs) :
    clockFrameNext frameList s = .ok (x, { s with clockPtr := some x }) ∧ x ∈ s.frameMap ∧
      ahead { s with clockPtr := some x } = vs := by
  by_cases hclock : s.clockPtr = none ∨ s.clockPtr = listEnd frameList
  · have hfirst : s.frameMap = x :: vs := by rw [← hahead, ahead_first hrep hclock]
    refine ⟨clockFrameNext_first hrep hfirst hclock, by rw [hfirst]; exact mem_cons_self, ?_⟩
    exact ahead_at (s := { s with clockPtr := some x }) hrep.nodup
      (show s.frameMap = [] ++ x :: vs from hfirst) rfl
  · obtain ⟨a, ha, hat⟩ : ∃ a ∈ s.frameMap, s.clockPtr = some a := by
      rcases hok with h | h | h
      · exact absurd (.inl h) hclock
      · exact absurd (.inr h) hclock
      · exact h
    obtain ⟨us, ws, hsplit⟩ := append_of_mem ha
    obtain rfl : x :: vs = ws := by rw [← hahead, ahead_at hrep.nodup hsplit hat]
    have hsplit' : s.frameMap = (us ++ [a]) ++ x :: vs := by
      rw [hsplit, append_assoc]
      rfl
    have hempty : ¬ listEmpty s.heap frameList = true := by
      rw [hrep.not_empty (ne_nil_of_mem ha)]
      exact Bool.false_ne_true
    refine ⟨?_, ?_, ?_⟩
    · rw [clockFrameNext, if_neg hempty, if_neg hclock, hat, hrep.listNext_eq hsplit]
      rfl
    · rw [hsplit']
      exact mem_append_right _ mem_cons_self
    · exact ahead_at (s := { s with clockPtr := some x }) hrep.nodup hsplit' rfl

end Ahead

/-- `clock_frame_next`, with the check that what it returns is an entry of the list. -/
def nextInside (frameList : ListHeader) (s : FrameTable) : Kernel (ℕ × FrameTable) := do
  let (e, s') ← clockFrameNext frameList s
  if e ∈ s.frameMap then return (e, s') else PANIC "no entry of frame_list"

def GoesAhead (frameList : ListHeader) (next : FrameTable → Kernel (ℕ × FrameTable)) : Prop :=
  ∀ {s : FrameTable} {x : ℕ} {vs : List ℕ}, s.Rep frameList → s.ClockOk frameList →
    s.ahead = x :: vs → next s = .ok (x, { s with clockPtr := some x })

lemma clockFrameNext_goesAhead : GoesAhead frameList (clockFrameNext frameList) :=
  fun hrep hok hahead => (clockFrameNext_ahead hrep hok hahead).1

lemma nextInside_goesAhead : GoesAhead frameList (nextInside frameList) := by
  intro s x _ hrep hok hahead
  obtain ⟨hnext, hmem, _⟩ := clockFrameNext_ahead hrep hok hahead
  rw [nextInside, hnext, ok_bind]
  exact if_pos hmem

/-- No frame of `l` may be evicted: those that are not pinned have different pages, all of them
accessed. -/
structure Passed (entry : ℕ → FrameTableEntry) (pagedir : Pagedir) (l : List ℕ) : Prop where
  accessed : ∀ e ∈ l, (entry e).pinned = false → pagedirIsAccessed pagedir (entry e).upage = true
  pages : l.Pairwise fun a b => (entry a).pinned = false → (entry b).pinned = false →
    pgNo (entry a).upage ≠ pgNo (entry b).upage

/-- The search through `l` ends at `e`, the first frame that may be evicted. -/
def EndsAt (entry : ℕ → FrameTableEntry) (pagedir : Pagedir) (l : List ℕ) (e : ℕ) : Prop :=
  ∃ before after, l = before ++ e :: after ∧ Passed entry pagedir before ∧
    ¬ Passed entry pagedir (before ++ [e])

section Passed

variable {l : List ℕ} {entry : ℕ → FrameTableEntry}

lemma isAccessed_clear {u v : ℕ} : pagedirIsAccessed (pagedirSetAccessed pagedir u false) v = true ↔
    pagedirIsAccessed pagedir v = true ∧ pgNo u ≠ pgNo v := by
  constructor
  · intro h
    refine ⟨Pagedir.hasFlag_of_clear h, fun hpage => ?_⟩
    rw [pagedirIsAccessed, Pagedir.hasFlag_eq, Pagedir.entry_congr hpage.symm, ← Pagedir.hasFlag_eq]
      at h
    exact absurd (Pagedir.hasFlag_clear_self PTE_A u) (by rw [← pagedirSetAccessed, h]; simp)
  · rintro ⟨h, hpage⟩
    rwa [pagedirIsAccessed, Pagedir.hasFlag_eq, pagedirSetAccessed,
      Pagedir.entry_setFlag_of_ne (Ne.symm hpage), ← Pagedir.hasFlag_eq]

lemma passed_cons {a : ℕ} (hpin : (entry a).pinned = false) : Passed entry pagedir (a :: l) ↔
    pagedirIsAccessed pagedir (entry a).upage = true ∧
      Passed entry (pagedirSetAccessed pagedir (entry a).upage false) l := by
  constructor
  · rintro ⟨hacc, hpages⟩
    obtain ⟨hne, hpages⟩ := pairwise_cons.1 hpages
    exact ⟨hacc a mem_cons_self hpin, fun e he hp => isAccessed_clear.2
      ⟨hacc e (mem_cons_of_mem _ he) hp, hne e he hpin hp⟩, hpages⟩
  · rintro ⟨ha, hacc, hpages⟩
    refine ⟨fun e he hp => ?_, pairwise_cons.2 ⟨fun e he _ hp => ?_, hpages⟩⟩
    · rcases mem_cons.1 he with rfl | he
      · exact ha
      · exact (isAccessed_clear.1 (hacc e he hp)).1
    · exact (isAccessed_clear.1 (hacc e he hp)).2

lemma passed_cons_pinned {a : ℕ} (hpin : (entry a).pinned = true) :
    Passed entry pagedir (a :: l) ↔ Passed entry pagedir l := by
  constructor
  · rintro ⟨hacc, hpages⟩
    exact ⟨fun e he => hacc e (mem_cons_of_mem _ he), (pairwise_cons.1 hpages).2⟩
  · rintro ⟨hacc, hpages⟩
    refine ⟨fun e he hp => ?_, pairwise_cons.2 ⟨fun e _ hp => ?_, hpages⟩⟩
    · rcases mem_cons.1 he with rfl | he
      · rw [hpin] at hp
        cases hp
      · exact hacc e he hp
    · rw [hpin] at hp
      cases hp

end Passed

lemma pickLoop_round {x : ℕ} (hrep : s.Rep frameList) (hok : s.ClockOk frameList)
    (hahead : s.ahead = x :: vs) {next : FrameTable → Kernel (ℕ × FrameTable)}
    (hnext : GoesAhead frameList next) (n : ℕ) : pickLoop next false (n + 1) s pagedir =
      if (s.entry x).pinned then pickLoop next false n { s with clockPtr := some x } pagedir
      else if pagedirIsAccessed pagedir (s.entry x).upage then
        pickLoop next false n { s with clockPtr := some x }
          (pagedirSetAccessed pagedir (s.entry x).upage false)
      else .ok (x, { s with clockPtr := some x }, pagedir) := by
  rw [pickLoop, if_neg Bool.false_ne_true, hnext hrep hok hahead, ok_bind]
  rfl

/-- **The loop ends before the end of the list**, when an entry ahead may be evicted. -/
theorem pickLoop_ahead {e n : ℕ} (hrep : s.Rep frameList) (hok : s.ClockOk frameList)
    (hahead : s.ahead = us ++ e :: vs) (hpassed : Passed s.entry pagedir us)
    (hevict : ¬ Passed s.entry pagedir (us ++ [e])) (hn : us.length < n) :
    ∃ pagedir', ∀ next, GoesAhead frameList next →
      pickLoop next false n s pagedir = .ok (e, { s with clockPtr := some e }, pagedir') := by
  obtain ⟨n, rfl⟩ : ∃ m, n = m + 1 := ⟨n - 1, by omega⟩
  induction us generalizing s pagedir n with
  | nil =>
    cases hpin : (s.entry e).pinned with
    | true => exact absurd ((passed_cons_pinned hpin).2 hpassed) hevict
    | false =>
      have hacc : ¬ pagedirIsAccessed pagedir (s.entry e).upage = true :=
        fun h => hevict ((passed_cons hpin).2 ⟨h, by simp, .nil⟩)
      refine ⟨pagedir, fun next hnext => ?_⟩
      rw [pickLoop_round hrep hok hahead hnext, hpin, if_neg Bool.false_ne_true, if_neg hacc]
  | cons x us ih =>
    obtain ⟨_, hmem, hrest⟩ := clockFrameNext_ahead hrep hok hahead
    obtain ⟨n, rfl⟩ : ∃ m, n = m + 1 := ⟨n - 1, by rw [length_cons] at hn; omega⟩
    -- The other entries are those ahead of the clock at `x`.
    have hgo : ∀ {pd}, Passed s.entry pd us → ¬ Passed s.entry pd (us ++ [e]) → _ :=
      fun hp he => ih (s := { s with clockPtr := some x }) (hrep.setClock _)
        (.inr (.inr ⟨x, hmem, rfl⟩)) hrest hp he n (Nat.lt_of_succ_lt_succ hn)
    rw [cons_append] at hevict
    cases hpin : (s.entry x).pinned with
    | true =>
      rw [passed_cons_pinned hpin] at hpassed hevict
      obtain ⟨pagedir', hloop⟩ := hgo hpassed hevict
      refine ⟨pagedir', fun next hnext => ?_⟩
      rw [pickLoop_round hrep hok hahead hnext, hpin, if_pos rfl, hloop next hnext]
    | false =>
      rw [passed_cons hpin] at hpassed hevict
      obtain ⟨hacc, hpassed⟩ := hpassed
      obtain ⟨pagedir', hloop⟩ := hgo hpassed fun h => hevict ⟨hacc, h⟩
      refine ⟨pagedir', fun next hnext => ?_⟩
      rw [pickLoop_round hrep hok hahead hnext, hpin, if_neg Bool.false_ne_true, if_pos hacc,
        hloop next hnext]

/-- **When a call leaves the clock valid.**  It is not at what is freed; an eviction finds an entry
before the end of the list, and `malloc` returns its block. -/
def ClockMeets (s : FrameTable) : FrameCall → Prop
  | .allocate args => args.framePage = none →
      ∃ e ∈ args.block, EndsAt s.entry args.pagedir s.ahead e
  | .free kpage _ => ∀ a ∈ s.frameMap, (s.entry a).kpage = kpage → s.clockPtr ≠ some a
  | .removeEntry kpage _ => ∀ a ∈ s.frameMap, (s.entry a).kpage = kpage → s.clockPtr ≠ some a
  | .pin _ => True
  | .unpin _ => True

lemma pickFrameToEvict_clock {e : ℕ} (hrep : s.Rep frameList) (hok : s.ClockOk frameList)
    (hends : EndsAt s.entry pagedir s.ahead e) (fuel uninit : ℕ) : ∃ pagedir',
      pickFrameToEvict frameList (clockFrameNext frameList) .CLOCK fuel uninit s pagedir =
        .ok (e, { s with clockPtr := some e }, pagedir') ∧
      pickFrameToEvict frameList (nextInside frameList) .CLOCK fuel uninit s pagedir =
        .ok (e, { s with clockPtr := some e }, pagedir') := by
  obtain ⟨us, vs, hahead, hpassed, hevict⟩ := hends
  have hlen := s.length_ahead
  rw [hahead, length_append, length_cons] at hlen
  obtain ⟨pagedir', hloop⟩ := pickLoop_ahead hrep hok hahead hpassed hevict
    (show us.length < s.frameMap.length + s.frameMap.length + 1 by omega)
  have hpick : ∀ next, GoesAhead frameList next →
      pickFrameToEvict frameList next .CLOCK fuel uninit s pagedir =
        .ok (e, { s with clockPtr := some e }, pagedir') := by
    intro next hnext
    unfold pickFrameToEvict
    dsimp only
    rw [if_neg (show ¬ s.frameMap.length = 0 by omega)]
    exact hloop next hnext
  exact ⟨pagedir', hpick _ clockFrameNext_goesAhead, hpick _ nextInside_goesAhead⟩

theorem Step.clockOk {c : FrameCall} (hrep : s.Rep frameList) (hok : s.ClockOk frameList)
    (h : Step frameList .CLOCK s c s') (hmeets : ClockMeets s c) :
    s'.ClockOk frameList := by
  -- Entries that stay keep a clock that is at them.
  have hkeep : ∀ {t : FrameTable}, t.clockPtr = s.clockPtr →
      (∀ a ∈ s.frameMap, s.clockPtr = some a → a ∈ t.frameMap) → t.ClockOk frameList := by
    intro t hclock hstay
    rcases hok with h | h | ⟨a, ha, h⟩
    · exact .inl (hclock.trans h)
    · exact .inr (.inl (hclock.trans h))
    · exact .inr (.inr ⟨a, hstay a ha h, hclock.trans h⟩)
  have hfree : ∀ {kpage : ℕ} {junk : Junk}, frameDoFree s kpage junk = .ok s' →
      (∀ a ∈ s.frameMap, (s.entry a).kpage = kpage → s.clockPtr ≠ some a) →
      s'.ClockOk frameList := by
    intro _ _ h hnot
    obtain ⟨f, hf, hkpage, hmap, hclock, _⟩ := frameDoFree_sound hrep h
    refine hkeep hclock fun a ha hat => ?_
    rw [hmap]
    refine (mem_erase_of_ne ?_).2 ha
    rintro rfl
    exact hnot a hf hkpage hat
  cases h with
  | @allocate _ _ args _ hroom hfresh henter =>
    obtain ⟨hmap', hclock', _⟩ := enter_sound (makeRoom_sound hrep hroom) hfresh henter
    cases hpage : args.framePage with
    | some =>
      rw [makeRoom, hpage] at hroom
      cases hroom
      refine hkeep hclock' fun a ha _ => ?_
      rw [hmap']
      exact mem_append_left _ ha
    | none =>
      -- The clock is at the entry that was evicted, which is the new one.
      obtain ⟨e, hblock, hends⟩ := hmeets hpage
      obtain ⟨_, hpick, _⟩ := pickFrameToEvict_clock hrep hok hends args.fuel args.uninit
      rw [makeRoom, hpage] at hroom
      simp only [hpick, ok_bind, bind_eq_ok, ASSERT_eq_ok] at hroom
      obtain ⟨_, _, _, hdo, hroom⟩ := hroom
      cases hroom
      obtain ⟨_, _, _, _, hclock, _⟩ := frameDoFree_sound (hrep.setClock (some e)) hdo
      refine .inr (.inr ⟨e, ?_, hclock'.trans hclock⟩)
      rw [hmap', hblock]
      exact mem_append_right _ (mem_singleton_self e)
  | free h => exact hfree h hmeets
  | removeEntry h => exact hfree h hmeets
  | pin h | unpin h =>
    obtain ⟨hmap, hclock, _⟩ := frameSetPinned_sound hrep h
    exact hkeep hclock fun a ha _ => by rwa [hmap]

def nextCalls (frameList : ListHeader) : ℕ → FrameTable → Kernel (List ℕ × FrameTable)
  | 0, s => return ([], s)
  | n + 1, s => do
    let (e, s) ← clockFrameNext frameList s
    let (l, s) ← nextCalls frameList n s
    return (e :: l, s)

lemma nextCalls_ahead (hrep : s.Rep frameList) (hok : s.ClockOk frameList)
    (hahead : s.ahead = vs) : ∃ s', nextCalls frameList vs.length s = .ok (vs, s') := by
  induction vs generalizing s with
  | nil => exact ⟨s, rfl⟩
  | cons x _ ih =>
    obtain ⟨hnext, hmem, hrest⟩ := clockFrameNext_ahead hrep hok hahead
    obtain ⟨s', hcalls⟩ := ih (s := { s with clockPtr := some x }) (hrep.setClock _)
      (.inr (.inr ⟨x, hmem, rfl⟩)) hrest
    refine ⟨s', ?_⟩
    rw [length_cons, nextCalls, hnext, ok_bind]
    dsimp only
    rw [hcalls]
    rfl

/-- **The clock over calls that meet the condition** is valid, and evictions stay in the list. -/
theorem clock_valid (hlist : frameList.head ≠ frameList.tail) {heap : ListHeap}
    {entry : ℕ → FrameTableEntry}
    (hrun : Reaches (Step frameList .CLOCK) ClockMeets
      (frameInit frameList heap entry) s) :
    (∀ fuel, s.frameMap.length < fuel → forward fuel s.heap frameList = .ok s.frameMap) ∧
      s.ClockOk frameList ∧
      (∀ args : AllocateArgs, args.framePage = none → ClockMeets s (.allocate args) →
        ∃ r, pickFrameToEvict frameList (nextInside frameList) .CLOCK args.fuel args.uninit s
            args.pagedir = .ok r ∧
          pickFrameToEvict frameList (clockFrameNext frameList) .CLOCK args.fuel args.uninit s
            args.pagedir = .ok r) ∧
      (s.clockPtr = none ∨ s.clockPtr = listEnd frameList → s.frameMap.Nodup ∧
          ∃ s', nextCalls frameList s.frameMap.length s = .ok (s.frameMap, s')) := by
  have hinv : s.Rep frameList ∧ s.ClockOk frameList :=
    hrun.invariant (fun s => s.Rep frameList ∧ s.ClockOk frameList)
      (fun h hs hm => ⟨hs.rep h.1, hs.clockOk h.1 h.2 hm⟩) ⟨.init hlist heap entry, .inl rfl⟩
  obtain ⟨hrep, hok⟩ := hinv
  refine ⟨fun fuel hfuel => hrep.linked.forward_eq () hfuel, hok, fun args hpage hmeets => ?_,
    fun hclock => ⟨hrep.nodup, ?_⟩⟩
  · obtain ⟨_, _, hends⟩ := hmeets hpage
    obtain ⟨_, hpick, hinside⟩ := pickFrameToEvict_clock hrep hok hends args.fuel args.uninit
    exact ⟨_, hinside, hpick⟩
  · exact nextCalls_ahead hrep hok (ahead_first hrep hclock)

lemma clockFrameNext_last (hrep : s.Rep frameList) (hsplit : s.frameMap = us ++ [a])
    (hclock : s.clockPtr = some a) :
    clockFrameNext frameList s =
      .ok (frameList.tail, { s with clockPtr := some frameList.tail }) := by
  have hmem : a ∈ s.frameMap := by
    rw [hsplit]
    exact mem_append_right _ (mem_singleton_self a)
  have hempty : ¬ listEmpty s.heap frameList = true := by
    rw [hrep.not_empty (ne_nil_of_mem hmem)]
    exact Bool.false_ne_true
  have hnot : ¬ (s.clockPtr = none ∨ s.clockPtr = listEnd frameList) := by
    rw [hclock]
    rintro (h | h)
    · cases h
    · exact hrep.ne_tail hmem (Option.some.inj h)
  rw [clockFrameNext, if_neg hempty, if_neg hnot, hclock, hrep.listNext_eq hsplit]
  rfl

lemma exists_evicted_once :
    ∃ s, Reaches (Step ⟨0, 1⟩ .CLOCK) ClockMeets freshTable s ∧ s.frameMap = [10] ∧
      s.clockPtr = some 10 := by
  refine ⟨_, ((Reaches.refl.step (.allocate rfl oneArgs_fresh rfl) nofun).step
    (.unpin (show frameSetPinned _ 0xc0100000 false = _ from rfl)) trivial).step
    (.allocate (show makeRoom ⟨0, 1⟩ .CLOCK (oneArgs none) _ = _ from rfl) ?fresh rfl) ?meets,
    rfl, rfl⟩
  case fresh =>
    constructor
    · exact nofun
    · intro _ hframe
      cases hframe
      decide
  case meets =>
    refine fun _ => ⟨10, rfl, [], [], rfl, ⟨by simp, .nil⟩, fun h => ?_⟩
    exact absurd (h.accessed 10 mem_cons_self rfl) (by decide)

theorem clock_valid_once : ∃ s : FrameTable, s.frameMap = [10] ∧ s.ClockOk ⟨0, 1⟩ := by
  obtain ⟨s, hrun, hmap, _⟩ := exists_evicted_once
  exact ⟨s, hmap, (clock_valid (by decide) hrun).2.1⟩

/-- **The clock returns the tail of the list**: after an eviction it is at the last entry. -/
theorem clock_returns_tail :
    ∃ s, Reaches (Step ⟨0, 1⟩ .CLOCK) ClockMeets freshTable s ∧ s.frameMap = [10] ∧
      (∃ s', clockFrameNext ⟨0, 1⟩ s = .ok (1, s')) ∧
      pickFrameToEvict ⟨0, 1⟩ (nextInside ⟨0, 1⟩) .CLOCK 0 0 s .empty =
        PANIC "no entry of frame_list" := by
  obtain ⟨s, hrun, hmap, hclock⟩ := exists_evicted_once
  have hrep := rep_of_reaches (by decide) hrun
  have hnext := clockFrameNext_last hrep (show s.frameMap = [] ++ [10] from hmap) hclock
  refine ⟨s, hrun, hmap, ⟨_, hnext⟩, ?_⟩
  unfold pickFrameToEvict
  dsimp only
  rw [if_neg (by rw [hmap]; decide), pickLoop, if_neg Bool.false_ne_true, nextInside, hnext,
    Kernel.ok_bind]
  dsimp only
  rw [hmap, if_neg (by decide), Kernel.panic_bind]

end Pintos.FrameList
