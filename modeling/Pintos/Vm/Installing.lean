/-
# Installing pages and growing the stack

`install_page` asks the page directory for the page, sets it there, and adds an entry to the
supplemental table.  A page that is swapped out is in the table but not in the directory: the
insertion fails, nothing undoes the mapping, and the caller frees a frame that stays mapped.

`page_fault` takes the stack pointer of a system call from `current_esp`, which nothing assigns: it
is the zero `init_thread` leaves.
-/

import Pintos.Vm.Agreement

namespace Pintos.Virtualmemory

open Base Kernel

variable {vm vm' : Vm} {policy : SwapPolicy} {fs : LoadPageFromFilesys} {p upage kpage : ℕ}
  {alloc malloc : Bool}

/-! ### Installing a page -/

/-- `install_page` goes no further than the page directory: the page is there, or there is no page
table for it and no memory for one. -/
def Vm.Refuses (vm : Vm) (p upage : ℕ) (alloc : Bool) : Prop :=
  pagedirGetPage (vm.procs p).pagedir upage ≠ .ok none ∨
    (vm.procs p).pagedir.pt (pdNo upage) = none ∧ alloc = false

/-- All or nothing: a page that is not installed changes nothing, also when its frame is freed; one
that is has its mapping and its entry. -/
structure Vm.AllOrNothing (vm vm' : Vm) (p upage kpage : ℕ) (w r : Bool) : Prop where
  nothing : r = false → vm' = vm ∧
    ∀ vm'', frameFree vm' kpage = .ok vm'' → ∀ q v, vm''.maps q v = vm.maps q v
  all : r = true → vm'.maps p upage = some (PHYS_BASE + (kpage - PHYS_BASE) % 2 ^ 32, w) ∧
    ∃ e, vm'.spte p upage = some e ∧ e.status = .ON_FRAME ∧ e.kpage = kpage

lemma pagedirSetPage_refuses {pd pd' : Pagedir} {w r : Bool} {ram : ℕ}
    (h : pagedirSetPage pd upage kpage w ram alloc = .ok (pd', r)) :
    r = false ↔ pd.pt (pdNo upage) = none ∧ alloc = false := by
  simp only [pagedirSetPage, bind_eq_ok, ASSERT_eq_ok, lookupPage] at h
  obtain ⟨_, _, _, _, _, _, _, _, _, _, _, ⟨_, _, hlookup⟩, h⟩ := h
  cases hpt : pd.pt (pdNo upage) with
  | some =>
    rw [hpt] at hlookup
    cases hlookup
    simp only [bind_eq_ok] at h
    obtain ⟨_, _, _, _, h⟩ := h
    cases h
    simp
  | none =>
    rw [hpt] at hlookup
    cases alloc with
    | true =>
      cases hlookup
      simp only [bind_eq_ok] at h
      obtain ⟨_, _, _, _, h⟩ := h
      cases h
      simp
    | false =>
      cases hlookup
      cases h
      exact iff_of_true rfl ⟨rfl, rfl⟩

/-- A mapping that was not there is a change. -/
lemma setPagedir_ne {pd : Pagedir} {x : ℕ × Bool} (hnone : vm.maps p upage = none)
    (hpd : ∀ v, pd.maps v = if v = upage then some x else vm.maps p v) :
    vm.setPagedir p pd ≠ vm := by
  intro heq
  have hmaps : (vm.setPagedir p pd).maps p upage = none := by rw [heq, hnone]
  rw [Vm.maps_setPagedir_page _ _ _ _ _ hpd, if_pos ⟨rfl, rfl⟩] at hmaps
  cases hmaps

/-- A call that is not refused gets as far as the supplemental table. -/
lemma installPage_refuses {w r : Bool} {block : Option PageTableEntry}
    (h : installPage vm p upage kpage w block alloc = .ok (r, vm')) :
    vm.Refuses p upage alloc ↔ r = false ∧ vm' = vm := by
  simp only [installPage, bind_eq_ok] at h
  obtain ⟨page, hpage, h⟩ := h
  rw [Vm.Refuses, hpage]
  cases page with
  | some =>
    cases h
    simp
  | none =>
    simp only [bind_eq_ok] at h
    obtain ⟨⟨pd, ok⟩, hset, h⟩ := h
    rw [or_iff_right (not_not.2 rfl), ← pagedirSetPage_refuses hset]
    obtain ⟨_, _, hset⟩ := pagedirSetPage_eq_ok hset
    cases ok with
    | false =>
      cases h
      refine iff_of_true rfl ⟨rfl, ?_⟩
      rw [hset, Vm.setPagedir_self]
    | true =>
      refine iff_of_false Bool.noConfusion ?_
      obtain ⟨hnone, hpd⟩ := hset
      simp only [bind_eq_ok] at h
      obtain ⟨⟨_, _⟩, hinst, h⟩ := h
      unfold tableInstallFrame at hinst
      cases block with
      | none => cases hinst
      | some =>
        dsimp only at hinst
        split at hinst
        · cases hinst
          simp only [bind_eq_ok] at h
          obtain ⟨_, _, h⟩ := h
          cases h
          simp
        · cases hinst
          cases h
          exact fun h => setPagedir_ne hnone hpd h.2

/-- **`install_page` is all or nothing exactly** if it is refused at the page directory, or the page
has no entry and the block happens to hold `ON_FRAME` and the frame. -/
theorem installPage_all_or_nothing {w r : Bool} {block : Option PageTableEntry}
    (h : installPage vm p upage kpage w block alloc = .ok (r, vm')) :
    vm.AllOrNothing vm' p upage kpage w r ↔ vm.Refuses p upage alloc ∨
      vm.spte p upage = none ∧ ∀ e ∈ block, e.status = .ON_FRAME ∧ e.kpage = kpage := by
  rw [installPage_refuses h]
  rcases installPage_eq_ok h with ⟨rfl, e, rfl, hi⟩ | ⟨rfl, rfl⟩ | ⟨rfl, hnone, hsome, pd, rfl, hpd⟩
  · rw [or_iff_right nofun]
    constructor
    · intro hall
      obtain ⟨_, e', he', hblock⟩ := hall.all rfl
      rw [hi.spte p upage, if_pos ⟨rfl, rfl⟩] at he'
      cases he'
      refine ⟨hi.was_none, ?_⟩
      rintro _ ⟨⟩
      exact hblock
    · rintro ⟨_, hblock⟩
      refine ⟨nofun, fun _ => ⟨?_, e, ?_, hblock e rfl⟩⟩
      · exact (hi.maps p upage).trans (if_pos ⟨rfl, rfl⟩)
      · exact (hi.spte p upage).trans (if_pos ⟨rfl, rfl⟩)
  · exact iff_of_true ⟨fun _ => ⟨rfl, fun _ hfree => (frameFree_drops hfree).maps⟩, nofun⟩
      (.inl ⟨rfl, rfl⟩)
  · have hchanged := setPagedir_ne hnone hpd
    refine iff_of_false (fun hall => hchanged (hall.nothing rfl).1) ?_
    rintro (⟨_, heq⟩ | ⟨heq, _⟩)
    · exact hchanged heq
    · exact hsome heq

theorem installPage_all_or_nothing_first_page : ∃ vm₁ vm₂,
    installPage vm₁ 1 0x8048000 0xc0105000 false
        (some ⟨false, 0xc0105000, .ON_FRAME, false, 0⟩) true = .ok (true, vm₂) ∧
      ∃ e, vm₂.spte 1 0x8048000 = some e ∧ e.status = .ON_FRAME ∧ e.kpage = 0xc0105000 := by
  obtain ⟨_, vm₁, vm₂, _, _, hinst, hnone, _⟩ := first_page ⟨false, 0xc0105000, .ON_FRAME, false, 0⟩
  refine ⟨vm₁, vm₂, hinst, ?_⟩
  have hblock : ∀ e ∈ some (⟨false, 0xc0105000, .ON_FRAME, false, 0⟩ : PageTableEntry),
      e.status = .ON_FRAME ∧ e.kpage = 0xc0105000 := by
    rintro _ ⟨⟩
    exact ⟨rfl, rfl⟩
  exact (((installPage_all_or_nothing hinst).2 (.inr ⟨hnone, hblock⟩)).all rfl).2

/-- **A failed `install_page` leaves a mapping to a freed frame**, of a page that was swapped
out. -/
theorem installPage_leaves_mapping : ∃ palloc vm vm₁ vm₂ vm₃,
    pallocInit 264 4 (fun _ => 0) (fun _ => 0) (fun _ => 0) = .ok palloc ∧
      vm = (Vm.boot palloc (oneSlot false) Pagedir.empty 264).setSpte 1 0x8048000
        (some ⟨true, 0, .ON_SWAP, false, 0⟩) ∧
      frameAllocate secondChance vm 1 {} 0x8048000 true = .ok (some 0xc0105000, vm₁) ∧
      installPage vm₁ 1 0x8048000 0xc0105000 false
        (some ⟨false, 0xc0105000, .ON_FRAME, false, 0⟩) true = .ok (false, vm₂) ∧
      frameFree vm₂ 0xc0105000 = .ok vm₃ ∧
      vm₁.maps 1 0x8048000 = none ∧ vm₃.maps 1 0x8048000 = some (0xc0105000, false) :=
  ⟨_, _, _, _, _, rfl, rfl, rfl, rfl, rfl, rfl, rfl⟩

/-! ### Growing the stack -/

/-- A fault on a page not present: the address, the stack pointer at the trap, and what the handler
reads as `f->esp` if the kernel faulted. -/
structure Trap where
  user : Bool
  addr : ℕ
  esp : ℕ
  frameEsp : ℕ

def Trap.fault (t : Trap) : Fault :=
  ⟨true, t.user, t.addr, if t.user then t.esp else t.frameEsp, 0⟩

def Trap.InStack (t : Trap) : Prop :=
  PHYS_BASE - MAX_STACK_SIZE ≤ t.addr ∧ t.addr < PHYS_BASE

/-- The address is not below the stack pointer, or of a `PUSH` or a `PUSHA`. -/
def Trap.NearStack (t : Trap) : Prop := t.esp ≤ t.addr ∨ t.addr + 4 = t.esp ∨ t.addr + 32 = t.esp

/-- The fault is no `PUSH` of the user program, and in a system call the stack should grow for
it. -/
def Trap.Meets (t : Trap) : Prop :=
  t.InStack → if t.user then t.addr + 4 ≠ t.esp else t.NearStack

/-- Exactly then the test of the handler is the right one. -/
lemma Trap.growsStack_iff {t : Trap} (hesp : t.esp < 2 ^ 32) :
    (t.fault.growsStack = true ↔ t.InStack ∧ t.NearStack) ↔ t.Meets := by
  obtain ⟨user, _, _, _⟩ := t
  simp only [Fault.growsStack, fault, Bool.and_eq_true, decide_eq_true_eq, Meets, InStack,
    NearStack, PHYS_BASE, MAX_STACK_SIZE, u32] at *
  cases user with
  | true =>
    simp only [if_true]
    omega
  | false =>
    simp only [Bool.false_eq_true, if_false]
    omega

/-- What a fault should do before the page is loaded: add a zero page where the stack should grow,
and nothing elsewhere. -/
structure Vm.Grown (vm : Vm) (p : ℕ) (t : Trap) (vm' : Vm) : Prop where
  grows : vm.spte p (pgRoundDown t.addr) = none → t.InStack ∧ t.NearStack →
    ∃ e : PageTableEntry, e.status = .ALL_ZERO ∧ e.kpage = 0 ∧ e.dirty = false ∧
      vm' = vm.setSpte p (pgRoundDown t.addr) (some e)
  kept : (vm.spte p (pgRoundDown t.addr) = none → ¬ (t.InStack ∧ t.NearStack)) → vm' = vm

/-- An entry that was not there is a change. -/
lemma setSpte_ne {u : ℕ} {e : PageTableEntry} (hnone : vm.spte p u = none) :
    vm.setSpte p u (some e) ≠ vm := by
  intro heq
  have hspte : (vm.setSpte p u (some e)).spte p u = none := by rw [heq, hnone]
  rw [Vm.spte_setSpte, if_pos ⟨rfl, rfl⟩] at hspte
  cases hspte

section Grow

variable {f : Fault} {block : Option PageTableEntry}

lemma growStack_entry {e : PageTableEntry} (he : vm.spte p (pgRoundDown f.faultAddr) = some e) :
    growStack vm p f block = .ok vm := by
  rw [growStack, tableHasEntry, he, Option.isSome_some, Bool.not_true, Bool.and_false]
  rfl

lemma growStack_none (hnone : vm.spte p (pgRoundDown f.faultAddr) = none)
    (hgrows : f.growsStack = true) : growStack vm p f block = (do
      let r ← tableInstallZeropage vm p (pgRoundDown f.faultAddr) block
      return r.2) := by
  rw [growStack, tableHasEntry, hnone, hgrows]
  rfl

lemma pageFault_growStack (hpresent : f.notPresent = true)
    (hok : growStack vm p f block = .ok vm') : pageFault policy fs vm p f block malloc alloc =
      loadPage policy fs vm' p (pgRoundDown f.faultAddr) malloc alloc := by
  rw [pageFault, hpresent, Bool.not_true, if_neg Bool.false_ne_true, hok]
  rfl

end Grow

/-- **The stack grows exactly where it should**, and other faults without an entry are violations,
if and only if a fault without one meets the condition and gets a block where it should grow. -/
theorem stack_grows {t : Trap} {block : Option PageTableEntry} (hesp : t.esp < 2 ^ 32) :
    (∃ vm', growStack vm p t.fault block = .ok vm' ∧ vm.Grown p t vm' ∧
        pageFault policy fs vm p t.fault block malloc alloc =
          loadPage policy fs vm' p (pgRoundDown t.addr) malloc alloc ∧
        (vm'.spte p (pgRoundDown t.addr) = none →
          pageFault policy fs vm p t.fault block malloc alloc = .ok (false, vm))) ↔
      (vm.spte p (pgRoundDown t.addr) = none →
        t.Meets ∧ (t.InStack ∧ t.NearStack → block ≠ none)) := by
  cases hentry : vm.spte p (pgRoundDown t.addr) with
  | some e =>
    have hok : growStack vm p t.fault block = .ok vm := growStack_entry hentry
    refine iff_of_true ⟨vm, hok, ⟨fun h => ?_, fun _ => rfl⟩, pageFault_growStack rfl hok,
      fun h => ?_⟩ (by simp)
    · rw [hentry] at h
      cases h
    · rw [hentry] at h
      cases h
  | none =>
    rw [← Trap.growsStack_iff hesp]
    cases hg : t.fault.growsStack with
    | false =>
      have hgrow : growStack vm p t.fault block = .ok vm := by
        rw [growStack, hg]
        rfl
      constructor
      · rintro ⟨vm', hok, hgrown, -⟩ -
        cases hgrow.symm.trans hok
        have hnot : ¬ (t.InStack ∧ t.NearStack) := by
          intro htest
          obtain ⟨e, -, -, -, heq⟩ := hgrown.grows hentry htest
          exact setSpte_ne hentry heq.symm
        exact ⟨iff_of_false Bool.false_ne_true hnot, fun htest => absurd htest hnot⟩
      · intro h
        have hnot : ¬ (t.InStack ∧ t.NearStack) := fun htest => by cases (h rfl).1.2 htest
        have hload := @pageFault_growStack _ _ policy fs p alloc malloc _ block rfl hgrow
        refine ⟨vm, hgrow, ⟨fun _ htest => absurd htest hnot, fun _ => rfl⟩, hload, fun _ => ?_⟩
        rw [hload, loadPage, show vm.spte p (pgRoundDown t.fault.faultAddr) = none from hentry]
        rfl
    | true =>
      have hgrow : growStack vm p t.fault block = _ := growStack_none hentry hg
      cases block with
      | none =>
        -- The handler follows the null pointer.
        constructor
        · rintro ⟨_, hok, -⟩
          cases hgrow.symm.trans hok
        · intro h
          exact absurd rfl ((h rfl).2 ((h rfl).1.1 rfl))
      | some e =>
        simp only [tableInstallZeropage, Trap.fault, hentry] at hgrow
        constructor
        · rintro ⟨vm', hok, hgrown, -⟩ -
          cases hgrow.symm.trans hok
          refine ⟨iff_of_true rfl ?_, fun _ => Option.some_ne_none _⟩
          by_contra htest
          exact setSpte_ne hentry (hgrown.kept fun _ => htest)
        · intro h
          have htest := (h rfl).1.1 rfl
          refine ⟨_, hgrow, ⟨fun _ _ => ⟨_, rfl, rfl, rfl, rfl⟩, fun hnot => ?_⟩,
            pageFault_growStack rfl hgrow, fun hnone => ?_⟩
          · exact absurd htest (hnot hentry)
          · rw [Vm.spte_setSpte, if_pos ⟨rfl, rfl⟩] at hnone
            cases hnone

theorem stack_grows_at_esp : ∃ vm vm' : Vm, growStack vm 1
      ⟨true, true, 0xbfffe800, 0xbfffe800, 0⟩ (some ⟨false, 7, .ON_SWAP, true, 7⟩) = .ok vm' ∧
      vm.Grown 1 ⟨true, 0xbfffe800, 0xbfffe800, 0⟩ vm' := by
  obtain ⟨palloc, _⟩ := first_page ⟨false, 0, .ON_FRAME, false, 0⟩
  have hmeets : Trap.Meets ⟨true, 0xbfffe800, 0xbfffe800, 0⟩ :=
    fun _ => (by decide : (0xbfffe800 : ℕ) + 4 ≠ 0xbfffe800)
  obtain ⟨vm', hok, hgrown, _⟩ := (@stack_grows (Vm.boot palloc (oneSlot true) Pagedir.empty 264)
    secondChance (fun _ _ mem => (mem, false)) 1 true true ⟨true, 0xbfffe800, 0xbfffe800, 0⟩
    (some ⟨false, 7, .ON_SWAP, true, 7⟩) (by decide)).2 fun _ => ⟨hmeets, nofun⟩
  exact ⟨_, vm', hok, hgrown⟩

/-- **A `PUSH` onto a new page is a violation.** -/
theorem push_is_violation : Trap.InStack ⟨true, 0xbfffeffc, 0xbffff000, 0⟩ ∧
      Trap.NearStack ⟨true, 0xbfffeffc, 0xbffff000, 0⟩ ∧
      ∀ palloc swap pd ram block, pageFault secondChance (fun _ _ mem => (mem, false))
        (Vm.boot palloc swap pd ram) 1 (Trap.fault ⟨true, 0xbfffeffc, 0xbffff000, 0⟩) block true
        true = .ok (false, Vm.boot palloc swap pd ram) :=
  ⟨⟨by decide, by decide⟩, .inr (.inl rfl), fun _ _ _ _ _ => rfl⟩

end Pintos.Virtualmemory
