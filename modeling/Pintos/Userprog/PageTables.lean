/-
# Page directories in memory

`userprog/pagedir.c` on the words of memory: a page directory is a page of 1024 entries, each zero
or the physical address of a page table and flags, and a page table is a page of 1024 entries.
`Pagedir` has the same functions on the tree those words form; `Machine.view` reads the tree out of
memory, and each function here is the one there followed by `view`, as long as the directory is a
tree (`Tree`): its page tables are pages that `palloc_get_page` returned, all distinct.

`palloc_get_page` returns the page that its last argument names if that is a page of RAM not
returned before, and a null pointer otherwise: any page the allocator may have free, or none.  The
entries for kernel pages point to the page tables that `paging_init` built.  Flushing the
translation lookaside buffer changes no word of memory and is left out.
-/

import Pintos.Base.Run
import Pintos.Userprog.Pagedir

namespace Pintos.PageTables

open Base Function Kernel Option Pagedir List

/-- The words of memory, the directory of the kernel, the pages of RAM, and those in use. -/
structure Machine where
  mem : ℕ → BitVec 32
  initPageDir : ℕ
  initRamPages : ℕ
  pages : List ℕ

def Machine.IsPage (m : Machine) (a : ℕ) : Prop :=
  pgOfs a = 0 ∧ PHYS_BASE ≤ a ∧ a < 2 ^ 32 ∧ (a - PHYS_BASE) / PGSIZE < m.initRamPages

instance (m : Machine) (a : ℕ) : Decidable (m.IsPage a) :=
  inferInstanceAs (Decidable (_ ∧ _ ∧ _ ∧ _))

def Machine.IsFree (m : Machine) (a : ℕ) : Prop := m.IsPage a ∧ a ∉ m.pages

instance (m : Machine) (a : ℕ) : Decidable (m.IsFree a) := inferInstanceAs (Decidable (_ ∧ _))

def Machine.store (m : Machine) (a : ℕ) (w : BitVec 32) : Machine :=
  { m with mem := update m.mem a w }

def Machine.givePage (m : Machine) (a : ℕ) (word : ℕ → BitVec 32) : Machine :=
  { m with
    mem := fun x => if a ≤ x ∧ x < a + PGSIZE then word (x - a) else m.mem x
    pages := a :: m.pages }

def pdeCreate (pt : ℕ) : Kernel (BitVec 32) := do
  ASSERT (pgOfs pt = 0)
  let paddr ← vtop pt
  return BitVec.ofNat 32 paddr ||| PTE_U ||| PTE_P ||| PTE_W

def pdeGetPt (pde : BitVec 32) : Kernel ℕ := do
  ASSERT (pde &&& PTE_P ≠ 0#32)
  ptov (pde &&& PTE_ADDR).toNat

def newTable (m : Machine) (pde page : ℕ) : Kernel (Machine × Option ℕ) :=
  if m.IsFree page then do
    let entry ← pdeCreate page
    return ((m.givePage page fun _ => 0#32).store pde entry, some page)
  else
    return (m, none)

/-- The page table of a page of RAM in `pd`.  The loop has `pt` from its last round. -/
def kernelTable (m : Machine) (pd pt vaddr page : ℕ) : Kernel (Machine × ℕ) :=
  if m.mem (pd + 4 * pdNo vaddr) = 0#32 then do
    match ← newTable m (pd + 4 * pdNo vaddr) page with
    | (m, some pt) => return (m, pt)
    | (_, none) => PANIC "palloc_get: out of pages"
  else
    return (m, pt)

/-- One round of `paging_init`: page `i` of RAM at its kernel virtual address. -/
def mapKernelPage (startText endText : ℕ) (page : ℕ → ℕ) (pd : ℕ) (s : Machine × ℕ) (i : ℕ) :
    Kernel (Machine × ℕ) := do
  let vaddr ← ptov (u32 (i * PGSIZE))
  let (m, pt) ← kernelTable s.1 pd s.2 vaddr (page i)
  let pte ← pteCreateKernel vaddr (!decide (startText ≤ vaddr ∧ vaddr < endText))
  return (m.store (pt + 4 * ptNo vaddr) pte, pt)

/-- Populates the kernel's page directory. -/
def pagingInit (mem : ℕ → BitVec 32) (initRamPages startText endText dir : ℕ) (page : ℕ → ℕ) :
    Kernel Machine := do
  let m : Machine := ⟨mem, 0, initRamPages, []⟩
  if m.IsFree dir then
    let m := { m.givePage dir fun _ => 0#32 with initPageDir := dir }
    let (m, _) ← forLoop initRamPages (mapKernelPage startText endText page dir) (m, 0)
    return m
  else
    PANIC "palloc_get: out of pages"

def pagedirCreate (m : Machine) (page : ℕ) : Machine × Option ℕ :=
  if m.IsFree page then (m.givePage page fun x => m.mem (m.initPageDir + x), some page)
  else (m, none)

def entryAddr (m : Machine) (pde vaddr : ℕ) : Kernel (Machine × Option ℕ) := do
  let pt ← pdeGetPt (m.mem pde)
  return (m, some (pt + 4 * ptNo vaddr))

def lookupPage (m : Machine) (pd vaddr : ℕ) (create : Bool) (page : ℕ) :
    Kernel (Machine × Option ℕ) := do
  ASSERT (pd ≠ 0)
  ASSERT (create = false ∨ isUserVaddr vaddr = true)
  let pde := pd + 4 * pdNo vaddr
  if m.mem pde = 0#32 then
    if create then
      match ← newTable m pde page with
      | (m, some _) => entryAddr m pde vaddr
      | (m, none) => return (m, none)
    else
      return (m, none)
  else
    entryAddr m pde vaddr

def pagedirSetPage (m : Machine) (pd upage kpage : ℕ) (writable : Bool) (page : ℕ) :
    Kernel (Machine × Bool) := do
  ASSERT (pgOfs upage = 0)
  ASSERT (pgOfs kpage = 0)
  ASSERT (isUserVaddr upage = true)
  let paddr ← vtop kpage
  ASSERT (paddr / PGSIZE < m.initRamPages)
  ASSERT (pd ≠ m.initPageDir)
  match ← lookupPage m pd upage true page with
  | (m, some pte) =>
    ASSERT (m.mem pte &&& PTE_P = 0#32)
    let entry ← pteCreateUser kpage writable
    return (m.store pte entry, true)
  | (m, none) => return (m, false)

def pagedirGetPage (m : Machine) (pd uaddr : ℕ) : Kernel (Option ℕ) := do
  ASSERT (isUserVaddr uaddr = true)
  match ← lookupPage m pd uaddr false 0 with
  | (m, some pte) =>
    if m.mem pte &&& PTE_P ≠ 0#32 then
      return some ((← pteGetPage (m.mem pte)) + pgOfs uaddr)
    else
      return none
  | (_, none) => return none

def pagedirClearPage (m : Machine) (pd upage : ℕ) : Kernel Machine := do
  ASSERT (pgOfs upage = 0)
  ASSERT (isUserVaddr upage = true)
  match ← lookupPage m pd upage false 0 with
  | (m, some pte) =>
    if m.mem pte &&& PTE_P ≠ 0#32 then
      return m.store pte (m.mem pte &&& ~~~PTE_P)
    else
      return m
  | (m, none) => return m

def hasFlag (flag : BitVec 32) (m : Machine) (pd vpage : ℕ) : Kernel Bool := do
  match ← lookupPage m pd vpage false 0 with
  | (m, some pte) => return decide (m.mem pte &&& flag ≠ 0#32)
  | (_, none) => return false

def setFlag (flag : BitVec 32) (m : Machine) (pd vpage : ℕ) (value : Bool) : Kernel Machine := do
  match ← lookupPage m pd vpage false 0 with
  | (m, some pte) =>
    return m.store pte (if value then m.mem pte ||| flag else m.mem pte &&& ~~~flag)
  | (m, none) => return m

def pagedirIsDirty : Machine → ℕ → ℕ → Kernel Bool := hasFlag PTE_D

def pagedirSetDirty : Machine → ℕ → ℕ → Bool → Kernel Machine := setFlag PTE_D

def pagedirIsAccessed : Machine → ℕ → ℕ → Kernel Bool := hasFlag PTE_A

def pagedirSetAccessed : Machine → ℕ → ℕ → Bool → Kernel Machine := setFlag PTE_A

/-! ### Directory entries -/

def tableOf (pde : BitVec 32) : ℕ := PHYS_BASE + (pde &&& PTE_ADDR).toNat

def pdeOf (a : ℕ) : BitVec 32 := BitVec.ofNat 32 (a - PHYS_BASE) ||| (PTE_U ||| PTE_P ||| PTE_W)

variable {m m' : Machine} {pd a v page i b kpage endText : ℕ} {word : ℕ → BitVec 32}
  {pages : ℕ → ℕ} {op : Op}

section

variable (h : m.IsPage a)
include h

lemma Machine.IsPage.mod : (a - PHYS_BASE) % PGSIZE = 0 := by
  obtain ⟨_, _, -⟩ := h
  simp only [pgOfs, PGSIZE, PHYS_BASE] at *
  omega

lemma Machine.IsPage.ne_zero : a ≠ 0 := by
  have hle := h.2.1
  rw [PHYS_BASE] at hle
  omega

lemma vtop_eq : vtop a = .ok (a - PHYS_BASE) := by
  rw [vtop, ASSERT_of (show isKernelVaddr a = true from decide_eq_true h.2.1), ok_bind, pure_eq_ok]

lemma pdeCreate_eq : pdeCreate a = .ok (pdeOf a) := by
  rw [pdeCreate, ASSERT_of h.1, ok_bind, vtop_eq h, ok_bind, pure_eq_ok, pdeOf,
    BitVec.or_assoc, BitVec.or_assoc, BitVec.or_assoc]

lemma pdeOf_and_PTE_ADDR : pdeOf a &&& PTE_ADDR = BitVec.ofNat 32 (a - PHYS_BASE) := by
  rw [pdeOf, or_and_of_disjoint (by decide), ofNat_and_PTE_ADDR h.mod]

lemma tableOf_pdeOf : tableOf (pdeOf a) = a := by
  have hlt := h.2.2.1
  have hle := h.2.1
  rw [tableOf, pdeOf_and_PTE_ADDR h, BitVec.toNat_ofNat, Nat.mod_eq_of_lt (by omega)]
  omega

end

lemma pdeOf_and_PTE_P : pdeOf a &&& PTE_P ≠ 0#32 := by
  intro h
  have hbit := congrArg (BitVec.getLsbD · 0) h
  simp [pdeOf, PTE_U, PTE_P, PTE_W] at hbit

lemma pdeOf_ne_zero : pdeOf a ≠ 0#32 := by
  intro h
  exact pdeOf_and_PTE_P (a := a) (by rw [h, BitVec.zero_and])

lemma pdeGetPt_eq {pde : BitVec 32} (hp : pde &&& PTE_P ≠ 0#32) (h : m.IsPage (tableOf pde)) :
    pdeGetPt pde = .ok (tableOf pde) := by
  have hlt := h.2.2.1
  rw [tableOf, PHYS_BASE] at hlt
  rw [pdeGetPt, ASSERT_of hp, ok_bind, ptov, ASSERT_of (by rw [PHYS_BASE]; omega),
    ok_bind, pure_eq_ok, tableOf, u32_of_lt (by rw [PHYS_BASE]; omega),
    Nat.add_comm]

/-! ### Directories that are trees -/

def Machine.pde (m : Machine) (pd i : ℕ) : BitVec 32 := m.mem (pd + 4 * i)

/-- **A directory that is a tree in memory.** -/
structure Tree (m : Machine) (pd : ℕ) : Prop where
  /-- The directory is a page in use. -/
  dir : m.IsPage pd ∧ pd ∈ m.pages
  /-- An entry that is not zero is the entry of another page in use. -/
  table : ∀ i < 1024, m.pde pd i ≠ 0#32 → m.pde pd i = pdeOf (tableOf (m.pde pd i)) ∧
    m.IsPage (tableOf (m.pde pd i)) ∧ tableOf (m.pde pd i) ∈ m.pages ∧ tableOf (m.pde pd i) ≠ pd
  /-- No two entries point to one page table. -/
  inj : ∀ i < 1024, ∀ j < 1024, m.pde pd i ≠ 0#32 → m.pde pd j ≠ 0#32 →
    tableOf (m.pde pd i) = tableOf (m.pde pd j) → i = j

def Machine.view (m : Machine) (pd : ℕ) : Pagedir where
  pt i := if i < 1024 ∧ m.pde pd i ≠ 0#32 then
      some fun j => if j < 1024 then m.mem (tableOf (m.pde pd i) + 4 * j) else 0#32
    else none

lemma pdNo_lt (h : v < 2 ^ 32) : pdNo v < 1024 := by
  simp only [pdNo, PGSIZE]
  omega

lemma ptNo_lt (v : ℕ) : ptNo v < 1024 := Nat.mod_lt _ (by decide)

lemma Machine.IsPage.add_ne {j : ℕ} (ha : m.IsPage a) (hb : m.IsPage b) (hne : a ≠ b)
    (hi : i < 1024) (hj : j < 1024) : a + 4 * i ≠ b + 4 * j := by
  have h1 := ha.1
  have h2 := hb.1
  simp only [pgOfs, PGSIZE] at h1 h2
  omega

lemma Machine.givePage_mem_of_ne (ha : m.IsPage a) (hb : m.IsPage b) (hne : b ≠ a)
    (hi : i < 1024) : (m.givePage a word).mem (b + 4 * i) = m.mem (b + 4 * i) := by
  have h1 := ha.1
  have h2 := hb.1
  refine if_neg ?_
  simp only [pgOfs, PGSIZE] at h1 h2 ⊢
  omega

lemma Machine.givePage_mem_self (hi : i < 1024) :
    (m.givePage a word).mem (a + 4 * i) = word (4 * i) := by
  rw [givePage]
  dsimp only
  rw [if_pos (by rw [PGSIZE]; omega), Nat.add_sub_cancel_left]

lemma Machine.IsFree.ne (h : m.IsFree a) (hb : b ∈ m.pages) : b ≠ a := fun heq => h.2 (heq ▸ hb)

def Machine.slot (m : Machine) (pd i j : ℕ) : ℕ := tableOf (m.pde pd i) + 4 * j

lemma Machine.view_pt (hi : i < 1024) (hne : m.pde pd i ≠ 0#32) :
    (m.view pd).pt i = some fun j => if j < 1024 then m.mem (m.slot pd i j) else 0#32 :=
  if_pos ⟨hi, hne⟩

lemma Machine.view_pt_none (hz : m.pde pd i = 0#32) : (m.view pd).pt i = none :=
  if_neg fun h => h.2 hz

lemma Machine.view_pt_congr {pd' : ℕ} (hpde : i < 1024 → m'.pde pd' i = m.pde pd i)
    (hmem : i < 1024 → m.pde pd i ≠ 0#32 → ∀ j < 1024,
      m'.mem (m.slot pd i j) = m.mem (m.slot pd i j)) : (m'.view pd').pt i = (m.view pd).pt i := by
  by_cases hi : i < 1024
  swap
  · exact (if_neg fun h => hi h.1).trans (if_neg fun h => hi h.1).symm
  by_cases hne : m.pde pd i ≠ 0#32
  swap
  · rw [view_pt_none (not_not.mp hne), view_pt_none ((hpde hi).trans (not_not.mp hne))]
  rw [view_pt hi hne, view_pt hi ((hpde hi).trans_ne hne)]
  refine congrArg some (funext fun j => ?_)
  rw [slot, hpde hi]
  exact ite_congr rfl (fun hj => hmem hi hne j hj) fun _ => rfl

section Tree

variable {i j k : ℕ} {w : BitVec 32}

lemma Tree.pde_store (h : Tree m pd) (hi : i < 1024) (hne : m.pde pd i ≠ 0#32) (hj : j < 1024)
    (hk : k < 1024) : (m.store (m.slot pd i j) w).pde pd k = m.pde pd k := by
  obtain ⟨-, hpage, -, hpd⟩ := h.table i hi hne
  exact update_of_ne (h.dir.1.add_ne hpage hpd.symm hk hj) ..

lemma Tree.store (h : Tree m pd) (hi : i < 1024) (hne : m.pde pd i ≠ 0#32) (hj : j < 1024) :
    Tree (m.store (m.slot pd i j) w) pd := by
  have hpde := fun {k} => h.pde_store (w := w) hi hne hj (k := k)
  refine ⟨h.dir, fun k hk hk0 => ?_, fun k hk l hl hk0 hl0 heq => ?_⟩
  · rw [hpde hk] at hk0 ⊢
    exact h.table k hk hk0
  · rw [hpde hk] at hk0 heq
    rw [hpde hl] at hl0 heq
    exact h.inj k hk l hl hk0 hl0 heq

lemma Tree.view_store (h : Tree m pd) (hv : v < 2 ^ 32) (hne : m.pde pd (pdNo v) ≠ 0#32) :
    (m.store (m.slot pd (pdNo v) (ptNo v)) w).view pd = (m.view pd).store v w := by
  have hi := pdNo_lt hv
  have hj := ptNo_lt v
  have hpde := fun {k} => h.pde_store (w := w) hi hne hj (k := k)
  refine congrArg Pagedir.mk (funext fun k => ?_)
  by_cases hk : k = pdNo v
  · subst hk
    rw [update_self, Machine.view_pt hi hne, map_some, hpde hi, if_pos ⟨hi, hne⟩]
    refine congrArg some (funext fun l => ?_)
    by_cases hl : l = ptNo v
    · subst hl
      rw [if_pos hj, update_self]
      exact update_self ..
    · rw [update_of_ne hl]
      refine if_congr Iff.rfl (update_of_ne ?_ ..) rfl
      rw [Machine.slot]
      omega
  · -- another table is another page
    rw [update_of_ne hk]
    refine Machine.view_pt_congr (fun hk' => hpde hk') fun hk' hk0 l hl => ?_
    obtain ⟨-, hpage, -⟩ := h.table _ hi hne
    obtain ⟨-, hpage', -⟩ := h.table k hk' hk0
    refine update_of_ne (hpage'.add_ne hpage ?_ hl hj) ..
    exact fun heq => hk (h.inj k hk' _ hi hk0 hne heq)

def Machine.withTable (m : Machine) (pd i page : ℕ) : Machine :=
  (m.givePage page fun _ => 0#32).store (pd + 4 * i) (pdeOf page)

lemma newTable_of_free (h : m.IsFree page) :
    newTable m (pd + 4 * i) page = .ok (m.withTable pd i page, some page) := by
  rw [newTable, if_pos h, pdeCreate_eq h.1, ok_bind]
  rfl

lemma newTable_of_not_free {pde : ℕ} (h : ¬m.IsFree page) :
    newTable m pde page = .ok (m, none) := if_neg h

lemma Machine.pde_withTable_self : (m.withTable pd i page).pde pd i = pdeOf page := update_self ..

section

variable (h : Tree m pd) (hf : m.IsFree page)
include h hf

lemma Tree.pde_withTable (hk : k < 1024) (hki : k ≠ i) :
    (m.withTable pd i page).pde pd k = m.pde pd k := by
  have hne : pd + 4 * k ≠ pd + 4 * i := by omega
  exact (update_of_ne hne ..).trans (Machine.givePage_mem_of_ne hf.1 h.dir.1 (hf.ne h.dir.2) hk)

lemma Tree.mem_withTable (hi : i < 1024) (hb : m.IsPage b) (hmem : b ∈ m.pages) (hne : b ≠ pd)
    (hj : j < 1024) : (m.withTable pd i page).mem (b + 4 * j) = m.mem (b + 4 * j) :=
  (update_of_ne (hb.add_ne h.dir.1 hne hj hi) ..).trans
    (Machine.givePage_mem_of_ne hf.1 hb (hf.ne hmem) hj)

lemma Tree.withTable (hi : i < 1024) : Tree (m.withTable pd i page) pd := by
  have htable : ∀ k < 1024, k ≠ i → (m.withTable pd i page).pde pd k ≠ 0#32 →
      tableOf ((m.withTable pd i page).pde pd k) ∈ m.pages := by
    intro k hk hki hk0
    rw [h.pde_withTable hf hk hki] at hk0 ⊢
    exact (h.table k hk hk0).2.2.1
  have hself : tableOf ((m.withTable pd i page).pde pd i) = page := by
    rw [Machine.pde_withTable_self, tableOf_pdeOf hf.1]
  refine ⟨⟨h.dir.1, mem_cons_of_mem _ h.dir.2⟩, fun k hk hk0 => ?_, fun k hk l hl hk0 hl0 heq => ?_⟩
  · by_cases hki : k = i
    · subst hki
      rw [hself]
      exact ⟨Machine.pde_withTable_self, hf.1, mem_cons_self .., (hf.ne h.dir.2).symm⟩
    · rw [h.pde_withTable hf hk hki] at hk0 ⊢
      obtain ⟨hpde, hpage, hmem, hne⟩ := h.table k hk hk0
      exact ⟨hpde, hpage, mem_cons_of_mem _ hmem, hne⟩
  · by_cases hki : k = i
    · by_cases hli : l = i
      · rw [hki, hli]
      · rw [hki, hself] at heq
        exact absurd heq.symm (hf.ne (htable l hl hli hl0))
    · by_cases hli : l = i
      · rw [hli, hself] at heq
        exact absurd heq (hf.ne (htable k hk hki hk0))
      · rw [h.pde_withTable hf hk hki] at hk0 heq
        rw [h.pde_withTable hf hl hli] at hl0 heq
        exact h.inj k hk l hl hk0 hl0 heq

lemma Tree.view_withTable (hi : i < 1024) : (m.withTable pd i page).view pd =
      ⟨update (m.view pd).pt i (some fun _ => 0#32)⟩ := by
  refine congrArg Pagedir.mk (funext fun k => ?_)
  by_cases hki : k = i
  · subst hki
    have hself : (m.withTable pd k page).pde pd k = pdeOf page := Machine.pde_withTable_self
    rw [update_self, hself, if_pos ⟨hi, pdeOf_ne_zero⟩]
    refine congrArg some (funext fun j => ?_)
    by_cases hj : j < 1024
    · rw [if_pos hj, tableOf_pdeOf hf.1]
      exact (update_of_ne (hf.1.add_ne h.dir.1 (hf.ne h.dir.2).symm hj hi) ..).trans
        (Machine.givePage_mem_self hj)
    · rw [if_neg hj]
  · rw [update_of_ne hki]
    refine Machine.view_pt_congr (fun hk => h.pde_withTable hf hk hki) fun hk hk0 j hj => ?_
    obtain ⟨-, hpage, hmem, hne⟩ := h.table k hk hk0
    exact h.mem_withTable hf hi hpage hmem hne hj

end

end Tree

/-! ### Each function is the one on the view -/

lemma Tree.entryAddr_eq (h : Tree m pd) (hv : v < 2 ^ 32) (hne : m.pde pd (pdNo v) ≠ 0#32) :
    entryAddr m (pd + 4 * pdNo v) v = .ok (m, some (m.slot pd (pdNo v) (ptNo v))) := by
  obtain ⟨hpde, hpage, -⟩ := h.table _ (pdNo_lt hv) hne
  have hp : m.pde pd (pdNo v) &&& PTE_P ≠ 0#32 := by
    rw [hpde]
    exact pdeOf_and_PTE_P
  have hget : pdeGetPt (m.mem (pd + 4 * pdNo v)) = .ok (tableOf (m.pde pd (pdNo v))) :=
    pdeGetPt_eq hp hpage
  rw [entryAddr, hget, ok_bind]
  rfl

structure After (m : Machine) (pd : ℕ) (m' : Machine) : Prop where
  tree : Tree m' pd
  globals : m'.initPageDir = m.initPageDir ∧ m'.initRamPages = m.initRamPages

lemma After.refl (h : Tree m pd) : After m pd m := ⟨h, rfl, rfl⟩

structure EntryAt (m : Machine) (pd v : ℕ) (m' : Machine) (a : ℕ) : Prop where
  mem : m'.mem a = (m'.view pd).entry v
  store : ∀ w, After m pd (m'.store a w) ∧ (m'.store a w).view pd = (m'.view pd).store v w

lemma Machine.view_slot (hv : v < 2 ^ 32) (hne : m.pde pd (pdNo v) ≠ 0#32) :
    ∃ pt, (m.view pd).pt (pdNo v) = some pt ∧ pt (ptNo v) = m.mem (m.slot pd (pdNo v) (ptNo v)) :=
  ⟨_, view_pt (pdNo_lt hv) hne, if_pos (ptNo_lt v)⟩

lemma Tree.entryAt (h : Tree m' pd) (ha : After m pd m') (hv : v < 2 ^ 32)
    (hne : m'.pde pd (pdNo v) ≠ 0#32) : EntryAt m pd v m' (m'.slot pd (pdNo v) (ptNo v)) := by
  obtain ⟨_, hpt, hmem⟩ := Machine.view_slot hv hne
  refine ⟨by rw [entry_eq hpt, hmem], fun w => ⟨⟨?_, ha.globals⟩, h.view_store hv hne⟩⟩
  exact h.store (pdNo_lt hv) hne (ptNo_lt v)

section

variable (h : Tree m pd)
include h

lemma Tree.lookupPage_view (hv : v < 2 ^ 32) :
    (lookupPage m pd v false page = .ok (m, none) ∧ (m.view pd).pt (pdNo v) = none) ∨
      ∃ a pt, lookupPage m pd v false page = .ok (m, some a) ∧
        (m.view pd).pt (pdNo v) = some pt ∧ pt (ptNo v) = m.mem a ∧ EntryAt m pd v m a := by
  have hlookup : lookupPage m pd v false page = if m.mem (pd + 4 * pdNo v) = 0#32 then
      .ok (m, none) else entryAddr m (pd + 4 * pdNo v) v := by
    rw [lookupPage, ASSERT_of h.dir.1.ne_zero, ok_bind, ASSERT_of (.inl rfl), ok_bind]
    rfl
  by_cases hz : m.pde pd (pdNo v) = 0#32
  · exact .inl ⟨hlookup.trans (if_pos hz), Machine.view_pt_none hz⟩
  · obtain ⟨pt, hpt, hmem⟩ := Machine.view_slot hv hz
    exact .inr ⟨_, pt, hlookup.trans ((if_neg hz).trans (h.entryAddr_eq hv hz)), hpt, hmem,
      h.entryAt (.refl h) hv hz⟩

lemma Tree.lookupPage_create (huser : v < PHYS_BASE) : ∃ m' r,
    lookupPage m pd v true page = .ok (m', r) ∧ After m pd m' ∧ (r = none → m' = m) ∧
      Pintos.lookupPage (m.view pd) v true (decide (m.IsFree page)) =
        .ok (m'.view pd, r.map m'.mem) ∧ ∀ a ∈ r, EntryAt m pd v m' a := by
  have hv : v < 2 ^ 32 := huser.trans (by decide)
  rw [lookupPage, ASSERT_of h.dir.1.ne_zero, ok_bind, ASSERT_of (.inr (decide_eq_true huser)),
    ok_bind, Pintos.lookupPage, ASSERT_of (.inr (decide_eq_true huser)), ok_bind]
  by_cases hz : m.pde pd (pdNo v) = 0#32
  · have hz' : m.mem (pd + 4 * pdNo v) = 0#32 := hz
    rw [Machine.view_pt_none hz]
    by_cases hf : m.IsFree page
    · have htree := h.withTable hf (pdNo_lt hv)
      have hne : (m.withTable pd (pdNo v) page).pde pd (pdNo v) ≠ 0#32 := by
        rw [Machine.pde_withTable_self]
        exact pdeOf_ne_zero
      have hat := htree.entryAt (m := m) ⟨htree, rfl, rfl⟩ hv hne
      have hzero := hat.mem
      rw [h.view_withTable hf (pdNo_lt hv), entry_newTable (Machine.view_pt_none hz),
        entry_of_none (Machine.view_pt_none hz)] at hzero
      refine ⟨m.withTable pd (pdNo v) page, some _, ?_, ⟨htree, rfl, rfl⟩, nofun, ?_,
        fun _ ha => some.inj ha ▸ hat⟩
      · dsimp only
        rw [if_pos hz', if_pos rfl, newTable_of_free hf, ok_bind]
        exact htree.entryAddr_eq hv hne
      · rw [map_some, hzero, h.view_withTable hf (pdNo_lt hv), decide_eq_true hf]
        rfl
    · refine ⟨m, none, ?_, .refl h, fun _ => rfl, ?_, nofun⟩
      · dsimp only
        rw [if_pos hz', if_pos rfl, newTable_of_not_free hf, ok_bind]
        rfl
      · rw [decide_eq_false hf]
        rfl
  · obtain ⟨_, hpt, hmem⟩ := Machine.view_slot hv hz
    have hz' : m.mem (pd + 4 * pdNo v) ≠ 0#32 := hz
    refine ⟨m, some _, (if_neg hz').trans (h.entryAddr_eq hv hz), .refl h, nofun, ?_,
      fun _ ha => some.inj ha ▸ h.entryAt (.refl h) hv hz⟩
    rw [hpt, map_some, ← hmem]
    rfl

lemma Tree.hasFlag_view (hv : v < 2 ^ 32) (flag : BitVec 32) :
    hasFlag flag m pd v = .ok ((m.view pd).hasFlag flag v) := by
  rcases h.lookupPage_view hv with ⟨hl, hpt⟩ | ⟨a, _, hl, hpt, hmem, -⟩
  · rw [hasFlag, hl, ok_bind, Pagedir.hasFlag, hpt, pure_eq_ok]
  · rw [hasFlag, hl, ok_bind, Pagedir.hasFlag, hpt]
    dsimp only
    rw [hmem, pure_eq_ok]

lemma Tree.setFlag_view (hv : v < 2 ^ 32) (flag : BitVec 32) (value : Bool) :
    ∃ m', setFlag flag m pd v value = .ok m' ∧ After m pd m' ∧
      m'.view pd = (m.view pd).setFlag flag v value := by
  rcases h.lookupPage_view hv with ⟨hl, hpt⟩ | ⟨a, _, hl, hpt, hmem, hat⟩
  · refine ⟨m, ?_, .refl h, ?_⟩
    · rw [setFlag, hl, ok_bind]
      rfl
    · rw [Pagedir.setFlag, hpt]
  · rw [setFlag, hl, ok_bind]
    refine ⟨_, rfl, (hat.store _).1, ?_⟩
    rw [(hat.store _).2, Pagedir.setFlag, hpt]
    dsimp only
    rw [hmem]

lemma Tree.pagedirGetPage_view (hv : v < PHYS_BASE) :
    pagedirGetPage m pd v = Pintos.pagedirGetPage (m.view pd) v := by
  have huser : isUserVaddr v = true := decide_eq_true hv
  unfold pagedirGetPage Pintos.pagedirGetPage Pintos.lookupPage
  rw [ASSERT_of huser, ok_bind, ok_bind, ASSERT_of (.inl rfl), ok_bind]
  rcases h.lookupPage_view (hv.trans (by decide)) with ⟨hl, hpt⟩ | ⟨a, _, hl, hpt, hmem, -⟩
  · rw [hl, hpt]
    rfl
  · rw [hl, hpt]
    dsimp only
    rw [hmem]
    rfl

lemma Tree.pagedirClearPage_view (hofs : pgOfs v = 0) (hv : v < PHYS_BASE) :
    ∃ m', pagedirClearPage m pd v = .ok m' ∧ After m pd m' ∧
      Pintos.pagedirClearPage (m.view pd) v = .ok (m'.view pd) := by
  have huser : isUserVaddr v = true := decide_eq_true hv
  unfold pagedirClearPage Pintos.pagedirClearPage Pintos.lookupPage
  rw [ASSERT_of hofs, ok_bind, ok_bind, ASSERT_of huser, ok_bind,
    ok_bind, ASSERT_of (.inl rfl), ok_bind]
  rcases h.lookupPage_view (hv.trans (by decide)) with ⟨hl, hpt⟩ | ⟨a, _, hl, hpt, hmem, hat⟩
  · rw [hl, hpt]
    exact ⟨m, rfl, .refl h, rfl⟩
  · rw [hl, hpt]
    dsimp only [ok_bind, pure_eq_ok]
    rw [hmem]
    by_cases hp : m.mem a &&& PTE_P ≠ 0#32
    · rw [if_pos hp, if_pos hp, ← (hat.store _).2]
      exact ⟨_, rfl, (hat.store _).1, rfl⟩
    · rw [if_neg hp, if_neg hp]
      exact ⟨m, rfl, .refl h, rfl⟩

end

lemma pteCreateUser_ok (hk : m.IsPage kpage) (writable : Bool) :
    ∃ pte, pteCreateUser kpage writable = .ok pte := by
  rw [pteCreateUser, pteCreateKernel, ASSERT_of hk.1, ok_bind, vtop_eq hk]
  exact ⟨_, rfl⟩

lemma Tree.pagedirSetPage_view (h : Tree m pd) (hinit : pd ≠ m.initPageDir) (hofs : pgOfs v = 0)
    (hv : v < PHYS_BASE) (hk : m.IsPage kpage) (hmap : (m.view pd).maps v = none)
    (writable : Bool) :
    ∃ m' r, pagedirSetPage m pd v kpage writable page = .ok (m', r) ∧ After m pd m' ∧
      Pintos.pagedirSetPage (m.view pd) v kpage writable m.initRamPages
        (decide (m.IsFree page)) = .ok (m'.view pd, r) ∧ (r = false → m' = m) := by
  have huser : isUserVaddr v = true := decide_eq_true hv
  obtain ⟨pte, hpte⟩ := pteCreateUser_ok hk writable
  obtain ⟨m1, r, hl, ha, hnone, hview, hat⟩ := @Tree.lookupPage_create m pd v page h hv
  rw [pagedirSetPage, ASSERT_of hofs, ok_bind, ASSERT_of hk.1, ok_bind, ASSERT_of huser, ok_bind,
    vtop_eq hk, ok_bind, ASSERT_of hk.2.2.2, ok_bind, ASSERT_of hinit, ok_bind, hl, ok_bind,
    Pintos.pagedirSetPage, ASSERT_of hofs, ok_bind, ASSERT_of hk.1, ok_bind, ASSERT_of huser,
    ok_bind, vtop_eq hk, ok_bind, ASSERT_of hk.2.2.2, ok_bind, hview, ok_bind]
  cases r with
  | none => exact ⟨m1, false, rfl, ha, rfl, fun _ => hnone rfl⟩
  | some a =>
    obtain ⟨hmem, hstore⟩ := hat a rfl
    -- the page is unmapped, so its entry is not present
    have hp : m1.mem a &&& PTE_P = 0#32 := by
      rw [hmem, (lookupPage_eq_ok hview).1]
      rw [maps_eq_entry, if_pos hofs, pteMapping] at hmap
      by_contra hp
      rw [if_pos hp] at hmap
      cases hmap
    dsimp only [map_some]
    rw [ASSERT_of hp, ok_bind, hpte, ok_bind, ok_bind, ok_bind, ← (hstore pte).2]
    exact ⟨_, _, rfl, (hstore pte).1, rfl, by simp⟩

/-! ### Building the directories -/

def UserClear (m : Machine) (pd : ℕ) : Prop := ∀ i < pdNo PHYS_BASE, m.pde pd i = 0#32

/-- Before a round: the directory has no entry yet, or `pt` is one of its page tables. -/
structure Mapping (pd : ℕ) (s : Machine × ℕ) : Prop where
  tree : Tree s.1 pd
  user : UserClear s.1 pd
  init : s.1.initPageDir = pd
  table : (∀ i < 1024, s.1.pde pd i = 0#32) ∨
    ∃ i < 1024, s.1.pde pd i ≠ 0#32 ∧ s.2 = tableOf (s.1.pde pd i)

lemma ptov_page (hi : i < 2 ^ 18) : ptov (u32 (i * PGSIZE)) = .ok (PHYS_BASE + i * PGSIZE) := by
  have hlt : i * PGSIZE < 2 ^ 30 := by
    rw [PGSIZE]
    omega
  rw [u32_of_lt (by omega), ptov, ASSERT_of (by rw [PHYS_BASE]; omega), ok_bind,
    pure_eq_ok, u32_of_lt (by rw [PHYS_BASE]; omega), Nat.add_comm]

lemma Mapping.kernelTable {s s' : Machine × ℕ} (h : Mapping pd s) (hv : v < 2 ^ 32)
    (hk : PHYS_BASE ≤ v) (hs : kernelTable s.1 pd s.2 v page = .ok s') :
    Mapping pd s' ∧ ∃ i < 1024, s'.1.pde pd i ≠ 0#32 ∧ s'.2 = tableOf (s'.1.pde pd i) := by
  have hpd := pdNo_lt hv
  have huser : pdNo PHYS_BASE ≤ pdNo v := Nat.div_le_div_right (Nat.div_le_div_right hk)
  unfold PageTables.kernelTable at hs
  split_ifs at hs with hz
  · by_cases hf : s.1.IsFree page
    swap
    · rw [newTable_of_not_free hf] at hs
      cases hs
    rw [newTable_of_free hf] at hs
    cases hs
    have hself : (s.1.withTable pd (pdNo v) page).pde pd (pdNo v) = pdeOf page :=
      Machine.pde_withTable_self
    have htable : ∃ i < 1024, (s.1.withTable pd (pdNo v) page).pde pd i ≠ 0#32 ∧
        page = tableOf ((s.1.withTable pd (pdNo v) page).pde pd i) := by
      refine ⟨pdNo v, hpd, ?_, ?_⟩
      · rw [hself]
        exact pdeOf_ne_zero
      · rw [hself, tableOf_pdeOf hf.1]
    refine ⟨⟨h.tree.withTable hf hpd, fun i hi => ?_, h.init, .inr htable⟩, htable⟩
    rw [h.tree.pde_withTable hf (by omega) (by omega)]
    exact h.user i hi
  · cases hs
    refine ⟨h, h.table.resolve_left fun hall => hz (hall _ hpd)⟩

lemma Mapping.round {s s' : Machine × ℕ} {startText : ℕ} (h : Mapping pd s) (hi : i < 2 ^ 18)
    (hs : mapKernelPage startText endText pages pd s i = .ok s') : Mapping pd s' := by
  have hlt : PHYS_BASE + i * PGSIZE < 2 ^ 32 := by
    rw [PHYS_BASE, PGSIZE]
    omega
  simp only [mapKernelPage, bind_eq_ok] at hs
  obtain ⟨_, hv, ⟨m, _⟩, hm, pte, -, hs⟩ := hs
  obtain rfl := Except.ok.inj ((ptov_page hi).symm.trans hv)
  cases hs
  obtain ⟨hmap, k, hk, hk0, hpt⟩ := h.kernelTable hlt (Nat.le_add_right ..) hm
  dsimp only at hk0 hpt ⊢
  subst hpt
  have hpde := fun {l} => hmap.tree.pde_store (w := pte) hk hk0 (ptNo_lt (PHYS_BASE + i * PGSIZE))
    (k := l)
  refine ⟨hmap.tree.store hk hk0 (ptNo_lt _), fun l hl => ?_, hmap.init, .inr ⟨k, hk, ?_⟩⟩
  · have hpd : pdNo PHYS_BASE ≤ 1024 := by decide
    exact (hpde (by omega)).trans (hmap.user l hl)
  · exact ⟨(hpde hk).trans_ne hk0, (congrArg tableOf (hpde hk)).symm⟩

lemma Machine.IsFree.tree (h : m.IsFree a) (dir : ℕ) :
    Mapping a ({ m.givePage a fun _ => 0#32 with initPageDir := a }, dir) := by
  have hz : ∀ i < 1024, (m.givePage a fun _ => 0#32).pde a i = 0#32 :=
    fun i hi => Machine.givePage_mem_self hi
  refine ⟨⟨⟨h.1, mem_cons_self ..⟩, fun i hi hne => absurd (hz i hi) hne,
    fun i hi _ _ hne => absurd (hz i hi) hne⟩, fun i hi => hz i ?_, rfl, .inl hz⟩
  exact hi.trans (by decide)

/-- **`paging_init`** builds a tree with no entry for a user address. -/
theorem pagingInit_tree {mem : ℕ → BitVec 32} {ram startText dir : ℕ} (hram : ram ≤ 2 ^ 18)
    (h : pagingInit mem ram startText endText dir pages = .ok m) :
    Tree m m.initPageDir ∧ UserClear m m.initPageDir := by
  unfold pagingInit at h
  dsimp only at h
  split_ifs at h with hf
  · obtain ⟨s, hloop, h⟩ := bind_eq_ok.mp h
    cases h
    have hmap := forLoop_invariant (Mapping dir)
      (fun hi h hs => h.round (lt_of_lt_of_le hi hram) hs) (hf.tree 0) hloop
    rw [hmap.init]
    exact ⟨hmap.tree, hmap.user⟩
  · cases h

/-- **`pagedir_create`** copies the directory: a tree with the same page tables. -/
theorem pagedirCreate_tree (h : Tree m m.initPageDir) (hc : pagedirCreate m page = (m', some pd)) :
    Tree m' pd ∧ pd ≠ m'.initPageDir ∧ m'.view pd = m.view m.initPageDir := by
  unfold pagedirCreate at hc
  split_ifs at hc with hf
  swap
  · cases hc
  obtain ⟨rfl, hpd⟩ := Prod.mk.inj hc
  obtain rfl := some.inj hpd
  have hpde : ∀ i < 1024, (m.givePage page fun x => m.mem (m.initPageDir + x)).pde page i =
      m.pde m.initPageDir i := fun i hi => Machine.givePage_mem_self hi
  refine ⟨⟨⟨hf.1, mem_cons_self ..⟩, fun i hi hne => ?_, fun i hi j hj hi0 hj0 heq => ?_⟩,
    (hf.ne h.dir.2).symm, congrArg mk (funext fun i => ?_)⟩
  · rw [hpde i hi] at hne ⊢
    obtain ⟨hentry, hpage, hmem, -⟩ := h.table i hi hne
    exact ⟨hentry, hpage, mem_cons_of_mem _ hmem, hf.ne hmem⟩
  · rw [hpde i hi] at hi0 heq
    rw [hpde j hj] at hj0 heq
    exact h.inj i hi j hj hi0 hj0 heq
  · refine Machine.view_pt_congr (fun hi => hpde i hi) fun hi hi0 j hj => ?_
    obtain ⟨-, hpage, hmem, -⟩ := h.table i hi hi0
    exact Machine.givePage_mem_of_ne hf.1 hpage (hf.ne hmem) hj

/-! ### The directory and the finite map -/

/-- The frame of address `v`, and whether it may be written and used by the user. -/
def Machine.walk (m : Machine) (pd v : ℕ) : Option (ℕ × Bool × Bool) :=
  let pde := m.pde pd (pdNo v)
  let pte := m.mem (m.slot pd (pdNo v) (ptNo v))
  if pde &&& PTE_P = 0#32 ∨ pte &&& PTE_P = 0#32 then none
  else some (PHYS_BASE + (pte &&& PTE_ADDR).toNat,
    decide (pde &&& PTE_W ≠ 0#32 ∧ pte &&& PTE_W ≠ 0#32),
    decide (pde &&& PTE_U ≠ 0#32 ∧ pte &&& PTE_U ≠ 0#32))

/-- The page table entry of `v`; zero where there is no page table. -/
def Machine.pte (m : Machine) (pd v : ℕ) : BitVec 32 :=
  if m.pde pd (pdNo v) = 0#32 then 0#32 else m.mem (m.slot pd (pdNo v) (ptNo v))

/-- A page directory, with the map of the frames set and not cleared. -/
structure Client where
  machine : Machine
  pd : ℕ
  map : ℕ → Option ℕ

/-- An operation, with the page that `pagedir_set_page` may have for a page table. -/
inductive Op where
  | setPage (upage kpage : ℕ) (writable : Bool) (page : ℕ)
  | clearPage (upage : ℕ)
  | setDirty (vpage : ℕ) (dirty : Bool)
  | setAccessed (vpage : ℕ) (accessed : Bool)

def Op.addr : Op → ℕ
  | .setPage upage _ _ _ => upage
  | .clearPage upage => upage
  | .setDirty vpage _ => vpage
  | .setAccessed vpage _ => vpage

/-- What a client may do: map an unmapped user page to RAM, clear a user page, any flags. -/
def Op.Legal (s : Client) : Op → Prop
  | .setPage upage kpage _ _ =>
    pgOfs upage = 0 ∧ upage < PHYS_BASE ∧ s.map upage = none ∧ s.machine.IsPage kpage
  | .clearPage upage => pgOfs upage = 0 ∧ upage < PHYS_BASE
  | .setDirty vpage _ => vpage < 2 ^ 32
  | .setAccessed vpage _ => vpage < 2 ^ 32

def Op.exec (m : Machine) (pd : ℕ) : Op → Kernel (Machine × Bool)
  | .setPage upage kpage writable page => pagedirSetPage m pd upage kpage writable page
  | .clearPage upage => do return (← pagedirClearPage m pd upage, true)
  | .setDirty vpage dirty => do return (← pagedirSetDirty m pd vpage dirty, true)
  | .setAccessed vpage accessed => do return (← pagedirSetAccessed m pd vpage accessed, true)

def Op.apply (map : ℕ → Option ℕ) (r : Bool) : Op → ℕ → Option ℕ
  | .setPage upage kpage _ _ => if r then update map upage (some kpage) else map
  | .clearPage upage => update map upage none
  | .setDirty _ _ => map
  | .setAccessed _ _ => map

inductive Client.Step : Client → Op → Client → Prop where
  | call {s : Client} {op : Op} {m : Machine} {r : Bool} (h : op.Legal s)
      (hs : op.exec s.machine s.pd = .ok (m, r)) :
      Step s op ⟨m, s.pd, op.apply s.map r⟩

def Client.Reaches (s s' : Client) : Prop := Base.Reaches Client.Step Base.Always s s'

/-- What an operation that returned `r` leaves as it was. -/
structure Op.Keeps (op : Op) (m : Machine) (pd : ℕ) (m' : Machine) (r : Bool) : Prop where
  /-- Other pages keep their mapping, and their entry with all its bits. -/
  others : ∀ v < 2 ^ 32, pgNo v ≠ pgNo op.addr →
    m'.walk pd v = m.walk pd v ∧ m'.pte pd v = m.pte pd v
  /-- Kernel addresses keep their mapping. -/
  kernel : ∀ v < 2 ^ 32, PHYS_BASE ≤ v → m'.walk pd v = m.walk pd v
  /-- A failed `pagedir_set_page` changes nothing. -/
  failed : r = false → m' = m
  dirty : ∀ upage, op = .clearPage upage → ∃ b, pagedirIsDirty m pd upage = .ok b ∧
    pagedirIsDirty m' pd upage = .ok b

/-- **The directory agrees with the map.** -/
structure Client.Agrees (s : Client) : Prop where
  /-- `pagedir_get_page` returns the frame in the map and the offset in the page. -/
  get : ∀ uaddr < PHYS_BASE, pagedirGetPage s.machine s.pd uaddr =
    .ok ((s.map (pgRoundDown uaddr)).map (· + pgOfs uaddr))
  step : ∀ op : Op, op.Legal s → ∃ m r, op.exec s.machine s.pd = .ok (m, r) ∧
    op.Keeps s.machine s.pd m r

lemma Machine.pte_eq_entry (hv : v < 2 ^ 32) : m.pte pd v = (m.view pd).entry v := by
  by_cases hz : m.pde pd (pdNo v) = 0#32
  · rw [pte, if_pos hz, entry_of_none (view_pt_none hz)]
  · obtain ⟨_, hpt, hmem⟩ := view_slot hv hz
    rw [pte, if_neg hz, entry_eq hpt, hmem]

def walkEntry (pte : BitVec 32) : Option (ℕ × Bool × Bool) :=
  if pte &&& PTE_P = 0#32 then none
  else some (PHYS_BASE + (pte &&& PTE_ADDR).toNat, decide (pte &&& PTE_W ≠ 0#32),
    decide (pte &&& PTE_U ≠ 0#32))

lemma pdeOf_and_PTE_W : pdeOf a &&& PTE_W ≠ 0#32 := by
  intro h
  have hbit := congrArg (BitVec.getLsbD · 1) h
  simp [pdeOf, PTE_U, PTE_P, PTE_W] at hbit

lemma pdeOf_and_PTE_U : pdeOf a &&& PTE_U ≠ 0#32 := by
  intro h
  have hbit := congrArg (BitVec.getLsbD · 2) h
  simp [pdeOf, PTE_U, PTE_P, PTE_W] at hbit

lemma Tree.walk_eq (h : Tree m pd) (hv : v < 2 ^ 32) :
    m.walk pd v = walkEntry ((m.view pd).entry v) := by
  rw [← Machine.pte_eq_entry hv]
  by_cases hz : m.pde pd (pdNo v) = 0#32
  · rw [Machine.walk, Machine.pte, if_pos hz, hz, if_pos (.inl (BitVec.zero_and ..)), walkEntry,
      if_pos (BitVec.zero_and ..)]
  · obtain ⟨hpde, -⟩ := h.table _ (pdNo_lt hv) hz
    rw [Machine.walk, Machine.pte, if_neg hz, walkEntry]
    have hP : m.pde pd (pdNo v) &&& PTE_P ≠ 0#32 := hpde ▸ pdeOf_and_PTE_P
    have hW : m.pde pd (pdNo v) &&& PTE_W ≠ 0#32 := hpde ▸ pdeOf_and_PTE_W
    have hU : m.pde pd (pdNo v) &&& PTE_U ≠ 0#32 := hpde ▸ pdeOf_and_PTE_U
    simp only [hP, hW, hU, ne_eq, not_false_eq_true, true_and, false_or]

lemma walkEntry_congr {x y : BitVec 32} (hp : x &&& PTE_P = y &&& PTE_P)
    (hw : x &&& PTE_W = y &&& PTE_W) (hu : x &&& PTE_U = y &&& PTE_U)
    (ha : x &&& PTE_ADDR = y &&& PTE_ADDR) : walkEntry x = walkEntry y := by
  simp only [walkEntry, hp, hw, hu, ha]

structure Client.Inv (s : Client) : Prop where
  tree : Tree s.machine s.pd
  init : s.pd ≠ s.machine.initPageDir
  /-- The present entries of user pages are those of the map. -/
  map : ∀ u < PHYS_BASE, pgOfs u = 0 →
    s.map u = ((s.machine.view s.pd).maps u).map Prod.fst
  frame : ∀ u k, s.map u = some k → k < 2 ^ 32

lemma After.keeps {r : Bool} (h : Tree m pd) (ha : After m pd m')
    (hother : ∀ u, pgNo u ≠ pgNo op.addr → (m'.view pd).entry u = (m.view pd).entry u)
    (hkernel : PHYS_BASE ≤ op.addr →
      walkEntry ((m'.view pd).entry op.addr) = walkEntry ((m.view pd).entry op.addr))
    (hfailed : r = false → m' = m) (hdirty : ∀ upage, op = .clearPage upage → upage < 2 ^ 32 ∧
      (m'.view pd).entry upage &&& PTE_D = (m.view pd).entry upage &&& PTE_D) :
    op.Keeps m pd m' r := by
  refine ⟨fun v hv hne => ?_, fun v hv hk => ?_, hfailed, fun upage hop => ?_⟩
  · rw [ha.tree.walk_eq hv, h.walk_eq hv, Machine.pte_eq_entry hv, Machine.pte_eq_entry hv,
      hother v hne]
    exact ⟨rfl, rfl⟩
  · rw [ha.tree.walk_eq hv, h.walk_eq hv]
    by_cases hne : pgNo v = pgNo op.addr
    · rw [entry_congr hne, entry_congr hne]
      refine hkernel ?_
      simp only [pgNo, PGSIZE, PHYS_BASE] at hne hk ⊢
      omega
    · rw [hother v hne]
  · obtain ⟨hlt, hD⟩ := hdirty upage hop
    refine ⟨_, h.hasFlag_view hlt PTE_D, ?_⟩
    rw [pagedirIsDirty, ha.tree.hasFlag_view hlt PTE_D, hasFlag_eq, hasFlag_eq, hD]

section Client

variable {s : Client} {upage : ℕ}

lemma Client.Inv.after (hI : s.Inv) (ha : After s.machine s.pd m') {map : ℕ → Option ℕ}
    (hmap : ∀ u < PHYS_BASE, pgOfs u = 0 → map u = ((m'.view s.pd).maps u).map Prod.fst)
    (hframe : ∀ u k, map u = some k → k < 2 ^ 32) : Client.Inv ⟨m', s.pd, map⟩ :=
  ⟨ha.tree, by rw [ha.globals.1]; exact hI.init, hmap, hframe⟩

lemma Client.Inv.setPage (hI : s.Inv) (writable : Bool)
    (hop : (Op.setPage upage kpage writable page).Legal s) : ∃ m r,
      pagedirSetPage s.machine s.pd upage kpage writable page = .ok (m, r) ∧
      (Op.setPage upage kpage writable page).Keeps s.machine s.pd m r ∧
      Client.Inv ⟨m, s.pd, (Op.setPage upage kpage writable page).apply s.map r⟩ := by
  obtain ⟨hofs, huser, hnone, hk⟩ := hop
  have hunmapped : (s.machine.view s.pd).maps upage = none := by
    rw [hI.map upage huser hofs, map_eq_none_iff] at hnone
    exact hnone
  obtain ⟨m, r, hset, ha, hview, hfailed⟩ :=
    hI.tree.pagedirSetPage_view hI.init hofs huser hk hunmapped writable
  refine ⟨m, r, hset, ha.keeps hI.tree (fun u hne => pagedirSetPage_entry hview hne)
    (fun hle => absurd hle (not_le.mpr huser)) hfailed nofun, ?_⟩
  cases r with
  | false =>
    obtain rfl := hfailed rfl
    exact hI
  | true =>
    obtain ⟨-, -, -, hmaps⟩ := pagedirSetPage_eq_ok hview
    refine hI.after ha (fun u hu hu' => ?_) fun u k huk => ?_
    · rw [Op.apply, if_pos rfl, hmaps u]
      by_cases heq : u = upage
      · rw [heq, update_self, if_pos rfl, map_some, frame_roundtrip hk.2.1 hk.2.2.1]
      · rw [update_of_ne heq, if_neg heq]
        exact hI.map u hu hu'
    · rw [Op.apply, if_pos rfl] at huk
      by_cases heq : u = upage
      · rw [heq, update_self] at huk
        cases huk
        exact hk.2.2.1
      · rw [update_of_ne heq] at huk
        exact hI.frame u k huk

lemma Client.Inv.clearPage (hI : s.Inv) (hop : (Op.clearPage upage).Legal s) :
    ∃ m, pagedirClearPage s.machine s.pd upage = .ok m ∧
      (Op.clearPage upage).Keeps s.machine s.pd m true ∧
      Client.Inv ⟨m, s.pd, (Op.clearPage upage).apply s.map true⟩ := by
  obtain ⟨hofs, huser⟩ := hop
  obtain ⟨m, hclear, ha, hview⟩ := hI.tree.pagedirClearPage_view hofs huser
  obtain ⟨hother, -, hmask⟩ := pagedirClearPage_entry hview
  obtain ⟨-, hmaps⟩ := pagedirClearPage_eq_ok hview
  refine ⟨m, hclear, ha.keeps hI.tree hother (fun hle => absurd hle (not_le.mpr huser)) (nomatch ·)
    fun u hu => ?_, hI.after ha (fun u hu hu' => ?_) fun u k huk => ?_⟩
  · obtain rfl := Op.clearPage.inj hu
    exact ⟨huser.trans (by decide), hmask PTE_D (by decide)⟩
  · rw [Op.apply, hmaps u]
    by_cases heq : u = upage
    · rw [heq, update_self, if_pos rfl, map_none]
    · rw [update_of_ne heq, if_neg heq]
      exact hI.map u hu hu'
  · rw [Op.apply] at huk
    by_cases heq : u = upage
    · rw [heq, update_self] at huk
      cases huk
    · rw [update_of_ne heq] at huk
      exact hI.frame u k huk

structure IsMark (flag : BitVec 32) : Prop where
  present : flag &&& PTE_P = 0#32 ∧ ~~~flag &&& PTE_P = PTE_P
  write : flag &&& PTE_W = 0#32 ∧ ~~~flag &&& PTE_W = PTE_W
  user : flag &&& PTE_U = 0#32 ∧ ~~~flag &&& PTE_U = PTE_U
  addr : flag &&& PTE_ADDR = 0#32 ∧ ~~~flag &&& PTE_ADDR = PTE_ADDR

lemma isMark_PTE_D : IsMark PTE_D := ⟨by decide, by decide, by decide, by decide⟩

lemma isMark_PTE_A : IsMark PTE_A := ⟨by decide, by decide, by decide, by decide⟩

lemma Client.Inv.mark (hI : s.Inv) {flag : BitVec 32} (hflag : IsMark flag) (op : Op)
    (hlt : op.addr < 2 ^ 32) (value : Bool) (hclear : ∀ upage, op ≠ .clearPage upage) :
    ∃ m, setFlag flag s.machine s.pd op.addr value = .ok m ∧
      op.Keeps s.machine s.pd m true ∧ Client.Inv ⟨m, s.pd, s.map⟩ := by
  obtain ⟨m, hset, ha, hview⟩ := hI.tree.setFlag_view hlt flag value
  refine ⟨m, hset, ha.keeps hI.tree (fun u hne => ?_) (fun _ => ?_) (nomatch ·)
    (fun u hu => absurd hu (hclear u)), hI.after ha (fun u hu hu' => ?_) hI.frame⟩
  · rw [hview]
    exact entry_setFlag_of_ne hne flag value
  · rw [hview]
    exact walkEntry_congr (entry_setFlag_and hflag.present ..)
      (entry_setFlag_and hflag.write ..) (entry_setFlag_and hflag.user ..)
      (entry_setFlag_and hflag.addr ..)
  · rw [hview, maps_setFlag hflag.present hflag.write hflag.addr]
    exact hI.map u hu hu'

/-- **Every operation** returns, keeps what it is not on, and is the one on the map. -/
theorem Client.Inv.exec (hI : s.Inv) (hop : op.Legal s) : ∃ m r,
    op.exec s.machine s.pd = .ok (m, r) ∧ op.Keeps s.machine s.pd m r ∧
      Client.Inv ⟨m, s.pd, op.apply s.map r⟩ := by
  cases op with
  | setPage _ _ writable => exact hI.setPage writable hop
  | clearPage =>
    obtain ⟨m, hclear, hkeeps, hI'⟩ := hI.clearPage hop
    exact ⟨m, true, by rw [Op.exec, hclear]; rfl, hkeeps, hI'⟩
  | setDirty vpage dirty =>
    obtain ⟨m, hset, hkeeps, hI'⟩ :=
      hI.mark isMark_PTE_D (.setDirty vpage dirty) hop dirty fun _ => nofun
    refine ⟨m, true, ?_, hkeeps, hI'⟩
    rw [Op.exec, pagedirSetDirty, show setFlag PTE_D s.machine s.pd vpage dirty = .ok m from hset]
    rfl
  | setAccessed vpage accessed =>
    obtain ⟨m, hset, hkeeps, hI'⟩ :=
      hI.mark isMark_PTE_A (.setAccessed vpage accessed) hop accessed fun _ => nofun
    refine ⟨m, true, ?_, hkeeps, hI'⟩
    rw [Op.exec, pagedirSetAccessed,
      show setFlag PTE_A s.machine s.pd vpage accessed = .ok m from hset]
    rfl

lemma Client.Inv.get (hI : s.Inv) {uaddr : ℕ} (hu : uaddr < PHYS_BASE) :
    pagedirGetPage s.machine s.pd uaddr =
      .ok ((s.map (pgRoundDown uaddr)).map (· + pgOfs uaddr)) := by
  have huser : isUserVaddr uaddr = true := decide_eq_true hu
  have hofs : pgOfs (pgRoundDown uaddr) = 0 := by
    simp only [pgOfs, pgRoundDown, PGSIZE]
    omega
  have hround : pgRoundDown uaddr < PHYS_BASE := by
    rw [pgRoundDown]
    omega
  -- the address and its page have the same entry
  have hpd : pdNo (pgRoundDown uaddr) = pdNo uaddr := by
    simp only [pdNo, pgRoundDown, pgOfs, PGSIZE]
    omega
  have hpt : ptNo (pgRoundDown uaddr) = ptNo uaddr := by
    simp only [ptNo, pgRoundDown, pgOfs, PGSIZE]
    omega
  have hmap := hI.map _ hround hofs
  have hframe := hI.frame (pgRoundDown uaddr)
  rw [hI.tree.pagedirGetPage_view hu, Pintos.pagedirGetPage, ASSERT_of huser, ok_bind,
    Pintos.lookupPage, ASSERT_of (.inl rfl), ok_bind]
  cases htable : (s.machine.view s.pd).pt (pdNo uaddr) with
  | none =>
    rw [maps_of_none (hpd ▸ htable)] at hmap
    rw [hmap]
    rfl
  | some pt =>
    rw [maps_eq hofs (hpd ▸ htable), hpt, pteMapping] at hmap
    dsimp only
    rw [pure_eq_ok, ok_bind]
    dsimp only
    by_cases hp : pt (ptNo uaddr) &&& PTE_P ≠ 0#32
    · rw [if_pos hp, map_some] at hmap
      have hlt := hframe _ hmap
      rw [PHYS_BASE] at hlt
      rw [if_pos hp, pteGetPage, ptov, ASSERT_of (by rw [PHYS_BASE]; omega), ok_bind,
        pure_eq_ok, ok_bind, hmap, u32_of_lt (by rw [PHYS_BASE]; omega),
        Nat.add_comm _ PHYS_BASE]
      rfl
    · rw [if_neg hp, map_none] at hmap
      rw [if_neg hp, hmap]
      rfl

end Client

variable {mem : ℕ → BitVec 32} {ram startText endText dir : ℕ} {pages : ℕ → ℕ} {m₀ : Machine}

lemma Client.Inv.create (hram : ram ≤ 2 ^ 18)
    (hboot : pagingInit mem ram startText endText dir pages = .ok m₀)
    (hnew : pagedirCreate m₀ page = (m, some pd)) : Client.Inv ⟨m, pd, fun _ => none⟩ := by
  obtain ⟨htree0, huser⟩ := pagingInit_tree hram hboot
  obtain ⟨htree, hne, hview⟩ := pagedirCreate_tree htree0 hnew
  refine ⟨htree, hne, fun u hu hofs => ?_, nofun⟩
  have hnone : (m.view pd).pt (pdNo u) = none := by
    rw [hview]
    refine Machine.view_pt_none (huser _ ?_)
    simp only [pdNo, PHYS_BASE, PGSIZE] at hu ⊢
    omega
  rw [maps_of_none hnone, map_none]

/-- **A page directory refines a finite map**, that of the frames set and not cleared since. -/
theorem pagedir_refines {s : Client} (hram : ram ≤ 2 ^ 18)
    (hboot : pagingInit mem ram startText endText dir pages = .ok m₀)
    (hnew : pagedirCreate m₀ page = (m, some pd))
    (hr : Client.Reaches ⟨m, pd, fun _ => none⟩ s) : s.Agrees := by
  have hI : s.Inv := by
    refine hr.invariant Client.Inv ?_ (Client.Inv.create hram hboot hnew)
    intro s _ _ hI hstep _
    obtain ⟨hop, hexec⟩ := hstep
    obtain ⟨m, r, hexec', -, hI'⟩ := hI.exec hop
    obtain ⟨rfl, rfl⟩ := Prod.mk.inj (Except.ok.inj (hexec.symm.trans hexec'))
    exact hI'
  refine ⟨fun uaddr hu => hI.get hu, fun op hop => ?_⟩
  obtain ⟨m', r, hexec, hkeeps, -⟩ := hI.exec hop
  exact ⟨m', r, hexec, hkeeps⟩

theorem pagedir_refines_eight : ∃ m₀ m s,
    pagingInit (fun _ => 0#32) 8 0 0 0xc0001000 (fun _ => 0xc0002000) = .ok m₀ ∧
      pagedirCreate m₀ 0xc0003000 = (m, some 0xc0003000) ∧
      Client.Reaches ⟨m, 0xc0003000, fun _ => none⟩ s ∧
      s.map = Function.update (fun _ => none) 0x8048000 (some 0xc0005000) ∧ s.Agrees := by
  have htest : (do
      let m₀ ← pagingInit (fun _ => 0#32) 8 0 0 0xc0001000 (fun _ => 0xc0002000)
      let m := pagedirCreate m₀ 0xc0003000
      let s ← (Op.setPage 0x8048000 0xc0005000 true 0xc0004000).exec m.1 0xc0003000
      return decide (m.2 = some 0xc0003000 ∧ m.1.initRamPages = 8 ∧ s.2 = true)) =
        Except.ok true := by
    decide +kernel
  obtain ⟨m₀, hboot, htest⟩ := Kernel.bind_eq_ok.mp htest
  obtain ⟨⟨_, r⟩, hexec, htest⟩ := Kernel.bind_eq_ok.mp htest
  obtain ⟨hpd, hram, rfl⟩ := of_decide_eq_true (Except.ok.inj htest)
  have hnew : pagedirCreate m₀ 0xc0003000 = ((pagedirCreate m₀ 0xc0003000).1, some 0xc0003000) :=
    Prod.ext rfl hpd
  have hlegal : (Op.setPage 0x8048000 0xc0005000 true 0xc0004000).Legal
      ⟨(pagedirCreate m₀ 0xc0003000).1, 0xc0003000, fun _ => none⟩ := by
    refine ⟨rfl, by decide, rfl, rfl, by decide, by decide, ?_⟩
    dsimp only
    rw [hram]
    decide
  have hr : Client.Reaches ⟨(pagedirCreate m₀ 0xc0003000).1, 0xc0003000, fun _ => none⟩ _ :=
    Base.Reaches.refl.step (.call hlegal hexec) trivial
  exact ⟨m₀, _, _, hboot, hnew, hr, rfl, pagedir_refines (by decide) hboot hnew hr⟩

end Pintos.PageTables
