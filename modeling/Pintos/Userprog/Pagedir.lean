/-
# Page directories

`userprog/pagedir.c` over the words of `threads/pte.h`.  A page directory has a page table for each
group of `2^10` pages, or none; an entry is a 32-bit word of a physical address and flags.  Whether
`palloc_get_page` has a page for a new page table is an argument.

`Pagedir.maps` is what the processor sees: the frame and the write permission of a page that is
present, without the accessed and dirty flags.
-/

import Pintos.Threads.Vaddr

namespace Pintos

open Base Function Kernel

def PTE_ADDR : BitVec 32 := 0xfffff000#32

def PTE_P : BitVec 32 := 0x1#32

def PTE_W : BitVec 32 := 0x2#32

def PTE_U : BitVec 32 := 0x4#32

def PTE_A : BitVec 32 := 0x20#32

def PTE_D : BitVec 32 := 0x40#32

def ptNo (va : ℕ) : ℕ := va / PGSIZE % 1024

def pdNo (va : ℕ) : ℕ := va / PGSIZE / 1024

def pteCreateKernel (page : ℕ) (writable : Bool) : Kernel (BitVec 32) := do
  ASSERT (pgOfs page = 0)
  let paddr ← vtop page
  return BitVec.ofNat 32 paddr ||| PTE_P ||| (if writable then PTE_W else 0#32)

def pteCreateUser (page : ℕ) (writable : Bool) : Kernel (BitVec 32) := do
  let pte ← pteCreateKernel page writable
  return pte ||| PTE_U

def pteGetPage (pte : BitVec 32) : Kernel ℕ := ptov (pte &&& PTE_ADDR).toNat

structure Pagedir where
  pt : ℕ → Option (ℕ → BitVec 32)

def Pagedir.empty : Pagedir := ⟨fun _ => none⟩

/-- The entry for `vaddr`, if there is a page table, or `create` and `alloc` say so. -/
def lookupPage (pd : Pagedir) (vaddr : ℕ) (create alloc : Bool) :
    Kernel (Pagedir × Option (BitVec 32)) := do
  ASSERT (create = false ∨ isUserVaddr vaddr = true)
  match pd.pt (pdNo vaddr) with
  | some pt => return (pd, some (pt (ptNo vaddr)))
  | none =>
    if create && alloc then
      return (⟨update pd.pt (pdNo vaddr) (some fun _ => 0#32)⟩, some 0#32)
    else
      return (pd, none)

def Pagedir.store (pd : Pagedir) (vaddr : ℕ) (pte : BitVec 32) : Pagedir :=
  ⟨update pd.pt (pdNo vaddr)
    ((pd.pt (pdNo vaddr)).map fun pt => update pt (ptNo vaddr) pte)⟩

/-- Maps `upage` to the frame at `kpage`; false without memory for a page table. -/
def pagedirSetPage (pd : Pagedir) (upage kpage : ℕ) (writable : Bool) (initRamPages : ℕ)
    (alloc : Bool) : Kernel (Pagedir × Bool) := do
  ASSERT (pgOfs upage = 0)
  ASSERT (pgOfs kpage = 0)
  ASSERT (isUserVaddr upage = true)
  let paddr ← vtop kpage
  ASSERT (paddr / PGSIZE < initRamPages)
  match ← lookupPage pd upage true alloc with
  | (pd, some pte) =>
    ASSERT (pte &&& PTE_P = 0#32)
    let pte ← pteCreateUser kpage writable
    return (pd.store upage pte, true)
  | (pd, none) => return (pd, false)

def pagedirGetPage (pd : Pagedir) (uaddr : ℕ) : Kernel (Option ℕ) := do
  ASSERT (isUserVaddr uaddr = true)
  match ← lookupPage pd uaddr false false with
  | (_, some pte) =>
    if pte &&& PTE_P ≠ 0#32 then
      return some ((← pteGetPage pte) + pgOfs uaddr)
    else
      return none
  | (_, none) => return none

def pagedirClearPage (pd : Pagedir) (upage : ℕ) : Kernel Pagedir := do
  ASSERT (pgOfs upage = 0)
  ASSERT (isUserVaddr upage = true)
  match ← lookupPage pd upage false false with
  | (pd, some pte) =>
    if pte &&& PTE_P ≠ 0#32 then return pd.store upage (pte &&& ~~~PTE_P) else return pd
  | (pd, none) => return pd

def Pagedir.hasFlag (pd : Pagedir) (flag : BitVec 32) (vpage : ℕ) : Bool :=
  match pd.pt (pdNo vpage) with
  | some pt => decide (pt (ptNo vpage) &&& flag ≠ 0#32)
  | none => false

def Pagedir.setFlag (pd : Pagedir) (flag : BitVec 32) (vpage : ℕ) (value : Bool) : Pagedir :=
  match pd.pt (pdNo vpage) with
  | some pt =>
    pd.store vpage
      (if value then pt (ptNo vpage) ||| flag else pt (ptNo vpage) &&& ~~~flag)
  | none => pd

def pagedirIsDirty (pd : Pagedir) (vpage : ℕ) : Bool := pd.hasFlag PTE_D vpage

def pagedirSetDirty (pd : Pagedir) (vpage : ℕ) (dirty : Bool) : Pagedir :=
  pd.setFlag PTE_D vpage dirty

def pagedirIsAccessed (pd : Pagedir) (vpage : ℕ) : Bool := pd.hasFlag PTE_A vpage

def pagedirSetAccessed (pd : Pagedir) (vpage : ℕ) (accessed : Bool) : Pagedir :=
  pd.setFlag PTE_A vpage accessed

/-! ### What the processor sees -/

def pteMapping (pte : BitVec 32) : Option (ℕ × Bool) :=
  if pte &&& PTE_P ≠ 0#32 then
    some (PHYS_BASE + (pte &&& PTE_ADDR).toNat, decide (pte &&& PTE_W ≠ 0#32))
  else none

def Pagedir.maps (pd : Pagedir) (upage : ℕ) : Option (ℕ × Bool) :=
  if pgOfs upage = 0 then (pd.pt (pdNo upage)).bind fun pt => pteMapping (pt (ptNo upage))
  else none

/-! ### Flags -/

variable {x f flag m : BitVec 32} {pt : ℕ → BitVec 32} {r : Bool}

lemma or_and_of_disjoint (h : f &&& m = 0#32) : (x ||| f) &&& m = x &&& m := by
  rw [BitVec.and_or_distrib_right, h, BitVec.or_zero]

lemma and_not_and_of_disjoint (h : ~~~f &&& m = m) : x &&& ~~~f &&& m = x &&& m := by
  rw [BitVec.and_assoc, h]

lemma pteMapping_congr {y : BitVec 32} (hp : x &&& PTE_P = y &&& PTE_P)
    (hw : x &&& PTE_W = y &&& PTE_W) (ha : x &&& PTE_ADDR = y &&& PTE_ADDR) :
    pteMapping x = pteMapping y := by
  simp only [pteMapping, hp, hw, ha]

lemma PTE_ADDR_getLsbD (i : Fin 32) : PTE_ADDR.getLsbD i = decide (12 ≤ i.val) := by
  revert i
  decide

lemma ofNat_and_PTE_ADDR {paddr : ℕ} (h : paddr % PGSIZE = 0) :
    BitVec.ofNat 32 paddr &&& PTE_ADDR = BitVec.ofNat 32 paddr := by
  refine BitVec.eq_of_getLsbD_eq fun i hi => ?_
  rw [BitVec.getLsbD_and, PTE_ADDR_getLsbD ⟨i, hi⟩, BitVec.getLsbD_ofNat]
  by_cases h12 : 12 ≤ i
  · simp [h12]
  · -- the low bits of an aligned address are clear
    have hlow := Nat.testBit_mod_two_pow paddr 12 i
    rw [show 2 ^ 12 = PGSIZE from rfl, h, decide_eq_true (by omega : i < 12)] at hlow
    simp only [Nat.zero_testBit, Bool.true_and] at hlow
    simp [← hlow]

lemma pteMapping_or {a : BitVec 32} (ha : a &&& PTE_ADDR = a) (hf : f &&& PTE_ADDR = 0#32)
    (hp : f &&& PTE_P ≠ 0#32) :
    pteMapping (a ||| f) = some (PHYS_BASE + a.toNat, decide (f &&& PTE_W ≠ 0#32)) := by
  have hmask : ∀ m : BitVec 32, PTE_ADDR &&& m = 0#32 → (a ||| f) &&& m = f &&& m := by
    intro m hm
    have hz : a &&& m = 0#32 := by rw [← ha, BitVec.and_assoc, hm, BitVec.and_zero]
    rw [BitVec.and_or_distrib_right, hz, BitVec.zero_or]
  have haddr : (a ||| f) &&& PTE_ADDR = a := by
    rw [BitVec.and_or_distrib_right, ha, hf, BitVec.or_zero]
  rw [pteMapping, hmask PTE_P (by decide), hmask PTE_W (by decide), haddr, if_pos hp]

lemma pteCreateUser_mapping {page : ℕ} {writable : Bool} {pte : BitVec 32}
    (h : pteCreateUser page writable = .ok pte) :
    pteMapping pte = some (PHYS_BASE + (page - PHYS_BASE) % 2 ^ 32, writable) := by
  obtain ⟨_, hk, h⟩ := bind_eq_ok.1 h
  obtain ⟨_, hofs, hk⟩ := bind_eq_ok.1 hk
  obtain ⟨_, hv, hk⟩ := bind_eq_ok.1 hk
  obtain ⟨_, hkern, hv⟩ := bind_eq_ok.1 hv
  obtain rfl := Except.ok.inj hv
  cases hk
  cases h
  have hmod : (page - PHYS_BASE) % PGSIZE = 0 := by
    have hpg := ASSERT_eq_ok.1 hofs
    have hle := ASSERT_eq_ok.1 hkern
    simp only [isKernelVaddr, pgOfs, PGSIZE, PHYS_BASE] at hpg hle ⊢
    omega
  rw [BitVec.or_assoc, BitVec.or_assoc,
    pteMapping_or (ofNat_and_PTE_ADDR hmod) (by cases writable <;> decide)
      (by cases writable <;> decide), BitVec.toNat_ofNat]
  cases writable <;> rfl

lemma pteMapping_zero : pteMapping 0#32 = none := by
  rw [pteMapping, BitVec.zero_and, if_neg (by simp)]

/-! ### Entries -/

def Pagedir.entry (pd : Pagedir) (v : ℕ) : BitVec 32 :=
  match pd.pt (pdNo v) with
  | some pt => pt (ptNo v)
  | none => 0#32

variable {pd pd' : Pagedir} {upage kpage initRamPages u v : ℕ} {writable alloc : Bool}

lemma Pagedir.entry_eq (hpt : pd.pt (pdNo v) = some pt) : pd.entry v = pt (ptNo v) := by
  rw [entry, hpt]

lemma Pagedir.entry_of_none (hpt : pd.pt (pdNo v) = none) : pd.entry v = 0#32 := by
  rw [entry, hpt]

lemma Pagedir.entry_congr (h : pgNo u = pgNo v) : pd.entry u = pd.entry v := by
  simp only [entry, pdNo, ptNo, pgNo] at h ⊢
  rw [h]

lemma Pagedir.hasFlag_eq (flag : BitVec 32) (v : ℕ) :
    pd.hasFlag flag v = decide (pd.entry v &&& flag ≠ 0#32) := by
  cases hpt : pd.pt (pdNo v) with
  | none | some => simp [hasFlag, entry, hpt]

lemma Pagedir.entry_store_self (hpt : pd.pt (pdNo v) = some pt) (pte : BitVec 32) :
    (pd.store v pte).entry v = pte := by
  have hv : (pd.store v pte).pt (pdNo v) = some (update pt (ptNo v) pte) := by
    rw [store, hpt]
    exact update_self ..
  rw [entry_eq hv, update_self]

lemma Pagedir.entry_store_of_ne (hne : pgNo u ≠ pgNo v) (pte : BitVec 32) :
    (pd.store v pte).entry u = pd.entry u := by
  by_cases hd : pdNo u = pdNo v
  · have ht : ptNo u ≠ ptNo v := by
      simp only [pgNo, pdNo, ptNo, PGSIZE] at *
      omega
    have hu : (pd.store v pte).pt (pdNo u) =
        (pd.pt (pdNo u)).map fun pt => update pt (ptNo v) pte := by
      rw [hd]
      exact update_self ..
    cases hpt : pd.pt (pdNo u) with
    | none => rw [entry_of_none hpt, entry_of_none (hu.trans (by rw [hpt, Option.map_none]))]
    | some =>
      rw [hpt, Option.map_some] at hu
      rw [entry_eq hu, entry_eq hpt, update_of_ne ht]
  · have hsame : (pd.store v pte).pt (pdNo u) = pd.pt (pdNo u) := update_of_ne hd ..
    rw [entry, hsame, entry]

lemma Pagedir.entry_newTable (hpt : pd.pt (pdNo v) = none) (u : ℕ) :
    Pagedir.entry ⟨update pd.pt (pdNo v) (some fun _ => 0#32)⟩ u = pd.entry u := by
  by_cases hd : pdNo u = pdNo v
  · have hnone : pd.pt (pdNo u) = none := hd ▸ hpt
    rw [entry_of_none hnone, entry]
    dsimp only
    rw [hd, update_self]
  · rw [entry, entry]
    dsimp only
    rw [update_of_ne hd]

lemma Pagedir.entry_setFlag_of_ne (hne : pgNo u ≠ pgNo v) (flag : BitVec 32)
    (value : Bool) : (pd.setFlag flag v value).entry u = pd.entry u := by
  unfold setFlag
  split
  · exact entry_store_of_ne hne _
  · rfl

lemma Pagedir.entry_setFlag_and {mask : BitVec 32}
    (h : flag &&& mask = 0#32 ∧ ~~~flag &&& mask = mask) (v : ℕ) (value : Bool) :
    (pd.setFlag flag v value).entry v &&& mask = pd.entry v &&& mask := by
  cases hpt : pd.pt (pdNo v) with
  | none => rw [setFlag, hpt]
  | some =>
    rw [setFlag, hpt]
    dsimp only
    rw [entry_store_self hpt, entry_eq hpt]
    cases value with
    | false => exact and_not_and_of_disjoint h.2
    | true => exact or_and_of_disjoint h.1

lemma Pagedir.hasFlag_clear_self (flag : BitVec 32) (v : ℕ) :
    (pd.setFlag flag v false).hasFlag flag v = false := by
  have hand : ∀ x : BitVec 32, x &&& ~~~flag &&& flag = 0#32 := by
    intro x
    ext i hi
    simp
  cases hpt : pd.pt (pdNo v) with
  | none => rw [setFlag, hpt, hasFlag, hpt]
  | some =>
    rw [setFlag, hpt, hasFlag_eq, entry_store_self hpt, decide_eq_false_iff_not]
    exact fun hne => hne (hand _)

lemma Pagedir.hasFlag_of_clear (h : (pd.setFlag flag v false).hasFlag flag u = true) :
    pd.hasFlag flag u = true := by
  by_cases hpage : pgNo u = pgNo v
  · -- The same entry: it has the flag no longer.
    rw [hasFlag_eq, entry_congr hpage, ← hasFlag_eq, hasFlag_clear_self] at h
    cases h
  · rwa [hasFlag_eq, entry_setFlag_of_ne hpage, ← hasFlag_eq] at h

lemma lookupPage_eq_ok {create : Bool} {slot : Option (BitVec 32)}
    (h : lookupPage pd v create alloc = .ok (pd', slot)) :
    (∀ u, pd'.entry u = pd.entry u) ∧ ((slot = none ∧ pd' = pd ∧ pd.pt (pdNo v) = none) ∨
        ∃ pt, pd'.pt (pdNo v) = some pt ∧ slot = some (pt (ptNo v))) := by
  obtain ⟨_, _, h⟩ := bind_eq_ok.1 h
  split at h
  · rename_i pt hpt
    cases h
    exact ⟨fun _ => rfl, .inr ⟨pt, hpt, rfl⟩⟩
  · rename_i hpt
    split_ifs at h
    · cases h
      exact ⟨Pagedir.entry_newTable hpt, .inr ⟨_, update_self .., rfl⟩⟩
    · cases h
      exact ⟨fun _ => rfl, .inl ⟨rfl, rfl, hpt⟩⟩

lemma pagedirSetPage_entry
    (h : pagedirSetPage pd upage kpage writable initRamPages alloc = .ok (pd', r))
    (hne : pgNo u ≠ pgNo upage) : pd'.entry u = pd.entry u := by
  simp only [pagedirSetPage, bind_eq_ok, ASSERT_eq_ok] at h
  obtain ⟨_, _, _, _, _, _, _, _, _, _, ⟨_, slot⟩, hlookup, h⟩ := h
  obtain ⟨hentry, -⟩ := lookupPage_eq_ok hlookup
  cases slot with
  | none =>
    obtain ⟨rfl, -⟩ := ok_mk_inj h
    exact hentry u
  | some =>
    simp only [bind_eq_ok, ASSERT_eq_ok] at h
    obtain ⟨_, _, _, _, h⟩ := h
    obtain ⟨rfl, -⟩ := ok_mk_inj h
    exact (Pagedir.entry_store_of_ne hne _).trans (hentry u)

lemma pagedirClearPage_entry (h : pagedirClearPage pd upage = .ok pd') :
    (∀ u, pgNo u ≠ pgNo upage → pd'.entry u = pd.entry u) ∧ pd'.entry upage &&& PTE_P = 0#32 ∧
      ∀ mask, ~~~PTE_P &&& mask = mask → pd'.entry upage &&& mask = pd.entry upage &&& mask := by
  simp only [pagedirClearPage, bind_eq_ok, ASSERT_eq_ok] at h
  obtain ⟨_, _, _, _, ⟨_, _⟩, hlookup, h⟩ := h
  obtain ⟨hentry, ⟨rfl, rfl, hnone⟩ | ⟨_, hpt, rfl⟩⟩ := lookupPage_eq_ok hlookup
  · cases h
    refine ⟨fun _ _ => rfl, ?_, fun _ _ => rfl⟩
    rw [Pagedir.entry_of_none hnone, BitVec.zero_and]
  · dsimp only at h
    rw [← Pagedir.entry_eq hpt] at h
    split_ifs at h with hp
    · cases h
      refine ⟨fun u hne => (Pagedir.entry_store_of_ne hne _).trans (hentry u), ?_,
        fun mask hmask => ?_⟩
      · rw [Pagedir.entry_store_self hpt, BitVec.and_assoc,
          show ~~~PTE_P &&& PTE_P = 0#32 by decide, BitVec.and_zero]
      · rw [Pagedir.entry_store_self hpt, ← hentry]
        exact and_not_and_of_disjoint hmask
    · cases h
      exact ⟨fun u _ => hentry u, not_not.1 hp, fun _ _ => by rw [hentry]⟩

/-! ### The operations on what the processor sees -/

lemma Pagedir.maps_eq_entry (u : ℕ) :
    pd.maps u = if pgOfs u = 0 then pteMapping (pd.entry u) else none := by
  cases hpt : pd.pt (pdNo u) with
  | none => rw [maps, hpt, Option.bind_none, entry_of_none hpt, pteMapping_zero]
  | some => rw [maps, hpt, Option.bind_some, entry_eq hpt]

lemma Pagedir.maps_eq (hofs : pgOfs u = 0) (hpt : pd.pt (pdNo u) = some pt) :
    pd.maps u = pteMapping (pt (ptNo u)) := by
  rw [maps_eq_entry, if_pos hofs, entry_eq hpt]

lemma Pagedir.maps_of_none (hpt : pd.pt (pdNo u) = none) : pd.maps u = none := by
  rw [maps_eq_entry, entry_of_none hpt, pteMapping_zero, ite_self]

lemma Pagedir.maps_of_ne (hofs : pgOfs v = 0)
    (h : ∀ u, pgNo u ≠ pgNo v → pd'.entry u = pd.entry u) (hne : u ≠ v) :
    pd'.maps u = pd.maps u := by
  rw [maps_eq_entry, maps_eq_entry]
  refine ite_congr rfl (fun hu => ?_) fun _ => rfl
  rw [h u]
  simp only [pgOfs, pgNo, PGSIZE] at hofs hu ⊢
  omega

lemma Pagedir.maps_setFlag (hp : flag &&& PTE_P = 0#32 ∧ ~~~flag &&& PTE_P = PTE_P)
    (hw : flag &&& PTE_W = 0#32 ∧ ~~~flag &&& PTE_W = PTE_W)
    (ha : flag &&& PTE_ADDR = 0#32 ∧ ~~~flag &&& PTE_ADDR = PTE_ADDR) (v : ℕ) (value : Bool)
    (u : ℕ) : (pd.setFlag flag v value).maps u = pd.maps u := by
  rw [maps_eq_entry, maps_eq_entry]
  refine ite_congr rfl (fun _ => ?_) fun _ => rfl
  by_cases hpage : pgNo u = pgNo v
  · rw [entry_congr hpage, entry_congr hpage]
    exact pteMapping_congr (entry_setFlag_and hp ..) (entry_setFlag_and hw ..)
      (entry_setFlag_and ha ..)
  · rw [entry_setFlag_of_ne hpage]

@[simp] lemma maps_pagedirSetDirty (v : ℕ) (dirty : Bool) (u : ℕ) :
    (pagedirSetDirty pd v dirty).maps u = pd.maps u :=
  Pagedir.maps_setFlag (by decide) (by decide) (by decide) v dirty u

@[simp] lemma maps_pagedirSetAccessed (v : ℕ) (accessed : Bool) (u : ℕ) :
    (pagedirSetAccessed pd v accessed).maps u = pd.maps u :=
  Pagedir.maps_setFlag (by decide) (by decide) (by decide) v accessed u

@[simp] lemma Pagedir.maps_empty (u : ℕ) : Pagedir.empty.maps u = none := maps_of_none rfl

/-- **Setting a page** that returns true maps a page that was not; otherwise nothing changes. -/
theorem pagedirSetPage_eq_ok
    (h : pagedirSetPage pd upage kpage writable initRamPages alloc = .ok (pd', r)) :
    pgOfs upage = 0 ∧ upage < PHYS_BASE ∧
      if r then
        pd.maps upage = none ∧ ∀ u, pd'.maps u =
          if u = upage then some (PHYS_BASE + (kpage - PHYS_BASE) % 2 ^ 32, writable)
          else pd.maps u
      else pd' = pd := by
  have hother := fun {u} => pagedirSetPage_entry h (u := u)
  simp only [pagedirSetPage, bind_eq_ok, ASSERT_eq_ok] at h
  obtain ⟨_, hofs, _, _, _, huser, _, _, _, _, ⟨_, _⟩, hlookup, h⟩ := h
  refine ⟨hofs, by simpa [isUserVaddr] using huser, ?_⟩
  obtain ⟨hentry, ⟨rfl, rfl, _⟩ | ⟨_, hpt, rfl⟩⟩ := lookupPage_eq_ok hlookup
  · cases h
    simp
  · simp only [bind_eq_ok, ASSERT_eq_ok] at h
    obtain ⟨_, hnot, _, hpte, h⟩ := h
    cases h
    rw [← Pagedir.entry_eq hpt, hentry] at hnot
    rw [if_pos rfl]
    refine ⟨?_, fun u => ?_⟩
    · rw [Pagedir.maps_eq_entry, if_pos hofs, pteMapping, if_neg (not_not.2 hnot)]
    · split_ifs with hu
      · rw [hu, Pagedir.maps_eq_entry, if_pos hofs, Pagedir.entry_store_self hpt,
          pteCreateUser_mapping hpte]
      · exact Pagedir.maps_of_ne hofs (fun _ => hother) hu

lemma frame_roundtrip (hk : PHYS_BASE ≤ kpage) (hlt : kpage < 2 ^ 32) :
    PHYS_BASE + (kpage - PHYS_BASE) % 2 ^ 32 = kpage := by
  rw [Nat.mod_eq_of_lt (by omega)]
  omega

lemma pagedirClearPage_eq_ok (h : pagedirClearPage pd upage = .ok pd') :
    pgOfs upage = 0 ∧ ∀ u, pd'.maps u = if u = upage then none else pd.maps u := by
  obtain ⟨hother, hclear, -⟩ := pagedirClearPage_entry h
  obtain ⟨_, hofs, -⟩ := bind_eq_ok.1 h
  have hofs := ASSERT_eq_ok.1 hofs
  refine ⟨hofs, fun u => ?_⟩
  split_ifs with hu
  · rw [hu, Pagedir.maps_eq_entry, if_pos hofs, pteMapping, if_neg (not_not.2 hclear)]
  · exact Pagedir.maps_of_ne hofs hother hu

lemma pagedirClearPage_ok (pd : Pagedir) (hofs : pgOfs upage = 0) (huser : upage < PHYS_BASE) :
    ∃ pd', pagedirClearPage pd upage = .ok pd' := by
  have huser' : isUserVaddr upage = true := decide_eq_true huser
  unfold pagedirClearPage lookupPage
  rw [ASSERT_of hofs, ok_bind, ASSERT_of huser', ok_bind, ASSERT_of (.inl rfl), ok_bind]
  cases hpt : pd.pt (pdNo upage) with
  | none => exact ⟨pd, rfl⟩
  | some pt =>
    by_cases hp : pt (ptNo upage) &&& PTE_P ≠ 0#32
    · exact ⟨_, if_pos hp⟩
    · exact ⟨_, if_neg hp⟩

end Pintos
