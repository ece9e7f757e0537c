/-
# The calls of the file system

Each call keeps the invariant of the file system, whatever `malloc` does, and does what it is for
when no allocation fails.  Every action changes the root directory by a step of `RootStep` or not at
all.
-/

import Pintos.Filesys.Root

namespace Pintos.Filesys.FileSys

open Base Function DirEntry Owned

def Synced (s : FileSys) (P : Places) : Prop := SyncedAt s.fsDevice P.map s.freeMap

variable {s' s₁ : FileSys} {x : ℕ}

lemma Still.synced {s : FileSys} {P : Places} (hs : s.Still s') (h : s.Synced P) :
    s'.Synced P := by
  rw [Synced, hs.fsDevice, hs.freeMap]
  exact h

/-! ### The free map -/

section FreeMap

variable {P : Places} {s : FileSys} {owned : Owned} {held : List ℕ}

structure Remapped (P : Places) (owned : Owned) (held : List ℕ) (s s' : FileSys) : Prop
    extends Kept P owned ∅ s s', s.SameTables s' where
  inv : Inv P s' owned held

lemma Inv.allocate (hinv : Inv P s owned held) (cnt : ℕ) :
    (∃ x s', freeMapAllocate cnt s = .ok (some x, s') ∧ Remapped P owned held s s' ∧
        Grabs s.freeMap x cnt s'.freeMap ∧ s'.Synced P) ∨
      (∃ s', freeMapAllocate cnt s = .ok (none, s') ∧ Remapped P owned held s s' ∧
        (∀ j, s'.freeMap.bit j = s.freeMap.bit j) ∧
        (s.Lucky → s' = s ∧ ∀ j, j + cnt ≤ s.freeMap.bitCnt →
          ¬ s.freeMap.AllBits j cnt false)) := by
  have hheader : ∀ h d, owned h = some d → ¬ (mapInode P.map s.freeMap).Holds h :=
    fun h d ho => hinv.layout.not_holds_header hinv.mapFile.2 ho
  -- A map that is saved and marks what is owned.
  have hsaved : ∀ map b, map.bitCnt = s.freeMap.bitCnt →
      (∀ j, s.freeMap.bit j = true → map.bit j = true) →
      s.fsDevice.Agree b (mapInode P.map s.freeMap).Holds →
      Remapped P owned held s (s.saved map b) := by
    intro map b hcnt hbit ha
    have hkept := hinv.kept_saved hcnt ha
    have hc := hinv.toCore.saved hcnt (fun h x hu => hbit x (hinv.layout.marked hu)) ha hheader
    exact ⟨hkept, .saved s map b, hinv.of_kept hkept (fun _ hr => hr) hc (fun _ _ => rfl)
      fun _ _ _ => rfl⟩
  rcases freeMapAllocate_spec hinv.toCore hinv.mapFile cnt with
    ⟨x, map, b, hrun, hg, ha, hsync⟩ | ⟨map, b, hrun, hcnt, hbit, ha, hfail⟩ | ⟨hrun, hno⟩
  · exact .inl ⟨x, _, hrun, hsaved map b hg.bitCnt (fun j => hg.marked) ha, hg, hsync⟩
  · refine .inr ⟨_, hrun, hsaved map b hcnt (fun j hj => (hbit j).trans hj) ha, hbit, fun hl => ?_⟩
    rw [hl 0] at hfail
    cases hfail
  · exact .inr ⟨s, hrun, ⟨.refl s, .refl s, hinv⟩, fun _ => rfl, fun _ => ⟨rfl, hno⟩⟩

/-- **`free_map_release`** of sectors that are marked and nobody's. -/
theorem Inv.release (hinv : Inv P s owned held) (x cnt : ℕ) (hin : x + cnt ≤ s.freeMap.bitCnt)
    (hset : s.freeMap.AllBits x cnt true)
    (hfree : ∀ h y, owned.Uses h y → ¬ (x ≤ y ∧ y < x + cnt)) :
    ∃ s', freeMapRelease x cnt s = .ok ((), s') ∧ Remapped P owned held s s' ∧
      Drops s.freeMap x cnt s'.freeMap ∧ (s.Lucky → s'.Synced P) := by
  obtain ⟨map, b, hrun, hdrop, ha, hc, hsync⟩ :=
    freeMapRelease_spec hinv.toCore hinv.mapFile hin hset hfree
  have hkept := hinv.kept_saved hdrop.bitCnt ha
  exact ⟨_, hrun, ⟨hkept, .saved s map b, hinv.of_kept hkept (fun _ hr => hr) hc (fun _ _ => rfl)
    fun _ _ _ => rfl⟩, hdrop, fun hl => hsync (hl 0)⟩

end FreeMap

/-! ### Opening and closing the root directory -/

section Close

variable {P : Places} {s : FileSys} {owned : Owned} {held : List ℕ} {p h : ℕ} {i : Inode} {L : Prop}

lemma close_still (hinv : Inv P s owned (p :: held)) (hi : s.inodes p = some i)
    (hrem : i.removed = false) :
    (inodeClose (some p)).Sound (Quietly L P) s fun _ s' => s.Still s' ∧ Inv P s' owned held ∧
      ∀ q h, q ∈ held → s.At q h → s'.At q h := by
  rcases inodeDrop_spec hinv.toCore hi with ⟨_, hrun, hc, hs, hat, _⟩ | ⟨_, hrun, hc, hs, hat⟩
  · refine .atom_bind hrun hs.quietly ?_
    dsimp only
    rw [hrem, if_neg Bool.false_ne_true]
    exact .pure ⟨hs, hinv.still hs hc, hat⟩
  · refine .atom_bind hrun hs.quietly ?_
    exact .pure ⟨hs, hinv.still hs hc, fun q h _ => hat q h⟩

lemma Inv.disown (hinv : Inv P s owned held) (hle : 2 ≤ h)
    (hclosed : ∀ {q j}, s.inodes q = some j → j.sector ≠ h)
    (hname : ∀ k < ROOT_ENTRIES, (s.slot P k).inUse = true → (s.slot P k).inodeSector ≠ h) :
    Inv P s (update owned h none) held := by
  have hkept : Kept P owned ∅ s s := .refl s
  refine hinv.of_kept hkept (fun _ hr => hr) (hinv.toCore.disown hclosed) (fun h' hlt => ?_)
    fun k hk huse => ?_
  · exact update_of_ne (by omega) ..
  · exact update_of_ne (hname k hk huse) ..

lemma not_uses_disowned (hw : owned.Wf) (hu : owned.Uses h x) {h' : ℕ}
    (hu' : Owned.Uses (update owned h none) h' x) : False := by
  obtain ⟨d', ho', hx'⟩ := hu'
  obtain ⟨hne, ho'⟩ := update_none_cases ho'
  exact hne (hw.disjoint ⟨d', ho', hx'⟩ hu)

/-- **Closing a removed inode**: the last one frees its sectors. -/
theorem close_removed (hinv : Inv P s owned (p :: held)) (hi : s.inodes p = some i)
    (hrem : i.removed = true) :
    (inodeClose (some p)).Sound (Quietly L P) s fun _ s' => ∃ owned', owned'.Sub owned ∧
      Inv P s' owned' held ∧ Kept P owned' ∅ s s' ∧ (∀ q h, q ∈ held → s.At q h → s'.At q h) ∧
      (s.Lucky → s.Synced P → s'.Synced P) := by
  rcases inodeDrop_spec hinv.toCore hi with
    ⟨s₁, hrun, hc, hs, hat, hclosed⟩ | ⟨s₁, hrun, hc, hs, hat⟩
  swap
  · refine .atom_bind hrun hs.quietly ?_
    exact .pure ⟨owned, fun _ _ ho => ho, hinv.still hs hc, hs.kept, fun q h _ => hat q h,
      fun _ => hs.synced⟩
  refine .atom_bind hrun hs.quietly ?_
  dsimp only
  rw [if_pos hrem]
  have howned := hinv.opened.data hi
  have hl1 := (hinv.still hs hc).layout
  obtain ⟨_, _⟩ := hl1.extent howned
  have hcnt := hl1.bitCnt
  -- The inode has no name, so it can be given up before its sectors are released.
  have hinv1 : Inv P s₁ (update owned i.sector none) held := by
    refine (hinv.still hs hc).disown (hinv.opened.removed hi hrem) hclosed fun k hk huse heq => ?_
    have hslot : s₁.slot P k = s.slot P k := by rw [slot, slot, hs.fsDevice]
    rw [hslot] at huse heq
    exact (hinv.named k hk huse).2.2 ⟨p, i, hi, heq.symm, hrem⟩
  have hsub : Owned.Sub (update owned i.sector none) owned := update_none_sub
  obtain ⟨_, hrun2, hr2, hdrop2, _⟩ := hinv1.release i.sector 1 (by omega) (fun j h₁ h₂ => by
      obtain rfl : j = i.sector := by omega
      exact hl1.marked (uses_header howned))
    (fun h' y hu hy => by
      obtain rfl : y = i.sector := by omega
      exact not_uses_disowned hl1.toWf (uses_header howned) hu)
  refine .atom_bind hrun2 hr2.quietly ?_
  have hholds : ∀ {j}, i.data.start ≤ j → j < i.data.start + bytesToSectors i.data.length →
      owned.Uses i.sector j := fun h₁ h₂ => uses_data howned ⟨h₁, h₂⟩
  obtain ⟨_, hrun3, hr3, _, hsync3⟩ := hr2.inv.release i.data.start
    (bytesToSectors i.data.length) (by rw [hr2.bitCnt]; omega)
    (fun j h₁ h₂ => by
      have hne : j ≠ i.sector := by
        rintro rfl
        exact hl1.apart howned ⟨h₁, h₂⟩
      rw [hdrop2.bit, if_neg (by omega)]
      exact hl1.marked (hholds h₁ h₂))
    (fun h' y hu hy => not_uses_disowned hl1.toWf (hholds hy.1 hy.2) hu)
  refine .atom hrun3 hr3.quietly ⟨_, hsub, hr3.inv, ?_, ?_, fun hlucky _ => ?_⟩
  · exact hs.kept.trans (hr2.toKept.trans hr3.toKept)
  · exact fun q h hq ha => hr3.at (hr2.at (hat q h hq ha))
  · exact hsync3 (hr2.lucky (hs.lucky hlucky))

lemma close_sound (hinv : Inv P s owned (p :: held)) :
    (inodeClose (some p)).Sound (Quietly L P) s fun _ s' => ∃ owned', owned'.Sub owned ∧
      Inv P s' owned' held ∧ Kept P owned' ∅ s s' ∧ (∀ q h, q ∈ held → s.At q h → s'.At q h) ∧
      (s.Lucky → s.Synced P → s'.Synced P) := by
  obtain ⟨i, hi⟩ := hinv.held_some List.mem_cons_self
  cases hrem : i.removed with
  | true => exact close_removed hinv hi hrem
  | false =>
    refine (close_still hinv hi hrem).imp fun _ s' ⟨hs, hinv', hat⟩ => ?_
    exact ⟨owned, fun _ _ ho => ho, hinv', hs.kept, hat, fun _ => hs.synced⟩

lemma dirClose_sound (hinv : Inv P s owned (p :: held)) (hp : s.At p ROOT_DIR_SECTOR) :
    (dirClose (some p)).Sound (Quietly L P) s fun _ s' => s.Still s' ∧ Inv P s' owned held ∧
      ∀ q h, q ∈ held → s.At q h → s'.At q h := by
  obtain ⟨i, hi, hsector⟩ := hp
  have hrem : i.removed = false := by
    rw [Bool.eq_false_iff]
    intro hr
    have hle := hinv.opened.removed hi hr
    rw [hsector] at hle
    exact absurd hle (by decide)
  exact close_still hinv hi hrem

lemma dirOpenRoot_sound (hinv : Inv P s owned held) :
    dirOpenRoot.Sound (Quietly L P) s fun r s' => s.Still s' ∧ match r with
      | some p => Inv P s' owned (p :: held) ∧ s'.At p ROOT_DIR_SECTOR ∧ ∀ q h, s.At q h → s'.At q h
      | none => Inv P s' owned held ∧ ¬ s.Lucky := by
  rcases inodeOpen_spec hinv.toCore hinv.root with ⟨p, s₁, hrun, hc, hp, hs, hat⟩ | ⟨hrun, hfail⟩
  · refine .atom_bind hrun hs.quietly ?_
    have hinv1 := hinv.still hs hc
    have hmalloc : (.ok s₁.malloc : Kernel (Bool × FileSys)) = .ok (s₁.mallocs 0, s₁.tick) := rfl
    refine .atom_bind hmalloc (still_tick s₁).quietly ?_
    have hinv2 := hinv1.still (still_tick s₁) hc.tick
    cases hok : s₁.mallocs 0 with
    | true => exact .pure ⟨hs.trans (still_tick s₁), hinv2, hp, hat⟩
    | false =>
      refine .bind (dirClose_sound hinv2 hp) fun _ s3 ⟨hs3, hinv3, _⟩ => ?_
      refine .pure ⟨hs.trans ((still_tick s₁).trans hs3), hinv3, fun hl => ?_⟩
      rw [hs.lucky hl 0] at hok
      cases hok
  · refine .atom_bind hrun (still_tick s).quietly ?_
    have hmalloc : (.ok s.tick.malloc : Kernel (Bool × FileSys)) =
        .ok (s.tick.mallocs 0, s.tick.tick) := rfl
    refine .atom_bind hmalloc (still_tick s.tick).quietly ?_
    refine .pure ⟨(still_tick s).trans (still_tick s.tick), ?_, fun hl => ?_⟩
    · exact hinv.still ((still_tick s).trans (still_tick s.tick)) hinv.toCore.tick.tick
    · rw [hl 0] at hfail
      cases hfail

end Close

/-! ### New inodes -/

section Create

variable {P : Places} {s : FileSys} {owned : Owned} {held : List ℕ} {h x : ℕ} {L : Prop}
  {length : ℤ}

def NoRun (s : FileSys) (cnt : ℕ) : Prop :=
  ∀ j, j + cnt ≤ s.freeMap.bitCnt → ¬ s.freeMap.AllBits j cnt false

structure Spare (s : FileSys) (owned : Owned) (h : ℕ) : Prop where
  two_le : 2 ≤ h
  lt : h < s.fsDevice.size
  marked : s.freeMap.bit h = true
  free : ∀ h', ¬ owned.Uses h' h

lemma Inv.two_le (hinv : Inv P s owned held) (hx : s.freeMap.bit x = false) : 2 ≤ x := by
  have hmap := hinv.layout.marked (uses_header hinv.mapFile.2)
  have hroot := hinv.layout.marked (uses_header hinv.root)
  by_contra hlt
  obtain rfl | rfl : x = FREE_MAP_SECTOR ∨ x = ROOT_DIR_SECTOR := by
    simp only [FREE_MAP_SECTOR, ROOT_DIR_SECTOR]
    omega
  · exact absurd (hx.symm.trans hmap) Bool.false_ne_true
  · exact absurd (hx.symm.trans hroot) Bool.false_ne_true

lemma Inv.not_uses_of_free (hinv : Inv P s owned held) (hx : s.freeMap.bit x = false) (h : ℕ) :
    ¬ owned.Uses h x := by
  intro hu
  rw [hinv.layout.marked hu] at hx
  cases hx

lemma Inv.spare_of_grabs (hinv : Inv P s owned held) (hr : Remapped P owned held s s')
    (hg : Grabs s.freeMap x 1 s'.freeMap) : s'.Spare owned x := by
  have hfree : s.freeMap.bit x = false := hg.free x (le_refl _) (by omega)
  refine ⟨hinv.two_le hfree, ?_, ?_, hinv.not_uses_of_free hfree⟩
  · have hin := hg.inside
    rw [← hr.inv.layout.bitCnt, hr.bitCnt]
    omega
  · rw [hg.bit, if_pos (by omega)]

/-- A new inode in sector `h`: a file of zeros where sectors were free. -/
structure Created (P : Places) (owned : Owned) (held : List ℕ) (h : ℕ) (d : InodeDisk)
    (s s' : FileSys) : Prop extends Kept P owned ∅ s s', s.SameTables s' where
  inv : Inv P s' (update owned h (some d)) held
  grabs : Grabs s.freeMap d.start (bytesToSectors d.length) s'.freeMap
  zeros : Filesys.contents s'.fsDevice d = List.replicate d.length.toNat 0
  synced : s'.Synced P

section

variable (hinv : Inv P s owned held) (hh : s.Spare owned h) (h₁ : 0 ≤ length) (h₂ : length < 2 ^ 31)
include hinv hh h₁ h₂

/-- **The writes of `inode_create`** into a spare sector and a run that was free. -/
theorem Inv.fill (hr : Remapped P owned held s s₁)
    (hg : Grabs s.freeMap x (bytesToSectors length) s₁.freeMap) (hsync : s₁.Synced P) :
    ∃ s', inodeFill h ⟨x, length, INODE_MAGIC⟩ (bytesToSectors length) s₁ = .ok ((), s') ∧
      Kept P owned ∅ s₁ s' ∧ Created P owned held h ⟨x, length, INODE_MAGIC⟩ s s' := by
  have hfree : ∀ y, x ≤ y → y < x + bytesToSectors length → s.freeMap.bit y = false := hg.free
  have hapart : ¬ InodeDisk.Holds ⟨x, length, INODE_MAGIC⟩ h := by
    intro hx
    exact absurd ((hfree h hx.1 hx.2).symm.trans hh.marked) Bool.false_ne_true
  have hnobody : ∀ h' y, owned.Uses h' y →
      ¬ (y = h ∨ InodeDisk.Holds ⟨x, length, INODE_MAGIC⟩ y) := by
    rintro h' y hu (rfl | hy)
    · exact hh.free h' hu
    · exact hinv.not_uses_of_free (hfree y hy.1 hy.2) h' hu
  have hsize : s₁.fsDevice.size = s.fsDevice.size := by
    rw [← hr.inv.layout.bitCnt, ← hinv.layout.bitCnt, hr.bitCnt]
  obtain ⟨b, hfill, ha, hc, hzero⟩ := hr.inv.toCore.fill (d := ⟨x, length, INODE_MAGIC⟩) h₁ h₂ rfl
    (by rw [hsize]; exact hh.lt)
    (by rw [← hr.inv.layout.bitCnt, hr.bitCnt]; exact hg.inside) hapart
    (by
      rintro y (rfl | hy)
      · exact hg.marked hh.marked
      · rw [hg.bit, if_pos ⟨hy.1, hy.2⟩])
    hnobody
  have hkept : Kept P owned ∅ s₁ (s₁.setDevice b) :=
    hr.inv.kept_agree ha (fun h' y hu _ => hnobody h' y hu) ⟨rfl, rfl, rfl, rfl⟩ rfl rfl id
  refine ⟨s₁.setDevice b, hfill, hkept, hr.toKept.trans hkept, ?_, ?_, hg, hzero, ?_⟩
  · exact hr.toSameTables.trans ⟨rfl, rfl, rfl, rfl⟩
  · refine hr.inv.of_kept hkept (fun _ hrem => hrem) hc (fun h' hlt => ?_) fun k hk huse => ?_
    · exact update_of_ne (by have := hh.two_le; omega) ..
    · obtain ⟨_, ⟨d, hd⟩, _⟩ := hr.inv.named k hk huse
      refine update_of_ne ?_ ..
      rintro rfl
      exact hh.free _ (uses_header hd)
  · exact hsync.agree hr.inv.map ha fun y hy =>
      hnobody FREE_MAP_SECTOR y (uses_data hr.inv.mapFile.2 hy)

lemma inodeCreate_sound : (inodeCreate h length).Sound (Quietly L P) s fun r s' => match r with
      | true => ∃ d, d.length = length ∧ Created P owned held h d s s'
      | false => Remapped P owned held s s' ∧ (∀ j, s'.freeMap.bit j = s.freeMap.bit j) ∧
        (s.Lucky → s.Still s' ∧ s.NoRun (bytesToSectors length)) := by
  have hcalloc : inodeCalloc length s = .ok (s.mallocs 0, s.tick) := by
    rw [inodeCalloc, ASSERT_of h₁]
    rfl
  refine .atom_bind hcalloc (still_tick s).quietly ?_
  have htick : Remapped P owned held s s.tick :=
    ⟨(still_tick s).kept, ⟨rfl, rfl, rfl, rfl⟩, hinv.still (still_tick s) hinv.toCore.tick⟩
  cases hok : s.mallocs 0 with
  | false =>
    refine .pure ⟨htick, fun _ => rfl, fun hl => ?_⟩
    rw [hl 0] at hok
    cases hok
  | true =>
    rw [if_pos rfl]
    rcases htick.inv.allocate (bytesToSectors length) with
      ⟨x, s₁, hrun, hr, hg, hsync⟩ | ⟨s₁, hrun, hr, hbit, hluck⟩
    · have hh' : s.tick.Spare owned h := { hh with }
      obtain ⟨_, hfill, hkept, hnew⟩ := htick.inv.fill hh' h₁ h₂ hr hg hsync
      refine .atom_bind hrun hr.quietly (.atom_bind hfill hkept.quietly (.pure
        ⟨⟨x, length, INODE_MAGIC⟩, rfl, ?_⟩))
      exact { hnew with toKept := htick.toKept.trans hnew.toKept,
                        toSameTables := htick.toSameTables.trans hnew.toSameTables }
    · refine .atom_bind hrun hr.quietly (.pure ⟨?_, hbit, fun hl => ?_⟩)
      · exact ⟨htick.toKept.trans hr.toKept, htick.toSameTables.trans hr.toSameTables, hr.inv⟩
      · obtain ⟨rfl, hno⟩ := hluck hl.tick
        exact ⟨still_tick s, hno⟩

end

end Create

/-! ### Directory entries -/

section Entries

variable {P : Places} {s s' : FileSys} {owned : Owned} {held : List ℕ} {p h k : ℕ} {b : Block}
  {name : CString} {d : InodeDisk} {G : FileSys → FileSys → Prop} {L : Prop}

lemma Inv.not_root (hinv : Inv P s owned held) (ho : owned h = some d) (hne : h ≠ ROOT_DIR_SECTOR)
    (hx : d.Holds x) : ¬ (rootInode P.root).Holds x :=
  hinv.layout.not_holds_data ho hinv.root hne hx

section

variable (hinv : Inv P s owned held) (ha : s.fsDevice.Agree b (rootInode P.root).Holds)
include hinv ha

lemma Inv.kept_entry (hother : ∀ l ≠ k, slotBytes b P.root l = slotBytes s.fsDevice P.root l) :
    Kept P owned {k} s (s.tick.setDevice b) where
  entry := fun l _ hl => hother l hl
  contents := fun {h d} ho hh => by
    obtain ⟨h₁, h₂⟩ := hinv.layout.bounds ho
    refine contents_agree ha h₁ h₂ fun x hx => hinv.not_root ho ?_ hx
    simp only [ROOT_DIR_SECTOR]
    omega
  handle := rfl
  freeMapFile := rfl
  bitCnt := rfl
  lucky := .tick

lemma Inv.synced_entry (hs : s.Synced P) : (s.tick.setDevice b).Synced P :=
  SyncedAt.agree hs hinv.map ha fun _ hx => hinv.not_root hinv.mapFile.2 (by decide) hx

/-- **A write of entry `k`**, which is free or names an inode without a name. -/
theorem Inv.write_entry (hother : ∀ l ≠ k, slotBytes b P.root l = slotBytes s.fsDevice P.root l)
    (hnew : (slotAt b P.root k).inUse = true → 2 ≤ (slotAt b P.root k).inodeSector ∧
      (∃ d, owned (slotAt b P.root k).inodeSector = some d) ∧
      ¬ s.Removed (slotAt b P.root k).inodeSector ∧ ∀ l < ROOT_ENTRIES, (s.slot P l).inUse = true →
        (s.slot P l).inodeSector ≠ (slotAt b P.root k).inodeSector) :
    Inv P (s.tick.setDevice b) owned held := by
  have hc : (s.tick.setDevice b).Core owned held :=
    hinv.toCore.tick.setDevice ha fun _ _ ho => hinv.layout.not_holds_header hinv.root ho
  have hslot : ∀ l ≠ k, (s.tick.setDevice b).slot P l = s.slot P l :=
    fun l hl => congrArg decode (hother l hl)
  refine { hc with mapFile := hinv.mapFile, root := hinv.root, user := hinv.user, named := ?_,
                   distinct := ?_ }
  · intro l hl huse
    by_cases hlk : l = k
    · subst hlk
      obtain ⟨hle, hd, hrem, _⟩ := hnew huse
      exact ⟨hle, hd, hrem⟩
    · rw [hslot l hlk] at huse ⊢
      exact hinv.named l hl huse
  · intro l hl m hm hlu hmu heq
    by_cases hlk : l = k
    · by_cases hmk : m = k
      · rw [hlk, hmk]
      · subst hlk
        rw [hslot m hmk] at hmu heq
        exact absurd heq.symm ((hnew hlu).2.2.2 m hm hmu)
    · by_cases hmk : m = k
      · subst hmk
        rw [hslot l hlk] at hlu heq
        exact absurd heq ((hnew hmu).2.2.2 l hl hlu)
      · rw [hslot l hlk] at hlu heq
        rw [hslot m hmk] at hmu heq
        exact hinv.distinct l hl m hm hlu hmu heq

end

structure Entered (P : Places) (owned : Owned) (held : List ℕ) (k : ℕ) (name : CString) (h : ℕ)
    (s s' : FileSys) : Prop extends Kept P owned {k} s s', s.SameTables s' where
  lt : k < ROOT_ENTRIES
  inUse : (s'.slot P k).inUse = true
  hasName : (s'.slot P k).hasName name = true
  sector : (s'.slot P k).inodeSector = h
  inv : Inv P s' owned held
  freeMap : s'.freeMap = s.freeMap
  synced : s.Synced P → s'.Synced P

lemma OnlyRead.entered (hread : s.OnlyRead s₁) (he : Entered P owned held k name h s₁ s') :
    Entered P owned held k name h s s' :=
  { he with
    toKept := hread.kept.trans he.toKept
    toSameTables := hread.toSameTables.trans he.toSameTables
    freeMap := he.freeMap.trans hread.freeMap
    synced := fun hs => he.synced (hread.synced hs) }

lemma OnlyRead.inv (hread : s.OnlyRead s') (hinv : Inv P s owned held) : Inv P s' owned held :=
  hinv.still hread.toStill (hread.core hinv.toCore)

/-- **The second half of `dir_add`**, for an inode that has no name yet. -/
theorem dirAddSlot_sound (hinv : Inv P s owned held) (hp : s.At p ROOT_DIR_SECTOR)
    (hname : name.bytes.length ≤ NAME_MAX) (hle : 2 ≤ h) (ho : owned h = some d)
    (hrem : ¬ s.Removed h)
    (hfresh : ∀ l < ROOT_ENTRIES, (s.slot P l).inUse = true → (s.slot P l).inodeSector ≠ h)
    (hG : ∀ s s', s.Still s' → G s s')
    (hadd : ∀ k s₁ s2, s.OnlyRead s₁ → Entered P owned held k name h s₁ s2 →
      (s.Lucky → (s.slot P k).inUse = false) → G s₁ s2) :
    (dirAddSlot p name h).Sound G s fun r s' => match r with
      | true => ∃ k, Entered P owned held k name h s s' ∧ (s.Lucky → (s.slot P k).inUse = false)
      | false => s.OnlyRead s' ∧ (s.Lucky → ∀ l < ROOT_ENTRIES, (s.slot P l).inUse = true) := by
  have hstack : (fun s : FileSys => (.ok (bytesAt s.stack 0 DIR_ENTRY_SIZE, s) :
      Kernel (List (BitVec 8) × FileSys))) s = .ok (bytesAt s.stack 0 DIR_ENTRY_SIZE, s) := rfl
  refine .atom_bind hstack (hG _ _ (Still.refl s)) ?_
  refine .bind (slot_sound hinv.toCore hp hinv.root (length_bytesAt ..) hG)
    fun ⟨ofs, e⟩ s₁ ⟨hread, he, k, hk, hofs, hfree⟩ => ?_
  dsimp only at he hofs ⊢
  subst hofs
  have hinv1 := hread.inv hinv
  have hsize := hinv.layout.extent ho
  have hlt := s.fsDevice.size_lt
  have hlen : (strlcpy (decode e).name name).length = NAME_MAX + 1 :=
    length_strlcpy (length_name_decode he)
  rcases writeEntry_spec (e := ⟨h, strlcpy (decode e).name name, true⟩) hinv1.toCore
      (hread.at hp) hinv1.root hk (show h < 2 ^ 32 by omega) hlen with
    ⟨b, hwrite, hk', ha, hslot, hother⟩ | ⟨hwrite, hfail⟩
  · have hent : Entered P owned held k name h s₁ (s₁.tick.setDevice b) := by
      have hentry : (s₁.tick.setDevice b).slot P k = ⟨h, strlcpy (decode e).name name, true⟩ :=
        hslot
      refine ⟨hinv1.kept_entry ha hother, ⟨rfl, rfl, rfl, rfl⟩, hk', by rw [hentry],
        ?_, by rw [hentry],
        hinv1.write_entry ha hother fun _ => ?_, rfl, hinv1.synced_entry ha⟩
      · rw [hentry]
        exact hasName_strlcpy hname
      · rw [hslot]
        refine ⟨hle, ⟨d, ho⟩, fun hr => hrem (hread.removed _ hr), fun l hl huse => ?_⟩
        rw [hread.slot] at huse ⊢
        exact hfresh l hl huse
    have hwas : s.Lucky → (s.slot P k).inUse = false := fun hl => (hfree hl).2 hk'
    exact .atom_bind hwrite (hadd k _ _ hread hent hwas) (.pure ⟨k, hread.entered hent, hwas⟩)
  · refine .atom_bind hwrite (hG _ _ (still_tick s₁)) (.pure ⟨hread.tick, fun hl l hlt => ?_⟩)
    -- Without a failure of `malloc` only the end of the file cannot be written.
    have hend : ¬ k < ROOT_ENTRIES := by
      intro hk'
      have hbad := hfail hk'
      rw [hread.lucky hl 0] at hbad
      cases hbad
    exact (hfree hl).1 l (by omega)

def Addable (s : FileSys) (P : Places) (name : CString) : Prop :=
  name.bytes ≠ [] ∧ name.bytes.length ≤ NAME_MAX ∧ (∀ l < ROOT_ENTRIES, ¬ s.Names P l name) ∧
    ∃ k < ROOT_ENTRIES, (s.slot P k).inUse = false

theorem dirAdd_sound (hinv : Inv P s owned held) (hp : s.At p ROOT_DIR_SECTOR) (hle : 2 ≤ h)
    (ho : owned h = some d) (hrem : ¬ s.Removed h)
    (hfresh : ∀ l < ROOT_ENTRIES, (s.slot P l).inUse = true → (s.slot P l).inodeSector ≠ h)
    (hL : L → s.Lucky) :
    (dirAdd p name h).Sound (Quietly L P) s fun r s' => match r with
      | true => ∃ k, Entered P owned held k name h s s' ∧
        (s.Lucky → s.Addable P name ∧ (s.slot P k).inUse = false)
      | false => s.OnlyRead s' ∧ (s.Lucky → ¬ s.Addable P name) := by
  unfold dirAdd
  by_cases hvalid : name.bytes = [] ∨ NAME_MAX < name.bytes.length
  · rw [if_pos hvalid]
    refine .pure ⟨.refl s, fun _ hadd => ?_⟩
    rcases hvalid with hnil | _
    · exact hadd.1 hnil
    · exact absurd hadd.2.1 (by omega)
  rw [if_neg hvalid]
  obtain ⟨hnil, _⟩ := not_or.1 hvalid
  refine .bind (lookup_sound hinv.toCore hp hinv.root name fun _ _ => Still.quietly)
    fun r s₁ ⟨hread, hfound⟩ => ?_
  cases r with
  | some =>
    obtain ⟨k, hk, _, _, hnames, _⟩ := hfound
    exact .pure ⟨hread, fun _ hadd => hadd.2.2.1 k hk hnames⟩
  | none =>
    have hnone : s.Lucky → ∀ l < ROOT_ENTRIES, ¬ s.Names P l name := hfound
    refine (dirAddSlot_sound (hread.inv hinv) (hread.at hp) (by omega) hle ho
      (fun hr => hrem (hread.removed _ hr)) (fun l hl huse => ?_) (fun _ _ => Still.quietly)
      fun k s2 s3 hread2 hent hwas hl => ?_).imp fun r s' hr => ?_
    · rw [hread.slot] at huse ⊢
      exact hfresh l hl huse
    · -- The write is an `add`: the entry was free and no entry has the name.
      have hlucky := hL hl
      have hslot : ∀ l, s2.slot P l = s.slot P l := fun l => (hread2.slot l).trans (hread.slot l)
      refine .add k name hent.lt ?_ hent.inUse hent.hasName (fun l hlt huse => ?_)
        fun l hlt hne => hent.slot hlt hne
      · rw [hread2.slot]
        exact hwas (hread.lucky hlucky)
      · rw [hslot] at huse ⊢
        exact Bool.eq_false_iff.2 fun hn => hnone hlucky l hlt ⟨huse, hn⟩
    · cases r with
      | true =>
        obtain ⟨k, hent, hwas⟩ := hr
        refine ⟨k, hread.entered hent, fun hl => ?_⟩
        have hfree := hwas (hread.lucky hl)
        rw [hread.slot] at hfree
        exact ⟨⟨hnil, by omega, hnone hl, k, hent.lt, hfree⟩, hfree⟩
      | false =>
        obtain ⟨hread2, hfull⟩ := hr
        refine ⟨hread.trans hread2, fun hl hadd => ?_⟩
        obtain ⟨_, _, _, k, hk, hfree⟩ := hadd
        have huse := hfull (hread.lucky hl) k hk
        rw [hread.slot, hfree] at huse
        cases huse

end Entries

end Pintos.Filesys.FileSys
