/-
# The free map on the device

`free_map_allocate` and `free_map_release` write the map to its file before they return, and the
file is found by its inode in sector 0.  So the map survives `filesys_done` and `filesys_init`,
whatever is still open; what the last word of the file holds beyond the map is masked when it is
read.
-/

import Pintos.Filesys.Session

namespace Pintos.Filesys

open Base FileSys

def filesysDone : FsProg Unit := freeMapClose

namespace FileSys

section Reboot

variable {s : FileSys} {n : ℕ} {held : List ℕ} {owned : Owned} {P : Places}

theorem Inv.filesysDone_run (hinv : Inv P s owned held) :
    ∃ s', filesysDone.run s = .ok ((), s') ∧ s'.fsDevice = s.fsDevice := by
  obtain ⟨⟨f, _, hf, hh⟩, _⟩ := hinv.mapFile
  obtain ⟨s', hrun, _, hdev, _⟩ := freeMapClose_run hinv.toCore hf hh
  exact ⟨s', hrun, hdev⟩

theorem Inv.filesysInit_again {mallocs : ℕ → Bool} (hinv : Inv P s owned held) (hsync : s.Synced P)
    (hm : ∀ n, mallocs n = true) (mem : ℕ → BitVec 32) (stack : ℕ → BitVec 8) :
    ∃ s', filesysInit false s.fsDevice mallocs mem stack = .ok s' ∧
      s'.freeMap.bitCnt = s.fsDevice.size ∧
      (∀ j < s.fsDevice.size, s'.freeMap.bit j = s.freeMap.bit j) ∧
      ∀ j, s.fsDevice.size ≤ j → j < 32 * ((s.fsDevice.size + 31) / 32) →
        s'.freeMap.bit j = false := by
  have hcnt := hinv.layout.bitCnt
  have hmap := hinv.mapFile.2
  have hpos : 0 < s.fsDevice.size := (hinv.layout.extent hmap).1
  have hsize : s.fsDevice.size + 31 < 2 ^ 32 := hcnt ▸ hinv.map
  obtain ⟨s', hinit, _, hcnt', hbits, hbeyond⟩ :=
    filesysInit_reads s.fsDevice mem stack hm (hinv.layout.header hmap) hcnt
      (hinv.layout.inside hmap) hpos hsize
  refine ⟨s', hinit, hcnt', fun j hj => ?_, hbeyond⟩
  rw [hbits j hj]
  exact hsync j (hcnt ▸ hj)

end Reboot

end FileSys

/-- **The free map file always holds the free map**, and a restart restores it. -/
theorem freeMap_persists {b : Block} {mallocs : ℕ → Bool} {mem : ℕ → BitVec 32}
    {stack : ℕ → BitVec 8} {s₀ s : FileSys} (hm : ∀ n, mallocs n = true)
    (hinit : filesysInit true b mallocs mem stack = .ok s₀) (hrun : Reaches FsStep Always s₀ s) :
    s.freeMap.bitCnt = b.size ∧
    (∀ j < b.size, mapBit (fileBytes s.fsDevice FREE_MAP_SECTOR) j = s.freeMap.bit j) ∧
    (∀ op : FsOp, op.Legal s → ∃ r s', FsStep s (op, r) s') ∧
    ∃ done, filesysDone.run s = .ok ((), done) ∧
      ∀ (mallocs' : ℕ → Bool) (mem' : ℕ → BitVec 32) (stack' : ℕ → BitVec 8),
        (∀ n, mallocs' n = true) →
        ∃ s', filesysInit false done.fsDevice mallocs' mem' stack' = .ok s' ∧
          s'.freeMap.bitCnt = b.size ∧
          (∀ j < b.size, s'.freeMap.bit j = s.freeMap.bit j) ∧
          ∀ j, b.size ≤ j → j < 32 * elemCnt b.size → s'.freeMap.bit j = false := by
  have hs := healthy_of_reaches hm hinit hrun
  obtain ⟨P, _, hinv, hsync⟩ := hs.inv
  have hsize : s.fsDevice.size = b.size := hinv.layout.bitCnt.symm.trans hs.bitCnt
  refine ⟨hs.bitCnt, ?_, ?_, ?_⟩
  · have hfile := hinv.synced_iff.1 hsync
    rwa [hs.bitCnt] at hfile
  · intro _ hlegal
    obtain ⟨r, s', hstep, _⟩ := exists_step hinv hlegal
    exact ⟨r, s', hstep⟩
  · obtain ⟨done, hdone, hdev⟩ := hinv.filesysDone_run
    refine ⟨done, hdone, fun mallocs' mem' stack' hm' => ?_⟩
    obtain ⟨s', hinit', hcnt', hbits, hbeyond⟩ := hinv.filesysInit_again hsync hm' mem' stack'
    rw [hsize] at hcnt' hbits hbeyond
    have hlt : b.size + 31 < 2 ^ 32 := hs.bitCnt ▸ hinv.map
    refine ⟨s', ?_, hcnt', hbits, ?_⟩
    · rw [hdev]
      exact hinit'
    · rw [elemCnt_eq hlt]
      exact hbeyond

theorem freeMap_persists_session : ∃ s₀ s done,
    filesysInit true blankDevice (fun _ => true) (fun _ => 0) (fun _ => 0) = .ok s₀ ∧
    Trace FsStep s₀ session s ∧
    (∀ j < 16, mapBit (fileBytes s.fsDevice FREE_MAP_SECTOR) j = s.freeMap.bit j) ∧
    filesysDone.run s = .ok ((), done) ∧
    ∃ s', filesysInit false done.fsDevice (fun _ => true) (fun _ => 0) (fun _ => 0) = .ok s' ∧
      (∀ j < 16, s'.freeMap.bit j = s.freeMap.bit j) ∧
      ∀ j, 16 ≤ j → j < 32 → s'.freeMap.bit j = false := by
  obtain ⟨s₀, s, hinit, hl⟩ := exists_session
  obtain ⟨_, hmap, _, done, hdone, hagain⟩ := freeMap_persists (fun _ => rfl) hinit hl.reaches
  obtain ⟨s', hinit', _, hbits, hbeyond⟩ := hagain (fun _ => true) (fun _ => 0) (fun _ => 0)
    fun _ => rfl
  exact ⟨s₀, s, done, hinit, hl, hmap, hdone, s', hinit', hbits, hbeyond⟩

end Pintos.Filesys
