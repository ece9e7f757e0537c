/-
# Creating a file

`filesys_create` chains three steps that allocate: a sector for the inode, the inode with its data
sectors, and an entry of the root directory.  A failure of the second or third releases the sector
of the inode, and nothing else.
-/

import Pintos.Filesys.Calls

namespace Pintos.Filesys.FileSys

open Base Function

variable {P : Places} {s s' s₁ s₂ s₃ : FileSys} {owned : Owned} {held : List ℕ} {p h k cnt : ℕ}
  {name : CString} {size : ℤ} {L : Prop} {d : InodeDisk}

lemma addable_congr (hslot : ∀ k < ROOT_ENTRIES, s'.slot P k = s.slot P k) :
    s'.Addable P name ↔ s.Addable P name := by
  have hnames : ∀ k < ROOT_ENTRIES, s'.Names P k name ↔ s.Names P k name := by
    intro k hk
    rw [Names, Names, hslot k hk]
  refine and_congr_right fun _ => and_congr_right fun _ => and_congr ?_ ?_
  · exact forall₂_congr fun k hk => not_congr (hnames k hk)
  · refine exists_congr fun k => and_congr_right fun hk => ?_
    rw [hslot k hk]

/-- A new file of zeros: entry `k` names the inode in sector `h`. -/
structure NewFile (P : Places) (owned : Owned) (held : List ℕ) (name : CString) (size : ℤ) (h : ℕ)
    (d : InodeDisk) (k : ℕ) (s s' : FileSys) : Prop extends Kept P owned {k} s s' where
  inv : Inv P s' (update owned h (some d)) held
  two_le : 2 ≤ h
  fresh : owned h = none
  length : d.length = size
  zeros : Filesys.contents s'.fsDevice d = List.replicate size.toNat 0
  lt : k < ROOT_ENTRIES
  inUse : (s'.slot P k).inUse = true
  hasName : (s'.slot P k).hasName name = true
  sector : (s'.slot P k).inodeSector = h
  synced : s'.Synced P
  grabs : ∃ map, Grabs s.freeMap h 1 map ∧ Grabs map d.start (bytesToSectors size) s'.freeMap
  addable : s.Lucky → s.Addable P name ∧ (s.slot P k).inUse = false
  heldAt : ∀ q ∈ held, ∀ h, s.At q h → s'.At q h

/-- The creation failed before the sector of the inode, `h` if it is not 0, is released. -/
structure HalfCreated (P : Places) (owned : Owned) (held : List ℕ) (name : CString) (cnt h : ℕ)
    (s s' : FileSys) : Prop extends Kept P owned ∅ s s', s.SameTables s' where
  inv : Inv P s' owned held
  spare : h ≠ 0 → s'.Spare owned h
  why : s.Lucky → (h = 0 ∧ s.NoRun 1 ∧ s.Still s') ∨
    (h ≠ 0 ∧ Grabs s.freeMap h 1 s'.freeMap ∧ s'.NoRun cnt) ∨
    (h ≠ 0 ∧ ¬ s.Addable P name ∧
      ∃ map y, Grabs s.freeMap h 1 map ∧ Grabs map y cnt s'.freeMap)

/-- Why a creation failed with memory, and what it left in the free map. -/
inductive Failure (P : Places) (name : CString) (cnt : ℕ) (s s' : FileSys) : Prop
  | noSector : s.NoRun 1 → (∀ j, s'.freeMap.bit j = s.freeMap.bit j) → Failure P name cnt s s'
  /-- There is no run of sectors for the data. -/
  | noRun (x : ℕ) (map : Bitmap) : Grabs s.freeMap x 1 map →
      (∀ j, j + cnt ≤ map.bitCnt → ¬ map.AllBits j cnt false) →
      (∀ j, s'.freeMap.bit j = s.freeMap.bit j) → Failure P name cnt s s'
  /-- The name cannot be added: the data sectors stay marked. -/
  | notAddable (x y : ℕ) (map map' : Bitmap) : ¬ s.Addable P name → Grabs s.freeMap x 1 map →
      Grabs map y cnt map' →
      (∀ j, s'.freeMap.bit j = if y ≤ j ∧ j < y + cnt then true else s.freeMap.bit j) →
      Failure P name cnt s s'

structure CreateFails (P : Places) (owned : Owned) (held : List ℕ) (name : CString) (size : ℤ)
    (s s' : FileSys) : Prop extends Kept P owned ∅ s s' where
  inv : Inv P s' owned held
  why : s.Lucky → Failure P name (bytesToSectors size) s s'
  synced : s.Lucky → s.Synced P → s'.Synced P

lemma Inv.not_open (hinv : Inv P s owned held) (hh : ∀ h', ¬ owned.Uses h' h) {q : ℕ} {i : Inode}
    (hi : s.inodes q = some i) : i.sector ≠ h := by
  rintro rfl
  exact hh _ (Owned.uses_header (hinv.opened.data hi))

lemma Inv.not_named (hinv : Inv P s owned held) (hh : ∀ h', ¬ owned.Uses h' h)
    (hk : k < ROOT_ENTRIES) (huse : (s.slot P k).inUse = true) : (s.slot P k).inodeSector ≠ h := by
  rintro rfl
  obtain ⟨_, ⟨d, hd⟩, _⟩ := hinv.named k hk huse
  exact hh _ (Owned.uses_header hd)

lemma Created.disown (hnew : Created P owned held h d s s₁) (hread : s₁.OnlyRead s₂)
    (hinv : Inv P s owned held) (hh : s.Spare owned h) : Inv P s₂ owned held := by
  have hnone : owned h = none := by
    cases ho : owned h with
    | none => rfl
    | some => exact absurd (Owned.uses_header ho) (hh.free h)
  have hout : Inv P s₂ (update (update owned h (some d)) h none) held := by
    refine (hread.inv hnew.inv).disown hh.two_le (fun {q j} hj => ?_) fun k hk huse => ?_
    · rw [hread.inodes, hnew.inodes] at hj
      exact hinv.not_open hh.free hj
    · rw [hread.slot, hnew.slot hk (Set.notMem_empty k)] at huse ⊢
      exact hinv.not_named hh.free hk huse
  rwa [update_idem, ← hnone, update_eq_self] at hout

lemma filesysCreateIn_sound (hinv : Inv P s owned held) (hp : s.At p ROOT_DIR_SECTOR)
    (h1 : 0 ≤ size) (h2 : size < 2 ^ 31) (hL : L → s.Lucky) :
    (filesysCreateIn p name size).Sound (Quietly L P) s fun r s' => match r with
      | (true, h) => ∃ d k, NewFile P owned held name size h d k s s' ∧ s.SameTables s'
      | (false, h) => HalfCreated P owned held name (bytesToSectors size) h s s' := by
  rcases hinv.allocate 1 with ⟨h, s₁, hrun, hr, hg, _⟩ | ⟨s₁, hrun, hr, hbit, hluck⟩
  swap
  · refine .atom_bind hrun hr.quietly (.pure ?_)
    refine ⟨hr.toKept, hr.toSameTables, hr.inv, fun h => absurd rfl h, fun hl => .inl ?_⟩
    obtain ⟨rfl, hno⟩ := hluck hl
    exact ⟨rfl, hno, Still.refl _⟩
  have hspare := hinv.spare_of_grabs hr hg
  have hne : h ≠ 0 := by
    have := hspare.two_le
    omega
  refine .atom_bind hrun hr.quietly (.bind (inodeCreate_sound hr.inv hspare h1 h2)
    fun r s₂ hcreate => ?_)
  have hsize : ∀ {t : FileSys}, Inv P t owned held → t.freeMap.bitCnt = s₁.freeMap.bitCnt →
      h < t.fsDevice.size := by
    intro t ht hcnt
    rw [← ht.layout.bitCnt, hcnt, hr.inv.layout.bitCnt]
    exact hspare.lt
  cases r with
  | false =>
    obtain ⟨hr2, hbit, hluck⟩ := hcreate
    refine .pure ⟨hr.toKept.trans hr2.toKept, hr.toSameTables.trans hr2.toSameTables, hr2.inv,
      fun _ => ⟨hspare.two_le, hsize hr2.inv hr2.bitCnt, ?_, hspare.free⟩, fun hl => ?_⟩
    · rw [hbit]
      exact hspare.marked
    · obtain ⟨hs, hno⟩ := hluck (hr.lucky hl)
      refine .inr (.inl ⟨hne, ?_, ?_⟩)
      · rw [hs.freeMap]
        exact hg
      · rw [NoRun, hs.freeMap]
        exact hno
  | true =>
    obtain ⟨d, rfl, hnew⟩ := hcreate
    have hslot : ∀ k < ROOT_ENTRIES, s₂.slot P k = s.slot P k := fun k hk =>
      (hnew.slot hk (Set.notMem_empty k)).trans (hr.slot hk (Set.notMem_empty k))
    have hlucky : s.Lucky → s₂.Lucky := fun hl => hnew.lucky (hr.lucky hl)
    refine .bind (dirAdd_sound hnew.inv (hnew.at (hr.at hp)) hspare.two_le (update_self ..)
      (fun ⟨q, i, hi, hs, _⟩ => ?_) (fun l hl huse => ?_) fun hl => hlucky (hL hl))
      fun ok s₃ hadd => .pure ?_
    · rw [hnew.inodes] at hi
      exact hr.inv.not_open hspare.free hi hs
    · rw [hnew.slot hl (Set.notMem_empty l)] at huse ⊢
      exact hr.inv.not_named hspare.free hl huse
    have hnone : owned h = none := by
      cases ho : owned h with
      | none => rfl
      | some => exact absurd (Owned.uses_header ho) (hspare.free h)
    have hsub : owned.Sub (update owned h (some d)) := Owned.sub_update_some hnone
    cases ok with
    | true =>
      obtain ⟨k, hent, hadd⟩ := hadd
      refine ⟨d, k, ⟨?_, hent.inv, hspare.two_le, hnone, rfl, ?_, hent.lt, hent.inUse, hent.hasName,
        hent.sector, hent.synced hnew.synced, ⟨s₁.freeMap, hg, ?_⟩, fun hl => ?_,
          fun q _ h' hq => ?_⟩, ?_⟩
      · have hfirst := hr.toKept.trans hnew.toKept
        exact (hfirst.mono (fun _ _ ho => ho) (Set.empty_subset _)).trans
          (hent.toKept.mono hsub (fun _ hl => hl))
      · rw [hent.contents (update_self ..) hspare.two_le]
        exact hnew.zeros
      · rw [hent.freeMap]
        exact hnew.grabs
      · obtain ⟨hok, hfree⟩ := hadd (hlucky hl)
        rw [hslot k hent.lt] at hfree
        exact ⟨(addable_congr hslot).1 hok, hfree⟩
      · exact (hr.toSameTables.trans (hnew.toSameTables.trans hent.toSameTables)).at hq
      · exact hr.toSameTables.trans (hnew.toSameTables.trans hent.toSameTables)
    | false =>
      obtain ⟨hread, hnot⟩ := hadd
      refine ⟨hr.toKept.trans (hnew.toKept.trans hread.kept),
        hr.toSameTables.trans (hnew.toSameTables.trans hread.toSameTables),
        hnew.disown hread hr.inv hspare, fun _ => ?_,
          fun hl => .inr (.inr ⟨hne, fun hok => ?_, ?_⟩)⟩
      · have hinv3 := hnew.disown hread hr.inv hspare
        refine ⟨hspare.two_le, hsize hinv3 ?_, ?_, hspare.free⟩
        · rw [hread.freeMap]
          exact hnew.bitCnt
        · rw [hread.freeMap]
          exact hnew.grabs.marked hspare.marked
      · exact hnot (hlucky hl) ((addable_congr hslot).2 hok)
      · refine ⟨s₁.freeMap, d.start, hg, ?_⟩
        rw [hread.freeMap]
        exact hnew.grabs

lemma HalfCreated.failure (hhalf : HalfCreated P owned held name cnt h s s₁) (hh : h ≠ 0)
    (hdrop : Drops s₁.freeMap h 1 s₂.freeMap) (hl : s.Lucky) : Failure P name cnt s s₂ := by
  -- The sector was free, and is free again.
  have hback : ∀ {map}, Grabs s.freeMap h 1 map → ∀ j, (if h ≤ j ∧ j < h + 1 then false else
      map.bit j) = s.freeMap.bit j := by
    intro _ hg j
    by_cases hj : j = h
    · rw [if_pos (by omega), hj]
      exact (hg.free h (le_refl _) (by omega)).symm
    · rw [if_neg (by omega), hg.bit, if_neg (by omega)]
  rcases hhalf.why hl with ⟨h0, _⟩ | ⟨_, hg, hno⟩ | ⟨_, hnot, map, y, hg, hg'⟩
  · exact absurd h0 hh
  · refine .noRun h s₁.freeMap hg hno fun j => ?_
    rw [hdrop.bit]
    exact hback hg j
  · refine .notAddable h y map s₁.freeMap hnot hg hg' fun j => ?_
    have hmarked : map.bit h = true := by
      rw [hg.bit, if_pos (by omega)]
    rw [hdrop.bit, hg'.bit, ← hback hg j]
    by_cases hj : j = h
    · have hout : ¬ (y ≤ j ∧ j < y + cnt) := by
        rintro ⟨hle, hlt⟩
        rw [hj] at hle hlt
        exact absurd ((hg'.free h hle hlt).symm.trans hmarked) Bool.false_ne_true
      have hin : h ≤ j ∧ j < h + 1 := by omega
      rw [if_neg hout, if_pos hin, if_neg hout]
    · have hout : ¬ (h ≤ j ∧ j < h + 1) := by omega
      rw [if_neg hout, if_neg hout]

lemma Failure.still (hs : s.Still s₁) (hf : Failure P name cnt s₁ s₂) (hs' : s₂.Still s₃) :
    Failure P name cnt s s₃ := by
  have hslot : ∀ k < ROOT_ENTRIES, s₁.slot P k = s.slot P k := by
    intro k _
    rw [slot, slot, hs.fsDevice]
  cases hf with
  | noSector hno hbit =>
    rw [NoRun, hs.freeMap] at hno
    rw [hs.freeMap] at hbit
    refine .noSector hno ?_
    rw [hs'.freeMap]
    exact hbit
  | noRun x map hg hno hbit =>
    rw [hs.freeMap] at hg hbit
    refine .noRun x map hg hno ?_
    rw [hs'.freeMap]
    exact hbit
  | notAddable x y map map' hnot hg hg' hbit =>
    rw [hs.freeMap] at hg hbit
    refine .notAddable x y map map' (fun hok => hnot ((addable_congr hslot).2 hok)) hg hg' ?_
    rw [hs'.freeMap]
    exact hbit

lemma NewFile.still (hs : s.Still s₁) (hnew : NewFile P owned (p :: held) name size h d k s₁ s₂)
    (hs' : s₂.Still s₃) (hinv : Inv P s₃ (update owned h (some d)) held)
    (hat : ∀ q h, s.At q h → s₁.At q h) (hat' : ∀ q h, q ∈ held → s₂.At q h → s₃.At q h) :
    NewFile P owned held name size h d k s s₃ := by
  have hslot : ∀ k < ROOT_ENTRIES, s₁.slot P k = s.slot P k := by
    intro k _
    rw [slot, slot, hs.fsDevice]
  have hslot' : s₃.slot P k = s₂.slot P k := by rw [slot, slot, hs'.fsDevice]
  refine { toKept := hs.kept.trans (hnew.toKept.trans hs'.kept), inv := hinv,
           two_le := hnew.two_le, fresh := hnew.fresh, length := hnew.length, zeros := ?_,
           lt := hnew.lt, inUse := ?_, hasName := ?_, sector := ?_, synced :=
             hs'.synced hnew.synced,
           grabs := ?_, addable := fun hl => ?_, heldAt := fun q hq h' ha => ?_ }
  · rw [hs'.fsDevice]
    exact hnew.zeros
  · rw [hslot']
    exact hnew.inUse
  · rw [hslot']
    exact hnew.hasName
  · rw [hslot']
    exact hnew.sector
  · rw [← hs.freeMap, hs'.freeMap]
    exact hnew.grabs
  · obtain ⟨hok, hfree⟩ := hnew.addable (hs.lucky hl)
    rw [hslot k hnew.lt] at hfree
    exact ⟨(addable_congr hslot).1 hok, hfree⟩
  · exact hat' q h' hq (hnew.heldAt q (List.mem_cons_of_mem p hq) h' (hat q h' ha))

lemma filesysCreate_sound (hinv : Inv P s owned held) (h1 : 0 ≤ size) (h2 : size < 2 ^ 31)
    (hL : L → s.Lucky) :
    (filesysCreate name size).Sound (Quietly L P) s fun r s' => match r with
      | true => ∃ h d k, NewFile P owned held name size h d k s s'
      | false => CreateFails P owned held name size s s' := by
  refine .bind (dirOpenRoot_sound hinv) fun dir s₁ ⟨hs, hdir⟩ => ?_
  cases dir with
  | none =>
    obtain ⟨hinv1, hnot⟩ := hdir
    exact .pure ⟨hs.kept, hinv1, fun hl => absurd hl hnot, fun hl => absurd hl hnot⟩
  | some p =>
    obtain ⟨hinv1, hp, hat⟩ := hdir
    refine .bind (filesysCreateIn_sound hinv1 hp h1 h2 fun hl => hs.lucky (hL hl))
      fun ⟨ok, h⟩ s₂ hr => ?_
    cases ok with
    | true =>
      obtain ⟨d, k, hnew, htab⟩ := hr
      dsimp only
      rw [if_neg (fun hc => Bool.false_ne_true hc.1.symm)]
      refine .bind (dirClose_sound hnew.inv (htab.at hp)) fun _ s₃ ⟨hs3, hinv3, hat3⟩ => ?_
      exact .pure ⟨h, d, k, hnew.still hs hs3 hinv3 hat hat3⟩
    | false =>
      have hhalf : HalfCreated P owned (p :: held) name (bytesToSectors size) h s₁ s₂ := hr
      dsimp only
      by_cases hh : h = 0
      · rw [if_neg (fun hc => hc.2 hh)]
        refine .bind (dirClose_sound hhalf.inv (hhalf.at hp)) fun _ s₃ ⟨hs3, hinv3, _⟩ => ?_
        have hwhy : s.Lucky → s₁.NoRun 1 ∧ s₁.Still s₂ := by
          intro hl
          rcases hhalf.why (hs.lucky hl) with ⟨_, hno, hs2⟩ | ⟨hne, _⟩ | ⟨hne, _⟩
          · exact ⟨hno, hs2⟩
          · exact absurd hh hne
          · exact absurd hh hne
        refine .pure ⟨hs.kept.trans (hhalf.toKept.trans hs3.kept), hinv3, fun hl => ?_,
          fun hl hsync => ?_⟩
        · obtain ⟨hno, hs2⟩ := hwhy hl
          refine Failure.still hs (.noSector hno fun j => ?_) hs3
          rw [hs2.freeMap]
        · exact hs3.synced ((hwhy hl).2.synced (hs.synced hsync))
      · rw [if_pos ⟨rfl, hh⟩]
        have hspare := hhalf.spare hh
        have hlt := hspare.lt
        rw [← hhalf.inv.layout.bitCnt] at hlt
        obtain ⟨_, hrun, hr3, hdrop, hsync3⟩ := hhalf.inv.release h 1 hlt (fun j h1 h2 => by
            obtain rfl : j = h := by omega
            exact hspare.marked)
          (fun h' y hu hy => by
            obtain rfl : y = h := by omega
            exact hspare.free h' hu)
        refine .atom_bind hrun hr3.quietly ?_
        refine .bind (dirClose_sound hr3.inv (hr3.at (hhalf.at hp))) fun _ s4 ⟨hs4, hinv4, _⟩ => ?_
        refine .pure ⟨hs.kept.trans (hhalf.toKept.trans (hr3.toKept.trans hs4.kept)), hinv4,
          fun hl => ?_, fun hl _ => hs4.synced (hsync3 (hhalf.lucky (hs.lucky hl)))⟩
        exact Failure.still hs (hhalf.failure hh hdrop (hs.lucky hl)) hs4

end Pintos.Filesys.FileSys
