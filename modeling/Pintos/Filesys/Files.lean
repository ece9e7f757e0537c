/-
# Opening, removing and using files

`filesys_open`, `filesys_remove`, `file_close`, `file_read`, `file_write`, `file_seek`,
`file_length` and `file_tell`, from a state with the invariant of the file system.
-/

import Pintos.Filesys.Create

namespace Pintos.Filesys.FileSys

open Base Function Kernel

variable {P : Places} {s s' : FileSys} {owned owned' : Owned} {held : List ℕ} {p q h k f : ℕ}
  {name : CString} {i : Inode} {x : File} {d : InodeDisk} {L : Prop} {b : Block}

/-! ### Opening a file -/

structure Opens (P : Places) (owned : Owned) (held : List ℕ) (name : CString) (k f : ℕ)
    (s s' : FileSys) : Prop where
  inv : Inv P s' owned held
  lt : k < ROOT_ENTRIES
  names : s.Names P k name
  first : s.Lucky → ∀ l < k, ¬ s.Names P l name
  fsDevice : s'.fsDevice = s.fsDevice
  freeMap : s'.freeMap = s.freeMap
  freeMapFile : s'.freeMapFile = s.freeMapFile
  fresh : s.handle f = none
  handle : s'.handle = update s.handle f (some ((s.slot P k).inodeSector, 0))
  lucky : s.Lucky → s'.Lucky

lemma handle_addFile (hi : s.inodes p = some i) :
    (s.addFile ⟨p, 0, false⟩).handle = update s.handle s.brk (some (i.sector, 0)) := by
  funext g
  by_cases hg : g = s.brk
  · have hfile : (s.addFile ⟨p, 0, false⟩).files s.brk = some ⟨p, 0, false⟩ := update_self ..
    rw [hg, update_self]
    exact handle_of hfile hi
  · rw [update_of_ne hg]
    have hfiles : (s.addFile ⟨p, 0, false⟩).files g = s.files g := update_of_ne hg ..
    rw [handle, handle, hfiles]
    rfl

lemma Inv.freeMapFile_ne (hinv : Inv P s owned held) (hf : s.handle f = none) :
    s.freeMapFile ≠ some f := by
  intro hfile
  obtain ⟨g, _, hg, hh⟩ := hinv.mapFile.1
  obtain rfl := Option.mem_unique hfile hg
  rw [hf] at hh
  cases hh

theorem Inv.addFile (hinv : Inv P s owned (p :: held)) (hp : s.At p h) (hle : 2 ≤ h) :
    Inv P (s.tick.addFile ⟨p, 0, false⟩) owned held ∧ s.handle s.brk = none ∧
      (s.tick.addFile ⟨p, 0, false⟩).handle = update s.handle s.brk (some (h, 0)) := by
  obtain ⟨i, hi, rfl⟩ := hp
  have hbrk : s.handle s.brk = none := by
    rw [handle, hinv.opened.toOpenTable.files_brk]
    rfl
  have hhandle : (s.tick.addFile ⟨p, 0, false⟩).handle =
      update s.handle s.brk (some (i.sector, 0)) := handle_addFile (s := s.tick) hi
  have hc : (s.tick.addFile ⟨p, 0, false⟩).Core owned held :=
    ⟨hinv.layout, hinv.opened.fileNew, hinv.map⟩
  refine ⟨{ hc with mapFile := ⟨?_, hinv.mapFile.2⟩, root := hinv.root, user := ?_,
                    named := hinv.named, distinct := hinv.distinct }, hbrk, hhandle⟩
  · obtain ⟨g, pos, hg, hh⟩ := hinv.mapFile.1
    refine ⟨g, pos, hg, ?_⟩
    rw [hhandle, update_of_ne, hh]
    rintro rfl
    exact hinv.freeMapFile_ne hbrk hg
  · intro g v hv hg
    rw [hhandle] at hv
    rcases update_some_cases hv with ⟨_, rfl⟩ | ⟨_, hv⟩
    · exact hle
    · exact hinv.user hv hg

theorem fileOpen_sound (hinv : Inv P s owned (p :: held)) (hp : s.At p h) (hle : 2 ≤ h)
    (hrem : ¬ s.Removed h) :
    (fileOpen (some p)).Sound (Quietly L P) s fun r s' => match r with
      | some f => Inv P s' owned held ∧ s.handle f = none ∧
        s'.handle = update s.handle f (some (h, 0)) ∧ s'.fsDevice = s.fsDevice ∧
        s'.freeMap = s.freeMap ∧ s'.freeMapFile = s.freeMapFile ∧ (s.Lucky → s'.Lucky)
      | none => s.Still s' ∧ Inv P s' owned held ∧ ¬ s.Lucky := by
  cases hm : s.mallocs 0 with
  | true =>
    obtain ⟨hinv', hbrk, hhandle⟩ := hinv.addFile hp hle
    refine .atom_bind (fileCalloc_some hm) (fun _ => .same fun _ _ => rfl) (.pure ?_)
    exact ⟨hinv', hbrk, hhandle, rfl, rfl, rfl, .tick⟩
  | false =>
    refine .atom_bind (fileCalloc_none (.inr hm)) (still_tick s).quietly ?_
    obtain ⟨i, hi, rfl⟩ := hp
    have hinv1 := hinv.still (still_tick s) hinv.toCore.tick
    have hnot : i.removed = false := Bool.eq_false_iff.2 fun hr => hrem ⟨p, i, hi, rfl, hr⟩
    refine .bind (close_still hinv1 hi hnot) fun _ s2 ⟨hs2, hinv2, _⟩ => ?_
    refine .pure ⟨(still_tick s).trans hs2, hinv2, fun hl => ?_⟩
    rw [hl 0] at hm
    cases hm

def Absent (s : FileSys) (P : Places) (name : CString) : Prop :=
  s.Lucky → ∀ l < ROOT_ENTRIES, ¬ s.Names P l name

lemma Still.names (hs : s.Still s') : s'.Names P k name ↔ s.Names P k name := by
  rw [Names, Names, slot, slot, hs.fsDevice]

lemma dirLookup_sound (hinv : Inv P s owned held) (hp : s.At p ROOT_DIR_SECTOR) :
    (dirLookup p name).Sound (Quietly L P) s fun r s' => s.Still s' ∧
      (∀ q h, s.At q h → s'.At q h) ∧ match r with
      | some q => Inv P s' owned (q :: held) ∧ ∃ k < ROOT_ENTRIES, s.Names P k name ∧
        (s.Lucky → ∀ l < k, ¬ s.Names P l name) ∧ s'.At q (s.slot P k).inodeSector
      | none => Inv P s' owned held ∧ s.Absent P name := by
  refine .bind (lookup_sound hinv.toCore hp hinv.root name fun _ _ => Still.quietly)
    fun r s1 ⟨hread, hfound⟩ => ?_
  have hinv1 := hread.inv hinv
  cases r with
  | none => exact .pure ⟨hread.toStill, fun q h ha => hread.at ha, hinv1, hfound⟩
  | some v =>
    obtain ⟨e, _⟩ := v
    obtain ⟨k, hk, _, rfl, hnames, hfirst⟩ := hfound
    obtain ⟨_, ⟨d, hd⟩, _⟩ := hinv.named k hk hnames.1
    rcases inodeOpen_spec hinv1.toCore hd with
      ⟨q, s2, hrun, hc, hq, hs2, hat⟩ | ⟨hrun, hfail⟩
    · refine .atom hrun hs2.quietly ⟨hread.toStill.trans hs2, fun q h ha => hat q h (hread.at ha),
        ?_⟩
      exact ⟨hinv1.still hs2 hc, k, hk, hnames, hfirst, hq⟩
    · refine .atom hrun (still_tick s1).quietly ⟨hread.toStill.trans (still_tick s1),
        fun q h ha => hread.at ha, hinv1.still (still_tick s1) hinv1.toCore.tick, fun hl => ?_⟩
      rw [hread.lucky hl 0] at hfail
      cases hfail

lemma filesysOpen_sound (hinv : Inv P s owned held) :
    (filesysOpen name).Sound (Quietly L P) s fun r s' => match r with
      | some f => ∃ k, Opens P owned held name k f s s'
      | none => s.Still s' ∧ Inv P s' owned held ∧ s.Absent P name := by
  have hnothing : ∀ {t : FileSys}, Inv P t owned held →
      (fileOpen none).Sound (Quietly L P) t fun r t' =>
        r = none ∧ t.Still t' ∧ Inv P t' owned held := by
    intro t ht
    refine .atom_bind (fileCalloc_none (.inl rfl)) (still_tick t).quietly (.pure ?_)
    exact ⟨rfl, still_tick t, ht.still (still_tick t) ht.toCore.tick⟩
  refine .bind (dirOpenRoot_sound hinv) fun dir s1 ⟨hs, hdir⟩ => ?_
  cases dir with
  | none =>
    obtain ⟨hinv1, hnot⟩ := hdir
    refine (hnothing hinv1).imp fun r s' ⟨hr, hs', hinv'⟩ => ?_
    subst hr
    exact ⟨hs.trans hs', hinv', fun hl => absurd hl hnot⟩
  | some p =>
    obtain ⟨hinv1, hp, _⟩ := hdir
    refine .bind (dirLookup_sound hinv1 hp) fun inode s2 ⟨hs2, hat2, hr⟩ => ?_
    cases inode with
    | none =>
      obtain ⟨hinv2, hno⟩ := hr
      refine .bind (dirClose_sound hinv2 (hat2 _ _ hp)) fun _ s3 ⟨hs3, hinv3, _⟩ => ?_
      refine (hnothing hinv3).imp fun r s' ⟨hr, hs', hinv'⟩ => ?_
      subst hr
      refine ⟨hs.trans (hs2.trans (hs3.trans hs')), hinv', fun hl l hlt hn => ?_⟩
      exact hno (hs.lucky hl) l hlt (hs.names.2 hn)
    | some q =>
      obtain ⟨hinv2, k, hk, hname, hfirst, hq⟩ := hr
      have hinv₂' : Inv P s2 owned (p :: q :: held) :=
        hinv2.still (Still.refl s2) (hinv2.toCore.perm (.swap ..))
      refine .bind (dirClose_sound hinv₂' (hat2 _ _ hp)) fun _ s3 ⟨hs3, hinv3, hat3⟩ => ?_
      have hstill := hs.trans (hs2.trans hs3)
      obtain ⟨hle, _, hrem⟩ := hinv1.named k hk hname.1
      refine (fileOpen_sound hinv3 (hat3 q _ List.mem_cons_self hq) hle
        fun hr => hrem ((hs2.trans hs3).removed _ hr)).imp fun r s' hr => ?_
      cases r with
      | none =>
        obtain ⟨hs', hinv', hnot⟩ := hr
        exact ⟨hstill.trans hs', hinv', fun hl => absurd (hstill.lucky hl) hnot⟩
      | some =>
        obtain ⟨hinv', hfresh, hhandle, hdev, hmap, hfile, hlucky⟩ := hr
        rw [hstill.handle] at hfresh hhandle
        rw [slot, hs.fsDevice, ← slot] at hhandle
        refine ⟨k, hinv', hk, hs.names.1 hname, fun hl l hlt hn => ?_,
          hdev.trans hstill.fsDevice, hmap.trans hstill.freeMap, hfile.trans hstill.freeMapFile,
          hfresh, hhandle, fun hl => hlucky (hstill.lucky hl)⟩
        exact hfirst (hs.lucky hl) l hlt (hs.names.2 hn)

/-! ### Removing a file -/

/-- Entry `k` is free; its inode is owned while somebody has it open. -/
structure Removes (P : Places) (owned owned' : Owned) (held : List ℕ) (name : CString) (k : ℕ)
    (s s' : FileSys) : Prop extends Kept P owned' {k} s s' where
  inv : Inv P s' owned' held
  sub : owned'.Sub owned
  lt : k < ROOT_ENTRIES
  names : s.Names P k name
  first : s.Lucky → ∀ l < k, ¬ s.Names P l name
  free : (s'.slot P k).inUse = false
  synced : s.Lucky → s.Synced P → s'.Synced P

lemma Inv.remove (hinv : Inv P s owned held) (hi : s.inodes q = some i) (hle : 2 ≤ i.sector)
    (hname : ∀ k < ROOT_ENTRIES, (s.slot P k).inUse = true → (s.slot P k).inodeSector ≠ i.sector) :
    Inv P (s.setInode q { i with removed := true }) owned held ∧
      (s.setInode q { i with removed := true }).handle = s.handle := by
  have hhandle : (s.setInode q { i with removed := true }).handle = s.handle := by
    refine handle_congr rfl fun g y _ => ?_
    change (update s.inodes q (some { i with removed := true }) y.inode).map Inode.sector = _
    by_cases hq : y.inode = q
    · rw [hq, update_self, hi]
      rfl
    · rw [update_of_ne hq]
  have hc : (s.setInode q { i with removed := true }).Core owned held :=
    ⟨hinv.layout, hinv.opened.remove hi hle, hinv.map⟩
  refine ⟨{ hc with mapFile := ⟨?_, hinv.mapFile.2⟩, root := hinv.root, user := ?_, named := ?_,
                    distinct := hinv.distinct }, hhandle⟩
  · rw [hhandle]
    exact hinv.mapFile.1
  · rw [hhandle]
    exact hinv.user
  · intro k hk huse
    obtain ⟨hle, hd, hrem⟩ := hinv.named k hk huse
    refine ⟨hle, hd, ?_⟩
    rintro ⟨r, j, hj, hs, hr⟩
    rcases update_some_cases hj with ⟨rfl, rfl⟩ | ⟨_, hj⟩
    · exact hname k hk huse hs.symm
    · exact hrem ⟨r, j, hj, hs, hr⟩

lemma Inv.only_name (hinv : Inv P s owned held) (hk : k < ROOT_ENTRIES)
    (huse : (s.slot P k).inUse = true) {l : ℕ} (hl : l < ROOT_ENTRIES) (hne : l ≠ k)
    (hluse : (s.slot P l).inUse = true) : (s.slot P l).inodeSector ≠ (s.slot P k).inodeSector :=
  fun heq => hne (hinv.distinct l hl k hk hluse huse heq)

lemma removeInode_sound (hinv : Inv P s owned (q :: held)) (hq : s.At q h) (hk : k < ROOT_ENTRIES)
    (huse : (s.slot P k).inUse = true) (hh : (s.slot P k).inodeSector = h)
    (ha : s.fsDevice.Agree b (rootInode P.root).Holds)
    (hslot : slotAt b P.root k = { s.slot P k with inUse := false })
    (hother : ∀ l ≠ k, slotBytes b P.root l = slotBytes s.fsDevice P.root l) :
    (do
      Prog.atom (inodeRemove q)
      inodeClose (some q)
      return true : FsProg Bool).Sound (Quietly L P) (s.tick.setDevice b) fun r s' => r = true ∧
        ∃ owned', owned'.Sub owned ∧ Inv P s' owned' held ∧ Kept P owned' {k} s s' ∧
          (s'.slot P k).inUse = false ∧ (∀ q h, q ∈ held → s.At q h → s'.At q h) ∧
          (s.Lucky → s.Synced P → s'.Synced P) := by
  obtain ⟨i, hi, rfl⟩ := hq
  have hfree : (slotAt b P.root k).inUse = false := by rw [hslot]
  have hinv1 : Inv P (s.tick.setDevice b) owned (q :: held) := by
    refine hinv.write_entry ha hother fun hbad => ?_
    rw [hfree] at hbad
    cases hbad
  have hi1 : (s.tick.setDevice b).inodes q = some i := hi
  obtain ⟨hle, _, _⟩ := hinv.named k hk huse
  rw [hh] at hle
  obtain ⟨hinv2, hhandle⟩ := hinv1.remove hi1 hle fun l hl hluse => by
    by_cases hlk : l = k
    · subst hlk
      exact absurd (hfree.symm.trans hluse) Bool.false_ne_true
    · have hsame : (s.tick.setDevice b).slot P l = s.slot P l :=
        congrArg DirEntry.decode (hother l hlk)
      rw [hsame] at hluse ⊢
      rw [← hh]
      exact hinv.only_name hk huse hl hlk hluse
  have hremove : inodeRemove q (s.tick.setDevice b) =
      .ok ((), (s.tick.setDevice b).setInode q { i with removed := true }) := by
    rw [inodeRemove, deref_some hi1]
    rfl
  refine .atom_bind hremove (fun _ => .same fun _ _ => rfl) ?_
  refine .bind (close_removed hinv2 (update_self ..) rfl)
    fun _ s3 ⟨owned', hsub, hinv3, hkept, hat, hsync⟩ => .pure ⟨rfl, owned', hsub, hinv3, ?_⟩
  have hkept1 : Kept P owned {k} s ((s.tick.setDevice b).setInode q { i with removed := true }) :=
    { hinv.kept_entry ha hother with handle := hhandle }
  refine ⟨(hkept1.mono hsub (fun _ hl => hl)).trans (hkept.mono (fun _ _ ho => ho)
    (Set.empty_subset _)), ?_, fun r h hr hat' => hat r h hr (hat'.setInode hi rfl),
      fun hl hs => ?_⟩
  · rw [hkept.slot hk (Set.notMem_empty k)]
    exact hfree
  · exact hsync (hkept1.lucky hl) (hinv.synced_entry ha hs)

lemma dirRemove_sound (hinv : Inv P s owned held) (hp : s.At p ROOT_DIR_SECTOR) (hheld : p ∈ held) :
    (dirRemove p name).Sound (Quietly L P) s fun r s' => s'.At p ROOT_DIR_SECTOR ∧ match r with
      | true => ∃ k owned', Removes P owned owned' held name k s s'
      | false => s.Still s' ∧ Inv P s' owned held ∧ s.Absent P name := by
  refine .bind (lookup_sound hinv.toCore hp hinv.root name fun _ _ => Still.quietly)
    fun r s1 hlook => ?_
  obtain ⟨hread, hfound⟩ := hlook
  have hinv1 := hread.inv hinv
  cases r with
  | none => exact .pure ⟨hread.at hp, hread.toStill, hinv1, hfound⟩
  | some v =>
    obtain ⟨e, _⟩ := v
    obtain ⟨k, hk, rfl, rfl, hnames, hfirst⟩ := hfound
    obtain ⟨_, ⟨d, hd⟩, hrem⟩ := hinv.named k hk hnames.1
    dsimp only
    rcases inodeOpen_spec hinv1.toCore hd with
      ⟨q, s2, hrun, hc, hq, hs2, hat⟩ | ⟨hrun, hfail⟩
    swap
    · refine .atom_bind hrun (still_tick s1).quietly (.pure ⟨hread.at hp,
        hread.toStill.trans (still_tick s1), hinv1.still (still_tick s1) hinv1.toCore.tick,
        fun hl => ?_⟩)
      rw [hread.lucky hl 0] at hfail
      cases hfail
    refine .atom_bind hrun hs2.quietly ?_
    have hinv2 := hinv1.still hs2 hc
    have hstill := hread.toStill.trans hs2
    have hslot2 : s2.slot P k = s.slot P k := by rw [slot, slot, hstill.fsDevice]
    have hp2 := hat _ _ (hread.at hp)
    have hsector : (s.slot P k).inodeSector < 2 ^ 32 := by
      have hext := (hinv.layout.extent hd).1
      have hsize := s.fsDevice.size_lt
      omega
    have hlen : (s.slot P k).name.length = NAME_MAX + 1 :=
      DirEntry.length_name_decode (length_bytesAt ..)
    dsimp only
    rcases writeEntry_spec (e := { s.slot P k with inUse := false }) hinv2.toCore hp2
      hinv2.root hk.le
        hsector hlen with ⟨b, hwrite, _, ha, hslot, hother⟩ | ⟨hwrite, hfail⟩
    · refine .atom_bind hwrite (fun _ => .clear k hk ?_ ?_ fun l _ hl => ?_) ?_
      · rw [hslot2]
        exact hnames.1
      · rw [hslot2]
        exact hslot
      · exact congrArg DirEntry.decode (hother l hl)
      rw [if_pos rfl]
      refine (removeInode_sound hinv2 hq hk (hslot2 ▸ hnames.1) (by rw [hslot2]) ha
        (by rw [hslot, hslot2]) hother).imp fun r s' hr => ?_
      obtain ⟨rfl, owned', hsub, hinv', hkept, hfree, hat', hsync⟩ := hr
      exact ⟨hat' p _ hheld hp2, k, owned', hstill.kept.trans hkept, hinv', hsub, hk,
        hnames, hfirst,
        hfree, fun hl hs => hsync (hstill.lucky hl) (hstill.synced hs)⟩
    · refine .atom_bind hwrite (still_tick s2).quietly ?_
      rw [if_neg (by decide)]
      have hinv3 := hinv2.still (still_tick s2) hinv2.toCore.tick
      obtain ⟨i, hi, hs⟩ := hq
      have hnot : i.removed = false :=
        Bool.eq_false_iff.2 fun hr => hrem (hstill.removed _ ⟨q, i, hi, hs, hr⟩)
      refine .bind (close_still hinv3 hi hnot) fun _ s4 hclose => .pure ?_
      obtain ⟨hs4, hinv4, hat4⟩ := hclose
      refine ⟨hat4 p _ hheld hp2, hstill.trans ((still_tick s2).trans hs4), hinv4, fun hl => ?_⟩
      have hbad := hfail hk
      rw [hstill.lucky hl 0] at hbad
      cases hbad

lemma filesysRemove_sound (hinv : Inv P s owned held) :
    (filesysRemove name).Sound (Quietly L P) s fun r s' => match r with
      | true => ∃ k owned', Removes P owned owned' held name k s s'
      | false => s.Still s' ∧ Inv P s' owned held ∧ s.Absent P name := by
  refine .bind (dirOpenRoot_sound hinv) fun dir s1 ⟨hs, hdir⟩ => ?_
  cases dir with
  | none =>
    obtain ⟨hinv1, hnot⟩ := hdir
    exact .pure ⟨hs, hinv1, fun hl => absurd hl hnot⟩
  | some =>
    obtain ⟨hinv1, hp, _⟩ := hdir
    refine .bind (dirRemove_sound hinv1 hp List.mem_cons_self) fun r s2 ⟨hp2, hr⟩ => ?_
    cases r with
    | false =>
      obtain ⟨hs2, hinv2, hno⟩ := hr
      refine .bind (dirClose_sound hinv2 hp2) fun _ s3 ⟨hs3, hinv3, _⟩ => ?_
      refine .pure ⟨hs.trans (hs2.trans hs3), hinv3, fun hl l hlt hn => ?_⟩
      exact hno (hs.lucky hl) l hlt (hs.names.2 hn)
    | true =>
      obtain ⟨k, owned', hremove⟩ := hr
      refine .bind (dirClose_sound hremove.inv hp2) fun _ s3 ⟨hs3, hinv3, _⟩ => ?_
      refine .pure ⟨k, owned', hs.kept.trans (hremove.toKept.trans hs3.kept), hinv3, hremove.sub,
        hremove.lt, hs.names.1 hremove.names, fun hl l hlt hn => ?_, ?_, fun hl hsync => ?_⟩
      · exact hremove.first (hs.lucky hl) l hlt (hs.names.2 hn)
      · rw [slot, hs3.fsDevice]
        exact hremove.free
      · exact hs3.synced (hremove.synced (hs.lucky hl) (hs.synced hsync))

/-! ### Closing a file -/

lemma handle_delFile (s : FileSys) (f : ℕ) : (s.delFile f).handle = update s.handle f none := by
  funext g
  by_cases hg : g = f
  · have hfile : (s.delFile f).files f = none := update_self ..
    rw [hg, update_self, handle, hfile]
    rfl
  · have hfile : (s.delFile f).files g = s.files g := update_of_ne hg ..
    rw [update_of_ne hg, handle, handle, hfile]
    rfl

/-- The handle is gone; its inode is owned while it has another or a name. -/
structure Closes (P : Places) (owned owned' : Owned) (held : List ℕ) (f : ℕ) (s s' : FileSys) :
    Prop where
  inv : Inv P s' owned' held
  sub : owned'.Sub owned
  kept : Kept P owned' ∅ (s.delFile f) s'
  synced : s.Lucky → s.Synced P → s'.Synced P

lemma Closes.handle (hclose : Closes P owned owned' held f s s') :
    s'.handle = update s.handle f none := by
  rw [hclose.kept.handle, handle_delFile]

lemma Inv.delFile (hinv : Inv P s owned held) (hx : s.files f = some x)
    (huser : s.freeMapFile ≠ some f) : Inv P (s.delFile f) owned (x.inode :: held) := by
  have hhandle := handle_delFile s f
  have hc : (s.delFile f).Core owned (x.inode :: held) :=
    ⟨hinv.layout, hinv.opened.fileDrop hx, hinv.map⟩
  refine { hc with mapFile := ⟨?_, hinv.mapFile.2⟩, root := hinv.root, user := ?_,
                   named := hinv.named, distinct := hinv.distinct }
  · obtain ⟨g, pos, hg, hh⟩ := hinv.mapFile.1
    refine ⟨g, pos, hg, ?_⟩
    rw [hhandle, update_of_ne, hh]
    rintro rfl
    exact huser hg
  · intro g v hv hg
    rw [hhandle] at hv
    exact hinv.user (update_none_cases hv).2 hg

lemma fileClose_sound (hinv : Inv P s owned held) (hf : (s.handle f).isSome)
    (huser : s.freeMapFile ≠ some f) :
    (fileClose (some f)).Sound (Quietly L P) s fun _ s' =>
      ∃ owned', Closes P owned owned' held f s s' := by
  obtain ⟨v, hv⟩ := Option.isSome_iff_exists.1 hf
  obtain ⟨x, i, hx, _, _⟩ := handle_eq_some hv
  have hdrop : fileDrop f s = .ok (x.inode, s.delFile f) := by
    rw [fileDrop, deref_some hx, ok_bind, (hinv.opened.quiet hx).1, if_neg Bool.false_ne_true]
    rfl
  refine .atom_bind hdrop (fun _ => .same fun _ _ => rfl) ?_
  refine (close_sound (hinv.delFile hx huser)).imp fun _ s' ⟨owned', hsub, hinv', hkept, _,
    hsync⟩ => ?_
  exact ⟨owned', hinv', hsub, hkept, hsync⟩

/-! ### Reading, writing and moving -/

section Positions

variable {pos : ℤ}

lemma handle_setPos (f : ℕ) (hi : s.inodes x.inode = some i) (pos : ℤ) :
    (s.setPos f x pos).handle = update s.handle f (some (i.sector, pos)) := by
  funext g
  by_cases hg : g = f
  · have hfile : (s.setPos f x pos).files f = some { x with pos := pos } := update_self ..
    rw [hg, update_self]
    exact handle_of hfile hi
  · have hfile : (s.setPos f x pos).files g = s.files g := update_of_ne hg ..
    rw [update_of_ne hg, handle, handle, hfile]
    rfl

lemma Inv.setPos (hinv : Inv P s owned held) (hx : s.files f = some x)
    (hi : s.inodes x.inode = some i) (hpos : 0 ≤ pos) : Inv P (s.setPos f x pos) owned held := by
  have hhandle := handle_setPos f hi pos
  have hold := handle_of hx hi
  have hc : (s.setPos f x pos).Core owned held :=
    ⟨hinv.layout, hinv.opened.setPos hx hpos, hinv.map⟩
  refine { hc with mapFile := ⟨?_, hinv.mapFile.2⟩, root := hinv.root, user := ?_,
                   named := hinv.named, distinct := hinv.distinct }
  · obtain ⟨g, p, hg, hh⟩ := hinv.mapFile.1
    by_cases hgf : g = f
    · rw [hgf] at hg hh
      obtain ⟨hsector, _⟩ := Prod.mk.inj (Option.mem_unique hold hh)
      refine ⟨f, pos, hg, ?_⟩
      rw [hhandle, update_self, hsector]
    · refine ⟨g, p, hg, ?_⟩
      rw [hhandle, update_of_ne hgf, hh]
  · intro g v hv hg
    rw [hhandle] at hv
    rcases update_some_cases hv with ⟨rfl, rfl⟩ | ⟨_, hv⟩
    · exact hinv.user (v := (i.sector, x.pos)) hold hg
    · exact hinv.user hv hg

structure Moved (f h : ℕ) (pos : ℤ) (b : Block) (s s' : FileSys) : Prop where
  fsDevice : s'.fsDevice = b
  freeMap : s'.freeMap = s.freeMap
  freeMapFile : s'.freeMapFile = s.freeMapFile
  handle : s'.handle = update s.handle f (some (h, pos))
  lucky : s.Lucky → s'.Lucky

section

variable (hinv : Inv P s owned held)
include hinv

/-- **`file_read`** returns the bytes at the position of the handle. -/
theorem fileRead_spec (hf : s.handle f = some (h, pos)) (size : ℤ) : ∃ d m s', owned h = some d ∧
      fileRead f size s = .ok (((contents s.fsDevice d).drop pos.toNat).take m, s') ∧
      Inv P s' owned held ∧ Moved f h (pos + m) s.fsDevice s s' ∧ m ≤ d.avail size pos ∧
      (s.Lucky → m = d.avail size pos) := by
  obtain ⟨x, i, hx, hi, hv⟩ := handle_eq_some hf
  cases hv
  have hpos := (hinv.opened.quiet hx).2
  obtain ⟨m, hread, hle, hall⟩ := inodeReadAt_spec hi (hinv.inside hi) size hpos
  have hwindow : bytesAt s.fsDevice.byte (512 * i.data.start + x.pos.toNat) m =
      ((contents s.fsDevice i.data).drop x.pos.toNat).take m := by
    by_cases hm : m = 0
    · rw [hm, bytesAt_zero, List.take_zero]
    · refine bytesAt_inner _ _ ?_
      unfold InodeDisk.avail at hle
      omega
  have hlen : (((contents s.fsDevice i.data).drop x.pos.toNat).take m).length = m := by
    rw [← hwindow, length_bytesAt]
  rw [hwindow] at hread
  have hinv1 := hinv.still (still_tick s) hinv.toCore.tick
  refine ⟨i.data, m, s.tick.setPos f x (x.pos + m), hinv.opened.data hi, ?_,
    hinv1.setPos hx hi (by omega), ⟨rfl, rfl, rfl, ?_, .tick⟩, hle, fun hl => hall (hl 0)⟩
  · rw [fileRead, deref_some hx, ok_bind, hread, ok_bind]
    dsimp only
    rw [hlen]
    rfl
  · exact handle_setPos (s := s.tick) f hi _

lemma Inv.kept_write (ho : owned h = some d) (hle : 2 ≤ h) (ha : s.fsDevice.Agree b d.Holds) :
    Kept P (update owned h none) ∅ s (s.tick.setDevice b) where
  entry := fun k hk _ => by
    refine slotBytes_agree ha (fun hroot => ?_) hk
    refine hinv.not_root ho ?_ hroot (rootInode_holds P.root)
    simp only [ROOT_DIR_SECTOR]
    omega
  contents := fun {h' d'} ho' _ => by
    obtain ⟨hne, ho'⟩ := update_none_cases ho'
    obtain ⟨h1, h2⟩ := hinv.layout.bounds ho'
    exact contents_agree ha h1 h2 fun y hy => hinv.layout.not_holds_data ho' ho hne hy
  handle := rfl
  freeMapFile := rfl
  bitCnt := rfl
  lucky := .tick

/-- **`file_write`** overwrites the bytes at the position of the handle. -/
theorem fileWrite_spec (hf : s.handle f = some (h, pos))
    (huser : s.freeMapFile ≠ some f) (buffer : ℕ → BitVec 8) (size : ℤ) :
    ∃ d m b s', owned h = some d ∧ fileWrite f buffer size s = .ok (m, s') ∧
      Inv P s' owned held ∧ Moved f h (pos + m) b s s' ∧
      Kept P (update owned h none) ∅ s (s.tick.setDevice b) ∧
      contents b d = splice (contents s.fsDevice d) pos.toNat (bytesAt buffer 0 m) ∧
      m ≤ d.avail size pos ∧ (s.Lucky → m = d.avail size pos) ∧ (s.Synced P → s'.Synced P) := by
  obtain ⟨x, i, hx, hi, hv⟩ := handle_eq_some hf
  have hle := hinv.user hf huser
  cases hv
  have hpos := (hinv.opened.quiet hx).2
  have ho := hinv.opened.data hi
  obtain ⟨b, m, hwrite, ha, hbyte, hm, hall⟩ :=
    inodeWriteAt_spec (hinv.onDisk hi) (hinv.opened.denyWriteCnt hi) buffer size hpos
  have hkept := hinv.kept_write ho hle ha
  have hc : (s.tick.setDevice b).Core owned held :=
    hinv.toCore.tick.setDevice ha (hinv.toCore.not_header hi)
  have hinv1 : Inv P (s.tick.setDevice b) owned held :=
    hinv.of_kept hkept (fun _ hr => hr) hc (fun _ _ => rfl) fun _ _ _ => rfl
  refine ⟨i.data, m, b, (s.tick.setDevice b).setPos f x (x.pos + m), ho, ?_,
    hinv1.setPos hx hi (by omega), ⟨rfl, rfl, rfl, ?_, .tick⟩, hkept, ?_, hm, fun hl => hall (hl 0),
    fun hs => ?_⟩
  · rw [fileWrite, deref_some hx, ok_bind, hwrite, ok_bind]
    rfl
  · exact handle_setPos (s := s.tick.setDevice b) f hi _
  · by_cases h0 : m = 0
    · rw [h0, overwrite_zero] at hbyte
      rw [h0, bytesAt_zero, splice_nil, contents, contents, hbyte]
    · rw [contents, hbyte]
      refine bytesAt_overwrite_inner _ _ _ ?_
      unfold InodeDisk.avail at hm
      omega
  · refine SyncedAt.agree hs hinv.map ha fun y hy => ?_
    refine hinv.layout.not_holds_data hinv.mapFile.2 ho ?_ hy
    simp only [FREE_MAP_SECTOR]
    omega

lemma fileSeek_spec (hf : s.handle f = some (h, pos)) {newPos : ℤ} (hpos : 0 ≤ newPos) :
    ∃ s', fileSeek f newPos s = .ok ((), s') ∧ Inv P s' owned held ∧
      Moved f h newPos s.fsDevice s s' := by
  obtain ⟨x, i, hx, hi, hv⟩ := handle_eq_some hf
  cases hv
  refine ⟨s.setPos f x newPos, ?_, hinv.setPos hx hi hpos, rfl, rfl, rfl, handle_setPos f hi _, id⟩
  rw [fileSeek, ASSERT_of hpos, ok_bind, deref_some hx]
  rfl

lemma fileLength_spec (hf : s.handle f = some (h, pos)) :
    ∃ d, owned h = some d ∧ fileLength f s = .ok (d.length, s) := by
  obtain ⟨x, i, hx, hi, hv⟩ := handle_eq_some hf
  cases hv
  refine ⟨i.data, hinv.opened.data hi, ?_⟩
  rw [fileLength, deref_some hx, ok_bind, deref_some hi]
  rfl

end

lemma fileTell_spec (hf : s.handle f = some (h, pos)) : fileTell f s = .ok (pos, s) := by
  obtain ⟨x, i, hx, _, hv⟩ := handle_eq_some hf
  cases hv
  rw [fileTell, deref_some hx]
  rfl

end Positions

end Pintos.Filesys.FileSys
