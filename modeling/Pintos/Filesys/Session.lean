/-
# Sequences of file system calls

`FsOp` are the calls the rest of the kernel makes, on names and on open handles, and `FsStep` is one
call and its result.  `Outcome` says once what a call can do, for each call and result, and what
every session keeps is read off from it.

`places` are where the inodes in the first two sectors say the data of the free map file and of the
root directory is.
-/

import Pintos.Base.Simulation
import Pintos.Filesys.Format

namespace Pintos.Filesys

open Base Function Filesys Prog

/-! ### Files on a device -/

def fileBytes (b : Block) (h : ℕ) : List (BitVec 8) := contents b (InodeDisk.decode (b.sectors h))

def mapBit (bytes : List (BitVec 8)) (j : ℕ) : Bool := (bytes.getD (j / 8) 0).getLsbD (j % 8)

lemma elemOfBytes_getLsbD (byte : ℕ → BitVec 8) (k : ℕ) {t : ℕ} (ht : t < 32) :
    (elemOfBytes byte k).getLsbD t = (byte (4 * k + t / 8)).getLsbD (t % 8) := by
  simp only [elemOfBytes, BitVec.getLsbD_append]
  obtain h | h | h | h : t / 8 = 0 ∨ t / 8 = 1 ∨ t / 8 = 2 ∨ t / 8 = 3 := by omega
  · rw [if_pos (by omega), h, show t % 8 = t by omega, Nat.add_zero]
  · rw [if_neg (by omega), if_pos (by omega), h, show t % 8 = t - 8 by omega]
  · rw [if_neg (by omega), if_neg (by omega), if_pos (by omega), h,
      show t % 8 = t - 8 - 8 by omega]
  · rw [if_neg (by omega), if_neg (by omega), if_neg (by omega), h,
      show t % 8 = t - 8 - 8 - 8 by omega]

variable {b : Block} {map : Bitmap} {s' : FileSys}

lemma mapBit_contents {m j : ℕ} (h : map.bitCnt + 31 < 2 ^ 32) (hj : j < map.bitCnt) :
    mapBit (contents b (mapInode m map)) j = diskBit b m j := by
  have hsize := bitmapFileSize_eq h
  have hlt : j / 8 < (contents b (mapInode m map)).length := by
    rw [contents, length_bytesAt, mapInode, hsize]
    dsimp only
    omega
  have hbyte : 4 * (j / 32) + j % 32 / 8 = j / 8 := by omega
  have hbit : j % 32 % 8 = j % 8 := by omega
  rw [mapBit, List.getD_eq_getElem _ _ hlt, diskBit,
    elemOfBytes_getLsbD _ _ (Nat.mod_lt _ (by decide)), hbyte, hbit]
  simp only [contents, getElem_bytesAt, mapInode]

namespace FileSys

def places (s : FileSys) : Places :=
  ⟨(InodeDisk.decode (s.fsDevice.sectors FREE_MAP_SECTOR)).start,
    (InodeDisk.decode (s.fsDevice.sectors ROOT_DIR_SECTOR)).start⟩

section System

variable {P : Places} {s : FileSys} {owned : Owned} {held : List ℕ}

lemma Inv.places_eq (hinv : Inv P s owned held) : s.places = P := by
  rw [places, hinv.layout.header hinv.mapFile.2, hinv.layout.header hinv.root]
  rfl

lemma Inv.fileBytes_map (hinv : Inv P s owned held) : fileBytes s.fsDevice FREE_MAP_SECTOR =
      contents s.fsDevice (mapInode P.map s.freeMap) := by
  rw [fileBytes, hinv.layout.header hinv.mapFile.2]

lemma Inv.fileBytes_root (hinv : Inv P s owned held) :
    fileBytes s.fsDevice ROOT_DIR_SECTOR = contents s.fsDevice (rootInode P.root) := by
  rw [fileBytes, hinv.layout.header hinv.root]

lemma rootContents_congr {b' : Block} {root : ℕ}
    (h : ∀ k < ROOT_ENTRIES, slotBytes b' root k = slotBytes b root k) :
    contents b' (rootInode root) = contents b (rootInode root) := by
  refine bytesAt_congr _ _ _ _ _ fun o ho => ?_
  have hlt : o < ROOT_ENTRIES * DIR_ENTRY_SIZE := ho
  simp only [ROOT_ENTRIES, DIR_ENTRY_SIZE] at hlt
  have hbyte := (bytesAt_inj _ _ _ _ _).1 (h (o / 20) (show o / 20 < 16 by omega)) (o % 20)
    (Nat.mod_lt _ (by decide))
  simp only [DIR_ENTRY_SIZE] at hbyte
  rwa [show 512 * root + 20 * (o / 20) + o % 20 = 512 * root + o by omega] at hbyte

lemma Kept.fileBytes_root {same owned' : Owned} {held' : List ℕ} (hk : Kept P same ∅ s s')
    (hinv : Inv P s owned held) (hinv' : Inv P s' owned' held') :
    fileBytes s'.fsDevice ROOT_DIR_SECTOR = fileBytes s.fsDevice ROOT_DIR_SECTOR := by
  rw [hinv'.fileBytes_root, hinv.fileBytes_root]
  exact rootContents_congr fun k hlt => hk.entry k hlt (Set.notMem_empty k)

lemma Inv.synced_iff (hinv : Inv P s owned held) : s.Synced P ↔ ∀ j < s.freeMap.bitCnt,
      mapBit (fileBytes s.fsDevice FREE_MAP_SECTOR) j = s.freeMap.bit j := by
  refine forall₂_congr fun j hj => ?_
  rw [hinv.fileBytes_map, mapBit_contents hinv.map hj]

end System

end FileSys

/-! ### Room -/

/-- A free run of `cnt` sectors behind the first free sector, which is for the inode. -/
def Room (map : Bitmap) (cnt : ℕ) : Prop :=
  ∃ x < map.bitCnt, map.bit x = false ∧ (∀ j < x, map.bit j = true) ∧
    ∃ y, y + cnt ≤ map.bitCnt ∧ ∀ j, y ≤ j → j < y + cnt → map.bit j = false ∧ j ≠ x

lemma Grabs.eq_first {map' : Bitmap} {x x' : ℕ} (hg : Grabs map x' 1 map')
    (hx : map.bit x = false) (hfirst : ∀ j < x, map.bit j = true) : x' = x := by
  have hfree := hg.free x' (le_refl _) (Nat.lt_succ_self _)
  rcases Nat.lt_trichotomy x' x with hlt | rfl | hlt
  · rw [hfirst x' hlt] at hfree
    cases hfree
  · rfl
  · refine absurd ?_ (hg.first x hlt)
    intro j _ _
    rwa [show j = x by omega]

/-! ### Calls -/

inductive FsOp
  | filesysCreate (name : CString) (initialSize : ℤ)
  | filesysOpen (name : CString)
  | filesysRemove (name : CString)
  | fileRead (file : ℕ) (size : ℤ)
  | fileWrite (file : ℕ) (buffer : ℕ → BitVec 8) (size : ℤ)
  | fileSeek (file : ℕ) (newPos : ℤ)
  | fileClose (file : ℕ)

inductive FsResult
  | bool (ok : Bool)
  | file (file : Option ℕ)
  | bytes (buffer : List (BitVec 8))
  | count (bytesWritten : ℕ)
  | void
deriving DecidableEq

namespace FsOp

def Handle (s : FileSys) (f : ℕ) : Prop := (s.handle f).isSome ∧ s.freeMapFile ≠ some f

/-- What the source asserts of a size or position of type `off_t`; and handles are open. -/
def Legal (s : FileSys) : FsOp → Prop
  | .filesysCreate _ initialSize => 0 ≤ initialSize ∧ initialSize < 2 ^ 31
  | .filesysOpen _ => True
  | .filesysRemove _ => True
  | .fileRead f _ => Handle s f
  | .fileWrite f _ _ => Handle s f
  | .fileSeek f newPos => Handle s f ∧ 0 ≤ newPos
  | .fileClose f => Handle s f

def exec : FsOp → FsProg FsResult
  | .filesysCreate name initialSize => do return .bool (← Filesys.filesysCreate name initialSize)
  | .filesysOpen name => do return .file (← Filesys.filesysOpen name)
  | .filesysRemove name => do return .bool (← Filesys.filesysRemove name)
  | .fileRead f size => do return .bytes (← atom (Filesys.fileRead f size))
  | .fileWrite f buffer size => do return .count (← atom (Filesys.fileWrite f buffer size))
  | .fileSeek f newPos => do
    atom (Filesys.fileSeek f newPos)
    return .void
  | .fileClose f => do
    Filesys.fileClose (some f)
    return .void

def changesNames : FsOp → Bool
  | .filesysCreate .. => true
  | .filesysRemove .. => true
  | _ => false

def after (op : FsOp) (ok : Bool) (had : CString → Prop) (name : CString) : Prop :=
  match op, ok with
  | .filesysCreate new _, true => had name ∨ name = new
  | .filesysRemove old, true => had name ∧ name ≠ old
  | _, _ => had name

end FsOp

def FsStep (s : FileSys) (e : FsOp × FsResult) (s' : FileSys) : Prop :=
  e.1.Legal s ∧ e.1.exec.run s = .ok (e.2, s')

namespace FileSys

/-- **What a call can do.** -/
inductive Outcome (P : Places) (owned : Owned) (held : List ℕ) (s s' : FileSys) :
    FsOp → FsResult → Prop
  | created {name : CString} {size : ℤ} {h : ℕ} {d : InodeDisk} {k : ℕ} :
      NewFile P owned held name size h d k s s' →
      Outcome P owned held s s' (.filesysCreate name size) (.bool true)
  | createFailed {name : CString} {size : ℤ} : CreateFails P owned held name size s s' →
      Outcome P owned held s s' (.filesysCreate name size) (.bool false)
  | opened {name : CString} {k f : ℕ} : Opens P owned held name k f s s' →
      Outcome P owned held s s' (.filesysOpen name) (.file (some f))
  | openFailed {name : CString} : s.Still s' → Inv P s' owned held →
      (s.Lucky → ∀ l < ROOT_ENTRIES, ¬ s.Names P l name) →
      Outcome P owned held s s' (.filesysOpen name) (.file none)
  | removed {name : CString} {owned' : Owned} {k : ℕ} : Removes P owned owned' held name k s s' →
      Outcome P owned held s s' (.filesysRemove name) (.bool true)
  | removeFailed {name : CString} : s.Still s' → Inv P s' owned held →
      (s.Lucky → ∀ l < ROOT_ENTRIES, ¬ s.Names P l name) →
      Outcome P owned held s s' (.filesysRemove name) (.bool false)
  | read {f h m : ℕ} {pos size : ℤ} {d : InodeDisk} : s.handle f = some (h, pos) →
      owned h = some d → Inv P s' owned held → Moved f h (pos + m) s.fsDevice s s' →
      m ≤ d.avail size pos → (s.Lucky → m = d.avail size pos) →
      Outcome P owned held s s' (.fileRead f size)
        (.bytes (((contents s.fsDevice d).drop pos.toNat).take m))
  | written {f h m : ℕ} {pos size : ℤ} {d : InodeDisk} {b : Block} {buffer : ℕ → BitVec 8} :
      s.handle f = some (h, pos) → 2 ≤ h → owned h = some d → Inv P s' owned held →
      Moved f h (pos + m) b s s' →
      Kept P (update owned h none) ∅ s (s.tick.setDevice b) →
      contents b d = splice (contents s.fsDevice d) pos.toNat (bytesAt buffer 0 m) →
      m ≤ d.avail size pos → (s.Lucky → m = d.avail size pos) → (s.Synced P → s'.Synced P) →
      Outcome P owned held s s' (.fileWrite f buffer size) (.count m)
  | sought {f h : ℕ} {pos newPos : ℤ} : s.handle f = some (h, pos) → 0 ≤ newPos →
      Inv P s' owned held → Moved f h newPos s.fsDevice s s' →
      Outcome P owned held s s' (.fileSeek f newPos) .void
  | closed {owned' : Owned} {f : ℕ} : Closes P owned owned' held f s s' →
      Outcome P owned held s s' (.fileClose f) .void

section Calls

variable {P : Places} {s s' : FileSys} {owned : Owned} {held : List ℕ} {op : FsOp} {r : FsResult}
  {L : Prop} {name : CString} {size : ℤ} {k : ℕ}

/-! Each call has one of its outcomes, whatever `malloc` does. -/

section

variable (hinv : Inv P s owned held) {f : ℕ}
include hinv

lemma filesysCreate_outcome (h1 : 0 ≤ size) (h2 : size < 2 ^ 31) (hL : L → s.Lucky) :
    (filesysCreate name size).Sound (Quietly L P) s fun ok s' =>
      Outcome P owned held s s' (.filesysCreate name size) (.bool ok) := by
  refine (filesysCreate_sound hinv h1 h2 hL).imp fun ok s' hr => ?_
  cases ok with
  | true =>
    obtain ⟨h, d, k, hnew⟩ := hr
    exact .created hnew
  | false => exact .createFailed hr

lemma filesysOpen_outcome : (filesysOpen name).Sound (Quietly L P) s fun file s' =>
      Outcome P owned held s s' (.filesysOpen name) (.file file) := by
  refine (filesysOpen_sound hinv).imp fun file s' hr => ?_
  cases file with
  | some =>
    obtain ⟨k, hopen⟩ := hr
    exact .opened hopen
  | none => exact .openFailed hr.1 hr.2.1 hr.2.2

lemma filesysRemove_outcome : (filesysRemove name).Sound (Quietly L P) s fun ok s' =>
      Outcome P owned held s s' (.filesysRemove name) (.bool ok) := by
  refine (filesysRemove_sound hinv).imp fun ok s' hr => ?_
  cases ok with
  | true =>
    obtain ⟨k, _, hremove⟩ := hr
    exact .removed hremove
  | false => exact .removeFailed hr.1 hr.2.1 hr.2.2

lemma fileRead_outcome (hf : FsOp.Handle s f) (size : ℤ) :
    (atom (fileRead f size)).Sound (Quietly L P) s fun buffer s' =>
      Outcome P owned held s s' (.fileRead f size) (.bytes buffer) := by
  obtain ⟨⟨h, _⟩, hh⟩ := Option.isSome_iff_exists.1 hf.1
  obtain ⟨d, m, _, ho, hrun, hinv', hmoved, hle, hall⟩ := fileRead_spec hinv hh size
  refine .atom hrun (fun _ => .same fun k _ => ?_) (.read hh ho hinv' hmoved hle hall)
  rw [slot, slot, hmoved.fsDevice]

lemma fileWrite_outcome (hf : FsOp.Handle s f) (buffer : ℕ → BitVec 8) (size : ℤ) :
    (atom (fileWrite f buffer size)).Sound (Quietly L P) s fun n s' =>
      Outcome P owned held s s' (.fileWrite f buffer size) (.count n) := by
  obtain ⟨⟨h, _⟩, hh⟩ := Option.isSome_iff_exists.1 hf.1
  obtain ⟨d, m, b, _, ho, hrun, hinv', hmoved, hkept, hbytes, hle, hall, hsync⟩ :=
    fileWrite_spec hinv hh hf.2 buffer size
  refine .atom hrun (fun _ => .same fun k hk => ?_)
    (.written hh (hinv.user hh hf.2) ho hinv' hmoved hkept hbytes hle hall hsync)
  have hslot := hkept.slot hk (Set.notMem_empty k)
  rw [slot, hmoved.fsDevice]
  exact hslot

lemma fileSeek_outcome {newPos : ℤ} (hf : FsOp.Handle s f) (hpos : 0 ≤ newPos) :
    (atom (fileSeek f newPos)).Sound (Quietly L P) s fun _ s' =>
      Outcome P owned held s s' (.fileSeek f newPos) .void := by
  obtain ⟨⟨h, _⟩, hh⟩ := Option.isSome_iff_exists.1 hf.1
  obtain ⟨_, hrun, hinv', hmoved⟩ := fileSeek_spec hinv hh hpos
  refine .atom hrun (fun _ => .same fun k _ => ?_) (.sought hh hpos hinv' hmoved)
  rw [slot, slot, hmoved.fsDevice]

lemma fileClose_outcome (hf : FsOp.Handle s f) :
    (fileClose (some f)).Sound (Quietly L P) s fun _ s' =>
      Outcome P owned held s s' (.fileClose f) .void :=
  (fileClose_sound hinv hf.1 hf.2).imp fun _ _ ⟨_, hclose⟩ => .closed hclose

theorem exec_sound (hlegal : op.Legal s) (hL : L → s.Lucky) :
    op.exec.Sound (Quietly L P) s fun r s' => Outcome P owned held s s' op r := by
  cases op with
  | filesysCreate =>
    exact .bind (filesysCreate_outcome hinv hlegal.1 hlegal.2 hL) fun _ _ hr => .pure hr
  | filesysOpen => exact .bind (filesysOpen_outcome hinv) fun _ _ hr => .pure hr
  | filesysRemove => exact .bind (filesysRemove_outcome hinv) fun _ _ hr => .pure hr
  | fileRead f size => exact .bind (fileRead_outcome hinv hlegal size) fun _ _ hr => .pure hr
  | fileWrite f buffer size =>
    exact .bind (fileWrite_outcome hinv hlegal buffer size) fun _ _ hr => .pure hr
  | fileSeek =>
    exact .bind (fileSeek_outcome hinv hlegal.1 hlegal.2) fun _ _ hr => .pure hr
  | fileClose => exact .bind (fileClose_outcome hinv hlegal) fun _ _ hr => .pure hr

lemma outcome_of_step (hs : FsStep s (op, r) s') : Outcome P owned held s s' op r :=
  (exec_sound (L := False) hinv hs.1 nofun).of_run hs.2

lemma exists_step (hlegal : op.Legal s) :
    ∃ r s', FsStep s (op, r) s' ∧ Outcome P owned held s s' op r := by
  obtain ⟨r, s', hrun, hout⟩ := (exec_sound (L := False) hinv hlegal nofun).run_eq
  exact ⟨r, s', ⟨hlegal, hrun⟩, hout⟩

end

/-- **A creation with room** fails because of the name, after the data was allocated. -/
theorem CreateFails.refused (hfail : CreateFails P owned held name size s s') (hl : s.Lucky)
    (hroom : Room s.freeMap (bytesToSectors size)) :
    ¬ s.Addable P name ∧ ∃ x y map map', Grabs s.freeMap x 1 map ∧
      Grabs map y (bytesToSectors size) map' ∧ ∀ j, s'.freeMap.bit j =
        if y ≤ j ∧ j < y + bytesToSectors size then true else s.freeMap.bit j := by
  obtain ⟨x, hxlt, hx, hfirst, y, hy, hrun⟩ := hroom
  rcases hfail.why hl with ⟨hno, _⟩ | ⟨x', map, hg, hno, _⟩ |
    ⟨x', y', map, map', hadd, hx', hy', hbit⟩
  · refine absurd ?_ (hno x hxlt)
    intro j _ _
    rwa [show j = x by omega]
  · obtain rfl := hg.eq_first hx hfirst
    refine absurd ?_ (hno y (hg.bitCnt ▸ hy))
    intro j h1 h2
    obtain ⟨hfree, _⟩ := hrun j h1 h2
    rw [hg.bit, if_neg (by omega)]
    exact hfree
  · exact ⟨hadd, x', y', map, map', hx', hy', hbit⟩

namespace Outcome

section

variable (hout : Outcome P owned held s s' op r)
include hout

/-- **Every call keeps** the invariant, the sizes, the file of the map, and `malloc` not failing. -/
theorem keeps : (∃ owned', Inv P s' owned' held) ∧
    (s.Lucky → s'.Lucky) ∧ s'.freeMap.bitCnt = s.freeMap.bitCnt ∧
      s'.freeMapFile = s.freeMapFile := by
  have hsame {t : FileSys} (h : t.freeMap = s.freeMap) : t.freeMap.bitCnt = s.freeMap.bitCnt := by
    rw [h]
  cases hout with
  | created hnew => exact ⟨⟨_, hnew.inv⟩, hnew.lucky, hnew.bitCnt, hnew.freeMapFile⟩
  | createFailed hfail => exact ⟨⟨_, hfail.inv⟩, hfail.lucky, hfail.bitCnt, hfail.freeMapFile⟩
  | opened hopen => exact ⟨⟨_, hopen.inv⟩, hopen.lucky, hsame hopen.freeMap, hopen.freeMapFile⟩
  | openFailed hs hinv | removeFailed hs hinv =>
    exact ⟨⟨_, hinv⟩, hs.lucky, hsame hs.freeMap, hs.freeMapFile⟩
  | removed hremove => exact ⟨⟨_, hremove.inv⟩, hremove.lucky, hremove.bitCnt, hremove.freeMapFile⟩
  | read _ _ hinv hm | written _ _ _ hinv hm | sought _ _ hinv hm =>
    exact ⟨⟨_, hinv⟩, hm.lucky, hsame hm.freeMap, hm.freeMapFile⟩
  | closed hclose =>
    exact ⟨⟨_, hclose.inv⟩, hclose.kept.lucky, hclose.kept.bitCnt, hclose.kept.freeMapFile⟩

lemma inv : ∃ owned', Inv P s' owned' held := hout.keeps.1

lemma lucky (hl : s.Lucky) : s'.Lucky := hout.keeps.2.1 hl

lemma bitCnt : s'.freeMap.bitCnt = s.freeMap.bitCnt := hout.keeps.2.2.1

lemma freeMapFile : s'.freeMapFile = s.freeMapFile := hout.keeps.2.2.2

theorem synced (hl : s.Lucky) (hs : s.Synced P) : s'.Synced P := by
  have hsame : ∀ {t : FileSys}, t.fsDevice = s.fsDevice → t.freeMap = s.freeMap → t.Synced P := by
    intro t hdev hmap
    rw [Synced, hdev, hmap]
    exact hs
  cases hout with
  | created hnew => exact hnew.synced
  | createFailed hfail => exact hfail.synced hl hs
  | opened hopen => exact hsame hopen.fsDevice hopen.freeMap
  | openFailed hstill | removeFailed hstill => exact hstill.synced hs
  | removed hremove => exact hremove.synced hl hs
  | read _ _ _ hmoved | sought _ _ _ hmoved => exact hsame hmoved.fsDevice hmoved.freeMap
  | written _ _ _ _ _ _ _ _ _ hsync => exact hsync hs
  | closed hclose => exact hclose.synced hl hs

lemma keeps_handle {g : ℕ} (hg : FsOp.Handle s g) (hop : ∀ f, op = .fileClose f → f ≠ g) :
    FsOp.Handle s' g := by
  refine ⟨?_, hout.freeMapFile.trans_ne hg.2⟩
  have hupdate : ∀ {f : ℕ} {v : ℕ × ℤ}, (update s.handle f (some v) g).isSome := by
    intro f v
    by_cases hgf : g = f
    · rw [hgf, update_self]
      rfl
    · rw [update_of_ne hgf]
      exact hg.1
  cases hout with
  | created hnew => exact hnew.handle ▸ hg.1
  | createFailed hfail => exact hfail.handle ▸ hg.1
  | opened hopen => exact hopen.handle ▸ hupdate
  | openFailed hstill | removeFailed hstill => exact hstill.handle ▸ hg.1
  | removed hremove => exact hremove.handle ▸ hg.1
  | read _ _ _ hmoved | written _ _ _ _ hmoved | sought _ _ _ hmoved =>
    exact hmoved.handle ▸ hupdate
  | closed hclose =>
    rw [hclose.handle, update_of_ne (hop _ rfl).symm]
    exact hg.1

end

end Outcome

/-! ### Names -/

def HasName (s : FileSys) (P : Places) (name : CString) : Prop :=
  ∃ k < ROOT_ENTRIES, s.Names P k name

def UniqueNames (s : FileSys) (P : Places) : Prop :=
  ∀ k < ROOT_ENTRIES, ∀ l < ROOT_ENTRIES, ∀ name, s.Names P k name → s.Names P l name → k = l

lemma hasName_congr (hslot : ∀ k < ROOT_ENTRIES, s'.slot P k = s.slot P k) (name : CString) :
    s'.HasName P name ↔ s.HasName P name := by
  refine exists_congr fun k => and_congr_right fun hk => ?_
  rw [Names, Names, hslot k hk]

lemma hasName_add (hk : k < ROOT_ENTRIES) (hfree : (s.slot P k).inUse = false)
    (hnames : s'.Names P k name) (hslot : ∀ l < ROOT_ENTRIES, l ≠ k → s'.slot P l = s.slot P l)
    (m : CString) : s'.HasName P m ↔ s.HasName P m ∨ m = name := by
  constructor
  · rintro ⟨l, hl, hm⟩
    by_cases hlk : l = k
    · rw [hlk] at hm
      exact .inr (DirEntry.hasName_unique hm.2 hnames.2)
    · rw [Names, hslot l hl hlk] at hm
      exact .inl ⟨l, hl, hm⟩
  · rintro (⟨l, hl, hm⟩ | rfl)
    · have hlk : l ≠ k := by
        rintro rfl
        rw [Names, hfree] at hm
        cases hm.1
      refine ⟨l, hl, ?_⟩
      rwa [Names, hslot l hl hlk]
    · exact ⟨k, hk, hnames⟩

lemma hasName_clear (hu : s.UniqueNames P) (hk : k < ROOT_ENTRIES) (hnames : s.Names P k name)
    (hfree : (s'.slot P k).inUse = false)
    (hslot : ∀ l < ROOT_ENTRIES, l ≠ k → s'.slot P l = s.slot P l) (m : CString) :
    s'.HasName P m ↔ s.HasName P m ∧ m ≠ name := by
  constructor
  · rintro ⟨l, hl, hm⟩
    have hlk : l ≠ k := by
      rintro rfl
      rw [Names, hfree] at hm
      cases hm.1
    rw [Names, hslot l hl hlk] at hm
    refine ⟨⟨l, hl, hm⟩, ?_⟩
    rintro rfl
    exact hlk (hu l hl k hk m hm hnames)
  · rintro ⟨⟨l, hl, hm⟩, hne⟩
    have hlk : l ≠ k := by
      rintro rfl
      exact hne (DirEntry.hasName_unique hm.2 hnames.2)
    refine ⟨l, hl, ?_⟩
    rwa [Names, hslot l hl hlk]

theorem UniqueNames.step (hu : s.UniqueNames P) (hs : RootStep (s.slot P) (s'.slot P)) :
    s'.UniqueNames P := by
  intro k hk l hl name hkn hln
  cases hs with
  | same hsame =>
    rw [Names, hsame k hk] at hkn
    rw [Names, hsame l hl] at hln
    exact hu k hk l hl name hkn hln
  | add j new _ _ _ hnew hno hother =>
    -- The new entry is the only one with its name.
    have honly : ∀ {i n}, i < ROOT_ENTRIES → i ≠ j → s'.Names P i n → n ≠ new := by
      rintro i n hi hij hin rfl
      rw [Names, hother i hi hij] at hin
      rw [hno i hi hin.1] at hin
      cases hin.2
    have hsame : ∀ {n}, s'.Names P j n → n = new := fun hn => DirEntry.hasName_unique hn.2 hnew
    by_cases hkj : k = j <;> by_cases hlj : l = j
    · rw [hkj, hlj]
    · rw [hkj] at hkn
      exact absurd (hsame hkn) (honly hl hlj hln)
    · rw [hlj] at hln
      exact absurd (hsame hln) (honly hk hkj hkn)
    · rw [Names, hother k hk hkj] at hkn
      rw [Names, hother l hl hlj] at hln
      exact hu k hk l hl name hkn hln
  | clear j _ _ hclear hother =>
    have hold : ∀ {i}, i < ROOT_ENTRIES → s'.Names P i name → s.Names P i name := by
      intro i hi hin
      by_cases hij : i = j
      · rw [hij, Names, hclear] at hin
        cases hin.1
      · rwa [Names, hother i hi hij] at hin
    exact hu k hk l hl name (hold hk hkn) (hold hl hln)

lemma Outcome.slot_same (hout : Outcome P owned held s s' op r) (hop : op.changesNames = false)
    (k : ℕ) (hk : k < ROOT_ENTRIES) : s'.slot P k = s.slot P k := by
  have hdevice : s'.fsDevice = s.fsDevice → s'.slot P k = s.slot P k := by
    intro hdev
    rw [slot, slot, hdev]
  cases hout with
  | created | createFailed | removed | removeFailed => cases hop
  | opened hopen => exact hdevice hopen.fsDevice
  | openFailed hstill => exact hdevice hstill.fsDevice
  | read _ _ _ hmoved | sought _ _ _ hmoved => exact hdevice hmoved.fsDevice
  | written _ _ _ _ hmoved hkept =>
    have hslot := hkept.slot hk (Set.notMem_empty k)
    rw [slot, hmoved.fsDevice]
    exact hslot
  | closed hclose => exact hclose.kept.slot hk (Set.notMem_empty k)

theorem Outcome.names {ok : Bool} (hout : Outcome P owned held s s' op (.bool ok)) (hl : s.Lucky)
    (hu : s.UniqueNames P) (m : CString) :
    s'.HasName P m ↔ op.after ok (s.HasName P) m := by
  cases hout with
  | created hnew =>
    exact hasName_add hnew.lt (hnew.addable hl).2 ⟨hnew.inUse, hnew.hasName⟩
      (fun l hlt hlk => hnew.slot hlt hlk) m
  | createFailed hfail => exact hasName_congr (fun k hk => hfail.slot hk (Set.notMem_empty k)) m
  | removed hremove =>
    exact hasName_clear hu hremove.lt hremove.names hremove.free
      (fun l hlt hlk => hremove.slot hlt hlk) m
  | removeFailed hstill =>
    refine hasName_congr (fun k _ => ?_) m
    rw [slot, slot, hstill.fsDevice]

end Calls

/-- The file system in a session without a failure of `malloc`. -/
structure Healthy (s : FileSys) (n : ℕ) : Prop where
  inv : ∃ P owned, Inv P s owned [] ∧ s.Synced P
  lucky : s.Lucky
  bitCnt : s.freeMap.bitCnt = n

variable {s : FileSys}

lemma Fresh.healthy (hs : s.Fresh) : s.Healthy s.freeMap.bitCnt :=
  ⟨⟨_, _, hs.inv, hs.synced⟩, hs.lucky, rfl⟩

lemma Healthy.step {e : FsOp × FsResult} {n : ℕ} (h : s.Healthy n) (hs : FsStep s e s') :
    s'.Healthy n := by
  obtain ⟨P, _, hinv, hsync⟩ := h.inv
  have hout := outcome_of_step hinv hs
  obtain ⟨owned', hinv'⟩ := hout.inv
  exact ⟨⟨P, owned', hinv', hout.synced h.lucky hsync⟩, hout.lucky h.lucky,
    hout.bitCnt.trans h.bitCnt⟩

theorem healthy_of_reaches {mallocs : ℕ → Bool} {mem : ℕ → BitVec 32} {stack : ℕ → BitVec 8}
    {s0 : FileSys} (hm : ∀ n, mallocs n = true)
    (hinit : filesysInit true b mallocs mem stack = .ok s0) (hrun : Reaches FsStep Always s0 s) :
    s.Healthy b.size := by
  rcases filesysInit_format b mem stack hm with ⟨s', hok, hfresh, hcnt⟩ | ⟨_, e, herr⟩
  · obtain rfl := Except.ok.inj (hinit.symm.trans hok)
    refine Reaches.invariant (fun s => s.Healthy b.size) ?_ (hcnt ▸ hfresh.healthy) hrun
    intro s e _ h hs _
    exact h.step hs
  · rw [hinit] at herr
    cases herr

end FileSys

def blankDevice : Block := ⟨.BLOCK_FILESYS, 16, fun _ _ => 0, by decide⟩

lemma blankDevice_fresh (mem : ℕ → BitVec 32) (stack : ℕ → BitVec 8) :
    ∃ s, filesysInit true blankDevice (fun _ => true) mem stack = .ok s ∧ s.Fresh ∧
      s.freeMap.bitCnt = 16 := by
  rcases filesysInit_format blankDevice mem stack fun _ => rfl with h | ⟨h, _⟩
  · exact h
  · exact absurd h (by decide)

/-! ### A session -/

instance (s : FileSys) (f : ℕ) : Decidable (FsOp.Handle s f) := inferInstanceAs (Decidable (_ ∧ _))

instance (s : FileSys) (op : FsOp) : Decidable (op.Legal s) := by
  cases op <;> unfold FsOp.Legal <;> infer_instance

/-- A legal call with this result. -/
def replay (s : FileSys) (e : FsOp × FsResult) : Kernel FileSys := do
  ASSERT (e.1.Legal s)
  let (r, s) ← e.1.exec.run s
  ASSERT (r = e.2)
  return s

lemma replay_step {s s' : FileSys} {e : FsOp × FsResult} (h : replay s e = .ok s') :
    FsStep s e s' := by
  simp only [replay, Kernel.bind_eq_ok, ASSERT_eq_ok] at h
  obtain ⟨_, hlegal, ⟨_, _⟩, hrun, _, rfl, h⟩ := h
  cases h
  exact ⟨hlegal, hrun⟩

def nameA : CString := ⟨[97], by decide⟩

/-- A file is created, opened, written, read and removed. -/
def session : List (FsOp × FsResult) :=
  [(.filesysCreate nameA 600, .bool true), (.filesysOpen nameA, .file (some 7)),
    (.fileWrite 7 (fun _ => 5) 3, .count 3), (.fileSeek 7 1, .void),
    (.fileRead 7 4, .bytes [5, 5, 0, 0]), (.filesysRemove nameA, .bool true)]

lemma exists_session : ∃ s₀ s,
    filesysInit true blankDevice (fun _ => true) (fun _ => 0) (fun _ => 0) = .ok s₀ ∧
      Trace FsStep s₀ session s := by
  have hrun : (do
      let s₀ ← filesysInit true blankDevice (fun _ => true) (fun _ => 0) (fun _ => 0)
      let _ ← session.foldlM replay s₀
      return true) = Except.ok true := by decide +kernel
  obtain ⟨s₀, hinit, hrun⟩ := Kernel.bind_eq_ok.1 hrun
  obtain ⟨s, hrun, _⟩ := Kernel.bind_eq_ok.1 hrun
  exact ⟨s₀, s, hinit, .of_foldlM replay_step hrun⟩

end Pintos.Filesys
