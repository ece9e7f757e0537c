/-
# What the file system is

An abstract file system: names stand for files, files are strings of bytes whose length never
changes, and handles are open on a file at a position.  Removing a name leaves the file to the
handles that are open on it.

| abstract | on the device and in memory |
| --- | --- |
| a name of file `i` | an entry in use of the root directory, with the sector of `i` |
| the bytes of file `i` | the data sectors of the inode in the sector of `i` |
| a handle on file `i` | a `struct file` whose inode is the one in the sector of `i` |

A sector may hold one file after the other, but abstract files are never reused: `sectorOf` is
one-to-one only on files with a name or a handle.
-/

import Pintos.Base.Simulation
import Pintos.Filesys.Session

namespace Pintos.Filesys

open Base FileSys Function Option List

/-! ### The abstract file system -/

structure AbstractFs where
  names : CString → Option ℕ
  files : ℕ → List (BitVec 8)
  /-- The file of a handle, and its position. -/
  handles : ℕ → Option (ℕ × ℕ)
  next : ℕ

namespace AbstractFs

def empty : AbstractFs := ⟨fun _ => none, fun _ => [], fun _ => none, 0⟩

def Live (a : AbstractFs) (i : ℕ) : Prop :=
  (∃ name, a.names name = some i) ∨ ∃ f pos, a.handles f = some (i, pos)

def addFile (a : AbstractFs) (name : CString) (bytes : List (BitVec 8)) : AbstractFs :=
  { a with names := update a.names name (some a.next)
           files := update a.files a.next bytes
           next := a.next + 1 }

def removeName (a : AbstractFs) (name : CString) : AbstractFs :=
  { a with names := update a.names name none }

def setHandle (a : AbstractFs) (f : ℕ) (v : Option (ℕ × ℕ)) : AbstractFs :=
  { a with handles := update a.handles f v }

def setBytes (a : AbstractFs) (i : ℕ) (bytes : List (BitVec 8)) : AbstractFs :=
  { a with files := update a.files i bytes }

/-- **What a call does.** -/
inductive Step (a : AbstractFs) : FsOp × FsResult → AbstractFs → Prop
  /-- A new file of zeros. -/
  | created {name : CString} {size : ℤ} : a.names name = none →
      Step a (.filesysCreate name size, .bool true) (a.addFile name (replicate size.toNat 0))
  | notCreated {name : CString} {size : ℤ} : Step a (.filesysCreate name size, .bool false) a
  | opened {name : CString} {i f : ℕ} : a.names name = some i → a.handles f = none →
      Step a (.filesysOpen name, .file (some f)) (a.setHandle f (some (i, 0)))
  | notOpened {name : CString} : a.names name = none → Step a (.filesysOpen name, .file none) a
  /-- The name goes; the file stays with its handles. -/
  | removed {name : CString} {i : ℕ} : a.names name = some i →
      Step a (.filesysRemove name, .bool true) (a.removeName name)
  | notRemoved {name : CString} : a.names name = none →
      Step a (.filesysRemove name, .bool false) a
  /-- The bytes at the position, up to the end of the file. -/
  | read {f i pos : ℕ} {size : ℤ} {bytes : List (BitVec 8)} : a.handles f = some (i, pos) →
      bytes = ((a.files i).drop pos).take size.toNat →
      Step a (.fileRead f size, .bytes bytes) (a.setHandle f (some (i, pos + bytes.length)))
  /-- The bytes at the position are replaced, up to the end of the file. -/
  | written {f i pos m : ℕ} {size : ℤ} {buffer : ℕ → BitVec 8} : a.handles f = some (i, pos) →
      m = min size.toNat ((a.files i).length - pos) →
      Step a (.fileWrite f buffer size, .count m)
        ((a.setBytes i (splice (a.files i) pos (bytesAt buffer 0 m))).setHandle f
          (some (i, pos + m)))
  | sought {f i pos : ℕ} {newPos : ℤ} : a.handles f = some (i, pos) →
      Step a (.fileSeek f newPos, .void) (a.setHandle f (some (i, newPos.toNat)))
  | closed {f i pos : ℕ} : a.handles f = some (i, pos) →
      Step a (.fileClose f, .void) (a.setHandle f none)

section Live

variable {a : AbstractFs} {i f : ℕ} {name : CString} {bytes : List (BitVec 8)}

lemma Live.of_addFile (h : (a.addFile name bytes).Live i) : i = a.next ∨ a.Live i := by
  rcases h with ⟨n, hn⟩ | h
  · rcases update_some_cases hn with ⟨_, hi⟩ | ⟨_, hn⟩
    · exact .inl hi
    · exact .inr (.inl ⟨n, hn⟩)
  · exact .inr (.inr h)

lemma Live.of_removeName (h : (a.removeName name).Live i) : a.Live i := by
  rcases h with ⟨n, hn⟩ | h
  · exact .inl ⟨n, (update_none_cases hn).2⟩
  · exact .inr h

lemma Live.of_setHandle {v : Option (ℕ × ℕ)} (h : (a.setHandle f v).Live i)
    (hv : ∀ {j pos}, v = some (j, pos) → a.Live j) : a.Live i := by
  rcases h with h | ⟨g, pos, hg⟩
  · exact .inl h
  · cases v with
    | none => exact .inr ⟨g, pos, (update_none_cases hg).2⟩
    | some =>
      rcases update_some_cases hg with ⟨_, rfl⟩ | ⟨_, hg⟩
      · exact hv rfl
      · exact .inr ⟨g, pos, hg⟩

end Live

end AbstractFs

/-! ### The relation -/

structure NamesAgree (P : Places) (sectorOf : ℕ → ℕ) (s : FileSys) (names : CString → Option ℕ) :
    Prop where
  named : ∀ {name i}, names name = some i →
    ∃ k < ROOT_ENTRIES, s.Names P k name ∧ (s.slot P k).inodeSector = sectorOf i
  name : ∀ {name k}, k < ROOT_ENTRIES → s.Names P k name →
    ∃ i, names name = some i ∧ sectorOf i = (s.slot P k).inodeSector

structure HandlesAgree (sectorOf : ℕ → ℕ) (s : FileSys) (handles : ℕ → Option (ℕ × ℕ)) :
    Prop where
  handle : ∀ {f}, s.freeMapFile ≠ some f →
    s.handle f = (handles f).map fun v => (sectorOf v.1, (v.2 : ℤ))
  mapFile : ∀ {f}, s.freeMapFile = some f → handles f = none

/-- **The file system represents the abstract one.** -/
structure Represents (P : Places) (owned : Owned) (sectorOf : ℕ → ℕ) (s : FileSys)
    (a : AbstractFs) : Prop where
  inv : Inv P s owned []
  names : NamesAgree P sectorOf s a.names
  handles : HandlesAgree sectorOf s a.handles
  lt : ∀ {i}, a.Live i → i < a.next
  inj : ∀ {i j}, a.Live i → a.Live j → sectorOf i = sectorOf j → i = j
  bytes : ∀ {i d}, a.Live i → owned (sectorOf i) = some d →
    a.files i = Filesys.contents s.fsDevice d

section Agree

variable {P : Places} {sectorOf sectorOf' : ℕ → ℕ} {s s' : FileSys} {names : CString → Option ℕ}
  {handles : ℕ → Option (ℕ × ℕ)} {f h i k pos : ℕ} {name : CString}

section

variable (hn : NamesAgree P sectorOf s names)
include hn

lemma NamesAgree.congr
    (hslot : ∀ l < ROOT_ENTRIES, s'.slot P l = s.slot P l) : NamesAgree P sectorOf s' names where
  named := by
    intro _ i hi
    obtain ⟨l, hl, _, _⟩ := hn.named hi
    refine ⟨l, hl, ?_, ?_⟩
    · rwa [Names, hslot l hl]
    · rwa [hslot l hl]
  name := by
    intro _ l hl hnames
    rw [Names, hslot l hl] at hnames
    rw [hslot l hl]
    exact hn.name hl hnames

lemma NamesAgree.add
    (hslot : ∀ l < ROOT_ENTRIES, l ≠ k → s'.slot P l = s.slot P l) (hk : k < ROOT_ENTRIES)
    (hfree : (s.slot P k).inUse = false) (hnames : s'.Names P k name)
    (hsector : (s'.slot P k).inodeSector = sectorOf' i)
    (hno : ∀ l < ROOT_ENTRIES, ¬ s.Names P l name)
    (hold : ∀ {name' j}, names name' = some j → sectorOf' j = sectorOf j) :
    NamesAgree P sectorOf' s' (update names name (some i)) where
  named := by
    intro _ j hj
    rcases update_some_cases hj with ⟨rfl, rfl⟩ | ⟨_, hj⟩
    · exact ⟨k, hk, hnames, hsector⟩
    · obtain ⟨l, hl, hl', hs⟩ := hn.named hj
      have hlk : l ≠ k := by
        rintro rfl
        rw [Names, hfree] at hl'
        cases hl'.1
      refine ⟨l, hl, ?_, ?_⟩
      · rwa [Names, hslot l hl hlk]
      · rw [hslot l hl hlk, hold hj, hs]
  name := by
    intro name' l hl hl'
    by_cases hlk : l = k
    · rw [hlk] at hl' ⊢
      obtain rfl := DirEntry.hasName_unique hl'.2 hnames.2
      exact ⟨i, update_self .., hsector.symm⟩
    · rw [Names, hslot l hl hlk] at hl'
      obtain ⟨j, hj, hs⟩ := hn.name hl hl'
      have hne : name' ≠ name := by
        rintro rfl
        exact hno l hl hl'
      refine ⟨j, ?_, ?_⟩
      · rwa [update_of_ne hne]
      · rw [hold hj, hs, hslot l hl hlk]

lemma NamesAgree.remove (hslot : ∀ l < ROOT_ENTRIES, l ≠ k → s'.slot P l = s.slot P l)
    (hfree : (s'.slot P k).inUse = false) (hnames : s.Names P k name)
    (honly : ∀ l < ROOT_ENTRIES, s.Names P l name → l = k) :
    NamesAgree P sectorOf s' (update names name none) where
  named := by
    intro _ j hj
    obtain ⟨hne, hj⟩ := update_none_cases hj
    obtain ⟨l, hl, hl', _⟩ := hn.named hj
    have hlk : l ≠ k := by
      rintro rfl
      exact hne (DirEntry.hasName_unique hl'.2 hnames.2)
    refine ⟨l, hl, ?_, ?_⟩
    · rwa [Names, hslot l hl hlk]
    · rwa [hslot l hl hlk]
  name := by
    intro name' l hl hl'
    have hlk : l ≠ k := by
      rintro rfl
      rw [Names, hfree] at hl'
      cases hl'.1
    rw [Names, hslot l hl hlk] at hl'
    obtain ⟨j, _, hs⟩ := hn.name hl hl'
    have hne : name' ≠ name := by
      rintro rfl
      exact hlk (honly l hl hl')
    refine ⟨j, ?_, ?_⟩
    · rwa [update_of_ne hne]
    · rw [hs, hslot l hl hlk]

lemma NamesAgree.eq_none (hno : ∀ l < ROOT_ENTRIES, ¬ s.Names P l name) : names name = none := by
  cases hi : names name with
  | none => rfl
  | some =>
    obtain ⟨k, hk, hnames, _⟩ := hn.named hi
    exact absurd hnames (hno k hk)

end

section

variable (hh : HandlesAgree sectorOf s handles)
include hh

lemma HandlesAgree.congr (hhandle : s'.handle = s.handle) (hfile : s'.freeMapFile = s.freeMapFile)
    (hold : ∀ {f j pos}, handles f = some (j, pos) → sectorOf' j = sectorOf j) :
    HandlesAgree sectorOf' s' handles where
  handle := by
    intro f hf
    rw [hfile] at hf
    rw [hhandle, hh.handle hf]
    cases hv : handles f with
    | none => rfl
    | some => rw [map_some, map_some, hold hv]
  mapFile := by
    intro f hf
    rw [hfile] at hf
    exact hh.mapFile hf

lemma HandlesAgree.update (v : Option (ℕ × ℕ))
    (hne : s.freeMapFile ≠ some f) (hfile : s'.freeMapFile = s.freeMapFile)
    (hhandle : s'.handle = update s.handle f (v.map fun w => (sectorOf w.1, (w.2 : ℤ)))) :
    HandlesAgree sectorOf s' (update handles f v) where
  handle := by
    intro g hg
    rw [hfile] at hg
    rw [hhandle]
    by_cases hgf : g = f
    · rw [hgf, update_self, update_self]
    · rw [update_of_ne hgf, update_of_ne hgf]
      exact hh.handle hg
  mapFile := by
    intro g hg
    rw [hfile] at hg
    rw [update_of_ne]
    · exact hh.mapFile hg
    · rintro rfl
      exact hne hg

lemma HandlesAgree.of_some (hf : handles f = some (i, pos)) :
    s.handle f = some (sectorOf i, (pos : ℤ)) ∧ s.freeMapFile ≠ some f := by
  have hne : s.freeMapFile ≠ some f := by
    intro hfile
    rw [hh.mapFile hfile] at hf
    cases hf
  rw [hh.handle hne, hf]
  exact ⟨rfl, hne⟩

lemma HandlesAgree.exists_of_handle {pos : ℤ}
    (hf : s.handle f = some (h, pos)) (hne : s.freeMapFile ≠ some f) :
    ∃ i n, handles f = some (i, n) ∧ sectorOf i = h ∧ pos = (n : ℤ) := by
  rw [hh.handle hne, map_eq_some_iff] at hf
  obtain ⟨⟨i, n⟩, ha, hv⟩ := hf
  obtain ⟨hi, hn⟩ := Prod.mk.inj hv
  exact ⟨i, n, ha, hi, hn.symm⟩

end

end Agree

variable {size : ℤ} {n : ℕ} {b : Block}

namespace Represents

variable {P : Places} {owned owned' : Owned} {sectorOf : ℕ → ℕ} {s s' : FileSys} {a : AbstractFs}
  {f h i k pos : ℕ} {name : CString} {d : InodeDisk}

lemma owned_of_live (hr : Represents P owned sectorOf s a) (hl : a.Live i) :
    2 ≤ sectorOf i ∧ ∃ d, owned (sectorOf i) = some d := by
  rcases hl with ⟨_, hn⟩ | ⟨f, _, hf⟩
  · obtain ⟨k, hk, hnames, hsector⟩ := hr.names.named hn
    obtain ⟨hle, hd, _⟩ := hr.inv.named k hk hnames.1
    rw [hsector] at hle hd
    exact ⟨hle, hd⟩
  · obtain ⟨hh, hne⟩ := hr.handles.of_some hf
    obtain ⟨x, j, _, hj, hv⟩ := handle_eq_some hh
    obtain ⟨hsector, _⟩ := Prod.mk.inj hv
    refine ⟨hr.inv.user hh hne, j.data, ?_⟩
    rw [hsector]
    exact hr.inv.opened.data hj

lemma names_unique (hr : Represents P owned sectorOf s a) {l : ℕ} (hk : k < ROOT_ENTRIES)
    (hl : l < ROOT_ENTRIES) (h1 : s.Names P k name) (h2 : s.Names P l name) : k = l := by
  obtain ⟨i, hi, hki⟩ := hr.names.name hk h1
  obtain ⟨j, hj, hlj⟩ := hr.names.name hl h2
  obtain rfl := mem_unique hi hj
  exact hr.inv.distinct k hk l hl h1.1 h2.1 (hki.symm.trans hlj)

lemma fresh (hs : s.Fresh) :
    Represents (systemPlaces s.freeMap.bitCnt) (systemOnly s.freeMap) id s .empty where
  inv := hs.inv
  names :=
    { named := nofun
      name := by
        intro _ k hk hnames
        rw [Names, hs.empty k hk] at hnames
        cases hnames.1 }
  handles :=
    { handle := by
        intro f hne
        cases hf : s.handle f with
        | none => rfl
        | some => exact absurd (hs.files f (hf ▸ rfl)) hne
      mapFile := fun _ => rfl }
  lt := by
    rintro i (⟨_, h⟩ | ⟨_, _, h⟩) <;> cases h
  inj := by
    rintro i j (⟨_, h⟩ | ⟨_, _, h⟩) <;> cases h
  bytes := by
    rintro i d (⟨_, h⟩ | ⟨_, _, h⟩) <;> cases h

/-! ### The calls -/

section

variable (hr : Represents P owned sectorOf s a)
include hr

lemma kept (hk : Kept P owned ∅ s s')
    (hinv : Inv P s' owned []) : Represents P owned sectorOf s' a where
  inv := hinv
  names := hr.names.congr fun _ hl => hk.slot hl (Set.notMem_empty _)
  handles := hr.handles.congr hk.handle hk.freeMapFile fun _ => rfl
  lt := hr.lt
  inj := hr.inj
  bytes := by
    intro i d hl hd
    rw [hk.contents hd (hr.owned_of_live hl).1]
    exact hr.bytes hl hd

theorem created (hnew : NewFile P owned [] name size h d k s s')
    (hfree : (s.slot P k).inUse = false) (hno : ∀ l < ROOT_ENTRIES, ¬ s.Names P l name) :
    Represents P (update owned h (some d)) (update sectorOf a.next h) s'
      (a.addFile name (replicate size.toNat 0)) := by
  set sectorOf' := update sectorOf a.next h
  have hnext : sectorOf' a.next = h := update_self ..
  have hold : ∀ {i}, a.Live i → sectorOf' i = sectorOf i := fun hi =>
    update_of_ne (Nat.ne_of_lt (hr.lt hi)) ..
  have hne : ∀ {i}, a.Live i → sectorOf i ≠ h := by
    rintro i hi rfl
    obtain ⟨_, _, hd'⟩ := hr.owned_of_live hi
    rw [hnew.fresh] at hd'
    cases hd'
  refine ⟨hnew.inv, ?_, ?_, fun hi => ?_, fun {i j} hi hj hij => ?_, fun {i d'} hi hd => ?_⟩
  · exact hr.names.add (fun l hl hlk => hnew.slot hl hlk) hnew.lt hfree
      ⟨hnew.inUse, hnew.hasName⟩ (hnew.sector.trans hnext.symm) hno
      fun hj => hold (.inl ⟨_, hj⟩)
  · exact hr.handles.congr hnew.handle hnew.freeMapFile fun hj => hold (.inr ⟨_, _, hj⟩)
  · rcases hi.of_addFile with rfl | hi
    · exact Nat.lt_succ_self _
    · exact Nat.lt_succ_of_lt (hr.lt hi)
  · rcases hi.of_addFile with rfl | hi <;> rcases hj.of_addFile with rfl | hj
    · rfl
    · rw [hnext, hold hj] at hij
      exact absurd hij.symm (hne hj)
    · rw [hnext, hold hi] at hij
      exact absurd hij (hne hi)
    · rw [hold hi, hold hj] at hij
      exact hr.inj hi hj hij
  · rcases hi.of_addFile with rfl | hi
    · rw [hnext, update_self] at hd
      cases hd
      rw [hnew.zeros]
      exact update_self ..
    · rw [hold hi, update_of_ne (hne hi)] at hd
      rw [hnew.contents hd (hr.owned_of_live hi).1, ← hr.bytes hi hd]
      exact update_of_ne (Nat.ne_of_lt (hr.lt hi)) ..

lemma opened (hopen : Opens P owned [] name k f s s')
    (hn : a.names name = some i) (hi : sectorOf i = (s.slot P k).inodeSector) :
    Represents P owned sectorOf s' (a.setHandle f (some (i, 0))) := by
  have hlive : ∀ {j}, (a.setHandle f (some (i, 0))).Live j → a.Live j := by
    refine fun hj => hj.of_setHandle ?_
    rintro _ _ ⟨⟩
    exact .inl ⟨name, hn⟩
  refine ⟨hopen.inv, ?_, ?_, fun hj => hr.lt (hlive hj), fun h1 h2 => hr.inj (hlive h1) (hlive h2),
    fun hj hd => ?_⟩
  · refine hr.names.congr fun l _ => ?_
    rw [slot, slot, hopen.fsDevice]
  · refine hr.handles.update _ (hr.inv.freeMapFile_ne hopen.fresh) hopen.freeMapFile ?_
    rw [hopen.handle, map_some, hi]
    rfl
  · rw [hopen.fsDevice]
    exact hr.bytes (hlive hj) hd

/-- **The name goes**, and with it the file if no handle is open on it. -/
theorem removed (hrem : Removes P owned owned' [] name k s s') :
    Represents P owned' sectorOf s' (a.removeName name) := by
  refine ⟨hrem.inv, ?_, ?_, fun hj => hr.lt hj.of_removeName,
    fun h1 h2 => hr.inj h1.of_removeName h2.of_removeName, fun hj hd => ?_⟩
  · exact hr.names.remove (fun l hl hlk => hrem.slot hl hlk) hrem.free hrem.names
      fun l hl hnames => hr.names_unique hl hrem.lt hnames hrem.names
  · exact hr.handles.congr hrem.handle hrem.freeMapFile fun _ => rfl
  · rw [hrem.contents hd (hr.owned_of_live hj.of_removeName).1]
    exact hr.bytes hj.of_removeName (hrem.sub _ _ hd)

lemma closed (hclose : Closes P owned owned' [] f s s')
    (hne : s.freeMapFile ≠ some f) : Represents P owned' sectorOf s' (a.setHandle f none) := by
  have hlive : ∀ {j}, (a.setHandle f none).Live j → a.Live j := fun hj => hj.of_setHandle nofun
  refine ⟨hclose.inv, ?_, ?_, fun hj => hr.lt (hlive hj), fun h1 h2 => hr.inj (hlive h1) (hlive h2),
    fun hj hd => ?_⟩
  · exact hr.names.congr fun l hl => hclose.kept.slot hl (Set.notMem_empty _)
  · exact hr.handles.update none hne hclose.kept.freeMapFile hclose.handle
  · rw [hclose.kept.contents hd (hr.owned_of_live (hlive hj)).1]
    exact hr.bytes (hlive hj) (hclose.sub _ _ hd)

theorem moved {files : ℕ → List (BitVec 8)} (hf : a.handles f = some (i, pos))
    (hmoved : Moved f (sectorOf i) n b s s') (hinv : Inv P s' owned [])
    (hslot : ∀ l < ROOT_ENTRIES, s'.slot P l = s.slot P l)
    (hbytes : ∀ {j d}, a.Live j → owned (sectorOf j) = some d →
      files j = Filesys.contents s'.fsDevice d) :
    Represents P owned sectorOf s' ({ a with files := files }.setHandle f (some (i, n))) := by
  have hlive : ∀ {j}, ({ a with files := files }.setHandle f (some (i, n))).Live j → a.Live j := by
    refine fun hj => hj.of_setHandle ?_
    rintro _ _ ⟨⟩
    exact .inr ⟨f, pos, hf⟩
  refine ⟨hinv, hr.names.congr hslot, ?_, fun hj => hr.lt (hlive hj),
    fun h1 h2 => hr.inj (hlive h1) (hlive h2), fun hj hd => hbytes (hlive hj) hd⟩
  exact hr.handles.update _ (hr.handles.of_some hf).2 hmoved.freeMapFile hmoved.handle

end

end Represents

/-! ### The simulation -/

/-- A file system without a failure of `malloc` that represents the abstract one. -/
def Refines (s : FileSys) (a : AbstractFs) : Prop :=
  s.Lucky ∧ ∃ P owned sectorOf, s.Synced P ∧ Represents P owned sectorOf s a

section Steps

variable {P : Places} {owned : Owned} {sectorOf : ℕ → ℕ} {s s' : FileSys} {a : AbstractFs}
  {op : FsOp} {r : FsResult}

lemma InodeDisk.avail_eq (d : InodeDisk) (b : Block) (size : ℤ) (n : ℕ) :
    d.avail size n = min size.toNat ((contents b d).length - n) := by
  rw [avail, contents, length_bytesAt]
  omega

section

variable (hr : Represents P owned sectorOf s a) {d : InodeDisk}
include hr

section

variable {f i m : ℕ} (hi : a.handles f = some (i, n)) (hd : owned (sectorOf i) = some d)
  (hinv : Inv P s' owned [])
include hi hd hinv

lemma Represents.read (hmoved : Moved f (sectorOf i) (n + m : ℕ) s.fsDevice s s')
    (hm : m = d.avail size n) :
    ∃ a', a.Step (.fileRead f size, .bytes (((contents s.fsDevice d).drop n).take m)) a' ∧
      Represents P owned sectorOf s' a' := by
  have hbytes := hr.bytes (.inr ⟨f, n, hi⟩) hd
  rw [d.avail_eq s.fsDevice] at hm
  have hlen : (((contents s.fsDevice d).drop n).take m).length = m := by
    rw [length_take, length_drop]
    omega
  have htake : ((contents s.fsDevice d).drop n).take m =
      ((contents s.fsDevice d).drop n).take size.toNat := by
    rw [take_eq_take_iff, length_drop]
    omega
  refine ⟨_, .read hi (hbytes ▸ htake), ?_⟩
  rw [hlen]
  refine hr.moved hi hmoved hinv (fun l _ => ?_) fun hj hd => ?_
  · rw [slot, slot, hmoved.fsDevice]
  · rw [hmoved.fsDevice]
    exact hr.bytes hj hd

/-- **Writing** changes the bytes of the file, and of no other one. -/
theorem Represents.written {buffer : ℕ → BitVec 8}
    (hmoved : Moved f (sectorOf i) (n + m : ℕ) b s s')
    (hkept : Kept P (update owned (sectorOf i) none) ∅ s (s.tick.setDevice b))
    (hb : contents b d = splice (contents s.fsDevice d) n (bytesAt buffer 0 m))
    (hm : m = d.avail size n) :
    ∃ a', a.Step (.fileWrite f buffer size, .count m) a' ∧
      Represents P owned sectorOf s' a' := by
  have hlive : a.Live i := .inr ⟨f, n, hi⟩
  have hbytes := hr.bytes hlive hd
  rw [d.avail_eq s.fsDevice, ← hbytes] at hm
  refine ⟨_, .written hi hm, hr.moved hi hmoved hinv (fun l hl => ?_) fun {j e} hj he => ?_⟩
  · have hslot := hkept.slot hl (Set.notMem_empty l)
    rw [slot, hmoved.fsDevice]
    exact hslot
  · rw [hmoved.fsDevice]
    by_cases hji : j = i
    · rw [hji] at he ⊢
      obtain rfl := mem_unique hd he
      rw [hb, ← hbytes]
      exact update_self ..
    · have hne : sectorOf j ≠ sectorOf i := fun h => hji (hr.inj hj hlive h)
      have he' : update owned (sectorOf i) none (sectorOf j) = some e := by
        rwa [update_of_ne hne]
      have hsame : contents b e = contents s.fsDevice e :=
        hkept.contents he' (hr.owned_of_live hj).1
      rw [hsame, ← hr.bytes hj he]
      exact update_of_ne hji ..

end

lemma Represents.sought {f i : ℕ} {newPos : ℤ} (hi : a.handles f = some (i, n))
    (hpos : 0 ≤ newPos) (hinv : Inv P s' owned [])
    (hmoved : Moved f (sectorOf i) newPos s.fsDevice s s') :
    ∃ a', a.Step (.fileSeek f newPos, .void) a' ∧ Represents P owned sectorOf s' a' := by
  refine ⟨_, .sought hi, ?_⟩
  rw [← Int.toNat_of_nonneg hpos] at hmoved
  refine hr.moved hi hmoved hinv (fun l _ => ?_) fun hj hd => ?_
  · rw [slot, slot, hmoved.fsDevice]
  · rw [hmoved.fsDevice]
    exact hr.bytes hj hd

/-- **Every call is one of the abstract system**, with the same result. -/
theorem Represents.step (hl : s.Lucky) (hlegal : op.Legal s)
    (hout : Outcome P owned [] s s' op r) : ∃ owned' sectorOf' a', a.Step (op, r) a' ∧
      Represents P owned' sectorOf' s' a' := by
  cases hout with
  | created hnew =>
    obtain ⟨⟨_, _, hno, _⟩, hfree⟩ := hnew.addable hl
    exact ⟨_, _, _, .created (hr.names.eq_none hno), hr.created hnew hfree hno⟩
  | createFailed hfail => exact ⟨_, _, _, .notCreated, hr.kept hfail.toKept hfail.inv⟩
  | opened hopen =>
    obtain ⟨i, hn, hi⟩ := hr.names.name hopen.lt hopen.names
    refine ⟨_, _, _, .opened hn ?_, hr.opened hopen hn hi⟩
    have hhandle := hr.handles.handle (hr.inv.freeMapFile_ne hopen.fresh)
    rw [hopen.fresh] at hhandle
    exact map_eq_none_iff.1 hhandle.symm
  | openFailed hstill hinv hno =>
    exact ⟨_, _, _, .notOpened (hr.names.eq_none (hno hl)), hr.kept hstill.kept hinv⟩
  | removed hrem =>
    obtain ⟨i, hn, _⟩ := hr.names.name hrem.lt hrem.names
    exact ⟨_, _, _, .removed hn, hr.removed hrem⟩
  | removeFailed hstill hinv hno =>
    exact ⟨_, _, _, .notRemoved (hr.names.eq_none (hno hl)), hr.kept hstill.kept hinv⟩
  | read hf hd hinv hmoved _ hall =>
    obtain ⟨i, n, hi, rfl, rfl⟩ := hr.handles.exists_of_handle hf hlegal.2
    exact ⟨_, _, hr.read hi hd hinv hmoved (hall hl)⟩
  | written hf _ hd hinv hmoved hkept hb _ hall =>
    obtain ⟨i, n, hi, rfl, rfl⟩ := hr.handles.exists_of_handle hf hlegal.2
    exact ⟨_, _, hr.written hi hd hinv hmoved hkept hb (hall hl)⟩
  | sought hf hpos hinv hmoved =>
    obtain ⟨i, n, hi, rfl, rfl⟩ := hr.handles.exists_of_handle hf hlegal.1.2
    exact ⟨_, _, hr.sought hi hpos hinv hmoved⟩
  | closed hclose =>
    obtain ⟨⟨h, _⟩, hf⟩ := isSome_iff_exists.1 hlegal.1
    obtain ⟨i, n, hi, _, _⟩ := hr.handles.exists_of_handle hf hlegal.2
    exact ⟨_, _, _, .closed hi, hr.closed hclose hlegal.2⟩

end

end Steps

theorem filesys_simulation : Simulation FsStep AbstractFs.Step Refines where
  step := by
    rintro s s' a ⟨_, r⟩ ⟨hl, P, _, _, hsync, hr⟩ hs
    have hout := outcome_of_step hr.inv hs
    obtain ⟨owned', sectorOf', a', hstep, hr'⟩ := hr.step hl hs.1 hout
    exact ⟨a', hstep, hout.lucky hl, P, owned', sectorOf', hout.synced hl hsync, hr'⟩

def FsOp.onHandle : FsOp → Bool
  | .fileRead .. => true
  | .fileWrite .. => true
  | .fileSeek .. => true
  | _ => false

/-- **A call on an open file** leaves directory and free map alone. -/
theorem FileSys.Outcome.system_kept {P : Places} {owned : Owned} {held : List ℕ} {s s' : FileSys}
    {op : FsOp} {r : FsResult} (hout : Outcome P owned held s s' op r) (hop : op.onHandle = true)
    (hinv : Inv P s owned held) :
    fileBytes s'.fsDevice ROOT_DIR_SECTOR = fileBytes s.fsDevice ROOT_DIR_SECTOR ∧
      s'.freeMap = s.freeMap := by
  cases hout with
  | read _ _ _ hmoved | sought _ _ _ hmoved => exact ⟨by rw [hmoved.fsDevice], hmoved.freeMap⟩
  | written _ _ _ hinv' hmoved hkept =>
    refine ⟨?_, hmoved.freeMap⟩
    rw [hinv'.fileBytes_root, hinv.fileBytes_root, hmoved.fsDevice]
    exact rootContents_congr fun k hk => hkept.entry k hk (Set.notMem_empty k)
  | created | createFailed | opened | openFailed | removed | removeFailed | closed => cases hop

/-- **The file system refines the abstract one**: the results of any calls are results of that. -/
theorem filesys_refines {b : Block} {mallocs : ℕ → Bool} {mem : ℕ → BitVec 32}
    {stack : ℕ → BitVec 8} {s₀ s : FileSys} {l : List (FsOp × FsResult)}
    (hm : ∀ n, mallocs n = true) (hinit : filesysInit true b mallocs mem stack = .ok s₀)
    (hl : Trace FsStep s₀ l s) :
    (∃ a, Trace AbstractFs.Step .empty l a ∧ Refines s a) ∧
    (∀ op : FsOp, op.Legal s → ∃ r s', FsStep s (op, r) s') ∧
    (∀ op r s', FsStep s (op, r) s' → op.onHandle = true →
      fileBytes s'.fsDevice ROOT_DIR_SECTOR = fileBytes s.fsDevice ROOT_DIR_SECTOR ∧
      s'.freeMap = s.freeMap ∧ ∀ j < b.size, mapBit (fileBytes s'.fsDevice FREE_MAP_SECTOR) j =
        mapBit (fileBytes s.fsDevice FREE_MAP_SECTOR) j) ∧
    ∀ name size s', FsStep s (.filesysCreate name size, .bool false) s' →
      ¬ (s.Addable s.places name ∧ Room s.freeMap (bytesToSectors size)) := by
  have hs := healthy_of_reaches hm hinit hl.reaches
  obtain ⟨P, _, hinv, hsync⟩ := hs.inv
  refine ⟨?_, fun op hlegal => ?_, fun op r s' hstep hop => ?_, ?_⟩
  · rcases filesysInit_format b mem stack hm with ⟨_, hok, hfresh, _⟩ | ⟨_, e, herr⟩
    · obtain rfl := Except.ok.inj (hinit.symm.trans hok)
      exact filesys_simulation.trace hl
        ⟨hfresh.lucky, _, _, _, hfresh.synced, Represents.fresh hfresh⟩
    · rw [hinit] at herr
      cases herr
  · obtain ⟨r, s', hstep, _⟩ := exists_step hinv hlegal
    exact ⟨r, s', hstep⟩
  · have hout := outcome_of_step hinv hstep
    obtain ⟨_, hinv'⟩ := hout.inv
    obtain ⟨hroot, hmap⟩ := hout.system_kept hop hinv
    refine ⟨hroot, hmap, fun j hj => ?_⟩
    have hsync' := hinv'.synced_iff.1 (hout.synced hs.lucky hsync) j
    rw [hmap, hs.bitCnt] at hsync'
    rw [hsync' hj, hinv.synced_iff.1 hsync j (hs.bitCnt ▸ hj)]
  · rintro name size s' hstep ⟨hadd, hroom⟩
    have hout := outcome_of_step hinv hstep
    rw [hinv.places_eq] at hadd
    cases hout with
    | createFailed hfail => exact (hfail.refused hs.lucky hroom).1 hadd

theorem filesys_refines_session : ∃ s₀ s a,
    filesysInit true blankDevice (fun _ => true) (fun _ => 0) (fun _ => 0) = .ok s₀ ∧
    Trace FsStep s₀ session s ∧ Trace AbstractFs.Step .empty session a ∧ Refines s a := by
  obtain ⟨s₀, s, hinit, hl⟩ := exists_session
  obtain ⟨⟨a, ha, hr⟩, _⟩ := filesys_refines (fun _ => rfl) hinit hl
  exact ⟨s₀, s, a, hinit, hl, ha, hr⟩

end Pintos.Filesys
