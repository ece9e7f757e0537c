/-
# The root directory

The root directory is a file of 16 entries in one sector; `slotAt` is an entry on the device.
`FileSys.Inv` holds between two actions: the tables agree (`FileSys.Core`), the free map file is
open and the other open files are files of users, and an entry in use names an inode that is owned
and not removed, no two the same.  `FileSys.Kept` says what an action leaves alone: entries, bytes
of files, and what open files refer to.

`RootStep` is how the directory may change: a free entry takes a name that no entry in use has, or
an entry in use is cleared.
-/

import Mathlib.Data.List.GetD
import Pintos.Filesys.Steps

namespace Pintos.Filesys

open Base List DirEntry

/-! ### Names and entries -/

section Names

variable {e : DirEntry} {name name' : CString} {dst : List (BitVec 8)}

lemma terminated_unique {l l' r r' : List (BitVec 8)} (h : (0 : BitVec 8) ∉ l)
    (h' : (0 : BitVec 8) ∉ l') (heq : l ++ [0] ++ r = l' ++ [0] ++ r') : l = l' := by
  induction l generalizing l' with
  | nil =>
    cases l' with
    | nil => rfl
    | cons =>
      obtain ⟨rfl, _⟩ := List.cons.inj heq
      exact absurd mem_cons_self h'
  | cons c l ih =>
    cases l' with
    | nil =>
      obtain ⟨rfl, _⟩ := List.cons.inj heq
      exact absurd mem_cons_self h
    | cons =>
      obtain ⟨rfl, hrest⟩ := List.cons.inj heq
      rw [ih (fun hm => h (mem_cons_of_mem _ hm)) (fun hm => h' (mem_cons_of_mem _ hm)) hrest]

lemma DirEntry.hasName_unique (h : e.hasName name = true) (h' : e.hasName name' = true) :
    name = name' := by
  obtain ⟨r, hr⟩ := isPrefixOf_iff_prefix.1 h
  obtain ⟨_, hr'⟩ := isPrefixOf_iff_prefix.1 h'
  have hbytes := terminated_unique name.zero_notMem name'.zero_notMem (hr.trans hr'.symm)
  cases name
  cases name'
  simpa using hbytes

lemma DirEntry.hasName_strlcpy {sector : ℕ} {inUse : Bool} (h : name.bytes.length ≤ NAME_MAX) :
    (⟨sector, strlcpy dst name, inUse⟩ : DirEntry).hasName name = true := by
  refine isPrefixOf_iff_prefix.2 ?_
  rw [strlcpy, take_of_length_le h]
  exact prefix_append ..

lemma length_strlcpy (h : dst.length = NAME_MAX + 1) :
    (strlcpy dst name).length = NAME_MAX + 1 := by
  simp only [strlcpy, length_append, length_take, length_drop, length_singleton, h]
  omega

lemma DirEntry.length_name_decode {bytes : List (BitVec 8)} (h : bytes.length = DIR_ENTRY_SIZE) :
    (decode bytes).name.length = NAME_MAX + 1 := by
  simp [decode, h, DIR_ENTRY_SIZE, NAME_MAX]

lemma DirEntry.length_encode (h : e.name.length = NAME_MAX + 1) :
    e.encode.length = DIR_ENTRY_SIZE := by
  simp [encode, h, DIR_ENTRY_SIZE, NAME_MAX]

lemma DirEntry.decode_encode (hs : e.inodeSector < 2 ^ 32) (hn : e.name.length = NAME_MAX + 1) :
    decode e.encode = e := by
  have hsector : e.encode.take 4 = leBytes e.inodeSector := by
    rw [encode, append_assoc, take_left' (length_leBytes _)]
  have hname : (e.encode.drop 4).take (NAME_MAX + 1) = e.name := by
    rw [encode, append_assoc, drop_left' (length_leBytes _), take_left' hn]
  have huse : e.encode.getD 19 0 = if e.inUse then 1 else 0 := by
    have hlen : (leBytes e.inodeSector ++ e.name).length = 19 := by
      rw [length_append, length_leBytes, hn]
      rfl
    rw [encode, getD_append_right _ _ _ _ (by omega), hlen]
    rfl
  have hflag : ((if e.inUse then 1 else 0 : BitVec 8) != 0) = e.inUse := by
    cases e.inUse <;> rfl
  rw [decode, hsector, hname, huse, leWord_leBytes hs, hflag]

end Names

/-! ### Entries on the device -/

def slotAt (b : Block) (root k : ℕ) : DirEntry :=
  decode (bytesAt b.byte (512 * root + DIR_ENTRY_SIZE * k) DIR_ENTRY_SIZE)

def slotBytes (b : Block) (root k : ℕ) : List (BitVec 8) :=
  bytesAt b.byte (512 * root + DIR_ENTRY_SIZE * k) DIR_ENTRY_SIZE

def ROOT_ENTRIES : ℕ := 16

def rootInode (root : ℕ) : InodeDisk := ⟨root, ROOT_ENTRIES * DIR_ENTRY_SIZE, INODE_MAGIC⟩

section Slots

variable {s : FileSys} {owned : Owned} {held : List ℕ} {root p k : ℕ} {b b' : Block} {S : ℕ → Prop}

lemma rootInode_holds (root : ℕ) : (rootInode root).Holds root := by
  constructor
  · exact le_refl _
  · change root < root + bytesToSectors (ROOT_ENTRIES * DIR_ENTRY_SIZE)
    rw [bytesToSectors_of_lt (by decide) (by decide)]
    simp [ROOT_ENTRIES, DIR_ENTRY_SIZE]

lemma slotBytes_agree (ha : b.Agree b' S) (hS : ¬ S root) (hk : k < ROOT_ENTRIES) :
    slotBytes b' root k = slotBytes b root k := by
  refine bytesAt_congr _ _ _ _ _ fun o ho => ha.byte ?_
  simp only [ROOT_ENTRIES, DIR_ENTRY_SIZE] at hk ho ⊢
  rwa [show (512 * root + 20 * k + o) / 512 = root by omega]

lemma s32_slot (hk : k ≤ ROOT_ENTRIES) : s32 (DIR_ENTRY_SIZE * k) = (DIR_ENTRY_SIZE * k : ℕ) := by
  refine if_pos ?_
  simp only [ROOT_ENTRIES, DIR_ENTRY_SIZE] at hk ⊢
  omega

lemma rootInode_avail (hk : k ≤ ROOT_ENTRIES) :
    (rootInode root).avail DIR_ENTRY_SIZE (DIR_ENTRY_SIZE * k : ℕ) =
      if k < ROOT_ENTRIES then DIR_ENTRY_SIZE else 0 := by
  split_ifs with hlt
  all_goals
    simp only [InodeDisk.avail, rootInode, ROOT_ENTRIES, DIR_ENTRY_SIZE] at hk hlt ⊢
    omega

theorem readEntry_spec (hc : s.Core owned held) (hp : s.At p ROOT_DIR_SECTOR)
    (ho : owned ROOT_DIR_SECTOR = some (rootInode root)) (hk : k ≤ ROOT_ENTRIES) :
    ∃ buffer, inodeReadAt p DIR_ENTRY_SIZE (s32 (DIR_ENTRY_SIZE * k)) s = .ok (buffer, s.tick) ∧
      buffer.length ≤ DIR_ENTRY_SIZE ∧
      (buffer.length = DIR_ENTRY_SIZE → k < ROOT_ENTRIES ∧
        decode buffer = slotAt s.fsDevice root k) ∧
      (s.mallocs 0 = true → k < ROOT_ENTRIES → buffer.length = DIR_ENTRY_SIZE) := by
  obtain ⟨i, hi, _, hdata⟩ := hp.data hc
  obtain hroot : i.data = rootInode root := Option.mem_unique hdata ho
  obtain ⟨m, hread, hle, hall⟩ := inodeReadAt_spec hi (hc.inside hi) DIR_ENTRY_SIZE
    (Int.natCast_nonneg (DIR_ENTRY_SIZE * k))
  rw [hroot, rootInode_avail hk] at hle hall
  rw [hroot, Int.toNat_natCast] at hread
  rw [s32_slot hk]
  refine ⟨_, hread, ?_, ?_, ?_⟩
  · rw [length_bytesAt]
    split_ifs at hle <;> omega
  · rw [length_bytesAt]
    rintro rfl
    have hlt : k < ROOT_ENTRIES := by
      by_contra hge
      rw [if_neg hge] at hle
      exact absurd hle (by decide)
    exact ⟨hlt, rfl⟩
  · intro hm hlt
    rw [length_bytesAt, hall hm, if_pos hlt]

lemma writeLoop_small {d : InodeDisk} {buffer : ℕ → BitVec 8} {fuel written : ℕ} {size offset : ℤ}
    (hsize : size < BLOCK_SECTOR_SIZE) :
    writeLoop d false buffer fuel b size offset written = .ok (b, written) := by
  cases fuel with
  | zero => rfl
  | succ =>
    have hchunk : chunkSize d size offset ≤ size := by
      unfold chunkSize
      dsimp only
      split_ifs <;> omega
    have hpart : ¬ (sectorOfs offset = 0 ∧ chunkSize d size offset = BLOCK_SECTOR_SIZE) := by
      rintro ⟨_, _⟩
      omega
    rw [writeLoop]
    dsimp only
    rw [if_neg hpart, if_neg Bool.false_ne_true, ite_self, ite_self]
    rfl

lemma writeEntry_spec (hc : s.Core owned held) (hp : s.At p ROOT_DIR_SECTOR)
    (ho : owned ROOT_DIR_SECTOR = some (rootInode root)) (hk : k ≤ ROOT_ENTRIES) {e : DirEntry}
    (hs : e.inodeSector < 2 ^ 32) (hn : e.name.length = NAME_MAX + 1) :
    (∃ b, inodeWriteAt p (fun o => e.encode.getD o 0) DIR_ENTRY_SIZE (s32 (DIR_ENTRY_SIZE * k)) s =
          .ok (DIR_ENTRY_SIZE, s.tick.setDevice b) ∧ k < ROOT_ENTRIES ∧
        s.fsDevice.Agree b (rootInode root).Holds ∧ slotAt b root k = e ∧
        ∀ l ≠ k, slotBytes b root l = slotBytes s.fsDevice root l) ∨
      (inodeWriteAt p (fun o => e.encode.getD o 0) DIR_ENTRY_SIZE (s32 (DIR_ENTRY_SIZE * k)) s =
          .ok (0, s.tick) ∧ (k < ROOT_ENTRIES → s.mallocs 0 = false)) := by
  obtain ⟨i, hi, _, hdata⟩ := hp.data hc
  obtain hroot : i.data = rootInode root := Option.mem_unique hdata ho
  rw [s32_slot hk]
  cases hm : s.mallocs 0 with
  | false =>
    refine .inr ⟨?_, fun _ => rfl⟩
    rw [inodeWriteAt, deref_some hi, Kernel.ok_bind, if_neg (not_not.2 (hc.opened.denyWriteCnt hi))]
    dsimp only [FileSys.malloc]
    rw [hm, writeLoop_small (by decide), Kernel.ok_bind]
    rfl
  | true =>
    obtain ⟨b, m, hwrite, ha, hbyte, _, hall⟩ :=
      inodeWriteAt_spec (hc.onDisk hi) (hc.opened.denyWriteCnt hi) (fun o => e.encode.getD o 0)
        DIR_ENTRY_SIZE (Int.natCast_nonneg (DIR_ENTRY_SIZE * k))
    obtain hm' := hall hm
    rw [hroot, rootInode_avail hk] at hm'
    rw [hroot, Int.toNat_natCast] at hbyte
    rw [hroot] at ha
    by_cases hlt : k < ROOT_ENTRIES
    · rw [if_pos hlt] at hm'
      subst hm'
      refine .inl ⟨b, hwrite, hlt, ha, ?_, fun l hl => ?_⟩
      · have hbytes : bytesAt (fun o => e.encode.getD o 0) 0 DIR_ENTRY_SIZE = e.encode := by
          refine ext_getElem ?_ fun o h1 h2 => ?_
          · rw [length_bytesAt, length_encode hn]
          · rw [getElem_bytesAt, Nat.zero_add, getD_eq_getElem _ _ h2]
        rw [slotAt, hbyte, rootInode, bytesAt_overwrite, hbytes, decode_encode hs hn]
      · rw [slotBytes, slotBytes, hbyte, rootInode]
        refine bytesAt_overwrite_of_disjoint _ _ _ _ _ _ ?_
        simp only [DIR_ENTRY_SIZE]
        omega
    · rw [if_neg hlt] at hm'
      subst hm'
      rw [overwrite_zero] at hbyte
      have hsame : b = s.fsDevice := by
        have hsectors : b.sectors = s.fsDevice.sectors :=
          funext fun x => Block.sectors_eq fun o _ => by rw [hbyte]
        have htype := ha.type
        have hsize := ha.size
        cases b
        cases hdev : s.fsDevice
        simp only [hdev] at htype hsize hsectors
        subst htype hsize hsectors
        rfl
      refine .inr ⟨?_, fun h => absurd h hlt⟩
      rw [hwrite, hsame]
      rfl

end Slots

/-! ### The invariant of the file system -/

/-- Where the data of the free map file and the root directory is. -/
structure Places where
  map : ℕ
  root : ℕ

inductive RootStep (slots slots' : ℕ → DirEntry) : Prop
  | same : (∀ k < ROOT_ENTRIES, slots' k = slots k) → RootStep slots slots'
  /-- A free entry takes a name that no entry in use has. -/
  | add (k : ℕ) (name : CString) : k < ROOT_ENTRIES → (slots k).inUse = false →
      (slots' k).inUse = true → (slots' k).hasName name = true →
      (∀ l < ROOT_ENTRIES, (slots l).inUse = true → (slots l).hasName name = false) →
      (∀ l < ROOT_ENTRIES, l ≠ k → slots' l = slots l) → RootStep slots slots'
  | clear (k : ℕ) : k < ROOT_ENTRIES → (slots k).inUse = true →
      slots' k = { slots k with inUse := false } →
      (∀ l < ROOT_ENTRIES, l ≠ k → slots' l = slots l) → RootStep slots slots'

namespace FileSys

def slot (s : FileSys) (P : Places) (k : ℕ) : DirEntry := slotAt s.fsDevice P.root k

/-- Kept are the entries outside `K`, the bytes of files and the open files. -/
structure Kept (P : Places) (owned : Owned) (K : Set ℕ) (s s' : FileSys) : Prop where
  entry : ∀ k < ROOT_ENTRIES, k ∉ K →
    slotBytes s'.fsDevice P.root k = slotBytes s.fsDevice P.root k
  contents : ∀ {h d}, owned h = some d → 2 ≤ h →
    Filesys.contents s'.fsDevice d = Filesys.contents s.fsDevice d
  handle : s'.handle = s.handle
  freeMapFile : s'.freeMapFile = s.freeMapFile
  bitCnt : s'.freeMap.bitCnt = s.freeMap.bitCnt
  lucky : s.Lucky → s'.Lucky

/-- **The invariant of the file system.** -/
structure Inv (P : Places) (s : FileSys) (owned : Owned) (held : List ℕ) : Prop
    extends s.Core owned held where
  mapFile : s.MapFile P.map owned
  root : owned ROOT_DIR_SECTOR = some (rootInode P.root)
  user : ∀ {f v}, s.handle f = some v → s.freeMapFile ≠ some f → 2 ≤ v.1
  named : ∀ k < ROOT_ENTRIES, (s.slot P k).inUse = true → 2 ≤ (s.slot P k).inodeSector ∧
    (∃ d, owned (s.slot P k).inodeSector = some d) ∧ ¬ s.Removed (s.slot P k).inodeSector
  distinct : ∀ k < ROOT_ENTRIES, ∀ l < ROOT_ENTRIES, (s.slot P k).inUse = true →
    (s.slot P l).inUse = true → (s.slot P k).inodeSector = (s.slot P l).inodeSector → k = l

structure SameTables (s s' : FileSys) : Prop where
  inodes : s'.inodes = s.inodes
  files : s'.files = s.files
  openInodes : s'.openInodes = s.openInodes
  brk : s'.brk = s.brk

/-- The directory changes as it should, if `L` holds. -/
def Quietly (L : Prop) (P : Places) (s s' : FileSys) : Prop := L → RootStep (s.slot P) (s'.slot P)

section Kept

variable {P : Places} {owned owned' same : Owned} {K : Set ℕ} {s s' s'' : FileSys}
  {held held' : List ℕ} {p h : ℕ} {L : Prop}

lemma SameTables.refl (s : FileSys) : s.SameTables s := ⟨rfl, rfl, rfl, rfl⟩

lemma SameTables.saved (s : FileSys) (map : Bitmap) (b : Block) : s.SameTables (s.saved map b) :=
  ⟨rfl, rfl, rfl, rfl⟩

lemma SameTables.trans (h1 : s.SameTables s') (h2 : s'.SameTables s'') : s.SameTables s'' :=
  ⟨h2.inodes.trans h1.inodes, h2.files.trans h1.files, h2.openInodes.trans h1.openInodes,
    h2.brk.trans h1.brk⟩

lemma SameTables.opened (ht : s.SameTables s')
    (ho : Opened s.openInodes s.inodes s.files s.brk owned held) :
    Opened s'.openInodes s'.inodes s'.files s'.brk owned held := by
  rw [ht.openInodes, ht.inodes, ht.files, ht.brk]
  exact ho

lemma SameTables.at (ht : s.SameTables s') (ha : s.At p h) : s'.At p h := by
  unfold At
  rw [ht.inodes]
  exact ha

lemma Kept.slot (hkept : Kept P owned K s s') {k : ℕ} (hk : k < ROOT_ENTRIES) (hK : k ∉ K) :
    s'.slot P k = s.slot P k :=
  congrArg decode (hkept.entry k hk hK)

lemma Kept.trans (h1 : Kept P owned K s s') (h2 : Kept P owned K s' s'') :
    Kept P owned K s s'' where
  entry := fun k hk hK => (h2.entry k hk hK).trans (h1.entry k hk hK)
  contents := fun ho hh => (h2.contents ho hh).trans (h1.contents ho hh)
  handle := h2.handle.trans h1.handle
  freeMapFile := h2.freeMapFile.trans h1.freeMapFile
  bitCnt := h2.bitCnt.trans h1.bitCnt
  lucky := fun hl => h2.lucky (h1.lucky hl)

lemma Kept.mono {K' : Set ℕ} (hk : Kept P owned K s s') (hsub : owned'.Sub owned) (hK : K ⊆ K') :
    Kept P owned' K' s s' :=
  { hk with
    entry := fun k hlt hnot => hk.entry k hlt fun hin => hnot (hK hin)
    contents := fun ho hh => hk.contents (hsub _ _ ho) hh }

lemma Still.kept (hs : s.Still s') : Kept P owned K s s' where
  entry := fun _ _ _ => by rw [hs.fsDevice]
  contents := fun _ _ => by rw [hs.fsDevice]
  handle := hs.handle
  freeMapFile := hs.freeMapFile
  bitCnt := by rw [hs.freeMap]
  lucky := hs.lucky

lemma Kept.refl (s : FileSys) : Kept P owned K s s := (Still.refl s).kept

lemma Kept.quietly (hk : Kept P owned ∅ s s') : Quietly L P s s' :=
  fun _ => .same fun k hlt => hk.slot hlt (Set.notMem_empty k)

lemma Still.quietly (hs : s.Still s') : Quietly L P s s' := by
  have hk : Kept P (fun _ => none) ∅ s s' := hs.kept
  exact hk.quietly

section

variable (hinv : Inv P s owned held)
include hinv

/-- **What is kept keeps the invariant**, if inodes of the system or with a name stay owned. -/
theorem Inv.of_kept (hk : Kept P same ∅ s s') (hrem : ∀ h, s'.Removed h → s.Removed h)
    (hc : s'.Core owned' held') (hsys : ∀ h < 2, owned' h = owned h)
    (hnames : ∀ k < ROOT_ENTRIES, (s.slot P k).inUse = true →
      owned' (s.slot P k).inodeSector = owned (s.slot P k).inodeSector) :
    Inv P s' owned' held' := by
  have hslot : ∀ k < ROOT_ENTRIES, s'.slot P k = s.slot P k :=
    fun k hlt => hk.slot hlt (Set.notMem_empty k)
  refine { hc with mapFile := ⟨?_, ?_⟩, root := ?_, user := ?_, named := ?_, distinct := ?_ }
  · rw [hk.freeMapFile, hk.handle]
    exact hinv.mapFile.1
  · rw [mapInode_congr P.map hk.bitCnt, hsys FREE_MAP_SECTOR (by decide)]
    exact hinv.mapFile.2
  · rw [hsys ROOT_DIR_SECTOR (by decide)]
    exact hinv.root
  · rw [hk.freeMapFile, hk.handle]
    exact hinv.user
  · intro k hlt huse
    rw [hslot k hlt] at huse ⊢
    obtain ⟨hle, hd, hnot⟩ := hinv.named k hlt huse
    rw [hnames k hlt huse]
    exact ⟨hle, hd, fun hr => hnot (hrem _ hr)⟩
  · intro k hk' l hl hku hlu heq
    rw [hslot k hk'] at hku heq
    rw [hslot l hl] at hlu heq
    exact hinv.distinct k hk' l hl hku hlu heq

lemma Inv.still (hs : s.Still s') (hc : s'.Core owned held') : Inv P s' owned held' := by
  have hk : Kept P owned ∅ s s' := hs.kept
  exact hinv.of_kept hk hs.removed hc (fun _ _ => rfl) fun _ _ _ => rfl

lemma Inv.kept_agree {S : ℕ → Prop} (ha : s.fsDevice.Agree s'.fsDevice S)
    (hS : ∀ h x, owned.Uses h x → 1 ≤ h → ¬ S x) (ht : s.SameTables s')
    (hfile : s'.freeMapFile = s.freeMapFile) (hcnt : s'.freeMap.bitCnt = s.freeMap.bitCnt)
    (hlucky : s.Lucky → s'.Lucky) :
    Kept P owned ∅ s s' where
  entry := fun k hlt _ => by
    have hroot := Owned.uses_data hinv.root (rootInode_holds P.root)
    exact slotBytes_agree ha (hS _ _ hroot (by decide)) hlt
  contents := fun {h d} ho hh => by
    obtain ⟨h1, h2⟩ := hinv.layout.bounds ho
    exact contents_agree ha h1 h2 fun x hx => hS h x (Owned.uses_data ho hx) (by omega)
  handle := handle_congr ht.files fun _ _ _ => by rw [ht.inodes]
  freeMapFile := hfile
  bitCnt := hcnt
  lucky := hlucky

lemma Inv.kept_saved {map : Bitmap} {b : Block} (hcnt : map.bitCnt = s.freeMap.bitCnt)
    (ha : s.fsDevice.Agree b (mapInode P.map s.freeMap).Holds) :
    Kept P owned ∅ s (s.saved map b) := by
  refine hinv.kept_agree ha (fun h x hu hh hx => ?_) (.saved s map b) rfl hcnt .tick
  have heq := hinv.layout.disjoint hu (Owned.uses_data hinv.mapFile.2 hx)
  simp only [FREE_MAP_SECTOR] at heq
  omega

end

end Kept

/-! ### Searching the directory -/

section Search

variable {P : Places} {owned : Owned} {s s' : FileSys} {held : List ℕ} {p : ℕ}
  {G : FileSys → FileSys → Prop}

def Names (s : FileSys) (P : Places) (k : ℕ) (name : CString) : Prop :=
  (s.slot P k).inUse = true ∧ (s.slot P k).hasName name = true

/-- What `lookup` returns: an entry with the name or none; the first, if no allocation fails. -/
def Found (s : FileSys) (P : Places) (name : CString) : Option (DirEntry × ℕ) → Prop
  | some (e, ofs) => ∃ k < ROOT_ENTRIES, ofs = DIR_ENTRY_SIZE * k ∧ e = s.slot P k ∧
      s.Names P k name ∧ (s.Lucky → ∀ l < k, ¬ s.Names P l name)
  | none => s.Lucky → ∀ l < ROOT_ENTRIES, ¬ s.Names P l name

structure OnlyRead (s s' : FileSys) : Prop extends s.Still s', s.SameTables s'

lemma OnlyRead.refl (s : FileSys) : s.OnlyRead s := ⟨Still.refl s, .refl s⟩

lemma OnlyRead.tick (h : s.OnlyRead s') : s.OnlyRead s'.tick :=
  ⟨h.toStill.trans (still_tick s'), h.inodes, h.files, h.openInodes, h.brk⟩

lemma OnlyRead.trans {s'' : FileSys} (h1 : s.OnlyRead s') (h2 : s'.OnlyRead s'') :
    s.OnlyRead s'' :=
  ⟨h1.toStill.trans h2.toStill, h1.toSameTables.trans h2.toSameTables⟩

lemma OnlyRead.core (h : s.OnlyRead s') (hc : s.Core owned held) : s'.Core owned held := by
  refine ⟨?_, h.opened hc.opened, ?_⟩
  · rw [h.fsDevice, h.freeMap]
    exact hc.layout
  · rw [h.freeMap]
    exact hc.map

lemma OnlyRead.at (h : s.OnlyRead s') {h' : ℕ} (ha : s.At p h') : s'.At p h' :=
  h.toSameTables.at ha

lemma OnlyRead.slot (h : s.OnlyRead s') (k : ℕ) : s'.slot P k = s.slot P k := by
  rw [FileSys.slot, FileSys.slot, h.fsDevice]

section

variable (hc : s.Core owned held) (hp : s.At p ROOT_DIR_SECTOR)
  (ho : owned ROOT_DIR_SECTOR = some (rootInode P.root))
include hc hp ho

lemma lookup_sound (name : CString) (hG : ∀ s s', s.Still s' → G s s') :
    (lookup p name).Sound G s fun r s' => s.OnlyRead s' ∧ s.Found P name r := by
  -- With `n` rounds to go, the first `k` entries were read and do not have the name.
  refine Prog.Sound.loop (fun n ofs s1 => ∃ k, n + k = DIR_ROUNDS ∧ k ≤ ROOT_ENTRIES ∧
    ofs = DIR_ENTRY_SIZE * k ∧ s.OnlyRead s1 ∧ (s.Lucky → ∀ l < k, ¬ s.Names P l name))
    ⟨0, rfl, Nat.zero_le _, rfl, .refl s, fun _ l hl => absurd hl (Nat.not_lt_zero l)⟩ ?_ ?_
  · rintro ofs s1 ⟨k, _, _, _⟩
    have hrounds : ROOT_ENTRIES < DIR_ROUNDS := by decide
    omega
  · rintro n ofs s1 ⟨k, _, hle, rfl, hread, hseen⟩
    obtain ⟨buffer, hbuf, _, hfull, hluck⟩ := readEntry_spec (hread.core hc) (hread.at hp) ho hle
    refine .atom_bind hbuf (hG _ _ (still_tick s1)) ?_
    by_cases hlen : buffer.length = DIR_ENTRY_SIZE
    · obtain ⟨hlt, hdecode⟩ := hfull hlen
      rw [if_pos hlen, hdecode.trans (hread.slot k)]
      by_cases hname : s.Names P k name
      · dsimp only
        rw [if_pos (Bool.and_eq_true_iff.2 hname)]
        exact .pure ⟨hread.tick, k, hlt, rfl, rfl, hname, hseen⟩
      · dsimp only
        rw [if_neg (fun h => hname (Bool.and_eq_true_iff.1 h))]
        refine .pure ⟨k + 1, by omega, by omega, (Nat.mul_succ ..).symm, hread.tick,
          fun hl l hlk => ?_⟩
        rcases Nat.lt_succ_iff_lt_or_eq.1 hlk with hlk | rfl
        · exact hseen hl l hlk
        · exact hname
    · rw [if_neg hlen]
      refine .pure ⟨hread.tick, fun hl l hlt => hseen hl l ?_⟩
      -- A short read without a failure is the end of the file.
      have hend : ¬ k < ROOT_ENTRIES := fun hlt => hlen (hluck (hread.lucky hl 0) hlt)
      omega

/-- **The search for a free slot**, the first or the end of the file, if no allocation fails. -/
theorem slot_sound {e : List (BitVec 8)} (he : e.length = DIR_ENTRY_SIZE)
    (hG : ∀ s s', s.Still s' → G s s') :
    (Prog.loop (slotRound p) id DIR_ROUNDS (0, e)).Sound G s fun r s' => s.OnlyRead s' ∧
      r.2.length = DIR_ENTRY_SIZE ∧ ∃ k ≤ ROOT_ENTRIES, r.1 = DIR_ENTRY_SIZE * k ∧
      (s.Lucky → (∀ l < k, (s.slot P l).inUse = true) ∧
        (k < ROOT_ENTRIES → (s.slot P k).inUse = false)) := by
  refine Prog.Sound.loop (fun n v s1 => ∃ k, n + k = DIR_ROUNDS ∧ k ≤ ROOT_ENTRIES ∧
    v.1 = DIR_ENTRY_SIZE * k ∧ v.2.length = DIR_ENTRY_SIZE ∧ s.OnlyRead s1 ∧
    (s.Lucky → ∀ l < k, (s.slot P l).inUse = true))
    ⟨0, rfl, Nat.zero_le _, rfl, he, .refl s, fun _ l hl => absurd hl (Nat.not_lt_zero l)⟩ ?_ ?_
  · rintro ⟨_, e⟩ s1 ⟨k, _, _, _⟩
    have hrounds : ROOT_ENTRIES < DIR_ROUNDS := by decide
    omega
  · rintro n ⟨_, e⟩ s1 ⟨k, _, hle, hofs, he, hread, hseen⟩
    dsimp only at hofs he
    subst hofs
    obtain ⟨buffer, hbuf, _, hfull, hluck⟩ := readEntry_spec (hread.core hc) (hread.at hp) ho hle
    have hlength : (buffer ++ e.drop buffer.length).length = DIR_ENTRY_SIZE := by
      rw [length_append, length_drop]
      omega
    refine .atom_bind hbuf (hG _ _ (still_tick s1)) ?_
    dsimp only
    by_cases hlen : buffer.length = DIR_ENTRY_SIZE
    · obtain ⟨_, hdecode⟩ := hfull hlen
      have hwhole : buffer ++ e.drop buffer.length = buffer := by
        rw [hlen, ← he, drop_length, append_nil]
      rw [if_pos hlen, hwhole, hdecode.trans (hread.slot k)]
      by_cases huse : (s.slot P k).inUse = true
      · rw [if_pos huse]
        refine .pure ⟨k + 1, by omega, by omega, (Nat.mul_succ ..).symm, hlen, hread.tick,
          fun hl l hlk => ?_⟩
        rcases Nat.lt_succ_iff_lt_or_eq.1 hlk with hlk | rfl
        · exact hseen hl l hlk
        · exact huse
      · rw [if_neg huse]
        refine .pure ⟨hread.tick, hlen, k, hle, rfl, fun hl => ⟨hseen hl, fun _ => ?_⟩⟩
        exact Bool.eq_false_iff.2 huse
    · rw [if_neg hlen]
      refine .pure ⟨hread.tick, hlength, k, hle, rfl, fun hl => ⟨hseen hl, fun hlt => ?_⟩⟩
      exact absurd (hluck (hread.lucky hl 0) hlt) hlen

end

end Search

end FileSys

end Pintos.Filesys
