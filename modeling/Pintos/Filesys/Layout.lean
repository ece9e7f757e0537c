/-
# Who owns the sectors of the device

Every inode owns its sector and the data sectors from `start` on.  `Owned` is the table of these
inodes, by the sector of the header, and `Layout` what holds of it and the device: no sector belongs
to two inodes, the headers are on disk, and what is owned is marked in the free map.  Marked sectors
may belong to nobody: for a moment while a file is created, and for ever when that fails half way.

`Opened` relates the tables in memory to it: one open inode for a sector, with as many openers as
files refer to it and threads hold it in a call (`held`).
-/

import Pintos.Filesys.Directory
import Pintos.Filesys.OpenTable

namespace Pintos.Filesys

open Base Function InodeDisk

/-! ### Sectors -/

def InodeDisk.Holds (d : InodeDisk) (x : ℕ) : Prop :=
  d.start ≤ x ∧ x < d.start + bytesToSectors d.length

def contents (b : Block) (d : InodeDisk) : List (BitVec 8) :=
  bytesAt b.byte (512 * d.start) d.length.toNat

abbrev Owned := ℕ → Option InodeDisk

def Owned.Uses (owned : Owned) (h x : ℕ) : Prop := ∃ d, owned h = some d ∧ (x = h ∨ d.Holds x)

structure Owned.Wf (owned : Owned) : Prop where
  bounds : ∀ {h d}, owned h = some d → 0 ≤ d.length ∧ d.length < 2 ^ 31
  apart : ∀ {h d}, owned h = some d → ¬ d.Holds h
  disjoint : ∀ {h h' x}, owned.Uses h x → owned.Uses h' x → h = h'

structure Layout (b : Block) (map : Bitmap) (owned : Owned) : Prop extends owned.Wf where
  writable : b.type ≠ .BLOCK_FOREIGN
  bitCnt : map.bitCnt = b.size
  header : ∀ {h d}, owned h = some d → decode (b.sectors h) = d
  extent : ∀ {h d}, owned h = some d → h < b.size ∧ d.start + bytesToSectors d.length ≤ b.size
  marked : ∀ {h x}, owned.Uses h x → map.bit x = true

section Devices

variable {b b' : Block} {S : ℕ → Prop} {d : InodeDisk}

lemma InodeDisk.holds_byte {i : ℕ} (h1 : 0 ≤ d.length) (h2 : d.length < 2 ^ 31)
    (hi : i < d.length.toNat) : d.Holds ((512 * d.start + i) / 512) := by
  have := le_bytesToSectors h1 h2
  constructor <;> omega

theorem contents_agree (h : b.Agree b' S) (h1 : 0 ≤ d.length) (h2 : d.length < 2 ^ 31)
    (hS : ∀ x, d.Holds x → ¬ S x) : contents b' d = contents b d :=
  bytesAt_congr _ _ _ _ _ fun _ hi => h.byte (hS _ (holds_byte h1 h2 hi))

lemma agree_of_overwrite {o n : ℕ} {buffer : ℕ → BitVec 8} (h1 : 0 ≤ d.length)
    (h2 : d.length < 2 ^ 31) (htype : b'.type = b.type) (hsize : b'.size = b.size)
    (hbyte : b'.byte = overwrite b.byte (512 * d.start + o) n buffer)
    (hn : 0 < n → o + n ≤ d.length.toNat) : b.Agree b' d.Holds := by
  refine ⟨htype, hsize, fun {x} hx => Block.sectors_eq fun k hk => ?_⟩
  rw [hbyte, overwrite, if_neg]
  rintro ⟨_, _⟩
  -- A byte of the window lies in a sector of the file.
  have hheld := holds_byte (d := d) (i := 512 * x + k - 512 * d.start) h1 h2 (by omega)
  rw [show (512 * d.start + (512 * x + k - 512 * d.start)) / 512 = x by omega] at hheld
  exact hx hheld

end Devices

/-! ### The layout -/

section Ownership

variable {owned owned' : Owned} {h h' x : ℕ} {d d' : InodeDisk}

lemma Owned.uses_header (ho : owned h = some d) : owned.Uses h h := ⟨d, ho, .inl rfl⟩

lemma Owned.uses_data (ho : owned h = some d) (hx : d.Holds x) : owned.Uses h x :=
  ⟨d, ho, .inr hx⟩

lemma Owned.Wf.not_holds_header (hw : owned.Wf) (ho : owned h = some d)
    (ho' : owned h' = some d') : ¬ d.Holds h' := by
  intro hx
  obtain rfl : h = h' := hw.disjoint (uses_data ho hx) (uses_header ho')
  exact hw.apart ho hx

lemma Owned.Wf.not_holds_data (hw : owned.Wf) (ho : owned h = some d)
    (ho' : owned h' = some d') (hne : h ≠ h') (hx : d.Holds x) : ¬ d'.Holds x :=
  fun hx' => hne (hw.disjoint (uses_data ho hx) (uses_data ho' hx'))

def Owned.Sub (owned' owned : Owned) : Prop := ∀ h d, owned' h = some d → owned h = some d

lemma Owned.Sub.uses (hsub : owned'.Sub owned) (hu : owned'.Uses h x) : owned.Uses h x := by
  obtain ⟨d, ho, hx⟩ := hu
  exact ⟨d, hsub h d ho, hx⟩

lemma Owned.sub_update_some (hnone : owned h = none) : owned.Sub (update owned h (some d)) := by
  intro _ _ ho
  rw [update_of_ne, ho]
  rintro rfl
  rw [hnone] at ho
  cases ho

lemma Owned.update_none_sub : Owned.Sub (update owned h none) owned := by
  intro _ _ ho
  exact (update_none_cases ho).2

lemma Owned.uses_update (hu : Owned.Uses (update owned h (some d)) h' x) :
    (h' = h ∧ (x = h ∨ d.Holds x)) ∨ (h' ≠ h ∧ owned.Uses h' x) := by
  obtain ⟨d', ho, hx⟩ := hu
  rcases update_some_cases ho with ⟨rfl, rfl⟩ | ⟨hh, ho⟩
  · exact .inl ⟨rfl, hx⟩
  · exact .inr ⟨hh, d', ho, hx⟩

end Ownership

namespace Layout

variable {b b' : Block} {map map' : Bitmap} {owned owned' : Owned} {S : ℕ → Prop} {h x : ℕ}
  {d : InodeDisk}

section

variable (hl : Layout b map owned)
include hl

lemma inside (ho : owned h = some d) : d.Inside b.size := by
  obtain ⟨h1, h2⟩ := hl.bounds ho
  have hle := le_bytesToSectors h1 h2
  have hext := (hl.extent ho).2
  exact ⟨h1, h2, by omega⟩

lemma agree (ha : b.Agree b' S) (hS : ∀ h d, owned h = some d → ¬ S h) : Layout b' map owned where
  toWf := hl.toWf
  writable := by rw [ha.type]; exact hl.writable
  bitCnt := by rw [ha.size]; exact hl.bitCnt
  header := fun ho => by rw [ha.sectors (hS _ _ ho)]; exact hl.header ho
  extent := fun ho => by rw [ha.size]; exact hl.extent ho
  marked := hl.marked

lemma remap (hcnt : map'.bitCnt = map.bitCnt)
    (hbit : ∀ h x, owned.Uses h x → map'.bit x = true) : Layout b map' owned :=
  { hl with
    bitCnt := hcnt.trans hl.bitCnt
    marked := fun hu => hbit _ _ hu }

lemma sub (hsub : owned'.Sub owned) : Layout b map owned' where
  bounds := fun ho => hl.bounds (hsub _ _ ho)
  apart := fun ho => hl.apart (hsub _ _ ho)
  disjoint := fun hu hu' => hl.disjoint (hsub.uses hu) (hsub.uses hu')
  writable := hl.writable
  bitCnt := hl.bitCnt
  header := fun ho => hl.header (hsub _ _ ho)
  extent := fun ho => hl.extent (hsub _ _ ho)
  marked := fun hu => hl.marked (hsub.uses hu)

lemma own (h1 : 0 ≤ d.length) (h2 : d.length < 2 ^ 31) (hheader : decode (b.sectors h) = d)
    (hext : h < b.size ∧ d.start + bytesToSectors d.length ≤ b.size) (hapart : ¬ d.Holds h)
    (hmarked : ∀ x, x = h ∨ d.Holds x → map.bit x = true)
    (hfree : ∀ h' x, owned.Uses h' x → ¬ (x = h ∨ d.Holds x)) :
    Layout b map (update owned h (some d)) where
  bounds := forall_update hl.bounds ⟨h1, h2⟩
  apart := forall_update hl.apart hapart
  disjoint := by
    intro _ _ x hu1 hu2
    rcases Owned.uses_update hu1 with ⟨rfl, hx1⟩ | ⟨_, hv1⟩
    · rcases Owned.uses_update hu2 with ⟨rfl, _⟩ | ⟨_, hv2⟩
      · rfl
      · exact absurd hx1 (hfree _ _ hv2)
    · rcases Owned.uses_update hu2 with ⟨rfl, hx2⟩ | ⟨_, hv2⟩
      · exact absurd hx2 (hfree _ _ hv1)
      · exact hl.disjoint hv1 hv2
  writable := hl.writable
  bitCnt := hl.bitCnt
  header := forall_update hl.header hheader
  extent := forall_update hl.extent hext
  marked := by
    intro _ x hu
    rcases Owned.uses_update hu with ⟨_, hx⟩ | ⟨_, hu⟩
    · exact hmarked x hx
    · exact hl.marked hu

end

end Layout

/-! ### The tables of open inodes and files -/

/-- Nobody denies writes: `file_deny_write` has no caller. -/
structure Opened (openInodes : List ℕ) (inodes : ℕ → Option Inode) (files : ℕ → Option File)
    (brk : ℕ) (owned : Owned) (held : List ℕ) : Prop
    extends OpenTable openInodes inodes files brk held where
  data : ∀ {p i}, inodes p = some i → owned i.sector = some i.data
  removed : ∀ {p i}, inodes p = some i → i.removed = true → 2 ≤ i.sector
  quiet : ∀ {f x}, files f = some x → x.denyWrite = false ∧ 0 ≤ x.pos

namespace Opened

variable {openInodes : List ℕ} {inodes : ℕ → Option Inode} {files : ℕ → Option File} {brk : ℕ}
  {owned owned' : Owned} {held held' : List ℕ} {p f : ℕ} {i i' : Inode} {x : File} {d : InodeDisk}

section

variable (ho : Opened openInodes inodes files brk owned held)
include ho

lemma denyWriteCnt (hi : inodes p = some i) : i.denyWriteCnt = 0 := by
  have hnone : deniers files brk p = 0 := by
    refine tally_eq_zero.2 fun f _ x hx => ?_
    rw [(ho.quiet hx).1, Bool.and_false]
  rw [ho.deny hi, hnone]
  rfl

lemma perm (hp : held.Perm held') : Opened openInodes inodes files brk owned held' :=
  { ho with toOpenTable := ho.toOpenTable.perm hp }

lemma reown (hdata : ∀ {p i}, inodes p = some i → owned' i.sector = some i.data) :
    Opened openInodes inodes files brk owned' held :=
  { ho with data := hdata }

lemma recount (hi : inodes p = some i) (hsector : i'.sector = i.sector) (hdata : i'.data = i.data)
    (hremoved : i'.removed = true → i.removed = true ∨ 2 ≤ i.sector)
    (ht : OpenTable openInodes (update inodes p (some i')) files brk held') :
    Opened openInodes (update inodes p (some i')) files brk owned held' := by
  refine { ht with data := ?_, removed := ?_, quiet := ho.quiet }
  · intro q j hj
    rcases update_some_cases hj with ⟨rfl, rfl⟩ | ⟨_, hj⟩
    · rw [hsector, hdata]
      exact ho.data hi
    · exact ho.data hj
  · intro q j hj hr
    rcases update_some_cases hj with ⟨rfl, rfl⟩ | ⟨_, hj⟩
    · rw [hsector]
      rcases hremoved hr with hr | hle
      · exact ho.removed hi hr
      · exact hle
    · exact ho.removed hj hr

lemma reopen (hi : inodes p = some i) :
    Opened openInodes (update inodes p (some { i with openCnt := i.openCnt + 1 })) files
      brk owned (p :: held) :=
  ho.recount hi rfl rfl .inl (ho.toOpenTable.reopen hi)

end

lemma drop (ho : Opened openInodes inodes files brk owned (p :: held)) (hi : inodes p = some i)
    (hmore : i.openCnt - 1 ≠ 0) :
    Opened openInodes (update inodes p (some { i with openCnt := i.openCnt - 1 })) files
      brk owned held :=
  ho.recount hi rfl rfl .inl (ho.toOpenTable.drop hi hmore)

lemma remove (ho : Opened openInodes inodes files brk owned held) (hi : inodes p = some i)
    (hsector : 2 ≤ i.sector) :
    Opened openInodes (update inodes p (some { i with removed := true })) files brk owned
      held :=
  ho.recount hi rfl rfl (fun _ => .inr hsector) (ho.toOpenTable.mark hi rfl rfl rfl)

lemma openNew (ho : Opened openInodes inodes files brk owned held) {sector : ℕ}
    (howned : owned sector = some d) (hnew : ∀ {p i}, inodes p = some i → i.sector ≠ sector) :
    Opened (brk :: openInodes) (update inodes brk (some ⟨sector, 1, false, 0, d⟩)) files
      (brk + 1) owned (brk :: held) := by
  refine { ho.toOpenTable.openNew hnew with data := ?_, removed := ?_, quiet := ho.quiet }
  · exact forall_update ho.data howned
  · intro q j hj hr
    rcases update_some_cases hj with ⟨rfl, rfl⟩ | ⟨_, hj⟩
    · cases hr
    · exact ho.removed hj hr

lemma dropLast (ho : Opened openInodes inodes files brk owned (p :: held))
    (hi : inodes p = some i) (hlast : i.openCnt - 1 = 0) :
    Opened (openInodes.erase p) (update inodes p none) files brk owned held :=
  { ho.toOpenTable.dropLast hi hlast with
    data := fun hj => ho.data (update_none_cases hj).2
    removed := fun hj => ho.removed (update_none_cases hj).2
    quiet := ho.quiet }

lemma fileNew (ho : Opened openInodes inodes files brk owned (p :: held)) :
    Opened openInodes inodes (update files brk (some ⟨p, 0, false⟩)) (brk + 1) owned
      held := by
  refine { ho.toOpenTable.fileNew with data := ho.data, removed := ho.removed, quiet := ?_ }
  exact forall_update ho.quiet ⟨rfl, le_refl _⟩

lemma fileDrop (ho : Opened openInodes inodes files brk owned held) (hx : files f = some x) :
    Opened openInodes inodes (update files f none) brk owned (x.inode :: held) :=
  { ho.toOpenTable.fileDrop hx (ho.quiet hx).1 with
    data := ho.data
    removed := ho.removed
    quiet := fun hy => ho.quiet (update_none_cases hy).2 }

lemma setPos (ho : Opened openInodes inodes files brk owned held) (hx : files f = some x)
    {pos : ℤ} (hpos : 0 ≤ pos) :
    Opened openInodes inodes (update files f (some { x with pos := pos })) brk owned
      held := by
  refine { ho.toOpenTable.setPos hx pos with data := ho.data, removed := ho.removed, quiet := ?_ }
  exact forall_update ho.quiet ⟨(ho.quiet hx).1, hpos⟩

end Opened

end Pintos.Filesys
