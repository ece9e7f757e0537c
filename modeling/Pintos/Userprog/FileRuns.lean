/-
# Calls on files that run alone

What each system call does when no other runs at the same time.  `Files` holds between calls: the
invariant of the file system, and every descriptor is a handle of its own.  `Returned` is what a
call leaves.

Not allowed are arguments that are negative as `off_t` (`inode_create` and `file_seek` assert that
they are not), an `open` with the table of descriptors full, and a `write` whose buffer could not be
copied.
-/

import Pintos.Userprog.FileCalls

namespace Pintos.Userprog.FileCalls

open Base Filesys FileSys Function

/-! ### Between calls -/

/-- **The files of the processes.** -/
structure Files (P : Places) (owned : Owned) (k : FileKernel) : Prop where
  inv : Inv P k.fs owned []
  nextFd : ∀ i, k.nextFd i ≤ 2 + FD_MAX
  table : ∀ {i fd f}, k.fdTable i fd = some f → FsOp.Handle k.fs f
  distinct : ∀ {i fd j gd f}, k.fdTable i fd = some f → k.fdTable j gd = some f → i = j ∧ fd = gd

def Steps (L : Prop) (P : Places) (k k' : FileKernel) : Prop := Quietly L P k.fs k'.fs

structure Keeps (P : Places) (k k' : FileKernel) : Prop where
  files : ∃ owned, Files P owned k'
  lucky : k.fs.Lucky → k'.fs.Lucky
  slot : ∀ l < ROOT_ENTRIES, k'.fs.slot P l = k.fs.slot P l

variable {fs : FileSys} {f : ℕ} {op : FsOp}

section Rules

variable {P : Places} {owned : Owned} {k k' k'' : FileKernel} {L : Prop} {i : ℕ} {α : Type}

lemma Steps.same (h : k'.fs = k.fs) : Steps L P k k' := fun _ => .same fun l _ => by rw [h]

lemma Keeps.trans (h1 : Keeps P k k') (h2 : Keeps P k' k'') : Keeps P k k'' :=
  ⟨h2.files, fun hl => h2.lucky (h1.lucky hl), fun l hl => (h2.slot l hl).trans (h1.slot l hl)⟩

lemma Files.congr (hf : Files P owned k) (hfs : k'.fs = k.fs) (hnext : k'.nextFd = k.nextFd)
    (htable : k'.fdTable = k.fdTable) : Files P owned k' where
  inv := hfs ▸ hf.inv
  nextFd := hnext ▸ hf.nextFd
  table := by
    rw [hfs, htable]
    exact hf.table
  distinct := by
    rw [htable]
    exact hf.distinct

lemma Files.keeps (hf : Files P owned k') (hfs : k'.fs = k.fs) : Keeps P k k' :=
  ⟨⟨owned, hf⟩, fun hl => hfs ▸ hl, fun l _ => by rw [hfs]⟩

lemma Keeps.lock (hk : Keeps P k k') (x : Option ℕ) : Keeps P k { k' with fileLock := x } := by
  obtain ⟨owned, hf⟩ := hk.files
  exact ⟨⟨owned, hf.congr rfl rfl rfl⟩, hk.lucky, hk.slot⟩

lemma onFs_sound {p : FsProg α} {Q : α → FileSys → Prop} (h : p.Sound (Quietly L P) k.fs Q) :
    (onFs p).Sound (Steps L P) k fun a k' => ∃ fs, Q a fs ∧ k' = { k with fs := fs } :=
  h.zoom (fun _ _ => rfl) (fun _ _ _ => rfl) (fun _ => rfl) (fun _ _ hs => hs)
    fun _ fs hQ => ⟨fs, hQ, rfl⟩

/-- **A call of the file system** keeps descriptors that stay handles. -/
theorem Files.keeps_outcome {r : FsResult} (hf : Files P owned k)
    (hout : Outcome P owned [] k.fs fs op r) (hnames : op.changesNames = false)
    (hop : ∀ f, op = .fileClose f → ∀ i fd, k.fdTable i fd ≠ some f) :
    Keeps P k { k with fs := fs } := by
  obtain ⟨owned', hinv⟩ := hout.inv
  refine ⟨⟨owned', hinv, hf.nextFd, fun ht => ?_, hf.distinct⟩, fun hl => hout.lucky hl,
    hout.slot_same hnames⟩
  refine hout.keeps_handle (hf.table ht) fun f h => ?_
  rintro rfl
  exact hop f h _ _ ht

lemma lockAcquire_sound (hlock : k.fileLock = none) :
    (lockAcquire i).Sound (Steps L P) k fun _ k' => k' = { k with fileLock := some i } := by
  have hguard : (k.fileLock.isNone || k.fileLock == some i) = true := by
    rw [hlock]
    rfl
  have hrun : (do
      ASSERT (k.fileLock ≠ some i)
      return ((), { k with fileLock := some i }) : Kernel (Unit × FileKernel)) =
        .ok ((), { k with fileLock := some i }) := by
    rw [ASSERT_of]
    · rfl
    · rw [hlock]
      exact nofun
  exact .atomWhen hguard hrun (.same rfl) rfl

lemma lockRelease_sound (hlock : k.fileLock = some i) :
    (lockRelease i).Sound (Steps L P) k fun _ k' => k' = { k with fileLock := none } := by
  have hrun : (do
      ASSERT (k.fileLock = some i)
      return ((), { k with fileLock := none }) : Kernel (Unit × FileKernel)) =
        .ok ((), { k with fileLock := none }) := by
    rw [ASSERT_of hlock]
    rfl
  exact .atom hrun (.same rfl) rfl

lemma release_sound {r : α} {Q : α → FileKernel → Prop} (hlock : k.fileLock = some i)
    (hQ : Q r { k with fileLock := none }) :
    (do
      lockRelease i
      return r : CallProg α).Sound (Steps L P) k Q := by
  refine .bind (lockRelease_sound hlock) fun _ k' hk' => ?_
  subst hk'
  exact .pure hQ

lemma processGetFile_sound (hf : Files P owned k) (fd : ℤ) :
    (processGetFile i fd).Sound (Steps L P) k fun f k' => k' = k ∧
      ∀ g, f = some g → 2 ≤ fd ∧ k.fdTable i fd.toNat = some g := by
  by_cases hfd : fd ≤ 1 ∨ (k.nextFd i : ℤ) ≤ fd
  · exact .atom (if_pos hfd) (.same rfl) ⟨rfl, nofun⟩
  · have hlt : fd.toNat < 2 + FD_MAX := by
      have := hf.nextFd i
      omega
    refine .atom ((if_neg hfd).trans ?_) (.same rfl) ⟨rfl, fun g hg => ⟨by omega, hg⟩⟩
    rw [fdSlot, if_pos hlt]
    rfl

lemma mallocCopy_sound (hf : Files P owned k) :
    mallocCopy.Sound (Steps L P) k fun ok k' => ok = k.fs.mallocs 0 ∧
      k' = { k with fs := k.fs.tick } ∧ Files P owned k' ∧ Keeps P k k' := by
  have hatom : (Prog.atom fun s : FileSys => .ok s.malloc : FsProg Bool).Sound (Quietly L P) k.fs
      fun ok fs => ok = k.fs.mallocs 0 ∧ fs = k.fs.tick :=
    .atom rfl (still_tick k.fs).quietly ⟨rfl, rfl⟩
  refine (onFs_sound hatom).imp fun ok k' ⟨fs, ⟨hok, hfs⟩, hk'⟩ => ?_
  subst hfs hk'
  have hfiles : Files P owned { k with fs := k.fs.tick } :=
    ⟨hf.inv.still (still_tick k.fs) hf.inv.toCore.tick, hf.nextFd, hf.table, hf.distinct⟩
  exact ⟨hok, rfl, hfiles, ⟨owned, hfiles⟩, .tick, fun _ _ => rfl⟩

theorem processAddFile_sound (hf : Files P owned k) (hlt : k.nextFd i < 2 + FD_MAX)
    (hhandle : FsOp.Handle k.fs f) (hnew : ∀ j fd, k.fdTable j fd ≠ some f) :
    (processAddFile i (some f)).Sound (Steps L P) k fun fd k' => fd = (k.nextFd i : ℤ) ∧
      Files P owned k' ∧ k'.fs = k.fs ∧ k'.fileLock = k.fileLock := by
  let k' : FileKernel := { k with
    nextFd := update k.nextFd i (k.nextFd i + 1)
    fdTable := update k.fdTable i (update (k.fdTable i) (k.nextFd i) (some f)) }
  have hrun : (do
      fdSlot (k.nextFd i)
      return ((k.nextFd i : ℤ), k') : Kernel (ℤ × FileKernel)) = .ok ((k.nextFd i : ℤ), k') := by
    rw [fdSlot, if_pos hlt]
    rfl
  -- The only entry that changed is the new one.
  have hentry : ∀ {j fd g}, k'.fdTable j fd = some g →
      (j = i ∧ fd = k.nextFd i ∧ g = f) ∨ k.fdTable j fd = some g := by
    intro j _ g hg
    by_cases hj : j = i
    · have hrow : k'.fdTable i = update (k.fdTable i) (k.nextFd i) (some f) := update_self ..
      rw [hj, hrow] at hg
      rcases update_some_cases hg with ⟨hfd, hgf⟩ | ⟨_, hg⟩
      · exact .inl ⟨hj, hfd, hgf⟩
      · exact .inr (hj ▸ hg)
    · have hrow : k'.fdTable j = k.fdTable j := update_of_ne hj ..
      exact .inr (hrow ▸ hg)
  refine .atom hrun (.same rfl) ⟨rfl, ⟨hf.inv, fun j => ?_, fun hg => ?_, fun h1 h2 => ?_⟩,
    rfl, rfl⟩
  · by_cases hj : j = i
    · have hrow : k'.nextFd i = k.nextFd i + 1 := update_self ..
      rw [hj, hrow]
      omega
    · have hrow : k'.nextFd j = k.nextFd j := update_of_ne hj ..
      rw [hrow]
      exact hf.nextFd j
  · rcases hentry hg with ⟨_, _, rfl⟩ | hg
    · exact hhandle
    · exact hf.table hg
  · rcases hentry h1 with ⟨hi, hfd, hg⟩ | h1 <;> rcases hentry h2 with ⟨hj, hgd, hg'⟩ | h2
    · exact ⟨hi.trans hj.symm, hfd.trans hgd.symm⟩
    · rw [hg] at h2
      exact absurd h2 (hnew _ _)
    · rw [hg'] at h1
      exact absurd h1 (hnew _ _)
    · exact hf.distinct h1 h2

lemma processCloseFile_sound (hf : Files P owned k) (fd : ℤ) :
    (processCloseFile i fd).Sound (Steps L P) k fun _ k' =>
      Keeps P k k' ∧ k'.fileLock = k.fileLock := by
  have hatom : (Prog.atom fun k : FileKernel => .ok
      (decide (¬ (fd ≤ 1 ∨ (k.nextFd i : ℤ) ≤ fd)), k)).Sound (Steps L P) k fun _ k' => k' = k :=
    .atom rfl (.same rfl) rfl
  refine .bind hatom fun inside k₁ hk1 => ?_
  subst hk1
  cases inside with
  | false => exact .pure ⟨hf.keeps rfl, rfl⟩
  | true =>
    rw [if_pos rfl]
    refine .bind (processGetFile_sound hf fd) fun f k₁ ⟨hk1, hget⟩ => ?_
    subst hk1
    -- What is left of the table when the entry goes.
    have hcleared : ∀ {j gd g}, update k₁.fdTable i
        (update (k₁.fdTable i) fd.toNat none) j gd = some g →
        k₁.fdTable j gd = some g ∧ ¬ (j = i ∧ gd = fd.toNat) := by
      intro j _ g hg
      by_cases hj : j = i
      · rw [hj, update_self] at hg
        obtain ⟨hne, hg⟩ := update_none_cases hg
        exact ⟨hj ▸ hg, fun h => hne h.2⟩
      · rw [update_of_ne hj] at hg
        exact ⟨hg, fun h => hj h.1⟩
    cases f with
    | none =>
      refine .bind (onFs_sound (Q := fun _ fs => fs = k₁.fs) (.pure rfl)) fun _ k2 ⟨fs, hfs,
        hk2⟩ => ?_
      subst hfs hk2
      refine .atom rfl (.same rfl) ⟨⟨⟨owned, hf.inv, hf.nextFd, fun hg => ?_, fun h1 h2 => ?_⟩, id,
        fun _ _ => rfl⟩, rfl⟩
      · exact hf.table (hcleared hg).1
      · exact hf.distinct (hcleared h1).1 (hcleared h2).1
    | some f =>
      obtain ⟨_, hentry⟩ := hget f rfl
      refine .bind (onFs_sound (fileClose_outcome hf.inv (hf.table hentry)))
        fun _ k2 ⟨fs, hout, hk2⟩ => ?_
      subst hk2
      obtain ⟨owned', hinv⟩ := hout.inv
      refine .atom rfl (.same rfl) ⟨⟨⟨owned', hinv, hf.nextFd, fun hg => ?_, fun h1 h2 => ?_⟩,
        fun hl => hout.lucky hl, hout.slot_same rfl⟩, rfl⟩
      · obtain ⟨hg, hne⟩ := hcleared hg
        refine hout.keeps_handle (hf.table hg) fun f' hf' => ?_
        obtain rfl := FsOp.fileClose.inj hf'
        rintro rfl
        exact hne (hf.distinct hg hentry)
      · exact hf.distinct (hcleared h1).1 (hcleared h2).1

end Rules

/-! ### The calls -/

def FileCall.after (c : FileCall) (r : FileResult) (had : CString → Prop) (name : CString) : Prop :=
  match c, r with
  | .create new _, .bool true => had name ∨ name = new
  | .remove old, .bool true => had name ∧ name ≠ old
  | _, _ => had name

/-- **What a call leaves.** -/
structure Returned (P : Places) (c : FileCall) (r : FileResult) (k k' : FileKernel) : Prop where
  files : ∃ owned, Files P owned k'
  unlocked : k'.fileLock = none
  lucky : k.fs.Lucky → k'.fs.Lucky
  names : k.fs.Lucky → k.fs.UniqueNames P → ∀ name,
    k'.fs.HasName P name ↔ c.after r (k.fs.HasName P) name
  opens : ∀ file, c = .openFile file → k.fs.Lucky → k.fs.HasName P file → r ≠ .int (-1)

def FileCall.Ok (k : FileKernel) (i : ℕ) : FileCall → Prop
  | .create _ initialSize => initialSize.toNat < 2 ^ 31
  | .openFile _ => k.nextFd i < 2 + FD_MAX
  | .write _ _ size => size = 0 ∨ k.fs.mallocs 0 = true
  | .seek _ position => position.toNat < 2 ^ 31
  | _ => True

section Calls

variable {P : Places} {owned : Owned} {k k' k₁ : FileKernel} {L : Prop} {i : ℕ} {c : FileCall}
  {r : FileResult}

lemma Keeps.returned (hk : Keeps P k k') (hlock : k'.fileLock = none)
    (hc : ∀ had name, c.after r had name = had name) (hopen : ∀ file, c ≠ .openFile file) :
    Returned P c r k k' := by
  refine ⟨hk.files, hlock, hk.lucky, fun _ _ name => ?_, fun file h => absurd h (hopen file)⟩
  rw [hc]
  exact hasName_congr hk.slot name

lemma toInt_nonneg {w : BitVec 32} (hw : w.toNat < 2 ^ 31) : 0 ≤ w.toInt ∧ w.toInt < 2 ^ 31 := by
  rw [BitVec.toInt_eq_toNat_of_lt (by omega)]
  omega

lemma Files.returned_names {ok : Bool} (hf : Files P owned k₁) (hkeep : Keeps P k k₁)
    (hlock : k₁.fileLock = none) (hout : Outcome P owned [] k₁.fs fs op (.bool ok))
    (hop : ∀ f, op ≠ .fileClose f)
    (hc : ∀ had name, c.after (.bool ok) had name = op.after ok had name)
    (hopen : ∀ file, c ≠ .openFile file) : Returned P c (.bool ok) k { k₁ with fs := fs } := by
  obtain ⟨owned', hinv⟩ := hout.inv
  have hfiles : Files P owned' { k₁ with fs := fs } :=
    ⟨hinv, hf.nextFd, fun ht => hout.keeps_handle (hf.table ht) fun f h => absurd h (hop f),
      hf.distinct⟩
  refine ⟨⟨owned', hfiles⟩, hlock, fun hl => hout.lucky (hkeep.lucky hl), fun hl hu name => ?_,
    fun file h => absurd h (hopen file)⟩
  have hsame : k₁.fs.HasName P = k.fs.HasName P :=
    funext fun m => propext (hasName_congr hkeep.slot m)
  rw [hc, ← hsame]
  exact hout.names (hkeep.lucky hl) (hu.step (.same hkeep.slot)) name

lemma create_sound (file : CString) {initialSize : BitVec 32} (hf : Files P owned k)
    (hlock : k.fileLock = none) (hok : initialSize.toNat < 2 ^ 31) (hL : L → k.fs.Lucky) :
    (create file initialSize).Sound (Steps L P) k
      (Returned P (.create file initialSize) · k ·) := by
  obtain ⟨h1, h2⟩ := toInt_nonneg hok
  refine .bind (mallocCopy_sound hf) fun ok k₁ ⟨_, hk1, hf1, hkeep⟩ => ?_
  subst hk1
  cases ok with
  | false => exact .pure (hkeep.returned hlock (fun _ _ => rfl) nofun)
  | true =>
    rw [if_pos rfl]
    refine .bind (onFs_sound (filesysCreate_outcome hf1.inv h1 h2 fun hl => hkeep.lucky (hL hl)))
      fun ok k2 ⟨fs, hout, hk2⟩ => .pure ?_
    subst hk2
    refine hf1.returned_names hkeep hlock hout nofun (fun _ _ => ?_) nofun
    cases ok <;> rfl

lemma remove_sound (file : CString) (hf : Files P owned k) (hlock : k.fileLock = none) :
    (remove file).Sound (Steps L P) k (Returned P (.remove file) · k ·) := by
  refine .bind (mallocCopy_sound hf) fun ok k₁ ⟨_, hk1, hf1, hkeep⟩ => ?_
  subst hk1
  cases ok with
  | false => exact .pure (hkeep.returned hlock (fun _ _ => rfl) nofun)
  | true =>
    rw [if_pos rfl]
    refine .bind (onFs_sound (filesysRemove_outcome hf1.inv)) fun ok k2 ⟨fs, hout, hk2⟩ => .pure ?_
    subst hk2
    refine hf1.returned_names hkeep hlock hout nofun (fun _ _ => ?_) nofun
    cases ok <;> rfl

lemma Files.opened {file : CString} {l : ℕ} (hf : Files P owned k)
    (hopen : Opens P owned [] file l f k.fs fs) :
    FsOp.Handle fs f ∧ ∀ j fd, k.fdTable j fd ≠ some f := by
  refine ⟨⟨?_, ?_⟩, fun j fd ht => ?_⟩
  · rw [hopen.handle, update_self]
    rfl
  · rw [hopen.freeMapFile]
    exact hf.inv.freeMapFile_ne hopen.fresh
  · have hhandle := (hf.table ht).1
    rw [hopen.fresh] at hhandle
    cases hhandle

lemma openFile_sound (file : CString) (hf : Files P owned k) (hlock : k.fileLock = none)
    (hok : k.nextFd i < 2 + FD_MAX) :
    (openFile i file).Sound (Steps L P) k (Returned P (.openFile file) · k ·) := by
  refine .bind (mallocCopy_sound hf) fun ok k₁ ⟨hm, hk1, hf1, hkeep1⟩ => ?_
  subst hk1
  cases ok with
  | false =>
    refine .pure ⟨hkeep1.files, hlock, hkeep1.lucky, fun _ _ name => hasName_congr hkeep1.slot name,
      fun _ _ _ _ => nofun⟩
  | true =>
    rw [if_pos rfl]
    refine .bind (lockAcquire_sound hlock) fun _ k2 hk2 => ?_
    subst hk2
    refine .bind (onFs_sound (filesysOpen_outcome hf1.inv)) fun f k3 ⟨fs, hout, hk3⟩ => ?_
    subst hk3
    have hkeep2 := hkeep1.trans (hf1.keeps_outcome hout rfl nofun)
    have hnames : ∀ {k' : FileKernel}, k'.fs = fs → ∀ name,
        k'.fs.HasName P name ↔ k.fs.HasName P name := by
      intro _ hfs name
      rw [hfs]
      exact hasName_congr hkeep2.slot name
    cases f with
    | none =>
      refine .bind (Q := fun fd k' => fd = -1 ∧ k' = _) (.pure ⟨rfl, rfl⟩) fun fd k4
        ⟨hfd, hk4⟩ => ?_
      subst hfd hk4
      have hkeep3 := hkeep2.lock none
      refine release_sound rfl ⟨hkeep3.files, rfl, hkeep3.lucky, fun _ _ => hnames rfl, ?_⟩
      rintro file' ⟨⟩ hl ⟨l, hlt, hname⟩
      cases hout with
      | openFailed _ _ hno => exact absurd hname (hno (hkeep1.lucky hl) l hlt)
    | some =>
      cases hout with
      | opened hopen =>
        obtain ⟨hhandle, hnew⟩ := hf1.opened hopen
        obtain ⟨owned', hf2⟩ := (hkeep2.lock (some i)).files
        refine .bind (processAddFile_sound hf2 hok hhandle hnew)
          fun fd k4 ⟨hfd, hf4, hfs4, hlock4⟩ => ?_
        refine release_sound hlock4 ⟨⟨owned', hf4.congr rfl rfl rfl⟩, rfl, fun hl => ?_,
          fun _ _ => hnames hfs4, fun _ _ _ _ => ?_⟩
        · have hlucky := hkeep2.lucky hl
          exact hfs4 ▸ hlucky
        · rw [hfd]
          intro h
          have := FileResult.int.inj h
          omega

/-- **The calls on a descriptor**: `body` runs on the file, if any. -/
theorem getFile_sound {fd : ℤ} {none_ : CallProg FileResult} {body : ℕ → CallProg FileResult}
    (hf : Files P owned k) {Q : FileResult → FileKernel → Prop}
      (hnone : none_.Sound (Steps L P) k Q)
    (hbody : ∀ f, FsOp.Handle k.fs f → (body f).Sound (Steps L P) k Q) :
    (do
      match ← processGetFile i fd with
      | none => none_
      | some f => body f : CallProg FileResult).Sound (Steps L P) k Q := by
  refine .bind (processGetFile_sound hf fd) fun f k₁ ⟨hk1, hget⟩ => ?_
  subst hk1
  cases f with
  | none => exact hnone
  | some f => exact hbody f (hf.table (hget f rfl).2)

section

variable (fd : BitVec 32) (hf : Files P owned k) (hlock : k.fileLock = none)
include fd hf hlock

lemma filesize_sound : (filesize i fd).Sound (Steps L P) k (Returned P (.filesize fd) · k ·) := by
  refine getFile_sound hf (.pure ((hf.keeps rfl).returned hlock (fun _ _ => rfl) nofun))
    fun f hhandle => ?_
  obtain ⟨⟨h, _⟩, hh⟩ := Option.isSome_iff_exists.1 hhandle.1
  obtain ⟨d, _, hlength⟩ := fileLength_spec hf.inv hh
  refine .bind (onFs_sound (Q := fun _ fs => fs = k.fs)
    (.atom hlength (fun _ => .same fun _ _ => rfl)
    rfl)) fun n k₁ ⟨fs, hfs, hk1⟩ => .pure ?_
  subst hfs hk1
  exact (hf.keeps rfl).returned hlock (fun _ _ => rfl) nofun

lemma tell_sound : (tell i fd).Sound (Steps L P) k (Returned P (.tell fd) · k ·) := by
  refine getFile_sound hf (.pure ((hf.keeps rfl).returned hlock (fun _ _ => rfl) nofun))
    fun f hhandle => ?_
  obtain ⟨⟨h, _⟩, hh⟩ := Option.isSome_iff_exists.1 hhandle.1
  have htell := fileTell_spec hh
  refine .bind (onFs_sound (Q := fun _ fs => fs = k.fs) (.atom htell (fun _ => .same fun _ _ => rfl)
    rfl)) fun n k₁ ⟨fs, hfs, hk1⟩ => .pure ?_
  subst hfs hk1
  exact (hf.keeps rfl).returned hlock (fun _ _ => rfl) nofun

lemma seek_sound {position : BitVec 32} (hok : position.toNat < 2 ^ 31) :
    (seek i fd position).Sound (Steps L P) k (Returned P (.seek fd position) · k ·) := by
  refine getFile_sound hf (.pure ((hf.keeps rfl).returned hlock (fun _ _ => rfl) nofun))
    fun f hhandle => ?_
  refine .bind (onFs_sound (fileSeek_outcome hf.inv hhandle (toInt_nonneg hok).1))
    fun _ k₁ ⟨fs, hout, hk1⟩ => .pure ?_
  subst hk1
  exact (hf.keeps_outcome hout rfl nofun).returned hlock (fun _ _ => rfl) nofun

lemma close_sound : (close i fd).Sound (Steps L P) k (Returned P (.close fd) · k ·) := by
  refine .bind (processCloseFile_sound hf fd.toInt) fun _ k₁ ⟨hkeep, hlock1⟩ => .pure ?_
  exact hkeep.returned (hlock1.trans hlock) (fun _ _ => rfl) nofun

end

lemma readKeys_sound (count : ℕ) :
    (readKeys count).Sound (Steps L P) k fun _ k' => ∃ keys, k' = { k with keys := keys } := by
  induction count generalizing k with
  | zero => exact .pure ⟨k.keys, rfl⟩
  | succ _ ih =>
    refine .atom_bind rfl (.same rfl) (.bind ih fun rest k₁ ⟨keys, hk1⟩ => .pure ?_)
    exact ⟨keys, hk1⟩

lemma read_sound (fd size : BitVec 32) (hf : Files P owned k) (hlock : k.fileLock = none) :
    (read i fd size).Sound (Steps L P) k (Returned P (.read fd size) · k ·) := by
  refine .bind (lockAcquire_sound hlock) fun _ k₁ hk1 => ?_
  subst hk1
  have hf1 : Files P owned { k with fileLock := some i } := hf.congr rfl rfl rfl
  have hkeep1 : Keeps P k { k with fileLock := some i } := hf1.keeps rfl
  have hdone : ∀ {k' : FileKernel} {r : FileResult}, Keeps P { k with fileLock := some i } k' →
      Returned P (.read fd size) r k { k' with fileLock := none } :=
    fun hk => ((hkeep1.trans hk).lock none).returned rfl (fun _ _ => rfl) nofun
  by_cases hfd : fd.toInt = STDIN_FILENO
  · rw [if_pos hfd]
    refine .bind (readKeys_sound size.toNat) fun buffer k2 ⟨keys, hk2⟩ => ?_
    subst hk2
    have hf2 : Files P owned { k with fileLock := some i, keys := keys } := hf.congr rfl rfl rfl
    exact release_sound rfl (hdone (hf2.keeps rfl))
  · rw [if_neg hfd]
    refine getFile_sound hf1 (release_sound rfl (hdone (hf1.keeps rfl))) fun f hhandle => ?_
    refine .bind (onFs_sound (fileRead_outcome hf1.inv hhandle size.toInt))
      fun buffer k2 ⟨fs, hout, hk2⟩ => ?_
    subst hk2
    exact release_sound rfl (hdone (hf1.keeps_outcome hout rfl nofun))

lemma derefCopy_sound {copied : Bool} {size : ℕ} (h : copied = true ∨ size = 0) :
    (derefCopy copied size).Sound (Steps L P) k fun _ k' => k' = k := by
  rw [derefCopy, if_pos h]
  exact .pure rfl

lemma write_sound (fd : BitVec 32) (buffer : ℕ → BitVec 8) {size : BitVec 32}
    (hf : Files P owned k) (hlock : k.fileLock = none)
    (hok : size = 0 ∨ k.fs.mallocs 0 = true) :
    (write i fd buffer size).Sound (Steps L P) k (Returned P (.write fd buffer size) · k ·) := by
  refine .bind (mallocCopy_sound hf) fun copied k₁ ⟨hm, hk1, hf1, hkeep1⟩ => ?_
  subst hk1
  have hcopy : copied = true ∨ size.toNat = 0 := by
    rcases hok with rfl | hok
    · exact .inr rfl
    · exact .inl (hm.trans hok)
  refine .bind (lockAcquire_sound hlock) fun _ k2 hk2 => ?_
  subst hk2
  have hf2 : Files P owned { k with fs := k.fs.tick, fileLock := some i } := hf1.congr rfl rfl rfl
  have hdone : ∀ {k' : FileKernel} {r : FileResult},
      Keeps P { k with fs := k.fs.tick, fileLock := some i } k' →
      Returned P (.write fd buffer size) r k { k' with fileLock := none } := by
    intro _ r hk
    exact (((hkeep1.lock (some i)).trans hk).lock none).returned rfl (fun _ _ => rfl) nofun
  by_cases hfd : fd.toInt = STDOUT_FILENO
  · rw [if_pos hfd]
    refine .bind (derefCopy_sound hcopy) fun _ k3 hk3 => ?_
    subst hk3
    refine .atom_bind rfl (.same rfl) (release_sound rfl (hdone ?_))
    exact Files.keeps (hf2.congr rfl rfl rfl) rfl
  · rw [if_neg hfd]
    refine getFile_sound hf2 (release_sound rfl (hdone (hf2.keeps rfl))) fun f hhandle => ?_
    refine .bind (derefCopy_sound hcopy) fun _ k3 hk3 => ?_
    subst hk3
    refine .bind (onFs_sound (fileWrite_outcome hf2.inv hhandle buffer size.toInt))
      fun n k4 ⟨fs, hout, hk4⟩ => ?_
    subst hk4
    exact release_sound rfl (hdone (hf2.keeps_outcome hout rfl nofun))

lemma loadReads_sound (reads : List (ℕ × ℤ)) (hf : Files P owned k)
    (hhandle : FsOp.Handle k.fs f) :
    (loadReads f reads).Sound (Quietly L P) k.fs fun _ fs =>
      Keeps P k { k with fs := fs } ∧ FsOp.Handle fs f := by
  induction reads generalizing k owned with
  | nil => exact .pure ⟨hf.keeps rfl, hhandle⟩
  | cons part _ ih =>
    obtain ⟨pos, size⟩ := part
    refine .bind (fileSeek_outcome hf.inv hhandle (Int.natCast_nonneg pos)) fun _ fs1 hout1 => ?_
    have hkeep1 := hf.keeps_outcome hout1 rfl nofun
    obtain ⟨_, hf1⟩ := hkeep1.files
    have hhandle1 := hout1.keeps_handle hhandle nofun
    refine .bind (fileRead_outcome hf1.inv hhandle1 size) fun _ fs2 hout2 => ?_
    have hkeep2 := hf1.keeps_outcome hout2 rfl nofun
    obtain ⟨_, hf2⟩ := hkeep2.files
    refine (ih hf2 (hout2.keeps_handle hhandle1 nofun)).imp fun _ fs ⟨hkeep, hlast⟩ => ?_
    exact ⟨(hkeep1.trans hkeep2).trans hkeep, hlast⟩

lemma load_sound (file : CString) (reads : List (ℕ × ℤ)) (hf : Files P owned k)
    (hlock : k.fileLock = none) :
    (load file reads).Sound (Steps L P) k (Returned P (.load file reads) · k ·) := by
  refine .bind (onFs_sound (filesysOpen_outcome hf.inv)) fun f k₁ ⟨fs, hout, hk1⟩ => ?_
  subst hk1
  have hkeep1 := hf.keeps_outcome hout rfl nofun
  obtain ⟨_, hf1⟩ := hkeep1.files
  cases f with
  | none => exact .pure (hkeep1.returned hlock (fun _ _ => rfl) nofun)
  | some =>
    cases hout with
    | opened hopen =>
      obtain ⟨hhandle, hnew⟩ := hf.opened hopen
      refine .bind (onFs_sound (loadReads_sound reads hf1 hhandle))
        fun _ k2 ⟨fs2, ⟨hkeep2, hhandle2⟩, hk2⟩ => ?_
      subst hk2
      obtain ⟨_, hf2⟩ := hkeep2.files
      refine .bind (onFs_sound (fileClose_outcome hf2.inv hhandle2))
        fun _ k3 ⟨fs3, hout3, hk3⟩ => .pure ?_
      subst hk3
      have hkeep3 := hf2.keeps_outcome hout3 rfl (by rintro _ ⟨⟩; exact hnew)
      exact ((hkeep1.trans hkeep2).trans hkeep3).returned hlock (fun _ _ => rfl) nofun

/-- **Every call that is allowed returns**, whatever `malloc` does. -/
theorem code_sound (hf : Files P owned k) (hlock : k.fileLock = none) (hok : c.Ok k i)
    (hL : L → k.fs.Lucky) : (c.code i).Sound (Steps L P) k (Returned P c · k ·) := by
  cases c with
  | create file => exact create_sound file hf hlock hok hL
  | remove file => exact remove_sound file hf hlock
  | openFile file => exact openFile_sound file hf hlock hok
  | filesize fd => exact filesize_sound fd hf hlock
  | read fd size => exact read_sound fd size hf hlock
  | write fd buffer => exact write_sound fd buffer hf hlock hok
  | seek fd => exact seek_sound fd hf hlock hok
  | tell fd => exact tell_sound fd hf hlock
  | close fd => exact close_sound fd hf hlock
  | load file reads => exact load_sound file reads hf hlock

end Calls

end Pintos.Userprog.FileCalls
