/-
# Handles to inodes and files

Runs of the operations that open and close inodes and files, each on an open handle, with `malloc`
failing at arbitrary points.  `Handles.held` are the handles to inodes not closed since, and not
given to a file.
-/

import Pintos.Filesys.OpenTable

namespace Pintos.Filesys

open Base Function Kernel Option Prog FileSys

structure Handles where
  fs : FileSys
  held : List ℕ

inductive HandleOp
  | inodeOpen (sector : ℕ)
  | inodeReopen (inode : Option ℕ)
  | inodeClose (inode : Option ℕ)
  | fileOpen (inode : Option ℕ)
  | fileReopen (file : ℕ)
  | fileDenyWrite (file : ℕ)
  | fileAllowWrite (file : ℕ)
  | fileClose (file : Option ℕ)

namespace HandleOp

/-- Handles are used only while they are open. -/
def Legal (c : Handles) : HandleOp → Prop
  | .inodeOpen _ => True
  | .inodeReopen inode => ∀ p ∈ inode, p ∈ c.held ∨ ∃ f x, c.fs.files f = some x ∧ x.inode = p
  | .inodeClose inode => ∀ p ∈ inode, p ∈ c.held
  | .fileOpen inode => ∀ p ∈ inode, p ∈ c.held
  | .fileReopen file => (c.fs.files file).isSome = true
  | .fileDenyWrite file => (c.fs.files file).isSome = true
  | .fileAllowWrite file => (c.fs.files file).isSome = true
  | .fileClose file => ∀ f ∈ file, (c.fs.files f).isSome = true

def without (held : List ℕ) : Option ℕ → List ℕ
  | none => held
  | some p => held.erase p

def exec (c : Handles) : HandleOp → Kernel Handles
  | .inodeOpen sector => do
    let (r, fs) ← Filesys.inodeOpen sector c.fs
    return ⟨fs, r.toList ++ c.held⟩
  | .inodeReopen inode => do
    let (r, fs) ← Filesys.inodeReopen inode c.fs
    return ⟨fs, r.toList ++ c.held⟩
  | .inodeClose inode => do
    let ((), fs) ← (Filesys.inodeClose inode).run c.fs
    return ⟨fs, without c.held inode⟩
  | .fileOpen inode => do
    let (_, fs) ← (Filesys.fileOpen inode).run c.fs
    return ⟨fs, without c.held inode⟩
  | .fileReopen file => do
    let (_, fs) ← (Filesys.fileReopen file).run c.fs
    return ⟨fs, c.held⟩
  | .fileDenyWrite file => do
    let ((), fs) ← Filesys.fileDenyWrite file c.fs
    return ⟨fs, c.held⟩
  | .fileAllowWrite file => do
    let ((), fs) ← Filesys.fileAllowWrite file c.fs
    return ⟨fs, c.held⟩
  | .fileClose file => do
    let ((), fs) ← (Filesys.fileClose file).run c.fs
    return ⟨fs, c.held⟩

end HandleOp

def Handles.Step (c : Handles) (op : HandleOp) (c' : Handles) : Prop :=
  op.Legal c ∧ op.exec c = .ok c'

def Handles.init (fsDevice : Block) (freeMap : Bitmap) (mallocs : ℕ → Bool)
    (stack : ℕ → BitVec 8) : Handles where
  fs := ⟨fsDevice, freeMap, none, [], fun _ => none, fun _ => none, 0, mallocs, stack⟩
  held := []

/-- **The table of open inodes.** -/
structure Handles.Safe (c : Handles) : Prop where
  one : c.fs.openInodes.Nodup ∧ ∀ p q i j, c.fs.inodes p = some i → c.fs.inodes q = some j →
    i.sector = j.sector → p = q
  /-- An inode is in the list just when it has an opener; there are no others. -/
  listed : ∀ p, p ∈ c.fs.openInodes ↔ ∃ i, c.fs.inodes p = some i ∧ 0 < i.openCnt
  live : ∀ p i, c.fs.inodes p = some i → 0 < i.openCnt
  openCnt : ∀ p i, c.fs.inodes p = some i →
    i.openCnt = openers c.fs.files c.fs.brk p + c.held.count p
  denyWriteCnt : ∀ p i, c.fs.inodes p = some i →
    i.denyWriteCnt = deniers c.fs.files c.fs.brk p ∧ i.denyWriteCnt ≤ i.openCnt
  /-- Only opening a sector that the device does not have halts. -/
  returns : ∀ op : HandleOp, op.Legal c →
    (∀ sector, op = .inodeOpen sector → sector < c.fs.fsDevice.size) → ∃ c', op.exec c = .ok c'

/-! ### The operations keep the tables -/

structure FileSys.Counted (s : FileSys) (held : List ℕ) : Prop where
  table : s.Table held
  kept : ∀ {p i}, s.inodes p = some i → i.removed = false

section Counted

variable {s : FileSys} {held : List ℕ} {p f : ℕ} {i : Inode} {x : File}

lemma FileSys.Counted.perm {held' : List ℕ} (h : s.Counted held) (hp : held.Perm held') :
    s.Counted held' := ⟨h.table.perm hp, h.kept⟩

lemma FileSys.Counted.kept_update {i' j : Inode} {q : ℕ} (h : s.Counted held)
    (hi : s.inodes p = some i) (hr : i'.removed = i.removed)
    (hj : update s.inodes p (some i') q = some j) : j.removed = false := by
  revert hj
  exact forall_update h.kept (hr.trans (h.kept hi))

lemma FileSys.Counted.of_held (h : s.Counted held)
    (hp : p ∈ held ∨ ∃ f x, s.files f = some x ∧ x.inode = p) : ∃ i, s.inodes p = some i := by
  rcases hp with hp | ⟨f, x, hx, rfl⟩
  · exact isSome_iff_exists.1 (h.table.held p hp)
  · exact isSome_iff_exists.1 (h.table.file hx).2

lemma inodeOpen_counted (sector : ℕ) (h : s.Counted held) :
    (∃ r s', inodeOpen sector s = .ok (r, s') ∧ s'.Counted (r.toList ++ held)) ∨
      ∃ e, inodeOpen sector s = .error e ∧ blockGet s.fsDevice sector = .error e := by
  rcases sector_open_or s sector with ⟨p, i, hi, hs⟩ | hnew
  · exact .inl ⟨_, _, inodeOpen_found h.table hi hs, h.table.reopen hi, h.kept_update hi rfl⟩
  · rw [inodeOpen_new hnew]
    cases hm : s.mallocs 0 with
    | false => exact .inl ⟨none, s.tick, rfl, h.table, h.kept⟩
    | true =>
      cases hb : blockGet s.fsDevice sector with
      | error e => exact .inr ⟨e, rfl, rfl⟩
      | ok =>
        exact .inl ⟨_, _, rfl, h.table.openNew hnew, forall_update h.kept rfl⟩

lemma inodeReopen_counted (h : s.Counted held) (hi : s.inodes p = some i) :
    ∃ s', inodeReopen (some p) s = .ok (some p, s') ∧ s'.Counted (p :: held) :=
  ⟨_, inodeReopen_eq hi, h.table.reopen hi, h.kept_update hi rfl⟩

lemma inodeClose_counted (h : s.Counted (p :: held)) :
    ∃ s', (inodeClose (some p)).run s = .ok ((), s') ∧ s'.Counted held := by
  obtain ⟨i, hi⟩ := h.of_held (.inl List.mem_cons_self)
  rw [inodeClose, run_bind, run_atom]
  by_cases hlast : i.openCnt - 1 = 0
  · rw [inodeDrop_last hi hlast, ok_bind]
    dsimp only
    rw [h.kept hi]
    refine ⟨s.delInode p, rfl, h.table.dropLast hi hlast, fun {q j} hj => ?_⟩
    exact h.kept (update_none_cases hj).2
  · rw [inodeDrop_more hi hlast, ok_bind]
    exact ⟨_, rfl, h.table.drop hi hlast, h.kept_update hi rfl⟩

lemma fileOpen_counted (h : s.Counted (p :: held)) :
    ∃ r s', (fileOpen (some p)).run s = .ok (r, s') ∧ s'.Counted held := by
  rw [fileOpen, run_bind, run_atom]
  cases hm : s.mallocs 0 with
  | true =>
    rw [fileCalloc_some hm, ok_bind]
    exact ⟨_, _, rfl, h.table.fileNew, h.kept⟩
  | false =>
    rw [fileCalloc_none (.inr hm), ok_bind]
    have htick : s.tick.Counted (p :: held) := ⟨h.table, h.kept⟩
    obtain ⟨s', hclose, hs'⟩ := inodeClose_counted htick
    dsimp only
    rw [run_bind, hclose]
    exact ⟨none, s', rfl, hs'⟩

lemma fileOpen_none : (fileOpen none).run s = .ok (none, s.tick) := by
  rw [fileOpen, run_bind, run_atom, fileCalloc_none (.inl rfl)]
  rfl

section

variable (h : s.Counted held) (hx : s.files f = some x)
include h hx

lemma fileReopen_counted : ∃ r s', (fileReopen f).run s = .ok (r, s') ∧ s'.Counted held := by
  obtain ⟨i, hi⟩ := h.of_held (.inr ⟨f, x, hx, rfl⟩)
  obtain ⟨_, hreopen, h1⟩ := inodeReopen_counted h hi
  rw [fileReopen, run_bind, run_atom, deref_some hx, ok_bind, hreopen, ok_bind]
  exact fileOpen_counted h1

/-- **Denying writes**: the file's opener makes room for one more denier. -/
theorem fileDenyWrite_counted : ∃ s', fileDenyWrite f s = .ok ((), s') ∧ s'.Counted held := by
  obtain ⟨i, hi⟩ := h.of_held (.inr ⟨f, x, hx, rfl⟩)
  rw [fileDenyWrite, deref_some hx, ok_bind]
  cases hd : x.denyWrite with
  | true => exact ⟨s, rfl, h⟩
  | false =>
    have ht := h.table.setDeny hx hi true (i.denyWriteCnt + 1) (by simp [hd])
    have hle : i.denyWriteCnt + 1 ≤ i.openCnt := ht.deny_le (update_self ..)
    have hi' : (s.setFile f { x with denyWrite := true }).inodes x.inode = some i := hi
    exact ⟨_, inodeDenyWrite_eq hi' hle, ht, h.kept_update hi rfl⟩

/-- **Allowing writes**: the file itself is counted among the deniers. -/
theorem fileAllowWrite_counted : ∃ s', fileAllowWrite f s = .ok ((), s') ∧ s'.Counted held := by
  obtain ⟨i, hi⟩ := h.of_held (.inr ⟨f, x, hx, rfl⟩)
  rw [fileAllowWrite, deref_some hx, ok_bind]
  cases hd : x.denyWrite with
  | false => exact ⟨s, rfl, h⟩
  | true =>
    have ht := h.table.setDeny hx hi false (i.denyWriteCnt - 1) (by simp [hd])
    have hi' : (s.setFile f { x with denyWrite := false }).inodes x.inode = some i := hi
    exact ⟨_, inodeAllowWrite_eq hi' (h.table.deny_pos hx hi hd) (h.table.deny_le hi), ht,
      h.kept_update hi rfl⟩

lemma fileDrop_counted :
    ∃ s', fileDrop f s = .ok (x.inode, s') ∧ s'.Counted (x.inode :: held) := by
  obtain ⟨i, hi⟩ := h.of_held (.inr ⟨f, x, hx, rfl⟩)
  rw [fileDrop, deref_some hx, ok_bind]
  cases hd : x.denyWrite with
  | false => exact ⟨_, rfl, h.table.fileDrop hx hd, h.kept⟩
  | true =>
    have ht := h.table.setDeny hx hi false (i.denyWriteCnt - 1) (by simp [hd])
    have hdrop := ht.fileDrop (update_self ..) rfl
    rw [update_idem] at hdrop
    rw [if_pos rfl, inodeAllowWrite_eq hi (h.table.deny_pos hx hi hd) (h.table.deny_le hi)]
    exact ⟨_, rfl, hdrop, h.kept_update hi rfl⟩

lemma fileClose_counted : ∃ s', (fileClose (some f)).run s = .ok ((), s') ∧ s'.Counted held := by
  obtain ⟨_, hdrop, h1⟩ := fileDrop_counted h hx
  rw [fileClose, run_bind, run_atom, hdrop, ok_bind]
  exact inodeClose_counted h1

end

end Counted

/-! ### Runs -/

namespace Handles

variable {c c' : Handles} {op : HandleOp}

lemma counted_cons {p : ℕ} (h : c.fs.Counted c.held) (hp : p ∈ c.held) :
    c.fs.Counted (p :: c.held.erase p) := h.perm (List.perm_cons_erase hp)

/-- **One operation** keeps the tables, or opens a sector behind the device. -/
theorem exec_counted (h : c.fs.Counted c.held) (hl : op.Legal c) :
    (∃ c', op.exec c = .ok c' ∧ c'.fs.Counted c'.held) ∨
      ∃ e sector, op.exec c = .error e ∧ op = .inodeOpen sector ∧
        blockGet c.fs.fsDevice sector = .error e := by
  cases op with
  | inodeOpen sector =>
    rcases inodeOpen_counted sector h with ⟨r, s', hopen, hs'⟩ | ⟨e, hopen, hget⟩
    · exact .inl ⟨⟨s', r.toList ++ c.held⟩, by rw [HandleOp.exec, hopen]; rfl, hs'⟩
    · exact .inr ⟨e, sector, by rw [HandleOp.exec, hopen]; rfl, rfl, hget⟩
  | inodeReopen inode =>
    cases inode with
    | none => exact .inl ⟨c, rfl, h⟩
    | some p =>
      obtain ⟨i, hi⟩ := h.of_held (hl p rfl)
      obtain ⟨s', hreopen, hs'⟩ := inodeReopen_counted h hi
      exact .inl ⟨⟨s', p :: c.held⟩, by rw [HandleOp.exec, hreopen]; rfl, hs'⟩
  | inodeClose inode =>
    cases inode with
    | none => exact .inl ⟨c, rfl, h⟩
    | some p =>
      obtain ⟨s', hclose, hs'⟩ := inodeClose_counted (counted_cons h (hl p rfl))
      exact .inl ⟨⟨s', c.held.erase p⟩, by rw [HandleOp.exec, hclose]; rfl, hs'⟩
  | fileOpen inode =>
    cases inode with
    | none =>
      exact .inl ⟨⟨c.fs.tick, c.held⟩, by rw [HandleOp.exec, fileOpen_none]; rfl, h.table, h.kept⟩
    | some p =>
      obtain ⟨r, s', hopen, hs'⟩ := fileOpen_counted (counted_cons h (hl p rfl))
      exact .inl ⟨⟨s', c.held.erase p⟩, by rw [HandleOp.exec, hopen]; rfl, hs'⟩
  | fileReopen =>
    obtain ⟨x, hx⟩ := isSome_iff_exists.1 hl
    obtain ⟨r, s', hreopen, hs'⟩ := fileReopen_counted h hx
    exact .inl ⟨⟨s', c.held⟩, by rw [HandleOp.exec, hreopen]; rfl, hs'⟩
  | fileDenyWrite =>
    obtain ⟨x, hx⟩ := isSome_iff_exists.1 hl
    obtain ⟨s', hdeny, hs'⟩ := fileDenyWrite_counted h hx
    exact .inl ⟨⟨s', c.held⟩, by rw [HandleOp.exec, hdeny]; rfl, hs'⟩
  | fileAllowWrite =>
    obtain ⟨x, hx⟩ := isSome_iff_exists.1 hl
    obtain ⟨s', hallow, hs'⟩ := fileAllowWrite_counted h hx
    exact .inl ⟨⟨s', c.held⟩, by rw [HandleOp.exec, hallow]; rfl, hs'⟩
  | fileClose file =>
    cases file with
    | none => exact .inl ⟨c, rfl, h⟩
    | some f =>
      obtain ⟨x, hx⟩ := isSome_iff_exists.1 (hl f rfl)
      obtain ⟨s', hclose, hs'⟩ := fileClose_counted h hx
      exact .inl ⟨⟨s', c.held⟩, by rw [HandleOp.exec, hclose]; rfl, hs'⟩

lemma step_counted (h : c.fs.Counted c.held) (hs : c.Step op c') : c'.fs.Counted c'.held := by
  obtain ⟨hl, hexec⟩ := hs
  rcases exec_counted h hl with ⟨_, hc1, h1⟩ | ⟨e, _, he, _⟩
  · obtain rfl := Except.ok.inj (hexec.symm.trans hc1)
    exact h1
  · rw [hexec] at he
    cases he

lemma safe_of_counted (h : c.fs.Counted c.held) : c.Safe where
  one := ⟨h.table.nodup, fun _ _ _ _ hi hj hs => h.table.sector_inj hi hj hs⟩
  listed := fun p => by
    rw [h.table.mem, isSome_iff_exists]
    exact exists_congr fun i => (and_iff_left_of_imp h.table.positive).symm
  live := fun _ _ => h.table.positive
  openCnt := fun _ _ => h.table.count
  denyWriteCnt := fun _ _ hi => ⟨h.table.deny hi, h.table.deny_le hi⟩
  returns := fun op hl hsector => by
    rcases exec_counted h hl with ⟨c', hc', _⟩ | ⟨e, sector, _, hop, hget⟩
    · exact ⟨c', hc'⟩
    · rw [blockGet_ok (hsector sector hop)] at hget
      cases hget

lemma init_counted (fsDevice : Block) (freeMap : Bitmap) (mallocs : ℕ → Bool)
    (stack : ℕ → BitVec 8) :
    (init fsDevice freeMap mallocs stack).fs.Counted
      (init fsDevice freeMap mallocs stack).held := by
  refine ⟨⟨fun p => ?_, List.nodup_nil, ?_, ?_, ?_, ?_, ?_, ?_, ?_⟩, ?_⟩
  · exact ⟨nofun, nofun⟩
  · exact nofun
  · exact nofun
  · exact nofun
  · exact nofun
  · exact nofun
  · exact nofun
  · exact nofun
  · exact nofun

end Handles

/-- **The open-inode table**, after any operations, with `malloc` failing anywhere. -/
theorem handles_safe {fsDevice : Block} {freeMap : Bitmap} {mallocs : ℕ → Bool}
    {stack : ℕ → BitVec 8} {c : Handles}
    (hrun : Reaches Handles.Step Always (Handles.init fsDevice freeMap mallocs stack) c) :
    c.Safe := by
  refine Handles.safe_of_counted (hrun.invariant (fun c => c.fs.Counted c.held) ?_
    (Handles.init_counted ..))
  exact fun h hs _ => Handles.step_counted h hs

/-- Nothing is open on a device of one sector, and `malloc` succeeds twice. -/
def oneSector : Handles :=
  .init ⟨.BLOCK_FILESYS, 1, fun _ _ => 0, by decide⟩ ⟨1, fun _ => 0⟩ (fun n => n < 2) fun _ => 0

theorem handles_safe_denied : ∃ c, Reaches Handles.Step Always oneSector c ∧
    (∃ i, c.fs.inodes 0 = some i ∧ i.openCnt = 1 ∧ i.denyWriteCnt = 1) ∧ c.Safe := by
  -- the inode is at address 0 and the file at address 1
  obtain ⟨c₁, c₂, c₃, h₁, hheld, h₂, hfile, h₃, hdenied⟩ : ∃ c₁ c₂ c₃,
      HandleOp.exec oneSector (.inodeOpen 0) = .ok c₁ ∧ HandleOp.Legal c₁ (.fileOpen (some 0)) ∧
      HandleOp.exec c₁ (.fileOpen (some 0)) = .ok c₂ ∧ HandleOp.Legal c₂ (.fileDenyWrite 1) ∧
      HandleOp.exec c₂ (.fileDenyWrite 1) = .ok c₃ ∧
      ∃ i, c₃.fs.inodes 0 = some i ∧ i.openCnt = 1 ∧ i.denyWriteCnt = 1 :=
    ⟨_, _, _, rfl, by rintro _ ⟨⟩; exact .head _, rfl, rfl, rfl, _, rfl, rfl, rfl⟩
  have hstep : Handles.Step oneSector (.inodeOpen 0) c₁ := ⟨trivial, h₁⟩
  have hrun : Reaches Handles.Step Always oneSector c₃ :=
    ((Reaches.refl.step hstep trivial).step ⟨hheld, h₂⟩ trivial).step ⟨hfile, h₃⟩ trivial
  exact ⟨c₃, hrun, hdenied, handles_safe hrun⟩

end Pintos.Filesys
