/-
# The tables of open inodes and files

`open_inodes`, the counters of an inode and the flag of a file, under the operations of `inode.c`
and `file.c` that open, close, deny and allow writes.

Whoever opens an inode owns a handle to it until it is closed or `file_open` takes it over; a file
owns one.  `OpenTable` says what holds when `held` are the handles that no file owns: one inode for
a sector, in the list while somebody has it open, with one count for each handle and one for each
file that denies writes.
-/

import Pintos.Base.Tally
import Pintos.Filesys.Inode

namespace Pintos.Filesys

open Base Function Kernel List

def openers (files : ℕ → Option File) (brk p : ℕ) : ℕ := tally (fun x => x.inode == p) files brk

def deniers (files : ℕ → Option File) (brk p : ℕ) : ℕ :=
  tally (fun x => x.inode == p && x.denyWrite) files brk

lemma deniers_le_openers (files : ℕ → Option File) (brk p : ℕ) :
    deniers files brk p ≤ openers files brk p := by
  refine tally_le fun x hx => ?_
  exact (Bool.and_eq_true_iff.1 hx).1

structure OpenTable (openInodes : List ℕ) (inodes : ℕ → Option Inode) (files : ℕ → Option File)
    (brk : ℕ) (held : List ℕ) : Prop where
  mem : ∀ p, p ∈ openInodes ↔ (inodes p).isSome
  nodup : openInodes.Nodup
  sector_inj : ∀ {p q i j}, inodes p = some i → inodes q = some j → i.sector = j.sector → p = q
  positive : ∀ {p i}, inodes p = some i → 0 < i.openCnt
  count : ∀ {p i}, inodes p = some i → i.openCnt = openers files brk p + held.count p
  deny : ∀ {p i}, inodes p = some i → i.denyWriteCnt = deniers files brk p
  held : ∀ p ∈ held, (inodes p).isSome
  file : ∀ {f x}, files f = some x → f < brk ∧ (inodes x.inode).isSome
  fresh : ∀ {p i}, inodes p = some i → p < brk

namespace OpenTable

variable {openInodes : List ℕ} {inodes : ℕ → Option Inode} {files files' : ℕ → Option File}
  {brk : ℕ} {held held' : List ℕ} {p f : ℕ} {i i' : Inode} {x : File}

section

variable (ho : OpenTable openInodes inodes files brk held)
include ho

lemma perm (hp : held.Perm held') : OpenTable openInodes inodes files brk held' := { ho with
    count := fun hi => by rw [ho.count hi, hp.count_eq]
    held := fun p hp' => ho.held p (hp.mem_iff.2 hp') }

lemma deny_le (hi : inodes p = some i) : i.denyWriteCnt ≤ i.openCnt := by
  have hle := deniers_le_openers files brk p
  rw [ho.deny hi, ho.count hi]
  omega

lemma inodes_brk : inodes brk = none := by
  cases hb : inodes brk with
  | none => rfl
  | some => exact absurd (ho.fresh hb) (lt_irrefl _)

lemma files_brk : files brk = none := by
  cases hb : files brk with
  | none => rfl
  | some => exact absurd (ho.file hb).1 (lt_irrefl _)

theorem recount (hi : inodes p = some i)
    (hsector : i'.sector = i.sector) (hpositive : 0 < i'.openCnt)
    (hcount : i'.openCnt = openers files' brk p + held'.count p)
    (hdeny : i'.denyWriteCnt = deniers files' brk p)
    (hother : ∀ q ≠ p, openers files' brk q + held'.count q = openers files brk q + held.count q ∧
      deniers files' brk q = deniers files brk q)
    (hheld : ∀ q ∈ held', (inodes q).isSome)
    (hfile : ∀ {f x}, files' f = some x → f < brk ∧ (inodes x.inode).isSome) :
    OpenTable openInodes (update inodes p (some i')) files' brk held' := by
  have hsome : ∀ q, (update inodes p (some i') q).isSome = (inodes q).isSome := by
    intro q
    by_cases hq : q = p
    · rw [hq, update_self, hi]
      rfl
    · rw [update_of_ne hq]
  have hold : ∀ {q j}, update inodes p (some i') q = some j →
      ∃ j', inodes q = some j' ∧ j'.sector = j.sector := by
    intro q j hj
    rcases update_some_cases hj with ⟨rfl, rfl⟩ | ⟨_, hj⟩
    · exact ⟨i, hi, hsector.symm⟩
    · exact ⟨j, hj, rfl⟩
  constructor
  · intro q
    rw [hsome, ho.mem]
  · exact ho.nodup
  · intro q r j k hj hk hjk
    obtain ⟨_, hj', hsj⟩ := hold hj
    obtain ⟨_, hk', hsk⟩ := hold hk
    exact ho.sector_inj hj' hk' (by rw [hsj, hsk, hjk])
  · exact forall_update ho.positive hpositive
  · intro q j hj
    rcases update_some_cases hj with ⟨rfl, rfl⟩ | ⟨hq, hj⟩
    · exact hcount
    · have hsame := (hother q hq).1
      rw [ho.count hj]
      omega
  · intro q j hj
    rcases update_some_cases hj with ⟨rfl, rfl⟩ | ⟨hq, hj⟩
    · exact hdeny
    · rw [ho.deny hj, (hother q hq).2]
  · intro q hq
    rw [hsome]
    exact hheld q hq
  · intro f x hx
    rw [hsome]
    exact hfile hx
  · intro q j hj
    obtain ⟨_, hj', _⟩ := hold hj
    exact ho.fresh hj'

lemma reopen (hi : inodes p = some i) :
    OpenTable openInodes (update inodes p (some { i with openCnt := i.openCnt + 1 }))
      files brk (p :: held) := by
  have hpositive := ho.positive hi
  have hdeny := ho.deny hi
  refine ho.recount hi rfl (by dsimp only; omega) ?_ hdeny (fun q hq => ⟨?_, rfl⟩)
    (fun q hq => ?_) ho.file
  · rw [ho.count hi, count_cons_self]
    push_cast
    omega
  · rw [count_cons_of_ne (Ne.symm hq)]
  · rcases mem_cons.1 hq with rfl | hq
    · rw [hi]
      rfl
    · exact ho.held q hq

end

lemma drop (ho : OpenTable openInodes inodes files brk (p :: held)) (hi : inodes p = some i)
    (hmore : i.openCnt - 1 ≠ 0) :
    OpenTable openInodes (update inodes p (some { i with openCnt := i.openCnt - 1 }))
      files brk held := by
  have hpositive := ho.positive hi
  have hdeny := ho.deny hi
  refine ho.recount hi rfl (by dsimp only; omega) ?_ hdeny (fun q hq => ⟨?_, rfl⟩)
    (fun q hq => ?_) ho.file
  · rw [ho.count hi, count_cons_self]
    push_cast
    omega
  · rw [count_cons_of_ne (Ne.symm hq)]
  · exact ho.held q (mem_cons_of_mem _ hq)

section

variable (ho : OpenTable openInodes inodes files brk held)
include ho

lemma mark (hi : inodes p = some i)
    (hsector : i'.sector = i.sector) (hcount : i'.openCnt = i.openCnt)
    (hdeny : i'.denyWriteCnt = i.denyWriteCnt) :
    OpenTable openInodes (update inodes p (some i')) files brk held :=
  ho.recount hi hsector (hcount ▸ ho.positive hi) (hcount.trans (ho.count hi))
    (hdeny.trans (ho.deny hi)) (fun _ _ => ⟨rfl, rfl⟩) ho.held ho.file

lemma openNew {sector : ℕ} {d : InodeDisk}
    (hnew : ∀ {p i}, inodes p = some i → i.sector ≠ sector) :
    OpenTable (brk :: openInodes) (update inodes brk (some ⟨sector, 1, false, 0, d⟩))
      files (brk + 1) (brk :: held) := by
  have hnone := ho.inodes_brk
  have hopeners : openers files brk brk = 0 := by
    refine tally_eq_zero.2 fun f _ x hx => ?_
    have hin := (ho.file hx).2
    rw [beq_eq_false_iff_ne]
    rintro rfl
    rw [hnone] at hin
    cases hin
  have hdeniers : deniers files brk brk = 0 :=
    Nat.le_zero.1 (hopeners ▸ deniers_le_openers files brk brk)
  have hnotHeld : brk ∉ held := by
    intro hmem
    have hin := ho.held brk hmem
    rw [hnone] at hin
    cases hin
  have hgrow : ∀ q, openers files (brk + 1) q = openers files brk q ∧
      deniers files (brk + 1) q = deniers files brk q := by
    intro q
    unfold openers deniers
    rw [tally_succ, tally_succ, ho.files_brk]
    exact ⟨rfl, rfl⟩
  have hkept : ∀ {q}, (inodes q).isSome →
      (update inodes brk (some ⟨sector, 1, false, 0, d⟩) q).isSome := by
    intro q _
    by_cases hqb : q = brk
    · rw [hqb, update_self]
      rfl
    · rwa [update_of_ne hqb]
  constructor
  · intro q
    rw [mem_cons, ho.mem]
    by_cases hq : q = brk
    · rw [hq, update_self]
      simp
    · rw [update_of_ne hq]
      simp [hq]
  · refine nodup_cons.2 ⟨fun hmem => ?_, ho.nodup⟩
    rw [ho.mem, hnone] at hmem
    cases hmem
  · intro q r j k hj hk hjk
    rcases update_some_cases hj with ⟨rfl, rfl⟩ | ⟨_, hj'⟩
    · rcases update_some_cases hk with ⟨rfl, rfl⟩ | ⟨_, hk'⟩
      · rfl
      · exact absurd hjk.symm (hnew hk')
    · rcases update_some_cases hk with ⟨rfl, rfl⟩ | ⟨_, hk'⟩
      · exact absurd hjk (hnew hj')
      · exact ho.sector_inj hj' hk' hjk
  · exact forall_update ho.positive one_pos
  · intro q j hj
    rw [(hgrow q).1]
    rcases update_some_cases hj with ⟨rfl, rfl⟩ | ⟨hq, hj⟩
    · rw [hopeners, count_cons_self, count_eq_zero.2 hnotHeld]
      rfl
    · rw [ho.count hj, count_cons_of_ne (Ne.symm hq)]
  · intro q j hj
    rw [(hgrow q).2]
    rcases update_some_cases hj with ⟨rfl, rfl⟩ | ⟨_, hj⟩
    · rw [hdeniers]
      rfl
    · exact ho.deny hj
  · intro q hq
    rcases mem_cons.1 hq with rfl | hq
    · rw [update_self]
      rfl
    · exact hkept (ho.held q hq)
  · intro f x hx
    obtain ⟨_, hin⟩ := ho.file hx
    exact ⟨by omega, hkept hin⟩
  · intro q j hj
    rcases update_some_cases hj with ⟨rfl, rfl⟩ | ⟨_, hj⟩
    · omega
    · have hlt := ho.fresh hj
      omega

lemma deny_pos (hx : files f = some x)
    (hi : inodes x.inode = some i) (hdeny : x.denyWrite = true) : 0 < i.denyWriteCnt := by
  rw [ho.deny hi]
  refine Int.natCast_pos.2 (Nat.pos_of_ne_zero fun hzero => ?_)
  have hfalse := tally_eq_zero.1 hzero f (ho.file hx).1 x hx
  simp [hdeny] at hfalse

end

section

variable (ho : OpenTable openInodes inodes files brk (p :: held))
include ho

lemma last (hi : inodes p = some i)
    (hlast : i.openCnt - 1 = 0) : openers files brk p = 0 ∧ p ∉ held := by
  have hcount := ho.count hi
  rw [count_cons_self] at hcount
  push_cast at hcount
  exact ⟨by omega, count_eq_zero.1 (by omega)⟩

lemma dropLast (hi : inodes p = some i) (hlast : i.openCnt - 1 = 0) :
    OpenTable (openInodes.erase p) (update inodes p none) files brk held := by
  obtain ⟨hnoFile, hnotHeld⟩ := ho.last hi hlast
  constructor
  · intro q
    rw [ho.nodup.mem_erase_iff, ho.mem]
    by_cases hq : q = p
    · rw [hq, update_self]
      simp
    · rw [update_of_ne hq]
      simp [hq]
  · exact ho.nodup.erase p
  · intro q r j k hj hk hjk
    exact ho.sector_inj (update_none_cases hj).2 (update_none_cases hk).2 hjk
  · intro q j hj
    exact ho.positive (update_none_cases hj).2
  · intro q j hj
    rw [ho.count (update_none_cases hj).2, count_cons_of_ne (Ne.symm (update_none_cases hj).1)]
  · intro q j hj
    exact ho.deny (update_none_cases hj).2
  · intro q hq
    have hne : q ≠ p := by
      rintro rfl
      exact hnotHeld hq
    rw [update_of_ne hne]
    exact ho.held q (mem_cons_of_mem _ hq)
  · intro f x hx
    obtain ⟨hf, hin⟩ := ho.file hx
    have hne : x.inode ≠ p := by
      rw [← beq_eq_false_iff_ne]
      exact tally_eq_zero.1 hnoFile f hf x hx
    rw [update_of_ne hne]
    exact ⟨hf, hin⟩
  · intro q j hj
    exact ho.fresh (update_none_cases hj).2

lemma fileNew : OpenTable openInodes inodes (update files brk (some ⟨p, 0, false⟩)) (brk + 1)
      held := by
  refine { ho with count := ?_, deny := ?_, held := ?_, file := ?_, fresh := ?_ }
  · intro q j hj
    rw [ho.count hj]
    unfold openers
    rw [tally_push, weight_some]
    by_cases hq : p = q
    · rw [if_pos (by simpa using hq), hq, count_cons_self]
      push_cast
      omega
    · rw [if_neg (by simpa using hq), count_cons_of_ne hq]
      rfl
  · intro q j hj
    rw [deniers, tally_push, ho.deny hj, weight_some, if_neg (by simp)]
    rfl
  · intro q hq
    exact ho.held q (mem_cons_of_mem _ hq)
  · intro f x hx
    rcases update_some_cases hx with ⟨rfl, rfl⟩ | ⟨_, hx⟩
    · exact ⟨by omega, ho.held p mem_cons_self⟩
    · obtain ⟨_, hrest⟩ := ho.file hx
      exact ⟨by omega, hrest⟩
  · intro q j hj
    have hlt := ho.fresh hj
    omega

end

section

variable (ho : OpenTable openInodes inodes files brk held)
include ho

lemma fileDrop (hx : files f = some x) (hdeny : x.denyWrite = false) :
    OpenTable openInodes inodes (update files f none) brk (x.inode :: held) := by
  obtain ⟨hf, hin⟩ := ho.file hx
  refine { ho with count := ?_, deny := ?_, held := ?_, file := ?_ }
  · intro q j hj
    have hbalance := tally_update (P := fun y : File => y.inode == q) (m := files) hf none
    rw [hx, weight_some, weight_none] at hbalance
    rw [ho.count hj]
    unfold openers
    by_cases hq : x.inode = q
    · rw [if_pos (by simpa using hq)] at hbalance
      rw [hq, count_cons_self]
      push_cast
      omega
    · rw [if_neg (by simpa using hq)] at hbalance
      rw [count_cons_of_ne hq]
      omega
  · intro q j hj
    have hbalance := tally_update (P := fun y : File => y.inode == q && y.denyWrite) (m := files) hf
      none
    rw [hx, weight_some, weight_none, hdeny, Bool.and_false, if_neg (by decide)] at hbalance
    rw [ho.deny hj]
    unfold deniers
    omega
  · intro q hq
    rcases mem_cons.1 hq with rfl | hq
    · exact hin
    · exact ho.held q hq
  · intro g y hy
    exact ho.file (update_none_cases hy).2

lemma openers_update (hx : files f = some x) {y : File} (hy : y.inode = x.inode) (q : ℕ) :
    openers (update files f (some y)) brk q = openers files brk q := by
  have hbalance := tally_update (P := fun z : File => z.inode == q) (m := files) (ho.file hx).1
    (some y)
  rw [hx, weight_some, weight_some, hy] at hbalance
  unfold openers
  omega

lemma setPos (hx : files f = some x) (pos : ℤ) :
    OpenTable openInodes inodes (update files f (some { x with pos := pos })) brk held := by
  obtain ⟨hf, hin⟩ := ho.file hx
  refine { ho with count := ?_, deny := ?_, file := ?_ }
  · intro q j hj
    rw [ho.openers_update (y := { x with pos := pos }) hx rfl, ho.count hj]
  · intro q j hj
    have hbalance := tally_update (P := fun z : File => z.inode == q && z.denyWrite) (m := files)
      hf (some { x with pos := pos })
    simp only [hx, weight_some] at hbalance
    rw [ho.deny hj]
    unfold deniers
    omega
  · exact forall_update ho.file ⟨hf, hin⟩

/-- **A file starts or stops to deny writes**, and its inode counts it. -/
theorem setDeny (hx : files f = some x) (hi : inodes x.inode = some i) (deny : Bool) (cnt : ℤ)
    (hcnt : cnt + (if x.denyWrite then 1 else 0) = i.denyWriteCnt + if deny then 1 else 0) :
    OpenTable openInodes (update inodes x.inode (some { i with denyWriteCnt := cnt }))
      (update files f (some { x with denyWrite := deny })) brk held := by
  have hbalance := fun q => tally_update (P := fun z : File => z.inode == q && z.denyWrite)
    (m := files) (ho.file hx).1 (some { x with denyWrite := deny })
  simp only [hx, weight_some] at hbalance
  have hopeners := ho.openers_update (y := { x with denyWrite := deny }) hx rfl
  have hpositive := ho.positive hi
  obtain ⟨hf, hin⟩ := ho.file hx
  refine ho.recount hi rfl hpositive ?_ ?_ (fun q hq => ⟨?_, ?_⟩) ho.held fun {g y} hy => ?_
  · rw [hopeners, ← ho.count hi]
  · have hown := hbalance x.inode
    have hdeny := ho.deny hi
    simp only [beq_self_eq_true, Bool.true_and] at hown
    dsimp only
    unfold deniers at hdeny ⊢
    split_ifs at hcnt hown <;> omega
  · rw [hopeners]
  · have hne : (x.inode == q) = false := by
      rw [beq_eq_false_iff_ne]
      exact Ne.symm hq
    have hown := hbalance q
    simp only [hne, Bool.false_and, Bool.false_eq_true, if_false, Nat.add_zero] at hown
    exact hown
  · rcases update_some_cases hy with ⟨rfl, rfl⟩ | ⟨_, hy⟩
    · exact ⟨hf, hin⟩
    · exact ho.file hy

end

end OpenTable

/-! ### What the operations compute -/

namespace FileSys

def tick (s : FileSys) : FileSys := { s with mallocs := fun n => s.mallocs (n + 1) }

def setInode (s : FileSys) (p : ℕ) (i : Inode) : FileSys :=
  { s with inodes := update s.inodes p (some i) }

def addInode (s : FileSys) (i : Inode) : FileSys :=
  { s with
    openInodes := s.brk :: s.openInodes
    inodes := update s.inodes s.brk (some i)
    brk := s.brk + 1 }

def delInode (s : FileSys) (p : ℕ) : FileSys :=
  { s with
    openInodes := s.openInodes.erase p
    inodes := update s.inodes p none }

def addFile (s : FileSys) (x : File) : FileSys :=
  { s with files := update s.files s.brk (some x), brk := s.brk + 1 }

def setFile (s : FileSys) (f : ℕ) (x : File) : FileSys :=
  { s with files := update s.files f (some x) }

def delFile (s : FileSys) (f : ℕ) : FileSys :=
  { s with files := update s.files f none }

def Table (s : FileSys) (held : List ℕ) : Prop :=
  OpenTable s.openInodes s.inodes s.files s.brk held

end FileSys

section Operations

variable {s : FileSys} {held : List ℕ} {sector p : ℕ} {i : Inode}

lemma deref_some {α : Type} {heap : ℕ → Option α} {a : α} (h : heap p = some a) :
    deref heap p = .ok a := by
  rw [deref, h]

lemma inodeOpen_found (ht : s.Table held) (hi : s.inodes p = some i) (hs : i.sector = sector) :
    inodeOpen sector s = .ok (some p, s.setInode p { i with openCnt := i.openCnt + 1 }) := by
  have hmem : p ∈ s.openInodes := (ht.mem p).2 (by rw [hi]; rfl)
  have hfind : s.openInodes.find? (fun q => (s.inodes q).any fun j => j.sector == sector) =
      some p := by
    cases hq : s.openInodes.find? (fun q => (s.inodes q).any fun j => j.sector == sector) with
    | none =>
      have hnot := find?_eq_none.1 hq p hmem
      rw [hi] at hnot
      simp [hs] at hnot
    | some =>
      have hq' := find?_some hq
      obtain ⟨j, hj, hjs⟩ := Option.any_eq_true .. |>.1 hq'
      rw [ht.sector_inj hj hi (by rw [hs]; exact eq_of_beq hjs)]
  unfold inodeOpen
  rw [hfind]
  dsimp only
  rw [deref_some hi]
  rfl

lemma inodeOpen_new (hnew : ∀ {p i}, s.inodes p = some i → i.sector ≠ sector) :
    inodeOpen sector s = if s.mallocs 0 then do
        let data ← blockGet s.fsDevice sector
        return (some s.brk, s.tick.addInode ⟨sector, 1, false, 0, InodeDisk.decode data⟩)
      else .ok (none, s.tick) := by
  have hfind : s.openInodes.find? (fun q => (s.inodes q).any fun j => j.sector == sector) =
      none := by
    refine find?_eq_none.2 fun q _ hq => ?_
    obtain ⟨j, hj, hjs⟩ := Option.any_eq_true .. |>.1 hq
    exact hnew hj (eq_of_beq hjs)
  unfold inodeOpen
  rw [hfind]
  rfl

lemma sector_open_or (s : FileSys) (sector : ℕ) :
    (∃ p i, s.inodes p = some i ∧ i.sector = sector) ∨
      ∀ {p i}, s.inodes p = some i → i.sector ≠ sector := by
  by_cases h : ∃ p i, s.inodes p = some i ∧ i.sector = sector
  · exact .inl h
  · exact .inr fun {p i} hi hs => h ⟨p, i, hi, hs⟩

section

variable (hi : s.inodes p = some i)
include hi

lemma inodeReopen_eq :
    inodeReopen (some p) s = .ok (some p, s.setInode p { i with openCnt := i.openCnt + 1 }) := by
  rw [inodeReopen, deref_some hi]
  rfl

lemma inodeDrop_last (hlast : i.openCnt - 1 = 0) :
    inodeDrop p s = .ok (some { i with openCnt := i.openCnt - 1 }, s.delInode p) := by
  rw [inodeDrop, deref_some hi, ok_bind]
  exact if_pos hlast

lemma inodeDrop_more (hmore : i.openCnt - 1 ≠ 0) :
    inodeDrop p s = .ok (none, s.setInode p { i with openCnt := i.openCnt - 1 }) := by
  rw [inodeDrop, deref_some hi, ok_bind]
  exact if_neg hmore

lemma inodeDenyWrite_eq (hle : i.denyWriteCnt + 1 ≤ i.openCnt) : inodeDenyWrite p s =
      .ok ((), s.setInode p { i with denyWriteCnt := i.denyWriteCnt + 1 }) := by
  rw [inodeDenyWrite, deref_some hi, ok_bind]
  dsimp only
  rw [ASSERT_of hle]
  rfl

lemma inodeAllowWrite_eq (hpos : 0 < i.denyWriteCnt) (hle : i.denyWriteCnt ≤ i.openCnt) :
    inodeAllowWrite p s = .ok ((), s.setInode p { i with denyWriteCnt := i.denyWriteCnt - 1 }) := by
  rw [inodeAllowWrite, deref_some hi, ok_bind, ASSERT_of hpos, ok_bind, ASSERT_of hle]
  rfl

end

lemma fileCalloc_some (hok : s.mallocs 0 = true) :
    fileCalloc (some p) s = .ok (some s.brk, s.tick.addFile ⟨p, 0, false⟩) := by
  unfold fileCalloc FileSys.malloc
  rw [hok]
  rfl

lemma fileCalloc_none {inode : Option ℕ} (h : inode = none ∨ s.mallocs 0 = false) :
    fileCalloc inode s = .ok (none, s.tick) := by
  unfold fileCalloc FileSys.malloc
  rcases h with rfl | h
  · rfl
  · cases inode with
    | none => rfl
    | some =>
      rw [h]
      rfl

end Operations

end Pintos.Filesys
