/-
# No assertion fails in the file system

A pool of processes makes system calls on files, from a consistent file system with nothing open.

`SYS_CREATE` and `SYS_SEEK` pass the number of the user on as an `off_t` without a look at it: from
`2 ^ 31` on it is negative, and `inode_create` and `file_seek` assert that it is not.
-/

import Pintos.Filesys.FailedCreate
import Pintos.Userprog.FileRuns

namespace Pintos.Userprog.FileCalls

open Base Filesys FileSys Kernel Prog

abbrev Processes := Base.Pool ℕ FileKernel FileCall FileResult

/-- A kernel in which the file system is consistent and no process has a file open. -/
structure Booted (k : FileKernel) : Prop where
  inv : ∃ owned, Inv k.fs.places k.fs owned []
  unlocked : k.fileLock = none
  nextFd : ∀ i, k.nextFd i = 2
  fdTable : ∀ i fd, k.fdTable i fd = none

def Processes.start (k : FileKernel) : Processes := ⟨k, fun _ => none, []⟩

def bootKernel (fs : FileSys) : FileKernel :=
    ⟨fs, none, fun _ => 2, fun _ _ => none, fun _ => 0, []⟩

variable {k : FileKernel}

lemma Booted.files (hk : Booted k) : ∃ owned, Files k.fs.places owned k := by
  obtain ⟨owned, hinv⟩ := hk.inv
  refine ⟨owned, hinv, fun i => ?_, fun {i fd f} ht => ?_, fun {i fd _ _ _} ht => ?_⟩
  · rw [hk.nextFd]
    decide
  · rw [hk.fdTable] at ht
    cases ht
  · rw [hk.fdTable] at ht
    cases ht

lemma bootKernel_booted {fs : FileSys} (hfs : fs.Fresh) : Booted (bootKernel fs) := by
  refine ⟨⟨systemOnly fs.freeMap, ?_⟩, rfl, fun _ => rfl, fun _ _ => rfl⟩
  have hinv := hfs.inv
  rwa [← hinv.places_eq] at hinv

/-- **Calls that start alone run alone**, with the invariants. -/
theorem processes_solo {processes : Processes} (hk : Booted k)
    (hrun : Reaches (Base.Pool.Step fun i c => c.code i)
      (Base.Pool.Alone fun k i c => FileCall.Ok k i c) (Processes.start k) processes) :
    processes.Solo (fun _ k' => ∃ owned, Files k.fs.places owned k' ∧ k'.fileLock = none)
      fun _ _ => Steps False k.fs.places := by
  obtain ⟨owned, hf⟩ := hk.files
  refine Base.Pool.alone_run ?_ (.idle (fun _ => rfl) ⟨owned, hf, hk.unlocked⟩) hrun
  rintro _ k' i c ⟨_, hf', hlock⟩ hok
  refine (code_sound hf' hlock hok nofun).imp fun r k'' hret => ?_
  obtain ⟨owned'', hf''⟩ := hret.files
  exact ⟨owned'', hf'', hret.unlocked⟩

/-- **No assertion fails and nothing panics**, in any state that processes reach by allowed calls
that start alone. -/
theorem calls_never_panic {k : FileKernel} {processes : Processes} (hk : Booted k)
    (hrun : Reaches (Base.Pool.Step fun i c => c.code i)
      (Base.Pool.Alone fun k i c => FileCall.Ok k i c) (Processes.start k) processes) :
    ¬ processes.Panics ∧ ((∀ i, processes.running i = none) → ∀ i (c : FileCall),
      c.Ok processes.state i → ∃ r k', (c.code i).run processes.state = .ok (r, k')) := by
  have hsolo := processes_solo hk hrun
  refine ⟨hsolo.not_panics, fun hidle i c hok => ?_⟩
  cases hsolo with
  | idle _ hI =>
    obtain ⟨_, hf, hlock⟩ := hI
    obtain ⟨r, k', hret, _⟩ := (code_sound (L := False) hf hlock hok nofun).run_eq
    exact ⟨r, k', hret⟩
  | call j _ _ _ hj =>
    rw [hidle j] at hj
    cases hj

theorem calls_never_panic_create : ∃ s₀ processes,
    filesysInit true blankDevice (fun _ => true) (fun _ => 0) (fun _ => 0) = .ok s₀ ∧
    Reaches (Base.Pool.Step fun i c => c.code i) (Base.Pool.Alone fun k i c => FileCall.Ok k i c)
      (Processes.start (bootKernel s₀)) processes ∧
    processes.running 0 = some (.create nameA 512, (FileCall.create nameA 512).code 0) ∧
    ¬ processes.Panics ∧ ∃ r k', ((FileCall.create nameA 512).code 0).run (bootKernel s₀) =
      .ok (r, k') := by
  obtain ⟨s₀, hinit, hfresh, _⟩ := blankDevice_fresh (fun _ => 0) (fun _ => 0)
  have hboot := bootKernel_booted hfresh
  have hok : (FileCall.create nameA 512).Ok (bootKernel s₀) 0 := by
    change (512#32).toNat < 2 ^ 31
    decide
  have hrun : Reaches (Base.Pool.Step fun i c => FileCall.code i c)
      (Base.Pool.Alone fun k i c => FileCall.Ok k i c) (Processes.start (bootKernel s₀))
      ⟨bootKernel s₀, Function.update (fun _ => none) 0
        (some (.create nameA 512, (FileCall.create nameA 512).code 0)), []⟩ :=
    .step .refl (.start rfl) ⟨fun _ => rfl, hok⟩
  refine ⟨s₀, _, hinit, hrun, rfl, (calls_never_panic hboot hrun).1, ?_⟩
  exact (calls_never_panic hboot .refl).2 (fun _ => rfl) 0 _ hok

/-- **A user process panics the kernel** by creating a file of `2 ^ 31` bytes. -/
theorem create_negative_panics : ∃ s₀,
    filesysInit true blankDevice (fun _ => true) (fun _ => 0) (fun _ => 0) = .ok s₀ ∧
    Booted (bootKernel s₀) ∧ ((FileCall.create nameA 0x80000000#32).code 0).run (bootKernel s₀) =
      PANIC "assertion failed." := by
  obtain ⟨s₀, hinit, hfresh, _⟩ := blankDevice_fresh (fun _ => 0) (fun _ => 0)
  have hrun : (do
      let s₀ ← filesysInit true blankDevice (fun _ => true) (fun _ => 0) (fun _ => 0)
      tryCatch (((FileCall.create nameA 0x80000000#32).code 0).run (bootKernel s₀) >>= fun _ =>
        return "") fun e => return e.message) = Except.ok "assertion failed." := by decide +kernel
  rw [hinit, Kernel.ok_bind] at hrun
  refine ⟨s₀, hinit, bootKernel_booted hfresh, ?_⟩
  cases hcall : ((FileCall.create nameA 0x80000000#32).code 0).run (bootKernel s₀) with
  | ok =>
    rw [hcall] at hrun
    exact absurd (Except.ok.inj hrun) (by decide)
  | error e =>
    rw [hcall] at hrun
    exact congrArg PANIC (Except.ok.inj hrun)

/-- The names after calls that returned one after the other. -/
def namesAfter (had : CString → Prop) (log : List (ℕ × FileCall × FileResult)) : CString → Prop :=
  log.foldl (fun had call => call.2.1.after call.2.2 had) had

/-- What holds between two calls, after those of `log`. -/
structure Accounted (P : Places) (had : CString → Prop) (log : List (ℕ × FileCall × FileResult))
    (k : FileKernel) : Prop where
  files : ∃ owned, Files P owned k
  unlocked : k.fileLock = none
  lucky : k.fs.Lucky
  unique : k.fs.UniqueNames P
  names : k.fs.HasName P = namesAfter had log

lemma steps_unique {P : Places} {k k' : FileKernel}
    (h : Relation.ReflTransGen (Steps True P) k k') (hu : k.fs.UniqueNames P) :
    k'.fs.UniqueNames P := by
  induction h with
  | refl => exact hu
  | tail _ hs ih => exact ih.step (hs trivial)

lemma Accounted.call {P : Places} {had : CString → Prop} {log : List (ℕ × FileCall × FileResult)}
    {i : ℕ} {c : FileCall} (h : Accounted P had log k) (hok : c.Ok k i) :
    (c.code i).Sound (Steps True P) k fun r k' => Accounted P had (log ++ [(i, c, r)]) k' := by
  obtain ⟨_, hf⟩ := h.files
  have hsound := (code_sound hf h.unlocked hok fun _ : True => h.lucky).keeps
    (I := fun k' => k'.fs.UniqueNames P) h.unique fun _ _ hu hs => hu.step (hs trivial)
  refine hsound.imp fun r k' ⟨hret, hu⟩ => ?_
  refine ⟨hret.files, hret.unlocked, hret.lucky h.lucky, hu, funext fun name => propext ?_⟩
  rw [hret.names h.lucky h.unique, h.names, namesAfter, namesAfter, List.foldl_append]
  rfl

/-- **The directory is a set of names** in every state that processes reach by calls that start
alone; between calls the names are those that the results account for. -/
theorem names_follow_calls {processes : Processes} (hk : Booted k) (hl : k.fs.Lucky)
    (hu : k.fs.UniqueNames k.fs.places)
    (hrun : Reaches (Base.Pool.Step fun i c => c.code i)
      (Base.Pool.Alone fun k i c => FileCall.Ok k i c) (Processes.start k) processes) :
    processes.state.fs.UniqueNames k.fs.places ∧ ((∀ i, processes.running i = none) →
      processes.state.fs.HasName k.fs.places =
        namesAfter (k.fs.HasName k.fs.places) processes.log) := by
  obtain ⟨owned, hf⟩ := hk.files
  have hstart : Accounted k.fs.places (k.fs.HasName k.fs.places) [] k :=
    ⟨⟨owned, hf⟩, hk.unlocked, hl, hu, rfl⟩
  have hsolo : processes.Solo (Accounted k.fs.places (k.fs.HasName k.fs.places))
      fun _ _ => Steps True k.fs.places :=
    Base.Pool.alone_run (fun _ _ _ _ h hok => h.call hok) (.idle (fun _ => rfl) hstart) hrun
  cases hsolo with
  | idle _ hI => exact ⟨hI.unique, fun _ => hI.names⟩
  | call j _ _ _ hj _ hI hreach =>
    refine ⟨steps_unique hreach hI.unique, fun hidle => ?_⟩
    rw [hidle j] at hj
    cases hj

theorem names_follow_calls_create : ∃ s₀ processes r,
    filesysInit true blankDevice (fun _ => true) (fun _ => 0) (fun _ => 0) = .ok s₀ ∧
    Reaches (Base.Pool.Step fun i c => c.code i) (Base.Pool.Alone fun k i c => FileCall.Ok k i c)
      (Processes.start (bootKernel s₀)) processes ∧
    processes.log = [(0, .create nameA 512, r)] ∧ processes.state.fs.UniqueNames s₀.places ∧
    processes.state.fs.HasName s₀.places =
      namesAfter (s₀.HasName s₀.places) [(0, .create nameA 512, r)] := by
  obtain ⟨s₀, hinit, hfresh, _⟩ := blankDevice_fresh (fun _ => 0) (fun _ => 0)
  have hk := bootKernel_booted hfresh
  have hu : s₀.UniqueNames s₀.places := by
    intro l hl _ _ _ hname
    rw [Names, hfresh.inv.places_eq, hfresh.empty l hl] at hname
    cases hname.1
  have hok : FileCall.Ok (bootKernel s₀) 0 (.create nameA 512) :=
    show (512#32).toNat < 2 ^ 31 by decide
  obtain ⟨owned, hf⟩ := hk.files
  obtain ⟨r, k', hcall, _⟩ :=
    (code_sound hf hk.unlocked hok fun _ : True => hfresh.lucky).run_eq
  have hstart : (Processes.start (bootKernel s₀)).Step (fun i c => c.code i)
      (.start 0 (.create nameA 512)) _ := .start rfl
  have hrun := (Reaches.step .refl hstart ⟨fun _ => rfl, hok⟩ : Reaches _ (Base.Pool.Alone
    fun k i c => FileCall.Ok k i c) _ _).trans
      (Base.Pool.reaches_of_run (fun _ => trivial) (Function.update_self ..) hcall)
  have hend := Reaches.step hrun (.finish (Function.update_self ..)) trivial
  obtain ⟨hunique, hnames⟩ := names_follow_calls hk hfresh.lucky hu hend
  refine ⟨s₀, _, r, hinit, hend, rfl, hunique, hnames fun i => ?_⟩
  by_cases hi : i = 0 <;> simp [hi, Processes.start]

end Pintos.Userprog.FileCalls
